import Mathlib.Logic.ExistsUnique
import CodeGolf.Bytecode

/-!
# Code as a sequence of instructions

An instruction is an opcode together with exactly the operand bytes that the opcode calls for, and
a program is a list of instructions, written one after the other (`assemble`). What a verdict says
of a code is said here in terms of programs, without the scan (`Verdict.Describes`): the code is a
program of allowed instructions, or it is such a program followed by an opcode that is not allowed,
or by an allowed one with too few bytes after it.

`scan_eq_iff_describes` says that the scan finds the one verdict that describes the code. Two facts
make it up. Scanning passes over a program of allowed instructions and goes on with what follows
(`scan_assemble_append`), so a verdict that describes the code is the one that is found; and the
recursion of the scan collects such a program (`Verdict.describes_scan`), so the one that is found
describes the code.
-/

namespace CodeGolf

/-! ## The lengths of operands -/

/-- How many bytes stand behind an opcode in an instruction: `0x60` pushes one byte, `0x7f`
thirty-two, and only these pushes and those between them have an operand. -/
def pushWidth (opcode : UInt8) : Nat :=
  if 0x60 ≤ opcode ∧ opcode ≤ 0x7f then opcode.toNat - 0x5f else 0

/-- An operand has at most 32 bytes. -/
theorem pushWidth_le (opcode : UInt8) : pushWidth opcode ≤ 32 := by
  rw [pushWidth]
  split
  · next h =>
    have hle : opcode.toNat ≤ 0x7f := UInt8.le_iff_toNat_le.mp h.2
    omega
  · exact Nat.zero_le _

/-- A loop that writes the entries of an interval leaves the other entries as they are. -/
theorem getElem_foldl_setIfInBounds {α : Type} {size : Nat} (entry : Nat → α) (first count : Nat)
    (table : Vector α size) {i : Nat} (hi : i < size) :
    ((List.range' first count).foldl (fun t k => t.setIfInBounds k (entry k)) table)[i] =
      if first ≤ i ∧ i < first + count then entry i else table[i] := by
  induction count generalizing first table with
  | zero =>
    have hnone : ¬(first ≤ i ∧ i < first + 0) := by omega
    rw [if_neg hnone]
    rfl
  | succ count ih =>
    rw [List.range'_succ, List.foldl_cons, ih, Vector.getElem_setIfInBounds hi]
    by_cases hfirst : first = i
    · subst hfirst
      have hwritten : ¬(first + 1 ≤ first ∧ first < first + 1 + count) := by omega
      have hin : first ≤ first ∧ first < first + (count + 1) := by omega
      rw [if_neg hwritten, if_pos rfl, if_pos hin]
    · have hin : first + 1 ≤ i ∧ i < first + 1 + count ↔ first ≤ i ∧ i < first + (count + 1) := by
        omega
      simp only [hin, if_neg hfirst]

/-- **The table of operand lengths** has the length of each push, and no other opcode has one. -/
theorem operandLength_eq_pushWidth (opcode : UInt8) : operandLength opcode = pushWidth opcode := by
  have hlt : opcode.toNat < 256 := opcode.toNat_lt
  have hentry : operandLengths[opcode.toNat] =
      if push1 ≤ opcode.toNat ∧ opcode.toNat < push1 + (push32 + 1 - push1)
      then UInt8.ofNat (opcode.toNat - push0) else (Vector.replicate 256 0)[opcode.toNat] := by
    unfold operandLengths
    exact getElem_foldl_setIfInBounds (fun k => UInt8.ofNat (k - push0)) push1 _ _ hlt
  have hpush : push1 ≤ opcode.toNat ∧ opcode.toNat < push1 + (push32 + 1 - push1) ↔
      0x60 ≤ opcode ∧ opcode ≤ 0x7f := by
    rw [UInt8.le_iff_toNat_le, UInt8.le_iff_toNat_le, push1, push32]
    simp only [UInt8.reduceToNat]
    omega
  show operandLengths[opcode.toNat].toNat = _
  rw [hentry, pushWidth]
  simp only [hpush]
  split
  · show (UInt8.ofNat (opcode.toNat - 0x5f)).toNat = _
    exact UInt8.toNat_ofNat_of_lt' (by simp only [UInt8.size]; omega)
  · rw [Vector.getElem_replicate]
    rfl

/-! ## Programs -/

/-- An opcode with all the operand bytes that it calls for. -/
structure Instruction where
  opcode : UInt8
  operand : Bytes
  complete : operand.length = pushWidth opcode

/-- The bytes of an instruction. -/
def Instruction.bytes (i : Instruction) : Bytes := i.opcode :: i.operand

/-- An instruction is as long as its opcode and its operand. -/
@[simp] theorem Instruction.length_bytes (i : Instruction) :
    i.bytes.length = pushWidth i.opcode + 1 := by
  rw [bytes, List.length_cons, i.complete]

/-- The code of a program. -/
def assemble (program : List Instruction) : Bytes := program.flatMap Instruction.bytes

/-- The code of no instructions is empty. -/
@[simp] theorem assemble_nil : assemble [] = [] := rfl

/-- The code of a program begins with its first instruction. -/
@[simp] theorem assemble_cons (i : Instruction) (program : List Instruction) :
    assemble (i :: program) = i.bytes ++ assemble program := List.flatMap_cons

/-- An allow-list permits a program if it has the opcodes of all instructions. -/
def OpcodeSet.Permits (allowed : OpcodeSet) (program : List Instruction) : Prop :=
  ∀ i ∈ program, i.opcode ∈ allowed

variable {allowed : OpcodeSet}

/-- Every allow-list permits the empty program. -/
theorem OpcodeSet.permits_nil : allowed.Permits [] := nofun

/-- A program is permitted if its first instruction and its rest are. -/
theorem OpcodeSet.permits_cons {i : Instruction} {program : List Instruction} :
    allowed.Permits (i :: program) ↔ i.opcode ∈ allowed ∧ allowed.Permits program :=
  List.forall_mem_cons

/-! ## What verdicts say -/

namespace Verdict

/-- What a verdict says of a code under an allow-list. -/
def Describes (allowed : OpcodeSet) (code : Bytes) : Verdict → Prop
  | .valid instructions =>
    ∃ program, allowed.Permits program ∧ code = assemble program ∧ program.length = instructions
  | .disallowed offset opcode =>
    ∃ program rest, allowed.Permits program ∧ code = assemble program ++ opcode :: rest ∧
      (assemble program).length = offset ∧ opcode ∉ allowed
  | .truncated offset opcode missing =>
    ∃ program rest, allowed.Permits program ∧ code = assemble program ++ opcode :: rest ∧
      (assemble program).length = offset ∧ opcode ∈ allowed ∧
      rest.length < pushWidth opcode ∧ missing = pushWidth opcode - rest.length

/-- The verdict on a code from the verdict on what follows its first `bytes` bytes, if these are
`instructions` instructions. -/
def shifted (bytes instructions : Nat) : Verdict → Verdict
  | .valid n => .valid (n + instructions)
  | .disallowed offset opcode => .disallowed (offset + bytes) opcode
  | .truncated offset opcode missing => .truncated (offset + bytes) opcode missing

/-- Nothing in front shifts nothing. -/
@[simp] theorem shifted_zero (v : Verdict) : v.shifted 0 0 = v := by
  cases v <;> rfl

/-- One more instruction in front shifts by its width. -/
theorem afterInstruction_shifted (v : Verdict) (bytes instructions width : Nat) :
    (v.shifted bytes instructions).afterInstruction width =
      v.shifted (width + bytes) (instructions + 1) := by
  cases v with
  | valid n => rfl
  | disallowed offset opcode =>
    simp only [shifted, afterInstruction, Verdict.disallowed.injEq, and_true]
    omega
  | truncated offset opcode missing =>
    simp only [shifted, afterInstruction, Verdict.truncated.injEq, and_true]
    omega

/-- What is said of a code is said of the code with an allowed instruction in front, once it is
said of the place behind the instruction. -/
theorem Describes.afterInstruction {code : Bytes} {v : Verdict} (hv : v.Describes allowed code)
    {i : Instruction} (hi : i.opcode ∈ allowed) :
    (v.afterInstruction i.bytes.length).Describes allowed (i.bytes ++ code) := by
  cases v with
  | valid n =>
    obtain ⟨program, hp, rfl, rfl⟩ := hv
    exact ⟨i :: program, OpcodeSet.permits_cons.mpr ⟨hi, hp⟩, rfl, rfl⟩
  | disallowed offset opcode =>
    obtain ⟨program, rest, hp, rfl, rfl, hopcode⟩ := hv
    refine ⟨i :: program, rest, OpcodeSet.permits_cons.mpr ⟨hi, hp⟩, ?_, ?_, hopcode⟩
    · rw [assemble_cons, List.append_assoc]
    · rw [assemble_cons, List.length_append, Nat.add_comm]
  | truncated offset opcode missing =>
    obtain ⟨program, rest, hp, rfl, rfl, hopcode, hlt, rfl⟩ := hv
    refine ⟨i :: program, rest, OpcodeSet.permits_cons.mpr ⟨hi, hp⟩, ?_, ?_, hopcode, hlt, rfl⟩
    · rw [assemble_cons, List.append_assoc]
    · rw [assemble_cons, List.length_append, Nat.add_comm]

end Verdict

/-! ## The scan -/

/-- The empty code is valid. -/
@[simp] theorem scan_nil (allowed : OpcodeSet) : scan allowed [] = .valid 0 := by
  rw [scan]

/-- A scan looks at one opcode and at how many bytes stand behind it. -/
theorem scan_cons (allowed : OpcodeSet) (opcode : UInt8) (rest : Bytes) :
    scan allowed (opcode :: rest) =
      if opcode ∉ allowed then .disallowed 0 opcode
      else if rest.length < pushWidth opcode then
        .truncated 0 opcode (pushWidth opcode - rest.length)
      else
        (scan allowed (rest.drop (pushWidth opcode))).afterInstruction
          (pushWidth opcode + 1) := by
  rw [scan]
  simp only [List.length_take, operandLength_eq_pushWidth]
  split
  · rfl
  · by_cases hlt : rest.length < pushWidth opcode
    · rw [if_pos hlt, Nat.min_eq_right (Nat.le_of_lt hlt), if_pos hlt]
    · rw [if_neg hlt, Nat.min_eq_left (Nat.not_lt.mp hlt), if_neg (Nat.lt_irrefl _)]

/-- A scan passes over an allowed instruction, whatever its operand. -/
theorem scan_bytes_append {i : Instruction} (hi : i.opcode ∈ allowed) (rest : Bytes) :
    scan allowed (i.bytes ++ rest) = (scan allowed rest).afterInstruction i.bytes.length := by
  have hlength : ¬ (i.operand ++ rest).length < pushWidth i.opcode := by
    rw [List.length_append, i.complete]
    omega
  have hdrop : (i.operand ++ rest).drop (pushWidth i.opcode) = rest := by
    rw [← i.complete, List.drop_left]
  rw [Instruction.length_bytes, Instruction.bytes, List.cons_append, scan_cons,
    if_neg (not_not_intro hi), if_neg hlength, hdrop]

/-- **A scan passes over allowed instructions** and goes on with what follows them. -/
theorem scan_assemble_append {program : List Instruction} (hp : allowed.Permits program)
    (rest : Bytes) :
    scan allowed (assemble program ++ rest) =
      (scan allowed rest).shifted (assemble program).length program.length := by
  induction program with
  | nil => exact (Verdict.shifted_zero _).symm
  | cons i program ih =>
    obtain ⟨hi, hp⟩ := OpcodeSet.permits_cons.mp hp
    rw [assemble_cons, List.append_assoc, scan_bytes_append hi, ih hp,
      Verdict.afterInstruction_shifted, List.length_append, List.length_cons]

/-- A verdict that describes a code is the one that is found. -/
theorem scan_eq_of_describes {code : Bytes} {v : Verdict} (hv : v.Describes allowed code) :
    scan allowed code = v := by
  cases v with
  | valid n =>
    obtain ⟨program, hp, rfl, rfl⟩ := hv
    have hscan := scan_assemble_append hp []
    rw [List.append_nil, scan_nil] at hscan
    rw [hscan, Verdict.shifted, Nat.zero_add]
  | disallowed offset opcode =>
    obtain ⟨program, rest, hp, rfl, rfl, hopcode⟩ := hv
    rw [scan_assemble_append hp, scan_cons, if_pos hopcode, Verdict.shifted, Nat.zero_add]
  | truncated offset opcode missing =>
    obtain ⟨program, rest, hp, rfl, rfl, hopcode, hlt, rfl⟩ := hv
    rw [scan_assemble_append hp, scan_cons, if_neg (not_not_intro hopcode), if_pos hlt,
      Verdict.shifted, Nat.zero_add]

/-- The verdict that is found describes the code. -/
theorem Verdict.describes_scan (allowed : OpcodeSet) (code : Bytes) :
    (scan allowed code).Describes allowed code := by
  fun_induction scan allowed code with
  | case1 => exact ⟨[], OpcodeSet.permits_nil, rfl, rfl⟩
  | case2 opcode rest hopcode =>
    exact ⟨[], rest, OpcodeSet.permits_nil, rfl, rfl, hopcode⟩
  | case3 opcode rest operand present hopcode hshort =>
    have hoperand : operand = pushWidth opcode := operandLength_eq_pushWidth opcode
    have hpresent : present = min operand rest.length := List.length_take
    refine ⟨[], rest, OpcodeSet.permits_nil, rfl, rfl, Decidable.not_not.mp hopcode, ?_, ?_⟩
    · omega
    · show operand - present = pushWidth opcode - rest.length
      omega
  | case4 opcode rest operand present hopcode hshort ih =>
    have hoperand : operand = pushWidth opcode := operandLength_eq_pushWidth opcode
    have hpresent : present = min operand rest.length := List.length_take
    have hall : present = operand := by omega
    let i : Instruction := ⟨opcode, rest.take operand, hall.trans hoperand⟩
    have hlength : i.bytes.length = operand + 1 := congrArg (· + 1) hall
    have hcode : i.bytes ++ rest.drop operand = opcode :: rest :=
      congrArg (opcode :: ·) (List.take_append_drop operand rest)
    have hstep := ih.afterInstruction (i := i) (Decidable.not_not.mp hopcode)
    rwa [hlength, hcode] at hstep

/-- **The scan decides the grammar of code, and finds the first violation.** The verdict that is
found is the one that describes the code: the code is a program of as many allowed instructions as
the verdict says; or an opcode that is not allowed stands behind such a program, at the offset of
the verdict; or an allowed opcode does, with fewer bytes behind it than it calls for. Every code
has exactly one such verdict, and an operand never lacks more than 32 bytes. -/
theorem scan_eq_iff_describes (allowed : OpcodeSet) (code : Bytes) :
    (∀ v : Verdict, scan allowed code = v ↔ v.Describes allowed code) ∧
    (∃! v : Verdict, v.Describes allowed code) ∧
    ∀ offset opcode missing, scan allowed code = .truncated offset opcode missing →
      1 ≤ missing ∧ missing ≤ 32 := by
  have hiff : ∀ v : Verdict, scan allowed code = v ↔ v.Describes allowed code := fun v =>
    ⟨fun h => h ▸ Verdict.describes_scan allowed code, scan_eq_of_describes⟩
  refine ⟨hiff, ⟨_, Verdict.describes_scan allowed code, fun v hv => ((hiff v).mpr hv).symm⟩,
    fun offset opcode missing htruncated => ?_⟩
  obtain ⟨program, rest, -, -, -, -, hlt, rfl⟩ := (hiff _).mp htruncated
  have hle := pushWidth_le opcode
  omega

/-- A push of three bytes at the second place, with one byte behind it, lacks two. -/
theorem scan_eq_iff_describes_of_short_push :
    scan .full [0x00, 0x62, 0xaa] = .truncated 1 0x62 2 ∧
    (Verdict.truncated 1 0x62 2).Describes .full [0x00, 0x62, 0xaa] ∧ 1 ≤ 2 ∧ 2 ≤ 32 := by
  obtain ⟨hiff, -, hbounds⟩ := scan_eq_iff_describes .full [0x00, 0x62, 0xaa]
  have hdescribes : (Verdict.truncated 1 0x62 2).Describes .full [0x00, 0x62, 0xaa] :=
    ⟨[⟨0x00, [], rfl⟩], [0xaa], by simp [OpcodeSet.Permits, Membership.mem], rfl, rfl,
      by decide, by decide, by decide⟩
  have hscan := (hiff _).mpr hdescribes
  exact ⟨hscan, hdescribes, hbounds _ _ _ hscan⟩

end CodeGolf
