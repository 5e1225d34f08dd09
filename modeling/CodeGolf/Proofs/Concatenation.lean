import CodeGolf.Proofs.Instructions

/-!
# Code in two parts

A code can be scanned part by part. What the scan of the first part says is all that has to be known
of it: a fault other than a shortage is the fault of the whole, after a valid part the second one is
scanned as if it stood alone, and after a shortage the second part first has to give the bytes that
are missing, whatever they are. `scan_append` says this with offsets and counts.

Each case is a matter of programs. The verdict on the first part describes it as a program and what
is behind it; the second part is added to what is behind it, or completes the instruction that was
cut off (`scan_append_of_truncated`).
-/

namespace CodeGolf

/-- How many complete instructions a code starts with, allowed or not. -/
def completeInstructions : Bytes → Nat
  | [] => 0
  | opcode :: rest =>
    if rest.length < pushWidth opcode then 0
    else completeInstructions (rest.drop (pushWidth opcode)) + 1
  termination_by code => code.length
  decreasing_by simp only [List.length_drop, List.length_cons]; omega

/-- The code of a program has the instructions of the program. -/
theorem completeInstructions_assemble (program : List Instruction) :
    completeInstructions (assemble program) = program.length := by
  induction program with
  | nil => rw [assemble_nil, completeInstructions, List.length_nil]
  | cons i program ih =>
    have hlength : ¬(i.operand ++ assemble program).length < pushWidth i.opcode := by
      rw [List.length_append, i.complete]
      omega
    have hdrop : (i.operand ++ assemble program).drop (pushWidth i.opcode) =
        assemble program := by
      rw [← i.complete, List.drop_left]
    rw [assemble_cons, Instruction.bytes, List.cons_append, completeInstructions, if_neg hlength,
      hdrop, ih, List.length_cons]

variable {allowed : OpcodeSet} {a : Bytes} {n offset missing : Nat} {opcode : UInt8}

/-- Behind a valid code the scan goes on as if it had begun there. -/
theorem scan_append_of_valid (ha : scan allowed a = .valid n) (b : Bytes) :
    scan allowed (a ++ b) = (scan allowed b).shifted a.length n := by
  obtain ⟨program, hpermits, rfl, rfl⟩ := ha ▸ Verdict.describes_scan allowed a
  exact scan_assemble_append hpermits b

/-- An opcode that is not allowed is found, whatever follows. -/
theorem scan_append_of_disallowed (ha : scan allowed a = .disallowed offset opcode) (b : Bytes) :
    scan allowed (a ++ b) = .disallowed offset opcode := by
  obtain ⟨program, rest, hpermits, rfl, hoffset, hopcode⟩ :=
    ha ▸ Verdict.describes_scan allowed a
  refine scan_eq_of_describes ⟨program, rest ++ b, hpermits, ?_, hoffset, hopcode⟩
  rw [List.append_assoc, List.cons_append]

/-- A shortage becomes less by what follows, if that is not enough. -/
theorem scan_append_of_short (ha : scan allowed a = .truncated offset opcode missing) {b : Bytes}
    (hb : b.length < missing) :
    scan allowed (a ++ b) = .truncated offset opcode (missing - b.length) := by
  obtain ⟨program, rest, hpermits, rfl, hoffset, hopcode, hlt, rfl⟩ :=
    ha ▸ Verdict.describes_scan allowed a
  refine scan_eq_of_describes ⟨program, rest ++ b, hpermits, ?_, hoffset, hopcode, ?_, ?_⟩
  · rw [List.append_assoc, List.cons_append]
  · rw [List.length_append]
    omega
  · rw [List.length_append]
    omega

/-- **The instruction that was cut off is completed** by as many bytes as are missing, and the scan
goes on behind them. -/
theorem scan_append_of_truncated (ha : scan allowed a = .truncated offset opcode missing)
    {b : Bytes} (hb : missing ≤ b.length) :
    scan allowed (a ++ b) =
      (scan allowed (b.drop missing)).shifted (a.length + missing)
        (completeInstructions (a.take offset) + 1) := by
  obtain ⟨program, rest, hpermits, rfl, rfl, hopcode, hlt, rfl⟩ :=
    ha ▸ Verdict.describes_scan allowed a
  generalize hmissing : pushWidth opcode - rest.length = missing at hb
  have hcomplete : (rest ++ b.take missing).length = pushWidth opcode := by
    rw [List.length_append, List.length_take, Nat.min_eq_left hb]
    omega
  let last : Instruction := ⟨opcode, rest ++ b.take missing, hcomplete⟩
  have hlast : allowed.Permits (program ++ [last]) := by
    refine List.forall_mem_append.mpr ⟨hpermits, fun i hi => ?_⟩
    rw [List.mem_singleton.mp hi]
    exact hopcode
  have hassemble : assemble (program ++ [last]) = assemble program ++ last.bytes := by
    rw [assemble, List.flatMap_append, List.flatMap_singleton]
    rfl
  have hcode : assemble program ++ opcode :: rest ++ b =
      assemble (program ++ [last]) ++ b.drop missing := by
    rw [hassemble]
    simp only [last, Instruction.bytes, List.append_assoc, List.cons_append,
      List.take_append_drop]
  have hlength : (assemble (program ++ [last])).length =
      (assemble program ++ opcode :: rest).length + missing := by
    rw [hassemble, List.length_append, Instruction.length_bytes, List.length_append,
      List.length_cons]
    show _ + (pushWidth opcode + 1) = _
    omega
  have hcount : (program ++ [last]).length = program.length + 1 := by
    rw [List.length_append, List.length_singleton]
  rw [hcode, scan_assemble_append hlast, hlength, List.take_left, completeInstructions_assemble,
    hcount]

/-- **A code is scanned in two parts.** For every allow-list and all byte strings:

* behind a valid first part the second one is scanned as if it stood alone, with offsets behind the
  first part and its instructions counted;
* an opcode of the first part that is not allowed is the fault of the whole;
* a push that is cut off at the end of the first part takes the bytes that it lacks from the second
  part. If there are too few of them, it is the fault of the whole and lacks the others. If there
  are enough, the rest of the second part is scanned, with offsets behind the push, and the count
  grows by the instructions in front of the push and the push itself. What the bytes are that it
  takes makes no difference. -/
theorem scan_append (allowed : OpcodeSet) (a b : Bytes) :
    (∀ n, scan allowed a = .valid n →
      scan allowed (a ++ b) = (scan allowed b).shifted a.length n) ∧
    (∀ offset opcode, scan allowed a = .disallowed offset opcode →
      scan allowed (a ++ b) = .disallowed offset opcode) ∧
    ∀ offset opcode missing, scan allowed a = .truncated offset opcode missing →
      (b.length < missing →
        scan allowed (a ++ b) = .truncated offset opcode (missing - b.length)) ∧
      (missing ≤ b.length →
        scan allowed (a ++ b) =
          (scan allowed (b.drop missing)).shifted (a.length + missing)
            (completeInstructions (a.take offset) + 1)) ∧
      ∀ b' : Bytes, b'.length = b.length → b'.drop missing = b.drop missing →
        scan allowed (a ++ b') = scan allowed (a ++ b) := by
  refine ⟨fun n ha => scan_append_of_valid ha b,
    fun offset opcode ha => scan_append_of_disallowed ha b, fun offset opcode missing ha => ?_⟩
  refine ⟨scan_append_of_short ha, scan_append_of_truncated ha, fun b' hlength hdrop => ?_⟩
  by_cases hb : b.length < missing
  · rw [scan_append_of_short ha hb, scan_append_of_short ha (hlength ▸ hb), hlength]
  · have hb : missing ≤ b.length := Nat.not_lt.mp hb
    rw [scan_append_of_truncated ha hb, scan_append_of_truncated ha (hlength ▸ hb), hdrop]

/-- A stop and a push of three bytes with one behind it. The next two bytes are taken by the push,
though each is an opcode that is not allowed, and the same opcode behind them is the fault. A valid
part and a part with a fault of its own stand beside it. -/
theorem scan_append_of_denied_operand :
    let allowed := OpcodeSet.allExcept [0x55]
    scan allowed [0x00, 0x62, 0xaa] = .truncated 1 0x62 2 ∧
    scan allowed ([0x00, 0x62, 0xaa] ++ [0x55]) = .truncated 1 0x62 1 ∧
    scan allowed ([0x00, 0x62, 0xaa] ++ [0x55, 0x55, 0x01]) = .valid 3 ∧
    scan allowed ([0x00, 0x62, 0xaa] ++ [0x55, 0x55, 0x55]) = .disallowed 5 0x55 ∧
    scan allowed ([0x00] ++ [0x01]) = .valid 2 ∧
    scan allowed ([0x55] ++ [0x62]) = .disallowed 0 0x55 := by
  intro allowed
  have hcut : scan allowed [0x00, 0x62, 0xaa] = .truncated 1 0x62 2 := by decide +kernel
  have hstop : scan allowed [0x00] = .valid 1 := by decide +kernel
  have hdenied : scan allowed [0x55] = .disallowed 0 0x55 := by decide +kernel
  have hadd : scan allowed [0x01] = .valid 1 := by decide +kernel
  have hbefore : completeInstructions [0x00] = 1 := by decide +kernel
  have hthree := fun b => (scan_append allowed [0x00, 0x62, 0xaa] b).2.2 _ _ _ hcut
  refine ⟨hcut, (hthree [0x55]).1 (by decide), ?_, ?_, ?_,
    (scan_append allowed [0x55] [0x62]).2.1 _ _ hdenied⟩
  · rw [(hthree [0x55, 0x55, 0x01]).2.1 (by decide)]
    show (scan allowed [0x01]).shifted 5 (completeInstructions [0x00] + 1) = .valid 3
    rw [hadd, hbefore]
    rfl
  · rw [(hthree [0x55, 0x55, 0x55]).2.1 (by decide)]
    show (scan allowed [0x55]).shifted 5 (completeInstructions [0x00] + 1) = .disallowed 5 0x55
    rw [hdenied]
    rfl
  · rw [(scan_append allowed [0x00] [0x01]).1 1 hstop, hadd]
    rfl

end CodeGolf
