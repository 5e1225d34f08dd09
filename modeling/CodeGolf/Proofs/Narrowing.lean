import CodeGolf.Proofs.Instructions
import CodeGolf.Proofs.Restart

/-!
# Narrower allow-lists

Where the instructions of a code begin does not depend on the allow-list. So a scan under two
allow-lists at once, which is a scan under their intersection, goes along with the scans under each
of them until the first of these stops, and stops there too. At one offset there may be a denial
under one allow-list and a shortage under the other; then the denial is reported, as a scan looks at
the opcode before it looks at the operand (`Verdict.Precedes`). This is `scan_inter`, an induction
over codes with one case for each thing that a code can start with (`code_induction`).

A narrower allow-list is its own intersection with the wider one. Under it a scan stops no later,
and a fault stays a fault; on a board with the standard validator a solution that was rejected stays
rejected (`scan_inter_finds_first_fault`).
-/

namespace CodeGolf

variable {allowed A B : OpcodeSet} {code : Bytes}

/-! ## Codes from the front -/

/-- A code is empty, or an opcode with too few bytes behind it, or an instruction in front of a
code. -/
@[elab_as_elim]
theorem code_induction {motive : Bytes → Prop} (nil : motive [])
    (short : ∀ opcode rest, rest.length < pushWidth opcode → motive (opcode :: rest))
    (step : ∀ i code, motive code → motive (Instruction.bytes i ++ code)) (code : Bytes) :
    motive code := by
  induction hlength : code.length using Nat.strongRecOn generalizing code with
  | ind n ih =>
    cases code with
    | nil => exact nil
    | cons opcode rest =>
      by_cases hshort : rest.length < pushWidth opcode
      · exact short opcode rest hshort
      · have hcomplete : (rest.take (pushWidth opcode)).length = pushWidth opcode := by
          rw [List.length_take]
          omega
        have hrest := ih (rest.drop (pushWidth opcode)).length
          (by rw [← hlength, List.length_drop, List.length_cons]; omega) _ rfl
        have hstep := step ⟨opcode, rest.take (pushWidth opcode), hcomplete⟩ _ hrest
        rwa [Instruction.bytes, List.cons_append, List.take_append_drop] at hstep

/-- A scan stops at an instruction that is not allowed. -/
theorem scan_bytes_append_of_notMem {i : Instruction} (hi : i.opcode ∉ allowed) (rest : Bytes) :
    scan allowed (i.bytes ++ rest) = .disallowed 0 i.opcode := by
  rw [Instruction.bytes, List.cons_append, scan_cons, if_pos hi]

/-! ## The first of two verdicts -/

namespace Verdict

/-- Where a verdict on a code stops: at its fault, or at the end of the code. -/
def position (code : Bytes) : Verdict → Nat
  | .valid _ => code.length
  | .disallowed offset _ => offset
  | .truncated offset _ _ => offset

/-- Whether a verdict is that an opcode is not allowed. -/
def isDenial : Verdict → Bool
  | .disallowed _ _ => true
  | _ => false

/-- A verdict on a code comes before another one: it stops earlier, or at the same place, where a
denial comes before a shortage. -/
def Precedes (code : Bytes) (v w : Verdict) : Prop :=
  v.position code < w.position code ∨
    v.position code = w.position code ∧ (w.isDenial = true → v.isDenial = true)

instance (code : Bytes) (v w : Verdict) : Decidable (v.Precedes code w) := by
  unfold Precedes
  infer_instance

@[simp] theorem isDenial_afterInstruction (v : Verdict) (width : Nat) :
    (v.afterInstruction width).isDenial = v.isDenial := by
  cases v <;> rfl

@[simp] theorem isValid_afterInstruction (v : Verdict) (width : Nat) :
    (v.afterInstruction width).isValid = v.isValid := by
  cases v <;> rfl

/-- With an instruction in front, a verdict stops by its width later. -/
theorem position_afterInstruction (v : Verdict) (bytes code : Bytes) :
    (v.afterInstruction bytes.length).position (bytes ++ code) =
      v.position code + bytes.length := by
  cases v with
  | valid n => exact (List.length_append ..).trans (Nat.add_comm ..)
  | disallowed offset opcode => rfl
  | truncated offset opcode missing => rfl

/-- With an instruction in front of both, the same verdict comes first. -/
theorem precedes_afterInstruction {v w : Verdict} {bytes : Bytes} :
    (v.afterInstruction bytes.length).Precedes (bytes ++ code)
      (w.afterInstruction bytes.length) ↔ v.Precedes code w := by
  simp only [Precedes, position_afterInstruction, isDenial_afterInstruction,
    Nat.add_lt_add_iff_right, Nat.add_right_cancel_iff]

/-- A denial at the start of a code comes before every verdict. -/
theorem disallowed_zero_precedes (code : Bytes) (opcode : UInt8) (v : Verdict) :
    (disallowed 0 opcode).Precedes code v := by
  rcases Nat.eq_zero_or_pos (v.position code) with hzero | hpos
  · exact .inr ⟨hzero.symm, fun _ => rfl⟩
  · exact .inl hpos

/-- A verdict on what follows an instruction does not come before a denial of the instruction. -/
theorem not_precedes_disallowed_zero (v : Verdict) (i : Instruction) (code : Bytes)
    (opcode : UInt8) :
    ¬(v.afterInstruction i.bytes.length).Precedes (i.bytes ++ code) (.disallowed 0 opcode) := by
  have hwidth := i.length_bytes
  rw [Precedes, position_afterInstruction]
  simp only [position]
  omega

/-- The position of the verdict that comes first is the lesser one. -/
theorem position_ite_precedes (code : Bytes) (v w : Verdict) :
    (if v.Precedes code w then v else w).position code =
      min (v.position code) (w.position code) := by
  split
  · next h =>
    rcases h with hlt | ⟨heq, -⟩
    · exact (Nat.min_eq_left (Nat.le_of_lt hlt)).symm
    · rw [← heq, Nat.min_self]
  · next h =>
    have hle : w.position code ≤ v.position code := Nat.not_lt.mp fun hlt => h (.inl hlt)
    exact (Nat.min_eq_right hle).symm

end Verdict

/-! ## Scans under two allow-lists -/

@[simp] theorem OpcodeSet.mem_inter {opcode : UInt8} :
    opcode ∈ A.inter B ↔ opcode ∈ A ∧ opcode ∈ B := by
  show (A.inter B).contains opcode = true ↔ _
  rw [contains_inter, Bool.and_eq_true]
  rfl

/-- **A scan under two allow-lists** finds what the scans under each find, whichever comes first. -/
theorem scan_inter (A B : OpcodeSet) (code : Bytes) :
    scan (A.inter B) code =
      if (scan A code).Precedes code (scan B code) then scan A code else scan B code := by
  induction code using code_induction with
  | nil => simp only [scan_nil, ite_self]
  | short opcode rest hshort =>
    simp only [scan_cons, hshort, if_true, OpcodeSet.mem_inter]
    by_cases hA : opcode ∈ A
    · by_cases hB : opcode ∈ B
      · simp only [hA, hB, and_self, not_true, if_false, ite_self]
      · simp only [hA, hB, and_false, not_true, not_false_iff, if_true, if_false]
        rw [if_neg]
        rintro (hlt | ⟨-, hdenial⟩)
        · exact Nat.lt_irrefl 0 hlt
        · cases hdenial rfl
    · simp only [hA, false_and, not_false_iff, if_true]
      rw [if_pos (Verdict.disallowed_zero_precedes ..)]
  | step i code ih =>
    by_cases hA : i.opcode ∈ A
    · rw [scan_bytes_append hA]
      by_cases hB : i.opcode ∈ B
      · rw [scan_bytes_append hB, scan_bytes_append (OpcodeSet.mem_inter.mpr ⟨hA, hB⟩), ih]
        simp only [Verdict.precedes_afterInstruction]
        split <;> rfl
      · have hinter : i.opcode ∉ A.inter B := fun h => hB (OpcodeSet.mem_inter.mp h).2
        have hlater := Verdict.not_precedes_disallowed_zero (scan A code) i code i.opcode
        rw [scan_bytes_append_of_notMem hB, scan_bytes_append_of_notMem hinter, if_neg hlater]
    · have hinter : i.opcode ∉ A.inter B := fun h => hA (OpcodeSet.mem_inter.mp h).1
      rw [scan_bytes_append_of_notMem hA, scan_bytes_append_of_notMem hinter,
        if_pos (Verdict.disallowed_zero_precedes ..)]

/-- A fault is at an opcode of the code, and this opcode and what is behind it decide the fault up
to its kind. -/
theorem exists_of_isValid_eq_false (h : (scan allowed code).isValid = false) :
    ∃ opcode rest, code.drop ((scan allowed code).position code) = opcode :: rest ∧
      scan allowed code =
        if (scan allowed code).isDenial then
          .disallowed ((scan allowed code).position code) opcode
        else
          .truncated ((scan allowed code).position code) opcode
            (pushWidth opcode - rest.length) := by
  have hdescribes := Verdict.describes_scan allowed code
  cases hscan : scan allowed code with
  | valid n =>
    rw [hscan] at h
    cases h
  | disallowed offset opcode =>
    obtain ⟨program, rest, -, hcode, hoffset, -⟩ := hscan ▸ hdescribes
    refine ⟨opcode, rest, ?_, rfl⟩
    rw [Verdict.position, hcode, List.drop_left' hoffset]
  | truncated offset opcode missing =>
    obtain ⟨program, rest, -, hcode, hoffset, -, -, rfl⟩ := hscan ▸ hdescribes
    refine ⟨opcode, rest, ?_, rfl⟩
    rw [Verdict.position, hcode, List.drop_left' hoffset]

/-- A scan stops inside the code exactly if it finds a fault. -/
theorem position_scan_lt_iff (allowed : OpcodeSet) (code : Bytes) :
    (scan allowed code).position code < code.length ↔ (scan allowed code).isValid = false := by
  constructor
  · intro hlt
    cases hscan : scan allowed code with
    | valid n =>
      rw [hscan] at hlt
      exact absurd hlt (Nat.lt_irrefl _)
    | disallowed | truncated => rfl
  · intro hfault
    obtain ⟨opcode, rest, hdrop, -⟩ := exists_of_isValid_eq_false hfault
    by_contra hle
    rw [List.drop_eq_nil_of_le (Nat.not_lt.mp hle)] at hdrop
    cases hdrop

/-- Two faults at one place are one fault if both or neither of them are denials. -/
theorem scan_eq_of_position_eq (hA : (scan A code).isValid = false)
    (hposition : (scan A code).position code = (scan B code).position code)
    (hdenial : (scan A code).isDenial = (scan B code).isDenial) : scan A code = scan B code := by
  have hB : (scan B code).isValid = false := by
    rw [← position_scan_lt_iff, ← hposition, position_scan_lt_iff]
    exact hA
  obtain ⟨opcode, rest, hdrop, hscanA⟩ := exists_of_isValid_eq_false hA
  obtain ⟨opcode', rest', hdrop', hscanB⟩ := exists_of_isValid_eq_false hB
  rw [← hposition, hdrop] at hdrop'
  obtain ⟨rfl, rfl⟩ := List.cons.inj hdrop'
  rw [hscanA, hscanB, hposition, hdenial]

/-- Of two verdicts one comes before the other. -/
theorem Verdict.precedes_of_not_precedes {v w : Verdict} (h : ¬v.Precedes code w) :
    w.Precedes code v := by
  obtain ⟨hposition, hkind⟩ := not_or.mp h
  rcases Nat.lt_or_eq_of_le (Nat.not_lt.mp hposition) with hlt | heq
  · exact .inl hlt
  · refine .inr ⟨heq, fun _ => ?_⟩
    by_contra hw
    exact hkind ⟨heq.symm, fun hdenial => absurd hdenial hw⟩

/-- A fault that comes before what is found under another allow-list, and after it too, is what is
found there. -/
theorem scan_eq_of_precedes (hA : (scan A code).isValid = false)
    (hAB : (scan A code).Precedes code (scan B code))
    (hBA : (scan B code).Precedes code (scan A code)) : scan A code = scan B code := by
  rcases hAB with hlt | ⟨hposition, hdenial⟩
  · rcases hBA with hlt' | ⟨heq, -⟩
    · exact absurd hlt (Nat.lt_asymm hlt')
    · exact absurd heq (Nat.ne_of_gt hlt)
  · rcases hBA with hlt' | ⟨-, hdenial'⟩
    · exact absurd hposition (Nat.ne_of_gt hlt')
    · exact scan_eq_of_position_eq hA hposition (Bool.eq_iff_iff.mpr ⟨hdenial', hdenial⟩)

/-- **The fault under two allow-lists** is the fault under one of them that comes before what is
found under the other one. -/
theorem scan_inter_eq_iff_of_fault {verdict : Verdict} (hfault : verdict.isValid = false) :
    scan (A.inter B) code = verdict ↔
      scan A code = verdict ∧ verdict.Precedes code (scan B code) ∨
      scan B code = verdict ∧ verdict.Precedes code (scan A code) := by
  rw [scan_inter]
  by_cases hfirst : (scan A code).Precedes code (scan B code)
  · rw [if_pos hfirst]
    constructor
    · rintro rfl
      exact .inl ⟨rfl, hfirst⟩
    · rintro (⟨rfl, -⟩ | ⟨rfl, hfirst'⟩)
      · rfl
      · exact (scan_eq_of_precedes hfault hfirst' hfirst).symm
  · rw [if_neg hfirst]
    constructor
    · rintro rfl
      exact .inr ⟨rfl, Verdict.precedes_of_not_precedes hfirst⟩
    · rintro (⟨rfl, hfirst'⟩ | ⟨rfl, -⟩)
      · exact absurd hfirst' hfirst
      · rfl

/-- The position under two allow-lists is the lesser one. -/
theorem position_scan_inter (A B : OpcodeSet) (code : Bytes) :
    (scan (A.inter B) code).position code =
      min ((scan A code).position code) ((scan B code).position code) := by
  rw [scan_inter, Verdict.position_ite_precedes]

/-- A code is valid under two allow-lists at once exactly if it is valid under each. -/
theorem isValid_scan_inter (A B : OpcodeSet) (code : Bytes) :
    (scan (A.inter B) code).isValid = ((scan A code).isValid && (scan B code).isValid) := by
  have hfault := position_scan_lt_iff (A.inter B) code
  have hmin : min ((scan A code).position code) ((scan B code).position code) < code.length ↔
      (scan A code).position code < code.length ∨ (scan B code).position code < code.length := by
    omega
  rw [position_scan_inter, hmin, position_scan_lt_iff, position_scan_lt_iff] at hfault
  cases hA : (scan A code).isValid with
  | false => exact hfault.mp (.inl hA)
  | true =>
    rw [hA, or_iff_right Bool.noConfusion] at hfault
    rw [Bool.true_and, ← Bool.not_inj_iff, Bool.eq_iff_iff]
    simpa using hfault.symm

/-- A code that is valid under two allow-lists at once has as many instructions under each. -/
theorem valid_of_scan_inter {n : Nat} (h : scan (A.inter B) code = .valid n) :
    scan A code = .valid n ∧ scan B code = .valid n := by
  obtain ⟨program, hpermits, hcode, hlength⟩ := h ▸ Verdict.describes_scan (A.inter B) code
  have hboth := fun i hi => OpcodeSet.mem_inter.mp (hpermits i hi)
  exact ⟨scan_eq_of_describes ⟨program, fun i hi => (hboth i hi).1, hcode, hlength⟩,
    scan_eq_of_describes ⟨program, fun i hi => (hboth i hi).2, hcode, hlength⟩⟩

/-! ## Narrower allow-lists -/

/-- A narrower allow-list is its intersection with the wider one. -/
theorem OpcodeSet.inter_eq_right (h : ∀ opcode ∈ B, opcode ∈ A) : A.inter B = B := by
  refine ext_contains fun opcode => Bool.eq_iff_iff.mpr ?_
  exact mem_inter.trans ⟨And.right, fun hB => ⟨h opcode hB, hB⟩⟩

/-- Under a narrower allow-list a scan stops no later. -/
theorem position_scan_le_of_narrower (h : ∀ opcode ∈ B, opcode ∈ A) (code : Bytes) :
    (scan B code).position code ≤ (scan A code).position code := by
  have hposition := position_scan_inter A B code
  rw [OpcodeSet.inter_eq_right h] at hposition
  rw [hposition]
  exact Nat.min_le_left ..

/-- What has a fault has one under a narrower allow-list. -/
theorem isValid_scan_of_narrower (h : ∀ opcode ∈ B, opcode ∈ A)
    (hfault : (scan A code).isValid = false) : (scan B code).isValid = false := by
  rw [← OpcodeSet.inter_eq_right h, isValid_scan_inter, hfault, Bool.false_and]

/-- **A solution that was rejected stays rejected** when the allow-list of its course is replaced by
a narrower one, and its fault is found no later. -/
theorem Board.rejects_of_narrower {b : Board} {id : CourseId} {c : RegisteredCourse}
    (hvalidator : b.validator = .pushAware) (hc : b.registry.find? id = some c)
    (h : ∀ opcode ∈ B, opcode ∈ c.record.allowed) (admin : Player) (now time : Time)
    (player : Player) (recipient : Option Player) {verdict : Verdict}
    (hrejected : (b.step time (.submit player id code recipient)).answer =
      .error (.invalidSolution id verdict)) :
    ∃ verdict', ((b.step now (.setAllowed admin id B)).board.step time
        (.submit player id code recipient)).answer = .error (.invalidSolution id verdict') ∧
      verdict'.position code ≤ verdict.position code := by
  have heffect := effect_step b now (.setAllowed admin id B)
  generalize b.step now (.setAllowed admin id B) = reply at heffect
  cases heffect with
  | refused => exact ⟨verdict, hrejected, Nat.le_refl _⟩
  | @allowListReplaced _ _ _ c' _ hc' =>
    cases hc.symm.trans hc'
    obtain ⟨c', hc', hsize, rfl, hfault⟩ := submit_eq_invalidSolution_iff.mp hrejected
    cases hc.symm.trans hc'
    rw [hvalidator] at hfault ⊢
    refine ⟨scan B code, submit_eq_invalidSolution_iff.mpr ?_, position_scan_le_of_narrower h code⟩
    refine ⟨{ c with record := { c.record with allowed := B } }, ?_, hsize, ?_,
      isValid_scan_of_narrower h hfault⟩
    · rw [Registry.find?_insert, if_pos (Registry.id_of_find? hc)]
    · rfl

/-- **Two allow-lists at once, and narrower ones.** For all allow-lists and every code:

* the opcodes of the intersection are those of both;
* under the intersection the scan stops at the lesser one of the two positions;
* a code is valid under the intersection exactly if it is valid under both, and has as many
  instructions under each of them;
* a fault under the intersection is the fault under one of the two that comes before what is found
  under the other, a denial before a shortage at the same offset;
* under a narrower allow-list no scan stops later, and no fault is gone;
* so on a board with the standard validator, when an allow-list is replaced by a narrower one, a
  code that was rejected before is rejected, and its fault is found no later. -/
theorem scan_inter_finds_first_fault (A B : OpcodeSet) (code : Bytes) :
    (∀ opcode, opcode ∈ A.inter B ↔ opcode ∈ A ∧ opcode ∈ B) ∧
    (scan (A.inter B) code).position code =
      min ((scan A code).position code) ((scan B code).position code) ∧
    (scan (A.inter B) code).isValid = ((scan A code).isValid && (scan B code).isValid) ∧
    (∀ n, scan (A.inter B) code = .valid n → scan A code = .valid n ∧ scan B code = .valid n) ∧
    (∀ verdict : Verdict, verdict.isValid = false →
      (scan (A.inter B) code = verdict ↔
        scan A code = verdict ∧ verdict.Precedes code (scan B code) ∨
        scan B code = verdict ∧ verdict.Precedes code (scan A code))) ∧
    ∀ narrower : OpcodeSet, (∀ opcode ∈ narrower, opcode ∈ A) →
      (scan narrower code).position code ≤ (scan A code).position code ∧
      ((scan A code).isValid = false → (scan narrower code).isValid = false) ∧
      ∀ (b : Board) id c, b.validator = .pushAware → b.registry.find? id = some c →
        c.record.allowed = A →
        ∀ admin now time player recipient verdict,
          (b.step time (.submit player id code recipient)).answer =
            .error (.invalidSolution id verdict) →
          ∃ verdict', ((b.step now (.setAllowed admin id narrower)).board.step time
              (.submit player id code recipient)).answer = .error (.invalidSolution id verdict') ∧
            verdict'.position code ≤ verdict.position code := by
  refine ⟨fun _ => OpcodeSet.mem_inter, position_scan_inter A B code, isValid_scan_inter A B code,
    fun _ => valid_of_scan_inter, fun _ => scan_inter_eq_iff_of_fault, fun narrower h => ?_⟩
  refine ⟨position_scan_le_of_narrower h code, isValid_scan_of_narrower h, ?_⟩
  rintro b id c hvalidator hc rfl admin now time player recipient verdict hrejected
  exact Board.rejects_of_narrower hvalidator hc h admin now time player recipient hrejected

/-- A push of two bytes with one behind it, under an allow-list that has all opcodes and one that
lacks the push: at one offset the first finds a shortage and the second a denial, and the denial is
what is found under both. On a board the code is rejected before and after the list is narrowed. -/
theorem scan_inter_finds_first_fault_of_denied_push :
    let code : Bytes := [0x01, 0x61, 0xaa]
    let narrower := OpcodeSet.allExcept [0x61]
    let b := (Board.new {} (.owner Sample.root)).after
      [(0, .addCourse Sample.root Sample.shortest .full)]
    let course : RegisteredCourse := ⟨.fresh ⟨1⟩ "shortest" .full 0, Sample.shortest⟩
    let submission := Action.submit Sample.alice ⟨1⟩ code none
    scan .full code = .truncated 1 0x61 1 ∧ scan narrower code = .disallowed 1 0x61 ∧
    scan (OpcodeSet.full.inter narrower) code = .disallowed 1 0x61 ∧
    (∀ opcode ∈ narrower, opcode ∈ OpcodeSet.full) ∧
    b.validator = .pushAware ∧ b.registry.find? ⟨1⟩ = some course ∧ course.record.allowed = .full ∧
    (b.step 2 submission).answer = .error (.invalidSolution ⟨1⟩ (.truncated 1 0x61 1)) ∧
    ∃ verdict, ((b.step 1 (.setAllowed Sample.root ⟨1⟩ narrower)).board.step 2 submission).answer =
        .error (.invalidSolution ⟨1⟩ verdict) ∧
      verdict.position code ≤ 1 := by
  intro code narrower b course submission
  obtain ⟨-, -, -, -, hfault, hnarrower⟩ := scan_inter_finds_first_fault .full narrower code
  have hfull : scan .full code = .truncated 1 0x61 1 := by decide +kernel
  have hnarrow : scan narrower code = .disallowed 1 0x61 := by decide +kernel
  have hsubset : ∀ opcode ∈ narrower, opcode ∈ OpcodeSet.full :=
    fun opcode _ => OpcodeSet.contains_full opcode
  have hrejected : (b.step 2 submission).answer =
      .error (.invalidSolution ⟨1⟩ (.truncated 1 0x61 1)) :=
    Board.submit_eq_invalidSolution_iff.mpr ⟨course, rfl, rfl, hfull, rfl⟩
  obtain ⟨-, -, hboard⟩ := hnarrower narrower hsubset
  refine ⟨hfull, hnarrow, (hfault (.disallowed 1 0x61) rfl).mpr (.inr ⟨hnarrow, ?_⟩), hsubset, rfl,
    rfl, rfl, hrejected, hboard b ⟨1⟩ course rfl rfl rfl Sample.root 1 2 Sample.alice none _
      hrejected⟩
  rw [hfull]
  exact .inr ⟨rfl, fun _ => rfl⟩

end CodeGolf
