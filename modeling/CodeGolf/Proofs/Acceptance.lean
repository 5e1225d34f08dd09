import CodeGolf.Proofs.Reveal
import CodeGolf.Proofs.Standings

/-!
# What is accepted, and why not

A solution goes through five stages: its course is looked up, it is measured against the limit of
the settings, the validator reads it under the allow-list of the course, the deployer makes a target
of it, and the course runs the target on the seed of the submission. `Board.Measured`,
`Board.Validated` and `Board.Deployed` say that it has come so far, each building on the one before;
`Board.FirstFault` gives for each stage the reason that it refuses with, for a solution that has
come to it. `Board.judge` is all of this and nothing else (`Board.judge_eq_ok_iff_deployed`,
`Board.judge_eq_error_iff`).

What an accepted submission reports is partly of the board before it and partly of the board after
it: the former holder and the former par on the one hand, the leading cost on the other.
`Submission.Reports` says which, and leaves no field open (`Submission.Reports.eq`).
-/

namespace CodeGolf

/-! ## Stages -/

/-- A verdict is a fault if it is not that the code is valid. -/
theorem Verdict.isValid_eq_false_iff {verdict : Verdict} :
    verdict.isValid = false ↔ ∀ instructions, verdict ≠ .valid instructions := by
  cases verdict <;> simp [isValid]

namespace Board

/-- A solution is for a course of the board and is not too long. -/
structure Measured (b : Board) (id : CourseId) (solution : Bytes) (c : RegisteredCourse) :
    Prop where
  found : b.registry.find? id = some c
  fits : ∀ max, b.config.maxSolutionBytes = some max → solution.length ≤ max.toNat

/-- Moreover, the validator finds no fault in it under the allow-list of the course. -/
structure Validated (b : Board) (id : CourseId) (solution : Bytes) (c : RegisteredCourse) : Prop
    extends Measured b id solution c where
  valid : ∃ instructions, b.validator.verdict c.record.allowed solution = .valid instructions

/-- Moreover, the deployer has made a target of it. -/
structure Deployed (b : Board) (id : CourseId) (solution : Bytes) (c : RegisteredCourse)
    (target : Target) : Prop extends Validated b id solution c where
  deployed : b.deployer.deploy solution = .ok target

/-- The first stage that a solution does not pass, as the reason that it is refused for. -/
inductive FirstFault (b : Board) (submitter : Player) (id : CourseId) (solution : Bytes)
    (now : Time) : BoardError → Prop where
  | lookup (hfind : b.registry.find? id = none) :
      FirstFault b submitter id solution now (.registry (.courseNotFound id))
  | size {c : RegisteredCourse} {max : UInt64} (hfind : b.registry.find? id = some c)
      (hmax : b.config.maxSolutionBytes = some max) (hsize : max.toNat < solution.length) :
      FirstFault b submitter id solution now (.solutionTooLarge solution.length max)
  | code {c : RegisteredCourse} {verdict : Verdict} (h : b.Measured id solution c)
      (hverdict : b.validator.verdict c.record.allowed solution = verdict)
      (hfault : ∀ instructions, verdict ≠ .valid instructions) :
      FirstFault b submitter id solution now (.invalidSolution id verdict)
  | deployment {c : RegisteredCourse} {reason : DeployError} (h : b.Validated id solution c)
      (hdeploy : b.deployer.deploy solution = .error reason) :
      FirstFault b submitter id solution now (.deployment reason)
  | run {c : RegisteredCourse} {target : Target} {reason : CourseError}
      (h : b.Deployed id solution c target)
      (hrun : c.course.run target (runSeed submitter id c.record.solutionCount now) =
        .error reason) :
      FirstFault b submitter id solution now (.course reason)

variable {b : Board} {id : CourseId} {solution : Bytes} {now : Time} {reason : BoardError}

/-- The lookup refuses the ids that no course has. -/
theorem lookup_eq_error_iff :
    b.lookup id = .error reason ↔
      b.registry.find? id = none ∧ .registry (.courseNotFound id) = reason := by
  rw [lookup]
  cases b.registry.find? id <;> simp

/-- A solution is short enough if it is not longer than the limit, where there is one. -/
theorem checkSize_eq_ok_iff {done : Unit} :
    b.checkSize solution = .ok done ↔
      ∀ max, b.config.maxSolutionBytes = some max → solution.length ≤ max.toNat := by
  rw [checkSize]
  cases b.config.maxSolutionBytes with
  | none => simp
  | some max => by_cases h : max.toNat < solution.length <;> simp [h]; omega

/-- A solution is too large if there is a limit and it is longer. -/
theorem checkSize_eq_error_iff :
    b.checkSize solution = .error reason ↔
      ∃ max, b.config.maxSolutionBytes = some max ∧ max.toNat < solution.length ∧
        .solutionTooLarge solution.length max = reason := by
  rw [checkSize]
  cases b.config.maxSolutionBytes with
  | none => simp
  | some max => by_cases h : max.toNat < solution.length <;> simp [h]

/-- The code passes if the validator finds it valid. -/
theorem checkCode_eq_ok_iff {allowed : OpcodeSet} {done : Unit} :
    b.checkCode id allowed solution = .ok done ↔
      ∃ instructions, b.validator.verdict allowed solution = .valid instructions := by
  rw [checkCode]
  cases b.validator.verdict allowed solution <;> simp [Verdict.isValid]

/-- The code is refused with the verdict of the validator, if this is not that it is valid. -/
theorem checkCode_eq_error_iff {allowed : OpcodeSet} :
    b.checkCode id allowed solution = .error reason ↔
      (∀ instructions, b.validator.verdict allowed solution ≠ .valid instructions) ∧
        .invalidSolution id (b.validator.verdict allowed solution) = reason := by
  rw [checkCode]
  cases b.validator.verdict allowed solution <;> simp [Verdict.isValid]

variable {submitter : Player} {cost : Cost}

/-- **A solution has a cost** exactly if it is deployed for its course, and the course runs its
target at this cost on the seed of the submission. -/
theorem judge_eq_ok_iff_deployed :
    b.judge submitter id solution now = .ok cost ↔
      ∃ c target, b.Deployed id solution c target ∧
        c.course.run target (runSeed submitter id c.record.solutionCount now) = .ok cost := by
  rw [judge_eq_ok_iff]
  constructor
  · rintro ⟨c, target, hfind, hsize, hcode, hdeploy, hrun⟩
    exact ⟨c, target,
      ⟨⟨⟨hfind, checkSize_eq_ok_iff.mp hsize⟩, checkCode_eq_ok_iff.mp hcode⟩, hdeploy⟩, hrun⟩
  · rintro ⟨c, target, h, hrun⟩
    exact ⟨c, target, h.found, checkSize_eq_ok_iff.mpr h.fits, checkCode_eq_ok_iff.mpr h.valid,
      h.deployed, hrun⟩

/-- **A solution is refused a cost** for the first stage that it does not pass. -/
theorem judge_eq_error_iff :
    b.judge submitter id solution now = .error reason ↔
      b.FirstFault submitter id solution now reason := by
  simp only [judge, bind_eq_error_iff, mapError_eq_error_iff, mapError_eq_ok_iff,
    lookup_eq_error_iff, lookup_eq_ok_iff, checkSize_eq_error_iff, checkSize_eq_ok_iff,
    checkCode_eq_error_iff, checkCode_eq_ok_iff]
  constructor
  · rintro (⟨hfind, rfl⟩ | ⟨c, hfind, ⟨max, hmax, hsize, rfl⟩ |
      ⟨_, hfits, ⟨hfault, rfl⟩ | ⟨_, hvalid, ⟨fault, hdeploy, rfl⟩ |
        ⟨target, hdeploy, fault, hrun, rfl⟩⟩⟩⟩)
    · exact .lookup hfind
    · exact .size hfind hmax hsize
    · exact .code ⟨hfind, hfits⟩ rfl hfault
    · exact .deployment ⟨⟨hfind, hfits⟩, hvalid⟩ hdeploy
    · exact .run ⟨⟨⟨hfind, hfits⟩, hvalid⟩, hdeploy⟩ hrun
  · rintro (hfind | ⟨hfind, hmax, hsize⟩ | ⟨h, rfl, hfault⟩ | ⟨h, hdeploy⟩ | ⟨h, hrun⟩)
    · exact .inl ⟨hfind, rfl⟩
    · exact .inr ⟨_, hfind, .inl ⟨_, hmax, hsize, rfl⟩⟩
    · exact .inr ⟨_, h.found, .inr ⟨(), h.fits, .inl ⟨hfault, rfl⟩⟩⟩
    · exact .inr ⟨_, h.found, .inr ⟨(), h.fits, .inr ⟨(), h.valid, .inl ⟨_, hdeploy, rfl⟩⟩⟩⟩
    · exact .inr ⟨_, h.found, .inr ⟨(), h.fits, .inr ⟨(), h.valid,
        .inr ⟨_, h.deployed, _, hrun, rfl⟩⟩⟩⟩

end Board

/-! ## Reports -/

/-- What a change of a par says about the par before a submission and the par after it. -/
inductive ParChange.Describes (before after : Option Par) (cost : Cost) : ParChange → Prop where
  | created {p' : Par} (hbefore : before = none) (hafter : after = some p')
      (hcost : p'.bestCost = cost) : Describes before after cost .created
  | improved {p p' : Par} (hbefore : before = some p) (hlt : cost < p.bestCost)
      (hafter : after = some p') (hcost : p'.bestCost = cost) :
      Describes before after cost (.improved p.bestCost)
  | unchanged {p p' : Par} (hbefore : before = some p) (hle : p.bestCost ≤ cost)
      (hafter : after = some p') (hcost : p'.bestCost = p.bestCost) :
      Describes before after cost (.unchanged p.bestCost)

/-- Only one change describes what became of a par. -/
theorem ParChange.Describes.eq {before after : Option Par} {cost : Cost} {x y : ParChange}
    (hx : x.Describes before after cost) (hy : y.Describes before after cost) : x = y := by
  cases hx with
  | created hbefore =>
    cases hy with
    | created => rfl
    | improved hbefore' | unchanged hbefore' => cases hbefore.symm.trans hbefore'
  | improved hbefore hlt =>
    cases hy with
    | created hbefore' => cases hbefore.symm.trans hbefore'
    | improved hbefore' =>
      cases hbefore.symm.trans hbefore'
      rfl
    | unchanged hbefore' hle =>
      cases hbefore.symm.trans hbefore'
      exact absurd hlt (UInt64.not_lt.mpr hle)
  | unchanged hbefore hle =>
    cases hy with
    | created hbefore' => cases hbefore.symm.trans hbefore'
    | improved hbefore' hlt =>
      cases hbefore.symm.trans hbefore'
      exact absurd hlt (UInt64.not_lt.mpr hle)
    | unchanged hbefore' =>
      cases hbefore.symm.trans hbefore'
      rfl

/-- What an accepted submission without a commitment reports: the title as it was before it and
whether it moved, the leading cost as it is after it, and what became of the recipient's par. -/
structure Submission.Reports (s : Submission) (before after : Board) (id : CourseId)
    (c : RegisteredCourse) (sender credited : Player) (price : Cost) : Prop where
  course : s.course = id
  submitter : s.submitter = sender
  recipient : s.recipient = credited
  cost : s.cost = price
  previousHolder : s.previousHolder = c.record.titleHolder
  titleChanged : s.titleChanged = true ↔ c.record.titleHolder = none ∨ price < c.record.leadingCost
  leadingCost : (after.course? id).map CourseRecord.leadingCost = some s.leadingCost
  par : s.par.Describes (before.personalBest? id credited) (after.personalBest? id credited) price
  revealed : s.revealed = false

/-- The boards before and after a submission leave it one report. -/
theorem Submission.Reports.eq {s s' : Submission} {before after : Board} {id : CourseId}
    {c : RegisteredCourse} {sender credited : Player} {price : Cost}
    (h : s.Reports before after id c sender credited price)
    (h' : s'.Reports before after id c sender credited price) : s = s' := by
  have hmoved : s.titleChanged = s'.titleChanged :=
    Bool.eq_iff_iff.mpr (h.titleChanged.trans h'.titleChanged.symm)
  have hleading : s.leadingCost = s'.leadingCost :=
    Option.some.inj (h.leadingCost.symm.trans h'.leadingCost)
  have hpar : s.par = s'.par := h.par.eq h'.par
  have hcourse := h.course.trans h'.course.symm
  have hsubmitter := h.submitter.trans h'.submitter.symm
  have hrecipient := h.recipient.trans h'.recipient.symm
  have hcost := h.cost.trans h'.cost.symm
  have hprevious := h.previousHolder.trans h'.previousHolder.symm
  have hrevealed := h.revealed.trans h'.revealed.symm
  cases s
  cases s'
  simp_all only

/-! ## Answers -/

namespace Board

variable {b : Board} {id : CourseId} {now : Time}

variable {caller : Player} {solution : Bytes} {recipient : Option Player} {reason : BoardError}

/-- A submission is refused for the reason for which its solution is refused a cost. -/
theorem answer_submit_eq_error_iff :
    (b.step now (.submit caller id solution recipient)).answer = .error reason ↔
      b.judge caller id solution now = .error reason := by
  cases hj : b.judge caller id solution now with
  | error reason' =>
    rw [step_submit_of_refused hj]
    simp only [Except.error.injEq]
  | ok cost =>
    obtain ⟨c, hc⟩ := exists_find?_of_judge hj
    rw [step_submit_of_cost hc hj]
    exact ⟨nofun, nofun⟩

end Board

end CodeGolf
