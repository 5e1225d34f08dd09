import CodeGolf.Proofs.Acceptance
import CodeGolf.Proofs.Persistence

/-!
# A restart and the validator

A snapshot lists courses, pars and commitments. The validator of a board is none of them, and a
board that is put together from a snapshot has the standard one, whatever an administrator had
installed. A solution is rejected for its code by the validator alone, under the allow-list of its
course (`Board.submit_eq_invalidSolution_iff`), and allow-lists are kept. So after a restart a
solution is rejected exactly if the standard scan finds a fault in it: rejections survive if and
only if every fault of the validator that was installed last is a fault of the scan
(`Board.rejections_after_restore`). A stricter validator is lost, and
`Board.restart_weakens_validator` is a solution that gets the title by it.
-/

namespace CodeGolf

namespace Board

variable {b : Board} {id : CourseId} {now : Time} {solution : Bytes} {verdict : Verdict}

/-! ## Rejections -/

/-- A validator finds a fault in a solution that is short enough, under the allow-list of a course
of the board. -/
def FoundAtFault (b : Board) (validator : Validator) (id : CourseId) (solution : Bytes)
    (verdict : Verdict) : Prop :=
  ∃ c, b.registry.find? id = some c ∧ b.checkSize solution = .ok () ∧
    validator.verdict c.record.allowed solution = verdict ∧ verdict.isValid = false

/-- A solution is rejected for its code exactly if the validator of the board finds a fault in it;
what comes after the validator rejects nothing for its code. -/
theorem judge_eq_invalidSolution_iff (submitter : Player) (now : Time) :
    b.judge submitter id solution now = .error (.invalidSolution id verdict) ↔
      b.FoundAtFault b.validator id solution verdict := by
  rw [judge_eq_error_iff]
  constructor
  · intro h
    cases h with
    | @code c _ h hverdict hfault =>
      exact ⟨c, h.found, checkSize_eq_ok_iff.mpr h.fits, hverdict,
        Verdict.isValid_eq_false_iff.mpr hfault⟩
  · rintro ⟨c, hfound, hfits, hverdict, hfault⟩
    exact .code ⟨hfound, checkSize_eq_ok_iff.mp hfits⟩ hverdict
      (Verdict.isValid_eq_false_iff.mp hfault)

/-- **A submission is rejected for its code** exactly if the validator of the board finds a fault in
the solution, whoever submits it, for whom and when. -/
theorem submit_eq_invalidSolution_iff {caller : Player} {recipient : Option Player} :
    (b.step now (.submit caller id solution recipient)).answer =
        .error (.invalidSolution id verdict) ↔
      b.FoundAtFault b.validator id solution verdict :=
  answer_submit_eq_error_iff.trans (judge_eq_invalidSolution_iff caller now)

/-! ## The validator of a run -/

/-- The validator that an entry of a log installs. -/
def installed? : (Time × Action) × Reply → Option Validator
  | ((_, .setValidator _ validator), reply) => if reply.answer.isOk then some validator else none
  | _ => none

/-- One step installs the validator that its entry says, or keeps the one there is. -/
theorem Effect.validator {action : Action} {reply : Reply} (he : b.Effect now action reply) :
    reply.board.validator = (installed? ((now, action), reply)).getD b.validator := by
  cases he with
  | @refused action reason =>
    cases action <;> rfl
  | courseAdded | allowListReplaced | validatorReplaced | committed | submitted | revealed => rfl

/-- **The validator of a board** is the one that was installed last. -/
theorem validator_after (b : Board) (actions : List (Time × Action)) :
    (b.after actions).validator =
      ((b.log actions).filterMap installed?).getLast?.getD b.validator := by
  induction actions using List.reverseRecOn with
  | nil => rfl
  | append_singleton actions x ih =>
    obtain ⟨now, action⟩ := x
    rw [after_concat, filterMap_log_concat, (effect_step _ now action).validator, ih]
    cases installed? ((now, action), (b.after actions).step now action) with
    | none => rw [Option.toList_none, List.append_nil, Option.getD_none]
    | some validator =>
      rw [Option.toList_some, List.getLast?_concat, Option.getD_some, Option.getD_some]

/-! ## Rejections after a restart -/

/-- A submission is rejected for its code. -/
def Rejects (b : Board) (now : Time) (caller : Player) (id : CourseId) (solution : Bytes)
    (recipient : Option Player) : Prop :=
  ∃ verdict, (b.step now (.submit caller id solution recipient)).answer =
    .error (.invalidSolution id verdict)

/-- Installing a validator or a deployer changes no allow-list and no limit, so what a given
validator finds stays the same. -/
theorem foundAtFault_installed (b : Board) (validator checked : Validator) (deployer : Deployer) :
    ((b.withValidator validator).withDeployer deployer).FoundAtFault checked id solution verdict ↔
      b.FoundAtFault checked id solution verdict := Iff.rfl

/-- **Rejections after a restart.** Let a run reach a board, and let courses be bound to its records
as the board runs them. Then a board is put together from its snapshot, if no operation made a
counter of solutions start again at zero, and for whatever board is put together from it

* before the restart a submission is rejected for its code exactly if the validator that was
  installed last finds a fault in it, and after the restart exactly if the standard scan does, with
  the same allow-list and the same limit, and each with the verdict of its own validator;
* so every rejection survives the restart if and only if the scan finds a fault wherever the
  validator that was installed last does. -/
theorem rejections_after_restore (start : Board) (actions : List (Time × Action))
    (hb : (start.after actions).Reachable) (now : Time) (resolve : CourseRecord → Option Course)
    (hresolve : ∀ id c, (start.after actions).registry.find? id = some c →
      resolve c.record = some c.course) :
    let b := start.after actions
    let installed := ((start.log actions).filterMap installed?).getLast?.getD start.validator
    (b.ReachedBy Counts →
      ∃ kept, restore b.config b.admin (b.snapshot now) resolve = .ok kept) ∧
    ∀ kept, restore b.config b.admin (b.snapshot now) resolve = .ok kept →
      (∀ time caller id solution recipient verdict,
        ((b.step time (.submit caller id solution recipient)).answer =
            .error (.invalidSolution id verdict) ↔
          b.FoundAtFault installed id solution verdict) ∧
        ((kept.step time (.submit caller id solution recipient)).answer =
            .error (.invalidSolution id verdict) ↔
          b.FoundAtFault .pushAware id solution verdict)) ∧
      ((∀ time caller id solution recipient, b.Rejects time caller id solution recipient →
          kept.Rejects time caller id solution recipient) ↔
        ∀ id solution verdict, b.FoundAtFault installed id solution verdict →
          ∃ verdict', b.FoundAtFault .pushAware id solution verdict') := by
  intro b installed
  have hvalidator : b.validator = installed := validator_after start actions
  have hbefore : ∀ time caller id solution recipient verdict,
      (b.step time (.submit caller id solution recipient)).answer =
          .error (.invalidSolution id verdict) ↔
        b.FoundAtFault installed id solution verdict := by
    intro time caller id solution recipient verdict
    rw [submit_eq_invalidSolution_iff, hvalidator]
  have hafter : ∀ time caller id solution recipient verdict,
      (((b.withValidator .pushAware).withDeployer .standard).step time
          (.submit caller id solution recipient)).answer = .error (.invalidSolution id verdict) ↔
        b.FoundAtFault .pushAware id solution verdict := by
    intro time caller id solution recipient verdict
    rw [submit_eq_invalidSolution_iff]
    exact foundAtFault_installed ..
  refine ⟨fun hcounts => ⟨_, hb.coherent.restore_snapshot hcounts.consistent now hresolve⟩,
    fun kept hkept => ?_⟩
  obtain rfl := hb.coherent.eq_of_restore_snapshot hresolve hkept
  refine ⟨fun time caller id solution recipient verdict => ⟨hbefore .., hafter ..⟩, ?_⟩
  -- Neither side depends on who submits, for whom and when.
  constructor
  · intro hkept id solution verdict hfault
    obtain ⟨verdict', h⟩ := hkept 0 ⟨0⟩ id solution none ⟨verdict, (hbefore ..).mpr hfault⟩
    exact ⟨verdict', (hafter ..).mp h⟩
  · rintro hfaults time caller id solution recipient ⟨verdict, h⟩
    obtain ⟨verdict', hfault⟩ := hfaults id solution verdict ((hbefore ..).mp h)
    exact ⟨verdict', (hafter ..).mpr hfault⟩

end Board

/-! ## A lost validator -/

namespace Sample

/-- A validator that accepts no code. -/
def denyAll : Validator := ⟨"deny-all", fun _ _ => .disallowed 0 0⟩

/-- The administrator adds a course and installs a validator that accepts no code. -/
def closing : List (Time × Action) :=
  [(0, .addCourse root shortest .full), (1, .setValidator root denyAll)]

/-- The board of a run that closes it is reached, and its one course is bound. -/
theorem reachedBy_closing : (board.after closing).ReachedBy Board.Counts ∧
    ∀ id c, (board.after closing).registry.find? id = some c →
      some shortest = some c.course := by
  refine ⟨Board.reachedBy_counts_after _ _ _ _ closing (by decide), fun id c hc => ?_⟩
  rw [Registry.eq_of_find?_of_toList_eq hc rfl]

/-- The standard scan passes a single byte under an allow-list of all opcodes. -/
theorem scan_full_singleton : scan .full [1] = .valid 1 := by decide +kernel

/-- The installed validator finds a fault in a single byte. -/
theorem foundAtFault_denyAll :
    (board.after closing).FoundAtFault denyAll ⟨1⟩ [1] (.disallowed 0 0) :=
  ⟨⟨.fresh ⟨1⟩ "shortest" .full 0, shortest⟩, rfl, rfl, rfl, rfl⟩

/-- The scan finds none in it. -/
theorem not_foundAtFault_pushAware (verdict : Verdict) :
    ¬(board.after closing).FoundAtFault .pushAware ⟨1⟩ [1] verdict := by
  rintro ⟨c, hc, -, rfl, hfault⟩
  cases hc
  have hvalid : (scan .full [1]).isValid = false := hfault
  rw [scan_full_singleton] at hvalid
  cases hvalid

end Sample

namespace Board

/-- A validator that accepts no code is installed when the board is closed, and the scan is when it
was put together again: the rejection of a single byte does not survive. -/
theorem rejections_after_restore_of_strict :
    let b := Sample.board.after Sample.closing
    b.Reachable ∧ b.ReachedBy Counts ∧
    (∀ id c, b.registry.find? id = some c → some Sample.shortest = some c.course) ∧
    b.Rejects 2 Sample.alice ⟨1⟩ [1] none ∧
    ∃ kept, restore b.config b.admin (b.snapshot 9) (fun _ => some Sample.shortest) = .ok kept ∧
      ¬kept.Rejects 2 Sample.alice ⟨1⟩ [1] none := by
  intro b
  obtain ⟨hcounts, hcourses⟩ := Sample.reachedBy_closing
  obtain ⟨hkeeps, hrestored⟩ := rejections_after_restore Sample.board Sample.closing
    hcounts.reachable 9 (fun _ => some Sample.shortest) hcourses
  obtain ⟨kept, hkept⟩ := hkeeps hcounts
  obtain ⟨hrejections, -⟩ := hrestored kept hkept
  have hrejected : b.Rejects 2 Sample.alice ⟨1⟩ [1] none :=
    ⟨_, (hrejections ..).1.mpr Sample.foundAtFault_denyAll⟩
  refine ⟨hcounts.reachable, hcounts, hcourses, hrejected, kept, hkept, ?_⟩
  rintro ⟨verdict, h⟩
  exact Sample.not_foundAtFault_pushAware verdict ((hrejections ..).2.mp h)

/-- Not every rejection survives a restart: the validator that accepts no code rejects a single byte
for its code, and the board that is put together from the snapshot does not. -/
theorem restart_weakens_validator :
    ¬∀ (start : Board) (actions : List (Time × Action)) (now : Time)
        (resolve : CourseRecord → Option Course),
      (start.after actions).ReachedBy Counts →
      (∀ id c, (start.after actions).registry.find? id = some c →
        resolve c.record = some c.course) →
      ∀ kept, restore (start.after actions).config (start.after actions).admin
          ((start.after actions).snapshot now) resolve = .ok kept →
        ∀ time caller id solution recipient,
          (start.after actions).Rejects time caller id solution recipient →
            kept.Rejects time caller id solution recipient := by
  intro hall
  obtain ⟨hcounts, hcourses⟩ := Sample.reachedBy_closing
  have hrejected : (Sample.board.after Sample.closing).Rejects 2 Sample.alice ⟨1⟩ [1] none :=
    ⟨_, submit_eq_invalidSolution_iff.mpr Sample.foundAtFault_denyAll⟩
  obtain ⟨verdict, h⟩ := hall Sample.board Sample.closing 9 (fun _ => some Sample.shortest)
    hcounts hcourses _
    (hcounts.reachable.coherent.restore_snapshot hcounts.consistent 9 hcourses) _ _ _ _ _ hrejected
  exact Sample.not_foundAtFault_pushAware verdict (submit_eq_invalidSolution_iff.mp h)

end Board

end CodeGolf
