import CodeGolf.Proofs.CommitReveal

/-!
# A reveal is a submission by the committer

There are two ways to submit a solution, with a commitment and without. They are programs of their
own, and `Board.reveal_eq_submit` says how they agree on every board. The commitments alone decide
whether a reveal goes on, and with whom. From there it is refused for the reason for which the
submission of the committer would be refused, or it is answered as that submission is, told as it
is and leaves the board that it leaves, up to three marks: the answer and the event that report the
submission say that it was revealed, and the commitment says when (`Board.marked`). A refusal of
either kind marks nothing.
-/

namespace CodeGolf

/-! ## What a reveal marks -/

/-- A submission that is reported as revealed. -/
def Submission.asRevealed (s : Submission) : Submission := { s with revealed := true }

/-- An event of a submission that is reported as revealed. -/
def Event.asRevealed : Event → Event
  | .submitted s => .submitted s.asRevealed
  | event => event

/-- The title moves with a revealed submission as it does with any other. -/
theorem Submission.events_asRevealed (s : Submission) :
    s.asRevealed.events = s.events.map Event.asRevealed := by
  rw [events, events]
  show (if s.titleChanged then _ else _) = _
  cases s.titleChanged <;> rfl

/-- The ledger with the commitment of a key marked as revealed, if there is one. -/
def Ledger.marked (l : Ledger) (key : Digest) (now : Time) : Ledger :=
  match l.find? key with
  | none => l
  | some c => l.insert key (c.revealed now)

/-- Marking writes the time of the first reveal into one commitment, and touches no other. -/
theorem Ledger.find?_marked (l : Ledger) (key : Digest) (now : Time) (key' : Digest) :
    (l.marked key now).find? key' =
      if key' = key then
        (l.find? key).map fun c => { c with revealedAt := some (c.revealedAt.getD now) }
      else l.find? key' := by
  rw [marked]
  cases hc : l.find? key with
  | none =>
    show l.find? key' = _
    by_cases heq : key' = key
    · rw [if_pos heq, heq, hc, Option.map_none]
    · rw [if_neg heq]
  | some c =>
    show (l.insert key (c.revealed now)).find? key' = _
    rw [find?_insert]
    by_cases heq : key = key'
    · rw [if_pos heq, if_pos heq.symm]
      rfl
    · rw [if_neg heq, if_neg (Ne.symm heq)]

namespace Board

/-- The board with the commitment of a key marked as revealed, if there is one. -/
def marked (b : Board) (key : Digest) (now : Time) : Board :=
  { b with ledger := b.ledger.marked key now }

variable {b : Board} {now : Time} {id : CourseId} {solution : Bytes} {recipient : Option Player}

/-- Consuming the commitment that is found is marking its key. -/
theorem consumed_eq_marked {key : Digest} {c : Commitment} (hc : b.ledger.find? key = some c)
    (now : Time) : b.consumed key c now = b.marked key now := by
  rw [consumed, marked, Ledger.marked, hc]

/-! ## The two ways as replies -/

/-- A submission that is refused leaves the board. -/
theorem step_submit_of_refused {caller : Player} {reason : BoardError}
    (hj : b.judge caller id solution now = .error reason) :
    b.step now (.submit caller id solution recipient) = ⟨.error reason, b, []⟩ := by
  rw [step, perform, Play.run_submit_of_refused hj]
  rfl

/-- A submission that is accepted credits its recipient. -/
theorem step_submit_of_cost {caller : Player} {c : RegisteredCourse} {cost : Cost}
    (hc : b.registry.find? id = some c) (hj : b.judge caller id solution now = .ok cost) :
    b.step now (.submit caller id solution recipient) =
      ⟨.ok (.submission (b.submission c.record caller (recipient.getD caller) id cost now false)),
        b.credited id (recipient.getD caller) cost now,
        (b.submission c.record caller (recipient.getD caller) id cost now false).events⟩ := by
  rw [step, perform, Play.run_submit_of_cost hc hj]
  rfl

section
variable {caller committer : Player} {salt : Salt}

/-- A reveal that the ledger refuses leaves the board. -/
theorem step_reveal_of_ineligible {fault : CommitError}
    (he : b.ledger.eligible (commitmentKey caller solution salt) now = .error fault) :
    b.step now (.reveal caller id solution salt recipient) =
      ⟨.error (.commitment fault), b, []⟩ := by
  rw [step, perform, Play.run_reveal_of_ineligible he]
  rfl

/-- A reveal whose solution is refused leaves the board, with the commitment not consumed. -/
theorem step_reveal_of_refused {reason : BoardError}
    (he : b.ledger.eligible (commitmentKey caller solution salt) now = .ok committer)
    (hj : b.judge committer id solution now = .error reason) :
    b.step now (.reveal caller id solution salt recipient) = ⟨.error reason, b, []⟩ := by
  rw [step, perform, Play.run_reveal_of_refused he hj]
  rfl

/-- An accepted reveal is the accepted submission of the committer, with its marks. -/
theorem step_reveal_of_cost {c : RegisteredCourse} {cost : Cost}
    (he : b.ledger.eligible (commitmentKey caller solution salt) now = .ok committer)
    (hc : b.registry.find? id = some c) (hj : b.judge committer id solution now = .ok cost) :
    let s := b.submission c.record committer (recipient.getD committer) id cost now false
    b.step now (.reveal caller id solution salt recipient) =
      ⟨.ok (.submission s.asRevealed),
        (b.credited id (recipient.getD committer) cost now).marked
          (commitmentKey caller solution salt) now,
        s.events.map Event.asRevealed⟩ := by
  intro s
  obtain ⟨commitment, hk, -⟩ := Ledger.eligible_eq_ok_iff.mp he
  have hcredited : (b.credited id (recipient.getD committer) cost now).ledger.find?
      (commitmentKey caller solution salt) = some commitment := hk
  rw [step, perform, Play.run_reveal_of_cost hk he hc hj, consumed_eq_marked hcredited,
    ← Submission.events_asRevealed]
  rfl

/-- **A reveal is a submission by the committer.** On every board, for all callers, courses,
solutions, salts, recipients and times: if the commitments do not allow the reveal, it is refused
for their reason; if they do, and with whom,

* it is refused exactly as the submission of the committer is, if that is refused;
* otherwise it gives the answer and the events of that submission, reported as revealed, and leaves
  the board that the submission leaves, with the commitment marked: with the time of the reveal,
  unless it was revealed before. No other commitment changes.

A refusal leaves the board as it is and tells nobody. -/
theorem reveal_eq_submit (b : Board) (now : Time) (caller : Player) (id : CourseId)
    (solution : Bytes) (salt : Salt) (recipient : Option Player) :
    let key := commitmentKey caller solution salt
    let reveal := b.step now (.reveal caller id solution salt recipient)
    (∀ fault, b.ledger.eligible key now = .error fault →
      reveal = ⟨.error (.commitment fault), b, []⟩) ∧
    ∀ committer, b.ledger.eligible key now = .ok committer →
      let submit := b.step now (.submit committer id solution recipient)
      (∀ reason, submit.answer = .error reason →
        reveal = ⟨.error reason, b, []⟩ ∧ submit = ⟨.error reason, b, []⟩) ∧
      ∀ answer, submit.answer = .ok answer →
        ∃ s : Submission, answer = .submission s ∧ s.revealed = false ∧
          reveal = ⟨.ok (.submission { s with revealed := true }), submit.board.marked key now,
            submit.events.map Event.asRevealed⟩ ∧
          ∀ key', reveal.board.commitment? key' =
            if key' = key then
              (b.commitment? key).map fun c => { c with revealedAt := some (c.revealedAt.getD now) }
            else b.commitment? key' := by
  intro key reveal
  refine ⟨fun fault he => step_reveal_of_ineligible he, fun committer he => ?_⟩
  intro submit
  cases hj : b.judge committer id solution now with
  | error reason =>
    have hsubmit : submit = ⟨.error reason, b, []⟩ := step_submit_of_refused hj
    have hreveal : reveal = ⟨.error reason, b, []⟩ := step_reveal_of_refused he hj
    rw [hsubmit, hreveal]
    refine ⟨fun reason' hreason => ?_, nofun⟩
    cases hreason
    exact ⟨rfl, rfl⟩
  | ok cost =>
    obtain ⟨c, hc⟩ := exists_find?_of_judge hj
    have hsubmit : submit = _ := step_submit_of_cost hc hj
    have hreveal : reveal = _ := step_reveal_of_cost he hc hj
    rw [hsubmit, hreveal]
    refine ⟨nofun, fun answer hanswer => ?_⟩
    cases hanswer
    exact ⟨_, rfl, rfl, rfl, Ledger.find?_marked b.ledger key now⟩

end

/-- Alice's reveal of her own commitment is her submission, with its marks. -/
theorem reveal_eq_submit_of_committed :
    let key := commitmentKey Sample.alice [1] 5
    let b := Sample.board.after (Sample.committing Sample.alice key)
    let reveal := b.step 61 (.reveal Sample.alice ⟨1⟩ [1] 5 none)
    let submit := b.step 61 (.submit Sample.alice ⟨1⟩ [1] none)
    b.ledger.eligible key 61 = .ok Sample.alice ∧
    ∃ s : Submission, submit.answer = .ok (.submission s) ∧
      reveal.answer = .ok (.submission { s with revealed := true }) ∧
      reveal.board.commitment? key = some ⟨Sample.alice, 1, some 61⟩ := by
  intro key b reveal submit
  have he : b.ledger.eligible key 61 = .ok Sample.alice :=
    Sample.eligible_after_committing Sample.alice key
  have hsubmit : submit = _ :=
    step_submit_of_cost (Sample.find?_after_committing Sample.alice key)
      (Sample.judge_after_committing Sample.alice Sample.alice key)
  obtain ⟨s, hs, -, hreveal, hcommitments⟩ :=
    ((reveal_eq_submit b 61 Sample.alice ⟨1⟩ [1] 5 none).2 _ he).2 _
      (congrArg Reply.answer hsubmit)
  have hfound : b.commitment? key = some ⟨Sample.alice, 1, none⟩ := by
    show b.ledger.find? key = _
    rw [Sample.ledger_after_committing, Ledger.find?_insert, if_pos rfl]
  refine ⟨he, s, ?_, congrArg Reply.answer hreveal, ?_⟩
  · rw [← hs]
    exact congrArg Reply.answer hsubmit
  · rw [hcommitments, if_pos rfl, hfound]
    rfl

end Board

end CodeGolf
