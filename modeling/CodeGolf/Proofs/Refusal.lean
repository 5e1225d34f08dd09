import CodeGolf.Proofs.Run

/-!
# A refused operation leaves no trace

Operations keep what they wrote when they stop with a reason, so nothing in their form says that
a refusal leaves the tables as they were. `Board.Effect` does: its only case with a reason is the
one that keeps the board and tells nobody. An operation that was refused in the middle of a run
can therefore be deleted from the run (`Board.run_without_refused`), on any board, whether it was
opened, was put together from a snapshot or was reached by other operations.
-/

namespace CodeGolf.Board

variable {b : Board} {now : Time} {action : Action} {reply : Reply} {reason : BoardError}

/-- An effect that is answered by a reason is the refusal. -/
theorem Effect.eq_of_error (h : b.Effect now action reply) (hr : reply.answer = .error reason) :
    reply = ⟨.error reason, b, []⟩ := by
  cases h with
  | refused =>
    cases hr
    rfl
  | courseAdded | allowListReplaced | validatorReplaced | committed | submitted | revealed =>
    cases hr

/-- A refused step keeps the board and tells nobody. -/
theorem step_eq_of_error (hr : (b.step now action).answer = .error reason) :
    b.step now action = ⟨.error reason, b, []⟩ :=
  (b.effect_step now action).eq_of_error hr

/-- **A refused operation leaves no trace.** At any point of any run of any board, if an operation
is refused then the board is the one from before it, with every course, every par, every
commitment, the next id and the validator, and nobody is told anything. The run without the
operation ends with the same board, and gets the same replies but for the one of the operation. -/
theorem run_without_refused (b : Board) (before later : List (Time × Action)) (now : Time)
    (action : Action) (reason : BoardError)
    (hr : ((b.after before).step now action).answer = .error reason) :
    ((b.after before).step now action).board = b.after before ∧
    ((b.after before).step now action).events = [] ∧
    b.after (before ++ (now, action) :: later) = b.after (before ++ later) ∧
    (b.replies (before ++ (now, action) :: later)).eraseIdx before.length =
      b.replies (before ++ later) := by
  have hstep := step_eq_of_error hr
  have hboard : ((b.after before).step now action).board = b.after before := by rw [hstep]
  refine ⟨hboard, by rw [hstep], ?_, ?_⟩
  · rw [after_append, after_cons, hboard, ← after_append]
  · have hlength : (b.replies before).length = before.length := b.length_replies before
    rw [replies_append, replies_cons, hboard, ← hlength,
      List.eraseIdx_append_of_length_le (Nat.le_refl _), Nat.sub_self, List.eraseIdx_cons_zero,
      ← replies_append]

/-- On a board with a titled course, a par and a commitment, committing the taken key again leaves
no trace. -/
theorem run_without_refused_of_taken_key :
    let before : List (Time × Action) :=
      [(0, .commit Sample.alice 7), (1, .addCourse Sample.root Sample.shortest .full),
        (2, .submit Sample.bob ⟨1⟩ [1, 2] none)]
    let again : Action := .commit Sample.bob 7
    let later : List (Time × Action) := [(4, .submit Sample.alice ⟨1⟩ [1] none)]
    ((Sample.board.after before).step 3 again).answer =
      .error (.commitment (.alreadyCommitted 7)) ∧
    (Sample.board.after before).titleHolder? ⟨1⟩ = some Sample.bob ∧
    ((Sample.board.after before).step 3 again).board = Sample.board.after before ∧
    ((Sample.board.after before).step 3 again).events = [] ∧
    Sample.board.after (before ++ (3, again) :: later) = Sample.board.after (before ++ later) ∧
    (Sample.board.replies (before ++ (3, again) :: later)).eraseIdx before.length =
      Sample.board.replies (before ++ later) := by
  intro before again later
  have hr : ((Sample.board.after before).step 3 again).answer =
      .error (.commitment (.alreadyCommitted 7)) := rfl
  have holder : (Sample.board.after before).titleHolder? ⟨1⟩ = some Sample.bob := by decide
  exact ⟨hr, holder, run_without_refused Sample.board before later 3 again _ hr⟩

end CodeGolf.Board
