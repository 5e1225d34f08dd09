import CodeGolf.Board.Query
import CodeGolf.Proofs.Step

/-!
# Runs and their logs

A run is a list of operations with their times. `Board.replies` answers them one after the other
and `Board.after` is the board in the end; both split at any point of the run
(`Board.replies_append`, `Board.after_append`). The log of a run puts each operation beside its
reply. What a run did to a course or to a key is read off its log, from the operations that were
answered, and not off the board that it left.

A run is extended at its end by one operation, so statements about all runs are proved by
induction from the end, with one step of `Board.effect_step` at a time: `Board.after_concat` for the
board and `Board.filterMap_log_concat` for what is read off the log.
-/

namespace CodeGolf

/-- A board as it is opened: new, with a validator and a deployer installed. -/
def Board.opened (config : Config) (admin : AdminPolicy) (validator : Validator)
    (deployer : Deployer) : Board :=
  ((Board.new config admin).withValidator validator).withDeployer deployer

namespace Board

/-- The holder of a title is the one in the record of the course. -/
theorem titleHolder?_eq_bind (b : Board) (id : CourseId) :
    b.titleHolder? id = (b.course? id).bind CourseRecord.titleHolder := rfl

/-- The record of a course that is found is the one that a board answers with. -/
theorem course?_of_find? {b : Board} {id : CourseId} {c : RegisteredCourse}
    (h : b.registry.find? id = some c) : b.course? id = some c.record :=
  congrArg (Option.map RegisteredCourse.record) h

variable (b : Board)

/-! ## Runs -/

@[simp] theorem after_cons (now : Time) (action : Action) (rest : List (Time × Action)) :
    b.after ((now, action) :: rest) = (b.step now action).board.after rest := rfl

/-- A run goes on from the board that its first part leaves. -/
theorem after_append (first rest : List (Time × Action)) :
    b.after (first ++ rest) = (b.after first).after rest := List.foldl_append

@[simp] theorem replies_cons (now : Time) (action : Action) (rest : List (Time × Action)) :
    b.replies ((now, action) :: rest) =
      b.step now action :: (b.step now action).board.replies rest := rfl

/-- Every operation of a run is answered. -/
@[simp] theorem length_replies (actions : List (Time × Action)) :
    (b.replies actions).length = actions.length := by
  induction actions generalizing b with
  | nil => rfl
  | cons x rest ih => exact congrArg (· + 1) (ih _)

/-- The second part of a run is answered by the board that the first part leaves. -/
theorem replies_append (first rest : List (Time × Action)) :
    b.replies (first ++ rest) = b.replies first ++ (b.after first).replies rest := by
  induction first generalizing b with
  | nil => rfl
  | cons x first ih =>
    obtain ⟨now, action⟩ := x
    simp only [List.cons_append, replies_cons, after_cons, ih]

/-! ## Logs -/

/-- The operations of a run, each with its time and its reply. -/
def log (actions : List (Time × Action)) : List ((Time × Action) × Reply) :=
  actions.zip (b.replies actions)

@[simp] theorem log_cons (now : Time) (action : Action) (rest : List (Time × Action)) :
    b.log ((now, action) :: rest) =
      ((now, action), b.step now action) :: (b.step now action).board.log rest := rfl

/-- The log of a run goes on with the log of its second part. -/
theorem log_append (first rest : List (Time × Action)) :
    b.log (first ++ rest) = b.log first ++ (b.after first).log rest := by
  rw [log, replies_append, List.zip_append (b.length_replies first).symm]
  rfl

/-- One more operation is one more entry of the log. -/
theorem log_concat (actions : List (Time × Action)) (now : Time) (action : Action) :
    b.log (actions ++ [(now, action)]) =
      b.log actions ++ [((now, action), (b.after actions).step now action)] := by
  rw [log_append]
  rfl

/-- What is read off a log entry by entry has at most one more item after one more operation. -/
theorem filterMap_log_concat {α : Type} (f : (Time × Action) × Reply → Option α)
    (actions : List (Time × Action)) (now : Time) (action : Action) :
    (b.log (actions ++ [(now, action)])).filterMap f =
      (b.log actions).filterMap f ++
        (f ((now, action), (b.after actions).step now action)).toList := by
  rw [log_concat, List.filterMap_append]
  cases hf : f ((now, action), (b.after actions).step now action) <;> simp [hf]

/-- One more operation is one more step. -/
theorem after_concat (actions : List (Time × Action)) (now : Time) (action : Action) :
    b.after (actions ++ [(now, action)]) = ((b.after actions).step now action).board :=
  after_append ..

end Board

/-! ## Counting in words -/

/-- One more thing in a list is one more in 64 bits too. -/
theorem ofNat_length_concat {α : Type} (l : List α) (a : α) :
    UInt64.ofNat (l ++ [a]).length = UInt64.ofNat l.length + 1 := by
  rw [List.length_append, List.length_singleton, UInt64.ofNat_add]
  rfl

/-! ## A board to look at

The general statements about runs are instantiated on this board and its players.
-/

namespace Sample

/-- The administrator. -/
def root : Player := ⟨0⟩

/-- A contestant. -/
def alice : Player := ⟨1⟩

/-- Another contestant. -/
def bob : Player := ⟨2⟩

/-- The course on which shorter code is cheaper, whatever the seed. -/
def shortest : Course := ⟨"shortest", fun target _ => .ok (UInt64.ofNat target.code.length)⟩

/-- A board that takes all code and has the usual settings. -/
def board : Board :=
  .opened {} (.owner root) ⟨"any", fun _ code => .valid code.length⟩ .standard

end Sample

end CodeGolf
