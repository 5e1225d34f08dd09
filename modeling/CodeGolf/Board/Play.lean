import CodeGolf.Board

/-!
# Playing on a board

An operation works on a board in place and tells listeners as it goes; what it has written and
told when it stops with a reason stays written and told. That a refused operation leaves no
trace is therefore a property of each operation, not of the form they share.

A submission is judged before anything is written: `Board.judge` looks up the course, measures
the solution, validates it, deploys it and runs the course, in this order, and only reads the
board; `Play.award` writes what follows from the cost. A reveal is a submission of whoever
committed, followed by consuming the commitment.

`Action` names the operations as data and `Board.step` performs one of them.
-/

namespace CodeGolf

/-! ## Judging a solution -/

namespace Board

/-- The course of an id. -/
def lookup (b : Board) (id : CourseId) : Except BoardError RegisteredCourse :=
  match b.registry.find? id with
  | none => .error (.registry (.courseNotFound id))
  | some c => .ok c

/-- Refuses a solution that is longer than the settings allow. -/
def checkSize (b : Board) (solution : Bytes) : Except BoardError Unit :=
  match b.config.maxSolutionBytes with
  | none => .ok ()
  | some max =>
    if max.toNat < solution.length then .error (.solutionTooLarge solution.length max) else .ok ()

/-- Refuses a solution that the validator finds a fault in. -/
def checkCode (b : Board) (id : CourseId) (allowed : OpcodeSet) (solution : Bytes) :
    Except BoardError Unit :=
  let verdict := b.validator.verdict allowed solution
  if verdict.isValid then .ok () else .error (.invalidSolution id verdict)

/-- The cost of a solution that `submitter` sends to a course, or the first reason to refuse
it. -/
def judge (b : Board) (submitter : Player) (id : CourseId) (solution : Bytes) (now : Time) :
    Except BoardError Cost := do
  let c ← b.lookup id
  b.checkSize solution
  b.checkCode id c.record.allowed solution
  let target ← (b.deployer.deploy solution).mapError .deployment
  let seed := runSeed submitter id c.record.solutionCount now
  (c.course.run target seed).mapError .course

end Board

/-! ## Turns -/

/-- A board in the course of an operation. -/
structure Turn where
  board : Board
  /-- What listeners have been told so far, in order. -/
  told : List Event

/-- An operation on a board, or a part of one. -/
abbrev Play (α : Type) := EStateM BoardError Turn α

namespace Play

/-- Asks the board a question that it may refuse to answer. -/
def ask {α : Type} (question : Board → Except BoardError α) : Play α := do
  match question (← get).board with
  | .ok a => return a
  | .error reason => throw reason

/-- Refuses a caller who may not administer the board. -/
def requireAdmin (caller : Player) : Play Unit :=
  ask fun b => (b.admin.check caller).mapError .registry

/-- Performs an operation on the courses of the board. -/
def onRegistry {α : Type} (operation : EStateM RegistryError Registry α) : Play α := fun t =>
  match operation.run t.board.registry with
  | .ok a registry => .ok a { t with board := { t.board with registry } }
  | .error reason registry =>
    .error (.registry reason) { t with board := { t.board with registry } }

/-- Performs an operation on the pars of the board. -/
def onPars {α : Type} (operation : Pars → α × Pars) : Play α :=
  modifyGet fun t =>
    let (a, pars) := operation t.board.pars
    (a, { t with board := { t.board with pars } })

/-- Performs an operation on the commitments of the board. -/
def onLedger {α : Type} (operation : EStateM CommitError Ledger α) : Play α := fun t =>
  match operation.run t.board.ledger with
  | .ok a ledger => .ok a { t with board := { t.board with ledger } }
  | .error reason ledger =>
    .error (.commitment reason) { t with board := { t.board with ledger } }

/-- Tells the listeners. -/
def tell (events : List Event) : Play Unit :=
  modify fun t => { t with told := t.told ++ events }

theorem run_ask {α : Type} (question : Board → Except BoardError α) (t : Turn) :
    (ask question).run t =
      match question t.board with
      | .ok a => .ok a t
      | .error reason => .error reason t := by
  simp only [ask, EStateM.run_bind, EStateM.run_get]
  cases question t.board <;> rfl

theorem run_onRegistry {α : Type} (operation : EStateM RegistryError Registry α) (t : Turn) :
    (onRegistry operation).run t =
      match operation.run t.board.registry with
      | .ok a registry => .ok a { t with board := { t.board with registry } }
      | .error reason registry =>
        .error (.registry reason) { t with board := { t.board with registry } } := rfl

theorem run_onPars {α : Type} (operation : Pars → α × Pars) (t : Turn) :
    (onPars operation).run t =
      .ok (operation t.board.pars).1
        { t with board := { t.board with pars := (operation t.board.pars).2 } } := rfl

theorem run_onLedger {α : Type} (operation : EStateM CommitError Ledger α) (t : Turn) :
    (onLedger operation).run t =
      match operation.run t.board.ledger with
      | .ok a ledger => .ok a { t with board := { t.board with ledger } }
      | .error reason ledger =>
        .error (.commitment reason) { t with board := { t.board with ledger } } := rfl

theorem run_tell (events : List Event) (t : Turn) :
    (tell events).run t = .ok () { t with told := t.told ++ events } := rfl

/-! ## Administration -/

/-- Adds a course, and answers with its id. -/
def addCourse (caller : Player) (course : Course) (allowed : OpcodeSet) (now : Time) :
    Play CourseId := do
  requireAdmin caller
  let id ← onRegistry (Registry.register course allowed now)
  tell [.courseAdded id course.name]
  return id

/-- Replaces the allow-list of a course. -/
def setAllowed (caller : Player) (id : CourseId) (allowed : OpcodeSet) : Play Unit := do
  requireAdmin caller
  let _ ← onRegistry (Registry.setAllowed id allowed)
  tell [.allowListUpdated id allowed]

/-- Replaces the validator of all courses. -/
def setValidator (caller : Player) (validator : Validator) : Play Unit := do
  requireAdmin caller
  modify fun t => { t with board := { t.board with validator } }
  tell [.validatorReplaced validator.name]

/-! ## Submissions -/

/-- Writes a judged submission: the title and the counters of the course, and the recipient's
par. -/
def award (submitter recipient : Player) (id : CourseId) (cost : Cost) (now : Time)
    (revealed : Bool) : Play Submission := do
  let title ← onRegistry (Registry.recordSolution id recipient cost)
  let par ← onPars fun pars => pars.credit id recipient cost now
  return {
    course := id
    submitter
    recipient
    cost
    titleChanged := title.changed
    previousHolder := title.previousHolder
    leadingCost := title.leadingCost
    par
    revealed }

/-- Submits a solution without a commitment. -/
def submit (caller : Player) (id : CourseId) (solution : Bytes) (recipient : Option Player)
    (now : Time) : Play Submission := do
  let cost ← ask fun b => b.judge caller id solution now
  let submission ← award caller (recipient.getD caller) id cost now false
  tell submission.events
  return submission

/-! ## Commitments -/

/-- Commits a key. -/
def commit (caller : Player) (key : Digest) (now : Time) : Play Unit := do
  onLedger (Ledger.commit key caller now)
  tell [.committed key caller]

/-- Reveals a committed solution and submits it for whoever committed; the commitment is
consumed only if the submission is accepted. -/
def reveal (caller : Player) (id : CourseId) (solution : Bytes) (salt : Salt)
    (recipient : Option Player) (now : Time) : Play Submission := do
  let key := commitmentKey caller solution salt
  let committer ← ask fun b => (b.ledger.eligible key now).mapError .commitment
  let cost ← ask fun b => b.judge committer id solution now
  let submission ← award committer (recipient.getD committer) id cost now true
  let _ ← onLedger (Ledger.markRevealed key now)
  tell submission.events
  return submission

end Play

/-! ## Operations as data -/

/-- An operation that may change a board. -/
inductive Action where
  | addCourse (caller : Player) (course : Course) (allowed : OpcodeSet)
  | setAllowed (caller : Player) (id : CourseId) (allowed : OpcodeSet)
  | setValidator (caller : Player) (validator : Validator)
  | commit (caller : Player) (key : Digest)
  | reveal (caller : Player) (id : CourseId) (solution : Bytes) (salt : Salt)
    (recipient : Option Player)
  | submit (caller : Player) (id : CourseId) (solution : Bytes) (recipient : Option Player)

/-- What an operation answers. -/
inductive Answer where
  | course (id : CourseId)
  /-- Nothing but that it was done. -/
  | done
  | submission (result : Submission)

/-- What an operation led to, refused or not. -/
structure Reply where
  /-- The answer, or the reason for the refusal. -/
  answer : Except BoardError Answer
  board : Board
  events : List Event

/-- The reply that a turn ends with. -/
def Reply.ofResult {α : Type} (answer : α → Answer) : EStateM.Result BoardError Turn α → Reply
  | .ok a t => ⟨.ok (answer a), t.board, t.told⟩
  | .error reason t => ⟨.error reason, t.board, t.told⟩

/-- The reply of a board to an operation. -/
def Board.perform {α : Type} (b : Board) (answer : α → Answer) (operation : Play α) : Reply :=
  .ofResult answer (operation.run ⟨b, []⟩)

namespace Board

/-- Performs an operation at a time. -/
def step (b : Board) (now : Time) : Action → Reply
  | .addCourse caller course allowed => b.perform .course (.addCourse caller course allowed now)
  | .setAllowed caller id allowed => b.perform (fun _ => .done) (.setAllowed caller id allowed)
  | .setValidator caller validator => b.perform (fun _ => .done) (.setValidator caller validator)
  | .commit caller key => b.perform (fun _ => .done) (.commit caller key now)
  | .reveal caller id solution salt recipient =>
    b.perform .submission (.reveal caller id solution salt recipient now)
  | .submit caller id solution recipient =>
    b.perform .submission (.submit caller id solution recipient now)

/-- The replies to operations performed one after the other. -/
def replies (b : Board) : List (Time × Action) → List Reply
  | [] => []
  | (now, action) :: rest => b.step now action :: (b.step now action).board.replies rest

/-- The board after operations performed one after the other. -/
def after (b : Board) (actions : List (Time × Action)) : Board :=
  actions.foldl (fun b (now, action) => (b.step now action).board) b

end Board

end CodeGolf
