import CodeGolf.Course.Record
import CodeGolf.Table
import CodeGolf.Text.Blank

/-!
# The registry of courses

A registry keeps the record of each course together with the course itself, in the order of
ids, and the id that the next course will get. Operations work on the registry in place: what
one of them has written when it stops with a reason stays written. The lemmas at the end say
what each operation comes to.
-/

namespace CodeGolf

/-- A course with what is kept of it. -/
structure RegisteredCourse where
  record : CourseRecord
  course : Course

/-- The position of a registered course: that of its id. -/
def RegisteredCourse.rank (c : RegisteredCourse) : Nat := c.record.id.rank

/-- A registered course in a dump of data; the course itself is not shown. -/
def RegisteredCourse.describe (c : RegisteredCourse) : String :=
  "RegisteredCourse \x7b record: " ++ c.record.describe ++ ", .. \x7d"

/-- Why an operation on the courses is refused. -/
inductive RegistryError where
  | courseNotFound (id : CourseId)
  /-- The name of the course is empty or blank. -/
  | blankName
  | alreadyRegistered (id : CourseId)
  /-- There is no id after the last one given. -/
  | idsExhausted
  | unauthorized (caller : Player)
  deriving DecidableEq

/-- The wording of a refusal. -/
def RegistryError.message : RegistryError → String
  | .courseNotFound id => "Course not found: " ++ toString id
  | .blankName => "Invalid course: course reference has an empty name"
  | .alreadyRegistered id => "Course already registered: " ++ toString id
  | .idsExhausted => "No course ids left"
  | .unauthorized caller => "Caller is not an administrator: " ++ caller.hex

/-- The courses of a board. -/
structure Registry where
  courses : Table RegisteredCourse.rank
  nextId : CourseId

namespace Registry

/-- The registry without courses. -/
def empty : Registry := ⟨.empty, ⟨1⟩⟩

/-- The course of an id. -/
def find? (r : Registry) (id : CourseId) : Option RegisteredCourse := r.courses.find? id.rank

/-- The record of an id. -/
def record? (r : Registry) (id : CourseId) : Option CourseRecord :=
  (r.find? id).map RegisteredCourse.record

/-- Whether a course has the id. -/
def contains (r : Registry) (id : CourseId) : Bool := r.courses.contains id.rank

/-- The records of all courses in the order of their ids. -/
def records (r : Registry) : List CourseRecord := r.courses.toList.map RegisteredCourse.record

/-- Who holds the title of a course. -/
def titleHolder? (r : Registry) (id : CourseId) : Option Player :=
  (r.record? id).bind CourseRecord.titleHolder

/-- The number of courses. -/
def size (r : Registry) : Nat := r.courses.size

/-- The least id that is at least the next one of the registry and above `id`, as far as ids
go. -/
def nextAfter (r : Registry) (id : CourseId) : CourseId :=
  let next := id.succ?.getD id
  if r.nextId.number ≤ next.number then next else r.nextId

/-- The registry with a course added, or put in the place of the one with its id. -/
def insert (r : Registry) (c : RegisteredCourse) : Registry :=
  { r with courses := r.courses.insert c }

/-! ## Operations -/

/-- The course of an id, or the refusal of an operation that needs it. -/
def require (id : CourseId) : EStateM RegistryError Registry RegisteredCourse := do
  match (← get).find? id with
  | none => throw (.courseNotFound id)
  | some c => return c

/-- Adds a course under the next id, and answers with the id. -/
def register (course : Course) (allowed : OpcodeSet) (now : Time) :
    EStateM RegistryError Registry CourseId := do
  if (Text.trim course.name.toList).isEmpty then throw .blankName
  let id := (← get).nextId
  match id.succ? with
  | none => throw .idsExhausted
  | some next =>
    if (← get).contains id then throw (.alreadyRegistered id)
    modify fun r => { r with nextId := next }
    modify fun r => r.insert ⟨.fresh id course.name allowed now, course⟩
    return id

/-- Puts back a record that was kept elsewhere, bound to its course. -/
def restore (record : CourseRecord) (course : Course) : EStateM RegistryError Registry Unit := do
  if (← get).contains record.id then throw (.alreadyRegistered record.id)
  modify fun r => { r with nextId := r.nextAfter record.id }
  modify fun r => r.insert ⟨record, course⟩

/-- Replaces the allow-list of a course, and answers with the one it had. -/
def setAllowed (id : CourseId) (allowed : OpcodeSet) :
    EStateM RegistryError Registry OpcodeSet := do
  let c ← require id
  modify fun r => r.insert { c with record := { c.record with allowed } }
  return c.record.allowed

/-- Counts a solution of a course for a player, and answers with what became of the title. -/
def recordSolution (id : CourseId) (player : Player) (cost : Cost) :
    EStateM RegistryError Registry TitleChange := do
  let c ← require id
  modify fun r => r.insert { c with record := c.record.credit player cost }
  return c.record.change player cost

/-! ## What the operations come to -/

theorem run_require (r : Registry) (id : CourseId) :
    (require id).run r =
      match r.find? id with
      | none => .error (.courseNotFound id) r
      | some c => .ok c r := by
  simp only [require, EStateM.run_bind, EStateM.run_get]
  cases r.find? id <;> rfl

theorem run_register (r : Registry) (course : Course) (allowed : OpcodeSet) (now : Time) :
    (register course allowed now).run r =
      if (Text.trim course.name.toList).isEmpty then .error .blankName r
      else
        match r.nextId.succ? with
        | none => .error .idsExhausted r
        | some next =>
          if r.contains r.nextId then .error (.alreadyRegistered r.nextId) r
          else
            .ok r.nextId
              ({ r with nextId := next }.insert
                ⟨.fresh r.nextId course.name allowed now, course⟩) := by
  unfold register
  split
  · rfl
  · simp only [EStateM.run_bind, EStateM.run_get]
    cases r.nextId.succ? with
    | none => rfl
    | some next =>
      simp only [EStateM.run_bind, EStateM.run_get]
      split <;> rfl

theorem run_restore (r : Registry) (record : CourseRecord) (course : Course) :
    (restore record course).run r =
      if r.contains record.id then .error (.alreadyRegistered record.id) r
      else .ok () ({ r with nextId := r.nextAfter record.id }.insert ⟨record, course⟩) := by
  simp only [restore, EStateM.run_bind, EStateM.run_get]
  split <;> rfl

theorem run_setAllowed (r : Registry) (id : CourseId) (allowed : OpcodeSet) :
    (setAllowed id allowed).run r =
      match r.find? id with
      | none => .error (.courseNotFound id) r
      | some c =>
        .ok c.record.allowed (r.insert { c with record := { c.record with allowed } }) := by
  simp only [setAllowed, EStateM.run_bind, run_require]
  cases r.find? id <;> rfl

theorem run_recordSolution (r : Registry) (id : CourseId) (player : Player) (cost : Cost) :
    (recordSolution id player cost).run r =
      match r.find? id with
      | none => .error (.courseNotFound id) r
      | some c =>
        .ok (c.record.change player cost)
          (r.insert { c with record := c.record.credit player cost }) := by
  simp only [recordSolution, EStateM.run_bind, run_require]
  cases r.find? id <;> rfl

end Registry

end CodeGolf
