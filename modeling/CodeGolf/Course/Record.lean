import CodeGolf.OpcodeSet
import CodeGolf.Title

/-!
# Course records

A record is what a board keeps of a course: its allow-list, its title and its counters. Any
combination of fields can be written down, so `inconsistency?` says which of them contradict
each other, in a fixed order of precedence.
-/

namespace CodeGolf

/-- What is kept of a course. -/
structure CourseRecord where
  id : CourseId
  /-- The name that the course had when it was added. -/
  name : String
  allowed : OpcodeSet
  /-- The lowest cost so far; zero while nobody holds the title. -/
  leadingCost : Cost
  titleHolder : Option Player
  solutionCount : UInt64
  /-- The number of times the title was given. -/
  titleChanges : UInt64
  registeredAt : Time
  deriving DecidableEq

/-- A contradiction between the fields of a record. -/
inductive Inconsistency where
  | moreChangesThanSolutions
  | costWithoutHolder
  | changesWithoutHolder
  | holderWithoutChange
  deriving DecidableEq

/-- The wording of a contradiction. -/
def Inconsistency.message : Inconsistency → String
  | .moreChangesThanSolutions => "more title changes than solutions"
  | .costWithoutHolder => "leading cost without a title holder"
  | .changesWithoutHolder => "title changes without a title holder"
  | .holderWithoutChange => "title holder without a title change"

namespace CourseRecord

/-- The record of a course that was just added. -/
def fresh (id : CourseId) (name : String) (allowed : OpcodeSet) (now : Time) : CourseRecord where
  id := id
  name := name
  allowed := allowed
  leadingCost := 0
  titleHolder := none
  solutionCount := 0
  titleChanges := 0
  registeredAt := now

/-- The title of the course. -/
def title (r : CourseRecord) : Title :=
  match r.titleHolder with
  | none => .untitled
  | some holder => .held holder r.leadingCost

/-- The first contradiction between the fields. -/
def inconsistency? (r : CourseRecord) : Option Inconsistency :=
  if r.solutionCount < r.titleChanges then some .moreChangesThanSolutions
  else
    match r.titleHolder with
    | none =>
      if r.leadingCost ≠ 0 then some .costWithoutHolder
      else if r.titleChanges ≠ 0 then some .changesWithoutHolder
      else none
    | some _ => if r.titleChanges = 0 then some .holderWithoutChange else none

/-- The record with one more solution, credited to `player`: the title follows if it yields to
the cost. -/
def credit (r : CourseRecord) (player : Player) (cost : Cost) : CourseRecord :=
  if r.title.yieldsTo cost then
    { r with
      leadingCost := cost
      titleHolder := some player
      titleChanges := r.titleChanges + 1
      solutionCount := r.solutionCount + 1 }
  else { r with solutionCount := r.solutionCount + 1 }

/-- What a solution of the given cost does to the title. -/
def change (r : CourseRecord) (player : Player) (cost : Cost) : TitleChange :=
  let after := r.credit player cost
  { changed := r.title.yieldsTo cost
    previousHolder := r.titleHolder
    leadingCost := after.leadingCost
    solutionCount := after.solutionCount
    titleChanges := after.titleChanges }

@[simp] theorem id_credit (r : CourseRecord) (player : Player) (cost : Cost) :
    (r.credit player cost).id = r.id := by
  rw [credit]
  split <;> rfl

/-- The fields of a record in a dump of data. -/
def describe (r : CourseRecord) : String :=
  "CourseRecord \x7b id: CourseId(" ++ toString r.id ++
    "), name: " ++ String.ofList (Text.quote '"' r.name.toList) ++
    ", allowed: " ++ r.allowed.describe ++
    ", leading_cost: " ++ toString r.leadingCost ++
    ", title_holder: " ++
      (match r.titleHolder with
      | none => "None"
      | some holder => "Some(" ++ holder.describe ++ ")") ++
    ", solution_count: " ++ toString r.solutionCount ++
    ", title_changes: " ++ toString r.titleChanges ++
    ", registered_at: " ++ toString r.registeredAt ++ " \x7d"

end CourseRecord

end CodeGolf
