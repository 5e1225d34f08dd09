import CodeGolf.Player
import CodeGolf.Course
import CodeGolf.Table

/-!
# Pars

A par is the best that one player has done on one course. It begins with the player's first
accepted submission, only a strictly lower cost improves it, and it is never removed. Pars are
kept by course and, within a course, by player.
-/

namespace CodeGolf

/-- The best of one player on one course. -/
structure Par where
  course : CourseId
  holder : Player
  bestCost : Cost
  /-- The number of accepted submissions of the player on the course. -/
  submissions : UInt64
  createdAt : Time
  /-- When the lowest cost was first reached. -/
  bestAt : Time
  deriving DecidableEq

namespace Par

/-- The position of the par of a player on a course: by course, then by player. -/
def position (course : CourseId) (holder : Player) : Nat :=
  course.rank <<< 256 + holder.key.toNat

/-- The position of a par. -/
def rank (p : Par) : Nat := position p.course p.holder

/-- The place of a par in the standings of its course: by cost, then by the time when the cost
was reached, then by player. -/
def standing (p : Par) : Nat :=
  (p.bestCost.toNat <<< 64 + p.bestAt.toNat) <<< 256 + p.holder.key.toNat

/-- The par that a first submission begins. -/
def fresh (course : CourseId) (holder : Player) (cost : Cost) (now : Time) : Par where
  course := course
  holder := holder
  bestCost := cost
  submissions := 1
  createdAt := now
  bestAt := now

/-- The par after one more submission. -/
def credit (p : Par) (cost : Cost) (now : Time) : Par :=
  if cost < p.bestCost then
    { p with submissions := p.submissions + 1, bestCost := cost, bestAt := now }
  else { p with submissions := p.submissions + 1 }

end Par

/-- What a submission did to a par. -/
inductive ParChange where
  | created
  /-- It lowered the cost, which was `previous` before. -/
  | improved (previous : Cost)
  /-- It was counted and left the cost at `best`. -/
  | unchanged (best : Cost)
  deriving DecidableEq

/-- The pars of a board. -/
structure Pars where
  table : Table Par.rank

namespace Pars

/-- No pars. -/
def empty : Pars := ⟨.empty⟩

/-- The par of a player on a course. -/
def find? (pars : Pars) (course : CourseId) (holder : Player) : Option Par :=
  pars.table.find? (Par.position course holder)

/-- All pars, by course and then by player. -/
def toList (pars : Pars) : List Par := pars.table.toList

/-- The number of pars. -/
def size (pars : Pars) : Nat := pars.table.size

/-- Counts a submission of a player on a course. -/
def credit (pars : Pars) (course : CourseId) (holder : Player) (cost : Cost) (now : Time) :
    ParChange × Pars :=
  match pars.find? course holder with
  | none => (.created, ⟨pars.table.insert (.fresh course holder cost now)⟩)
  | some p =>
    (if cost < p.bestCost then .improved p.bestCost else .unchanged p.bestCost,
      ⟨pars.table.insert (p.credit cost now)⟩)

/-- Puts back a par that was kept elsewhere, unless the player has one on the course, and answers
whether it did. -/
def restore (pars : Pars) (p : Par) : Bool × Pars :=
  if pars.table.contains p.rank then (false, pars) else (true, ⟨pars.table.insert p⟩)

/-- The pars at the positions from one to another, both of them included. -/
def between (pars : Pars) (first last : Nat) : List Par :=
  pars.toList.filter fun p => first ≤ p.rank ∧ p.rank ≤ last

/-- The pars on a course, the best first: those from the least to the greatest player on it. -/
def standings (pars : Pars) (course : CourseId) : List Par :=
  (pars.between (Par.position course .least) (Par.position course .greatest)).mergeSort
    fun p q => p.standing ≤ q.standing

/-- The pars of a player, by course. -/
def ofPlayer (pars : Pars) (holder : Player) : List Par :=
  pars.toList.filter fun p => p.holder == holder

end Pars

end CodeGolf
