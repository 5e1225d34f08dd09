import CodeGolf.Player
import CodeGolf.Course

/-!
# Titles

A course is untitled until its first solution; from then on somebody holds its title. The
title goes to a strictly lower cost only, so the first to reach a cost keeps it.
-/

namespace CodeGolf

/-- Who holds a course. -/
inductive Title where
  | untitled
  /-- A player reached the lowest cost so far, and was the first to do so. -/
  | held (holder : Player) (cost : Cost)
  deriving DecidableEq

namespace Title

/-- The player who holds the title. -/
def holder? : Title → Option Player
  | .untitled => none
  | .held holder _ => some holder

/-- Whether a solution of the given cost takes the title. -/
def yieldsTo (title : Title) (cost : Cost) : Bool :=
  match title with
  | .untitled => true
  | .held _ best => cost < best

end Title

/-- What a solution did to the title of its course. -/
structure TitleChange where
  /-- Whether the title moved, or was given for the first time. -/
  changed : Bool
  previousHolder : Option Player
  leadingCost : Cost
  solutionCount : UInt64
  titleChanges : UInt64

end CodeGolf
