import CodeGolf.Board
import CodeGolf.Snapshot

/-!
# Questions to a board

Looking a board up changes nothing. A snapshot collects all that is kept of it, each list in
the order of its keys.
-/

namespace CodeGolf.Board

/-- The record of a course. -/
def course? (b : Board) (id : CourseId) : Option CourseRecord := b.registry.record? id

/-- The records of all courses in the order of their ids. -/
def courses (b : Board) : List CourseRecord := b.registry.records

/-- Who holds the title of a course. -/
def titleHolder? (b : Board) (id : CourseId) : Option Player := b.registry.titleHolder? id

/-- The par of a player on a course. -/
def personalBest? (b : Board) (id : CourseId) (player : Player) : Option Par :=
  b.pars.find? id player

/-- The pars on a course, the best first. -/
def standings (b : Board) (id : CourseId) : List Par := b.pars.standings id

/-- The pars of a player, by course. -/
def parsOf (b : Board) (player : Player) : List Par := b.pars.ofPlayer player

/-- The commitment of a key. -/
def commitment? (b : Board) (key : Digest) : Option Commitment := b.ledger.find? key

/-- All that is kept of the board. -/
def snapshot (b : Board) (now : Time) : Snapshot where
  takenAt := now
  courses := b.registry.records
  commitments := b.ledger.toList
  pars := b.pars.toList

end CodeGolf.Board
