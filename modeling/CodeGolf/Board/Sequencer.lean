import CodeGolf.Board.Play

/-!
# Boards with a clock

A sequencer performs one operation after the other and stamps each with the time of its clock.
The clock is moved by hand, in either direction.
-/

namespace CodeGolf

/-- A board with a clock. -/
structure Sequencer where
  board : Board
  now : Time

namespace Sequencer

/-- Moves the clock to a time. -/
def set (s : Sequencer) (now : Time) : Sequencer := { s with now }

/-- Moves the clock on; past the last time it starts again at zero. -/
def advance (s : Sequencer) (seconds : UInt64) : Sequencer := { s with now := s.now + seconds }

/-- The reply to an operation at the time of the clock. -/
def step (s : Sequencer) (action : Action) : Reply := s.board.step s.now action

/-- The sequencer after an operation. -/
def perform (s : Sequencer) (action : Action) : Sequencer :=
  { s with board := (s.step action).board }

end Sequencer

end CodeGolf
