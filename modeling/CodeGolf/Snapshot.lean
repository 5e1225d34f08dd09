import CodeGolf.Commitment.Ledger
import CodeGolf.Course.Record
import CodeGolf.Par

/-!
# Snapshots

A snapshot is all that is kept of a board, apart from the courses themselves: a board can be
put together again from a snapshot once each record is bound to its course.
-/

namespace CodeGolf

/-- What is kept of a board. -/
structure Snapshot where
  takenAt : Time
  courses : List CourseRecord
  commitments : List (Digest × Commitment)
  pars : List Par
  deriving DecidableEq

end CodeGolf
