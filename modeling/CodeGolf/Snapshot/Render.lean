import CodeGolf.Json
import CodeGolf.Snapshot
import CodeGolf.Text.Padded

/-!
# Snapshots as text

A snapshot is shown either in full, as a JSON value in which a key is the list of its bytes, or
as a few lines with one line for each course.
-/

namespace CodeGolf.Snapshot

/-! ## In full -/

/-- A number of 64 bits as a value. -/
def word64Json (n : UInt64) : Json := .ofNat n.toNat

/-- A word as the list of its bytes. -/
def wordJson (w : Word) : Json := .array (w.toBytes.map fun b => .ofNat b.toNat)

/-- A course record as a value. -/
def recordJson (r : CourseRecord) : Json :=
  .record
    [("id", .ofNat r.id.number.toNat),
      ("name", .ofText r.name),
      ("allowed", .ofText r.allowed.hex),
      ("leading_cost", word64Json r.leadingCost),
      ("title_holder", .ofOption (fun p => wordJson p.key) r.titleHolder),
      ("solution_count", word64Json r.solutionCount),
      ("title_changes", word64Json r.titleChanges),
      ("registered_at", word64Json r.registeredAt)]

/-- A commitment as a value. -/
def commitmentJson (c : Commitment) : Json :=
  .record
    [("player", wordJson c.player.key),
      ("committed_at", word64Json c.committedAt),
      ("revealed_at", .ofOption word64Json c.revealedAt)]

/-- A par as a value. -/
def parJson (p : Par) : Json :=
  .record
    [("course_id", .ofNat p.course.number.toNat),
      ("holder", wordJson p.holder.key),
      ("best_cost", word64Json p.bestCost),
      ("submissions", word64Json p.submissions),
      ("created_at", word64Json p.createdAt),
      ("best_at", word64Json p.bestAt)]

/-- A snapshot as a value. -/
def toJson (s : Snapshot) : Json :=
  .record
    [("taken_at", word64Json s.takenAt),
      ("courses", .array (s.courses.map recordJson)),
      ("commitments",
        .array (s.commitments.map fun (key, c) => .array [wordJson key, commitmentJson c])),
      ("pars", .array (s.pars.map parJson))]

/-! ## In a few lines -/

/-- The line of a course. -/
def recordLine (r : CourseRecord) : String :=
  "  #" ++ toString r.id ++ " " ++ Text.padded 20 r.name ++
    " leading=" ++ toString r.leadingCost ++
    " holder=" ++ (match r.titleHolder with | none => "-" | some p => p.short) ++
    " solutions=" ++ toString r.solutionCount ++
    " title_changes=" ++ toString r.titleChanges

/-- The lines that sum up a snapshot. -/
def summary (s : Snapshot) : List String :=
  let revealed := s.commitments.countP fun entry => entry.2.isRevealed
  ["Snapshot taken at " ++ toString s.takenAt,
    "Courses (" ++ toString s.courses.length ++ "):"] ++
  s.courses.map recordLine ++
  ["Commitments: " ++ toString s.commitments.length ++ " (" ++ toString revealed ++ " revealed)",
    "Pars: " ++ toString s.pars.length]

end CodeGolf.Snapshot
