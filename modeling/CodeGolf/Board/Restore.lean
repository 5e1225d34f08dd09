import CodeGolf.Board
import CodeGolf.Snapshot

/-!
# Boards from snapshots

A board is put together from a snapshot record by record. Each course record has to be
consistent, has to be bound to a course, and has to have an id of its own; each par has to
name one of these courses and has to be the only one of its player on it. Of two commitments
with the same key the later one stays.
-/

namespace CodeGolf

/-- Why a snapshot is not the snapshot of a board. -/
inductive RestoreError where
  | inconsistent (id : CourseId) (problem : Inconsistency)
  /-- A record is bound to no course. -/
  | unbound (id : CourseId) (name : String)
  | registry (reason : RegistryError)
  /-- A par names a course without a record. -/
  | unknownCourse (id : CourseId)
  | duplicatePar (id : CourseId)

/-- The wording of a fault. -/
def RestoreError.message : RestoreError → String
  | .inconsistent id problem =>
    "course " ++ toString id ++ " is inconsistent: " ++ problem.message
  | .unbound id name => "no course bound for id " ++ toString id ++ " (" ++ name ++ ")"
  | .registry reason => reason.message
  | .unknownCourse id => "par references unknown course " ++ toString id
  | .duplicatePar id => "duplicate par on course " ++ toString id

/-- Adds a record to the courses. -/
def Registry.restoreRecord (resolve : CourseRecord → Option Course) (r : Registry)
    (record : CourseRecord) : Except RestoreError Registry :=
  match record.inconsistency? with
  | some problem => .error (.inconsistent record.id problem)
  | none =>
    match resolve record with
    | none => .error (.unbound record.id record.name)
    | some course =>
      match (Registry.restore record course).run r with
      | .ok _ r => .ok r
      | .error reason _ => .error (.registry reason)

/-- Adds a par to the pars on the given courses. -/
def Pars.restorePar (r : Registry) (pars : Pars) (p : Par) : Except RestoreError Pars :=
  if r.contains p.course then
    match pars.restore p with
    | (false, _) => .error (.duplicatePar p.course)
    | (true, pars) => .ok pars
  else .error (.unknownCourse p.course)

/-- The board of a snapshot, with the standard validator and the standard deployer; `resolve`
binds each record to its course. -/
def Board.restore (config : Config) (admin : AdminPolicy) (snapshot : Snapshot)
    (resolve : CourseRecord → Option Course) : Except RestoreError Board := do
  let registry ← snapshot.courses.foldlM (Registry.restoreRecord resolve) .empty
  let pars ← snapshot.pars.foldlM (Pars.restorePar registry) .empty
  let ledger :=
    Ledger.ofList snapshot.commitments config.minCommitAge config.singleUseCommitments
  .ok { Board.new config admin with registry, pars, ledger }

end CodeGolf
