import CodeGolf.Commitment.Ledger
import CodeGolf.Json.Reader

/-!
# Board settings

The settings of a board and their JSON text. The text is an object whose members may come in
any order, may be missing and may stand beside members with other names, which are skipped
whatever they hold; a setting given twice is refused. It may also be a list of at most three
values in the order of the settings.
-/

namespace CodeGolf

/-- The settings of a board. -/
structure Config where
  /-- The age in seconds from which a commitment may be revealed. -/
  minCommitAge : UInt64 := Ledger.standardMinAge
  /-- Whether a reveal consumes its commitment. -/
  singleUseCommitments : Bool := true
  /-- The largest solution that is looked at. -/
  maxSolutionBytes : Option UInt64 := none
  deriving DecidableEq

namespace Config

/-! ## Writing -/

/-- The settings as a value. -/
def toJson (c : Config) : Json :=
  Json.record
    [("min_commit_age", Json.ofNat c.minCommitAge.toNat),
      ("single_use_commitments", Json.bool c.singleUseCommitments),
      ("max_solution_bytes", Json.ofOption (fun n => Json.ofNat n.toNat) c.maxSolutionBytes)]

/-- The settings as text over several lines. -/
def render (c : Config) : String := String.ofList c.toJson.pretty

/-! ## Reading -/

/-- The number of 64 bits that a value spells as an integer without a sign. -/
def word? : Json → Option UInt64
  | .number n => n.nat?.bind fun k => if k < UInt64.size then some (UInt64.ofNat k) else none
  | _ => none

/-- The truth value that a value spells. -/
def flag? : Json → Option Bool
  | .bool b => some b
  | _ => none

/-- The limit that a value spells; null is the absence of a limit. -/
def limit? : Json → Option (Option UInt64)
  | .null => some none
  | v => (word? v).map some

/-- The settings that have been read. -/
structure Fields where
  age : Option UInt64 := none
  single : Option Bool := none
  limit : Option (Option UInt64) := none

/-- A setting read for the first time. -/
def once {α : Type} (given : Option α) (read : Option α) : Option (Option α) :=
  match given, read with
  | none, some a => some (some a)
  | _, _ => none

/-- Reads the first setting. -/
def Fields.readAge (f : Fields) (v : Json) : Option Fields :=
  (once f.age (word? v)).map fun age => { f with age }

/-- Reads the second setting. -/
def Fields.readSingle (f : Fields) (v : Json) : Option Fields :=
  (once f.single (flag? v)).map fun single => { f with single }

/-- Reads the third setting. -/
def Fields.readLimit (f : Fields) (v : Json) : Option Fields :=
  (once f.limit (limit? v)).map fun limit => { f with limit }

/-- Reads a member; its name has to be a text, and an unknown name is skipped. -/
def Fields.readMember (f : Fields) (member : List Nat × Json) : Option Fields :=
  match Json.textOf? member.1 with
  | none => none
  | some "min_commit_age" => f.readAge member.2
  | some "single_use_commitments" => f.readSingle member.2
  | some "max_solution_bytes" => f.readLimit member.2
  | some _ => some f

/-- The settings, with the usual ones where nothing was given. -/
def Fields.config (f : Fields) : Config :=
  let usual : Config := {}
  { minCommitAge := f.age.getD usual.minCommitAge
    singleUseCommitments := f.single.getD usual.singleUseCommitments
    maxSolutionBytes := f.limit.getD usual.maxSolutionBytes }

/-- The settings that a value spells. -/
def ofJson? : Json → Option Config
  | .object members => (members.foldlM Fields.readMember {}).map Fields.config
  | .array [] => some {}
  | .array [a] => (Fields.readAge {} a).map Fields.config
  | .array [a, b] => ((Fields.readAge {} a).bind (·.readSingle b)).map Fields.config
  | .array [a, b, c] =>
    (((Fields.readAge {} a).bind (·.readSingle b)).bind (·.readLimit c)).map Fields.config
  | _ => none

/-- The settings that a text spells. -/
def parse? (text : String) : Option Config := (Json.parse? text.toList).bind ofJson?

end Config

end CodeGolf
