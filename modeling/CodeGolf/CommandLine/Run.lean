import CodeGolf.Bytecode
import CodeGolf.CommandLine.Invocation
import CodeGolf.CommandLine.Opcode
import CodeGolf.Commitment.Key
import CodeGolf.Config.File
import CodeGolf.Snapshot.Render
import CodeGolf.Snapshot.Store

/-!
# Running a command

A command reads at most one file and prints lines. It succeeds, fails without a word (`check`,
when the code does not pass), or fails with a reason and perhaps the cause of the reason.
-/

namespace CodeGolf.CommandLine

/-- What is left when the program is done. -/
structure Outcome where
  status : Nat
  output : String
  report : String

/-- Why a command failed. -/
structure Failure where
  reason : String
  cause : Option String := none

/-- What was reported of a failure: a line for the reason, and the cause set off below. -/
def Failure.report (f : Failure) : String :=
  "Error: " ++ f.reason ++
    match f.cause with
    | none => ""
    | some cause => "\n\nCaused by:\n    " ++
        String.ofList (cause.toList.flatMap fun c => if c = '\n' then "\n    ".toList else [c])

/-- What a command printed, and whether it is content. -/
structure Printed where
  lines : List String
  passed : Bool := true

/-- The outcome of a command. -/
def Outcome.of : Except Failure Printed → Outcome
  | .error failure => ⟨1, "", failure.report⟩
  | .ok printed =>
    ⟨if printed.passed then 0 else 1, String.join (printed.lines.map (· ++ "\n")), ""⟩

/-- The program exits with this status if no command takes the arguments. -/
def Outcome.usageStatus : Nat := 2

/-! ## Values -/

/-- The bytes that digits spell. -/
def bytesOf (reason text : String) : Except Failure Bytes :=
  (Hex.decode (Hex.withoutMarker text.toList)).mapError fun fault => ⟨reason, some fault.message⟩

/-- The set of all opcodes but those that texts spell. -/
def setDenying (tokens : List String) : Except Failure OpcodeSet :=
  match opcodesOf tokens with
  | .error fault =>
    .error ⟨"Invalid opcode '" ++ fault.token ++ "'", some fault.fault.message⟩
  | .ok opcodes => .ok (OpcodeSet.allExcept opcodes)

/-- The set that an allow-list spells. -/
def AllowList.set : AllowList → Except Failure OpcodeSet
  | .digits text =>
    (OpcodeSet.parse text).mapError fun fault =>
      { reason := "Invalid allow-list: " ++ OpcodeSet.parseErrorMessage fault }
  | .denying tokens => setDenying tokens

/-! ## Commands -/

section

variable (read : String → Except FileFault Bytes)

/-- The code of a source. -/
def CodeSource.code : CodeSource → Except Failure Bytes
  | .digits text => bytesOf "Invalid code hex" text
  | .file path =>
    (read path).mapError fun fault => ⟨"Failed to read " ++ path, some fault.message⟩

/-- Checks code: prints the verdict. -/
def printVerdict (source : Option CodeSource) (allowed : AllowList) : Except Failure Printed := do
  let code ←
    match source with
    | none => .error { reason := "Provide exactly one of --code or --file" }
    | some source => source.code read
  let allowed ← allowed.set
  let verdict := scan allowed code
  return { lines := [verdict.message], passed := verdict.isValid }

/-- Prints the key of a commitment. -/
def printKey (player solution salt : String) : Except Failure Printed := do
  let player ← (Player.parse player).mapError fun fault =>
    { reason := "Invalid player: " ++ Player.parseErrorMessage fault : Failure }
  let solution ← bytesOf "Invalid solution hex" solution
  let salt ← bytesOf "Invalid salt hex" salt
  if salt.length = 32 then
    return { lines := ["0x" ++ (commitmentKey player solution (Word.ofBytes salt)).hex] }
  else .error { reason := "Salt must be 32 bytes" }

/-- Prints an allow-list. -/
def printAllowList (denied : List String) : Except Failure Printed := do
  let set ← setDenying denied
  return { lines := [set.render] }

/-- Prints the settings of a file, or the usual ones. -/
def printConfig (path : Option String) : Except Failure Printed := do
  let config ←
    match path with
    | none => .ok {}
    | some path =>
      (Config.ofFile path (read path)).mapError fun fault =>
        ⟨"Failed to load config " ++ path, some fault.message⟩
  return { lines := [config.render] }

/-- Prints a snapshot. -/
def printSnapshot (path : String) (full : Bool) : Except Failure Printed := do
  let snapshot ← (Snapshot.ofFile path (read path)).mapError fun fault =>
    (⟨"Failed to load snapshot " ++ path, some (Snapshot.errorMessage fault.message)⟩ : Failure)
  return { lines := if full then [String.ofList snapshot.toJson.pretty] else snapshot.summary }

/-- The outcome of an invocation, where `read` gives the content of files. -/
def Invocation.run (i : Invocation) : Outcome :=
  .of <|
    match i.command with
    | .check source allowed => printVerdict read source allowed
    | .commitKey player solution salt => printKey player solution salt
    | .allowList denied => printAllowList denied
    | .config => printConfig read i.config
    | .inspectSnapshot path full => printSnapshot read path full

/-- The outcome of the program, with the value of its variable in the environment and the
arguments. -/
def run (environment : Option String) (arguments : List String) : Outcome :=
  match Request.parse? environment arguments with
  | none => ⟨Outcome.usageStatus, "", usage⟩
  | some (.help page) => .of (.ok { lines := [page.plain] })
  | some (.run invocation) => invocation.run read
where
  /-- What is reported if no command takes the arguments. -/
  usage : String := "Usage: " ++ (Request.programPage environment).usage

end

/-- The file that an invocation reads, if it reads one. -/
def Invocation.file? (i : Invocation) : Option String :=
  match i.command with
  | .check (some (.file path)) _ => some path
  | .config => i.config
  | .inspectSnapshot path _ => some path
  | _ => none

/-- The file that a request needs, if it needs one. -/
def Request.file? : Request → Option String
  | .help _ => none
  | .run invocation => invocation.file?

end CodeGolf.CommandLine
