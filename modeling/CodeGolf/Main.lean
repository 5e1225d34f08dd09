import CodeGolf.CommandLine.Run

/-!
# The program

Reads the arguments and the environment, reads the one file that the request needs, prints
the outcome and exits with its status. What the outcome is, is decided elsewhere.
-/

open CodeGolf CodeGolf.CommandLine

/-- The number that the system has for an error, which may be reported below zero. -/
def systemNumber (code : UInt32) : UInt32 := if code < 0x80000000 then code else 0 - code

/-- The fault that an error of the file system stands for. -/
def fileFault : IO.Error → FileFault
  | .noFileOrDirectory .. => .notFound
  | .inappropriateType _ code _ => if systemNumber code = 21 then .isFolder else .notFolder
  | .permissionDenied .. => .denied
  | .invalidArgument _ code reason =>
    if systemNumber code = 36 then .nameTooLong else .other reason
  | error => .other (toString error)

/-- The content of a file. -/
def readFile (path : String) : IO (Except FileFault Bytes) := do
  try
    let content ← IO.FS.readBinFile path
    return .ok content.toList
  catch error => return .error (fileFault error)

/-- The program. -/
def main (arguments : List String) : IO UInt32 := do
  let environment ← IO.getEnv Request.variableName
  let file := (Request.parse? environment arguments).bind Request.file?
  let content : Except FileFault Bytes ←
    match file with
    | none => pure (.error .notFound)
    | some path => readFile path
  let outcome := run (fun _ => content) environment arguments
  IO.print outcome.output
  unless outcome.report.isEmpty do
    IO.eprintln outcome.report
  return UInt32.ofNat outcome.status
