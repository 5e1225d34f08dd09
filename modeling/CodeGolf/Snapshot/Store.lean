import CodeGolf.Directory
import CodeGolf.Snapshot.Codec

/-!
# Snapshots in files

A snapshot is first written to a temporary file and then renamed, so that a file never holds
half a snapshot. The temporary file stands beside the file itself: its name has the extension
`tmp` in the place of the last extension. If renaming fails, the temporary file stays.
-/

namespace CodeGolf

namespace Directory

/-- A reversed path without the slashes and the names `.` at its end. -/
def trimReversed : List Char → List Char
  | '/' :: rest => trimReversed rest
  | '.' :: '/' :: rest => trimReversed rest
  | path => path

/-- A reversed file name without its last extension; a dot that starts the name starts no
extension. -/
def stemReversed (name : List Char) : List Char :=
  match name.dropWhile (· != '.') with
  | '.' :: c :: rest => c :: rest
  | _ => name

/-- The path of the temporary file for a path; the path itself if it names no file. -/
def temporaryPath (path : String) : String :=
  let reversed := trimReversed path.toList.reverse
  let name := reversed.takeWhile (· != '/')
  let folder := reversed.dropWhile (· != '/')
  if name.isEmpty || name == ['.'] || name == ['.', '.'] then path
  else String.ofList (stemReversed name ++ folder).reverse ++ ".tmp"

end Directory

/-- Why a snapshot cannot be saved or loaded. -/
inductive StoreError where
  | file (path : String) (fault : FileFault)
  | content (fault : Snapshot.DecodeError)

/-- The wording of a fault. -/
def StoreError.message : StoreError → String
  | .file path fault => path ++ ": " ++ fault.message
  | .content fault => fault.message

/-- What every line about a snapshot that cannot be used starts with. -/
def Snapshot.errorMessage (reason : String) : String := "Snapshot error: " ++ reason

/-- The snapshot that the content of a file holds. -/
def Snapshot.ofFile (path : String) : Except FileFault Bytes → Except StoreError Snapshot
  | .error fault => .error (.file path fault)
  | .ok content => (Snapshot.decode content).mapError .content

namespace Directory

/-- Saves a snapshot under a path. -/
def save (d : Directory) (path : String) (s : Snapshot) : Except StoreError Unit × Directory :=
  let temporary := temporaryPath path
  match d.write temporary s.encode with
  | .error fault => (.error (.file temporary fault), d)
  | .ok written =>
    match written.rename temporary path with
    | .error fault => (.error (.file path fault), written)
    | .ok renamed => (.ok (), renamed)

/-- Loads the snapshot of a path. -/
def load (d : Directory) (path : String) : Except StoreError Snapshot :=
  Snapshot.ofFile path (d.read path)

end Directory

end CodeGolf
