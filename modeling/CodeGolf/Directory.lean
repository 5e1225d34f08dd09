import CodeGolf.Bytes.Utf8

/-!
# Directories

A directory holds files and folders by path. A path is walked name by name: every name but the
last has to be a folder, `.` stays and `..` goes up. A name that ends in a slash can only be that
of a folder.

A walk may leave the directory. The folders above it are the places `[".."]`, `["..", ".."]` and
so on, and a path that starts with a slash starts at the place `["/"]`, above which there is only
itself; files elsewhere have places that begin so. No file has such a name, so these places are
never those of a file in the directory.
-/

namespace CodeGolf

/-- Why a file cannot be read or written. -/
inductive FileFault where
  | notFound
  | notFolder
  | isFolder
  | nameTooLong
  /-- The folder that a name stands for is in use. -/
  | busy
  /-- The file is not for the program to read. -/
  | denied
  /-- The name has a character that no file's name can have. -/
  | nulInName
  | other (reason : String)
  deriving DecidableEq

/-- The wording of a fault. -/
def FileFault.message : FileFault → String
  | .notFound => "No such file or directory (os error 2)"
  | .notFolder => "Not a directory (os error 20)"
  | .isFolder => "Is a directory (os error 21)"
  | .busy => "Device or resource busy (os error 16)"
  | .denied => "Permission denied (os error 13)"
  | .nameTooLong => "File name too long (os error 36)"
  | .nulInName => "file name contained an unexpected NUL byte"
  | .other reason => reason

/-- What a path leads to. -/
inductive Entry where
  | file (content : Bytes)
  | folder

/-- A directory: each place with what is there, the latest first. -/
structure Directory where
  /-- The places, each as the list of its names. -/
  entries : List (List String × Entry)

namespace Directory

/-- The directory without files. -/
def empty : Directory := ⟨[]⟩

/-- The place above all others. -/
def root : List String := ["/"]

/-- Whether a place is the directory itself or above it. -/
def isAbove (place : List String) : Bool := place.all (· == "..") || place == root

/-- Whether a place is in the directory. -/
def isInside (place : List String) : Bool :=
  place.head? != some ".." && place.head? != root.head?

/-- What is at a place. -/
def find? (d : Directory) (place : List String) : Option Entry :=
  if isAbove place then some .folder else d.entries.lookup place

/-- The directory without what is at a place. -/
def erase (d : Directory) (place : List String) : Directory :=
  ⟨d.entries.filter fun entry => entry.1 != place⟩

/-- The directory with a new entry at a place. -/
def insert (d : Directory) (place : List String) (entry : Entry) : Directory :=
  ⟨(place, entry) :: (d.erase place).entries⟩

/-! ## Paths -/

/-- The names between the slashes of a path. -/
def names (path : String) : List String :=
  ((path.toList.splitOn '/').map String.ofList).filter fun name => !name.isEmpty

/-- Whether a path ends in a slash. -/
def endsInSlash (path : String) : Bool := path.toList.getLast? == some '/'

/-- The number of bytes of a text. -/
def byteLength (text : String) : Nat := (Utf8.encode text.toList).length

/-- The place above a place. -/
def above (place : List String) : List String :=
  if place == root then root else if isAbove place then ".." :: place else place.dropLast

/-- Follows the names of a path from the folder `here`; answers with the place they lead to and
with what is there. -/
def walk (d : Directory) (here : List String) :
    List String → Except FileFault (List String × Option Entry)
  | [] => .ok (here, d.find? here)
  | name :: rest =>
    let next := if name = "." then here else if name = ".." then above here else here ++ [name]
    if 255 < byteLength name then .error .nameTooLong
    else
      match d.find? next with
      | some .folder => d.walk next rest
      | some (.file content) =>
        if rest.isEmpty then .ok (next, some (.file content)) else .error .notFolder
      | none => if rest.isEmpty then .ok (next, none) else .error .notFound

/-- The place that a path starts from. -/
def start (path : String) : List String := if path.toList.head? == some '/' then root else []

/-- Follows a path from where it starts. -/
def resolve (d : Directory) (path : String) : Except FileFault (List String × Option Entry) :=
  if path.toList.contains '\x00' then .error .nulInName
  else if 4096 ≤ byteLength path then .error .nameTooLong
  else if path.isEmpty then .error .notFound
  else d.walk (start path) (names path)

/-! ## Files -/

/-- The content of a file. -/
def read (d : Directory) (path : String) : Except FileFault Bytes :=
  match d.resolve path with
  | .error fault => .error fault
  | .ok (_, none) => .error .notFound
  | .ok (_, some .folder) => .error .isFolder
  | .ok (_, some (.file content)) =>
    if endsInSlash path then .error .notFolder else .ok content

/-- The directory with a file of the given content. -/
def write (d : Directory) (path : String) (content : Bytes) : Except FileFault Directory :=
  match d.resolve path with
  | .error fault => .error fault
  | .ok (_, some .folder) => .error .isFolder
  | .ok (place, _) =>
    if endsInSlash path then .error .isFolder else .ok (d.insert place (.file content))

/-- The directory with a file under another name; a file that had the name is replaced. -/
def rename (d : Directory) (source target : String) : Except FileFault Directory :=
  match d.resolve source, d.resolve target with
  | .error fault, _ => .error fault
  | _, .error fault => .error fault
  | .ok (_, none), _ => .error .notFound
  | .ok (old, some entry), .ok (new, there) =>
    if (names target).getLast? == some "." then .error .busy
    else if endsInSlash target then .error .notFolder
    else
      match there with
      | some .folder => .error .isFolder
      | _ => .ok ((d.erase old).insert new entry)

end Directory

end CodeGolf
