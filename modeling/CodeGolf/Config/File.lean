import CodeGolf.Config
import CodeGolf.Directory

/-!
# Settings in files

The settings of a board can stand in a file of UTF-8 text.
-/

namespace CodeGolf

/-- Why a text or a file holds no settings. -/
inductive ConfigError where
  | file (path : String) (fault : FileFault)
  | notText (path : String)
  | malformed
  deriving DecidableEq

/-- The wording of a fault; a text without settings is not explained. -/
def ConfigError.message : ConfigError → String
  | .file path fault => "Configuration error: " ++ path ++ ": " ++ fault.message
  | .notText path => "Configuration error: " ++ path ++ ": stream did not contain valid UTF-8"
  | .malformed => "Configuration error"

namespace Config

/-- The settings that a text spells. -/
def ofText (text : String) : Except ConfigError Config :=
  match parse? text with
  | none => .error .malformed
  | some config => .ok config

/-- The settings that the content of a file spells. -/
def ofFile (path : String) : Except FileFault Bytes → Except ConfigError Config
  | .error fault => .error (.file path fault)
  | .ok content =>
    match Utf8.decode content with
    | .error _ => .error (.notText path)
    | .ok text => ofText (String.ofList text)

end Config

end CodeGolf
