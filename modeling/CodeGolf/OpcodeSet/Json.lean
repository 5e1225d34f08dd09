import CodeGolf.Json.Reader
import CodeGolf.OpcodeSet

/-!
# Allow-lists as JSON

An allow-list is written as a string of its 64 digits; a string that `OpcodeSet.parse` takes is
read.
-/

namespace CodeGolf.OpcodeSet

/-- The JSON text of a set. -/
def renderJson (s : OpcodeSet) : String := String.ofList (Json.ofText s.hex).compact

/-- The set that a value spells. -/
def ofJson? : Json → Option OpcodeSet
  | .string points => (Json.textOf? points).bind fun text => (parse text).toOption
  | _ => none

/-- The set that a JSON text spells. -/
def parseJson? (text : String) : Option OpcodeSet := (Json.parse? text.toList).bind ofJson?

end CodeGolf.OpcodeSet
