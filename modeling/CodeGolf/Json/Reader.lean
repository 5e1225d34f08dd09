import CodeGolf.Json.Token

/-!
# Reading JSON

The tokens of a text drive a machine. Its stack holds the arrays and objects that are open,
innermost first, with what they hold so far; the rest of its state says what may come next.
The depth of nesting is bounded by nothing but the text.
-/

namespace CodeGolf.Json

/-- An array or an object that is still open, with its contents in reverse order. -/
inductive Frame where
  /-- An array with these items. -/
  | items (done : List Json)
  /-- An object with these members, whose next member has a name already. -/
  | members (done : List (List Nat × Json)) (key : List Nat)

/-- What has been read. -/
inductive State where
  /-- A value has to come. -/
  | value (stack : List Frame)
  /-- An array was opened: an item or the closing bracket has to come. -/
  | firstItem (stack : List Frame)
  /-- An object was opened: a name or the closing brace has to come. -/
  | firstKey (stack : List Frame)
  /-- A comma was read in an object: a name has to come. -/
  | nextKey (done : List (List Nat × Json)) (stack : List Frame)
  /-- A name was read: the colon after it has to come. -/
  | afterKey (done : List (List Nat × Json)) (key : List Nat) (stack : List Frame)
  /-- A value was read: a comma, a closing bracket or brace, or the end has to come. -/
  | after (v : Json) (stack : List Frame)

/-- The state after a token that starts a value, or is one. -/
def begin (stack : List Frame) : Token → Option State
  | .null => some (.after .null stack)
  | .bool b => some (.after (.bool b) stack)
  | .number n => some (.after (.number n) stack)
  | .string ps => some (.after (.string ps) stack)
  | .openBracket => some (.firstItem stack)
  | .openBrace => some (.firstKey stack)
  | _ => none

/-- The state after a token. -/
def State.next : State → Token → Option State
  | .value stack, t => begin stack t
  | .firstItem stack, .closeBracket => some (.after (.array []) stack)
  | .firstItem stack, t => begin (.items [] :: stack) t
  | .firstKey stack, .closeBrace => some (.after (.object []) stack)
  | .firstKey stack, .string k => some (.afterKey [] k stack)
  | .nextKey done stack, .string k => some (.afterKey done k stack)
  | .afterKey done k stack, .colon => some (.value (.members done k :: stack))
  | .after v (.items done :: stack), .comma => some (.value (.items (v :: done) :: stack))
  | .after v (.items done :: stack), .closeBracket =>
    some (.after (.array (v :: done).reverse) stack)
  | .after v (.members done k :: stack), .comma => some (.nextKey ((k, v) :: done) stack)
  | .after v (.members done k :: stack), .closeBrace =>
    some (.after (.object ((k, v) :: done).reverse) stack)
  | _, _ => none

/-- The value that a list of tokens spells. -/
def ofTokens? (tokens : List Token) : Option Json :=
  match tokens.foldlM State.next (.value []) with
  | some (.after v []) => some v
  | _ => none

/-- The value that a text spells, with blanks allowed around every token. -/
def parse? (text : List Char) : Option Json := (Token.tokens? text).bind ofTokens?

end CodeGolf.Json
