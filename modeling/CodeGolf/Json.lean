import CodeGolf.Bytes.Hex

/-!
# JSON values

A value keeps of its text what a reader may have to tell apart: numbers stay as they are
written, strings are code points (an escape may name half of a surrogate pair, which is a code
point but no character), and objects keep their members in order, repeated names included.

Two printers give a value its text: `compact` without any blank, `pretty` with one member or
item a line and two spaces for each level.
-/

namespace CodeGolf

/-- A number as it is written. -/
structure Numeral where
  negative : Bool
  /-- The digits before a fraction or an exponent, which have no leading zeros. -/
  whole : Nat
  /-- The fraction and the exponent, sign, point and mark included; empty for an integer. -/
  tail : List Char
  deriving DecidableEq

/-- The text of a number. -/
def Numeral.render (n : Numeral) : List Char :=
  (if n.negative then ['-'] else []) ++ Nat.toDigits 10 n.whole ++ n.tail

/-- The number of an integer numeral without a sign. -/
def Numeral.nat? (n : Numeral) : Option Nat :=
  if !n.negative && n.tail.isEmpty then some n.whole else none

/-- A JSON value. -/
inductive Json where
  | null
  | bool (value : Bool)
  | number (value : Numeral)
  | string (points : List Nat)
  | array (items : List Json)
  | object (members : List (List Nat × Json))

namespace Json

/-! ## Parts -/

/-- The code points of a text. -/
def pointsOf (text : String) : List Nat := text.toList.map Char.toNat

/-- The character of a code point, unless the point is half of a surrogate pair. -/
def charOf? (point : Nat) : Option Char :=
  if point.isValidChar then some (Char.ofNat point) else none

/-- The text with the given code points, if each of them is a character. -/
def textOf? (points : List Nat) : Option String := (points.mapM charOf?).map String.ofList

/-- A text as a value. -/
def ofText (text : String) : Json := .string (pointsOf text)

/-- A number as a value. -/
def ofNat (n : Nat) : Json := .number ⟨false, n, []⟩

/-- A value or null. -/
def ofOption {α : Type} (write : α → Json) : Option α → Json
  | none => .null
  | some a => write a

/-- An object with members named by texts. -/
def record (members : List (String × Json)) : Json :=
  .object (members.map fun (name, value) => (pointsOf name, value))

theorem charOf?_toNat (c : Char) : charOf? c.toNat = some c := by
  have h : c.toNat.isValidChar := c.valid
  rw [charOf?, if_pos h, Char.ofNat_toNat]

theorem textOf?_pointsOf (text : String) : textOf? (pointsOf text) = some text := by
  have h : ∀ cs : List Char, (cs.map Char.toNat).mapM charOf? = some cs := by
    intro cs
    induction cs with
    | nil => rfl
    | cons c rest ih => rw [List.map_cons, List.mapM_cons, charOf?_toNat, ih]; rfl
  rw [textOf?, pointsOf, h, Option.map_some, String.ofList_toList]

/-! ## Strings -/

/-- Four hexadecimal digits. -/
def fourDigits (n : Nat) : List Char := Hex.digits (Bytes.bigEndian 2 n)

/-- A code point as it stands in a string. -/
def escape (point : Nat) : List Char :=
  if point = 0x22 then ['\\', '"']
  else if point = 0x5C then ['\\', '\\']
  else if point = 0x08 then ['\\', 'b']
  else if point = 0x09 then ['\\', 't']
  else if point = 0x0A then ['\\', 'n']
  else if point = 0x0C then ['\\', 'f']
  else if point = 0x0D then ['\\', 'r']
  else if point < 0x20 || !point.isValidChar then '\\' :: 'u' :: fourDigits point
  else [Char.ofNat point]

/-- A string between its quotes. -/
def quoted (points : List Nat) : List Char := '"' :: points.flatMap escape ++ ['"']

/-! ## Compact text -/

mutual

/-- The text of a value without blanks. -/
def compact : Json → List Char
  | .null => "null".toList
  | .bool true => "true".toList
  | .bool false => "false".toList
  | .number n => n.render
  | .string points => quoted points
  | .array items => '[' :: compactItems items ++ [']']
  | .object members => '\x7b' :: compactMembers members ++ ['\x7d']

/-- The items of an array, with commas between them. -/
def compactItems : List Json → List Char
  | [] => []
  | [v] => compact v
  | v :: w :: rest => compact v ++ ',' :: compactItems (w :: rest)

/-- The members of an object, with commas between them. -/
def compactMembers : List (List Nat × Json) → List Char
  | [] => []
  | [(k, v)] => quoted k ++ ':' :: compact v
  | (k, v) :: m :: rest => quoted k ++ ':' :: compact v ++ ',' :: compactMembers (m :: rest)

end

/-! ## Text over several lines -/

/-- A line break and the blanks that start a line at a level. -/
def newLine (level : Nat) : List Char := '\n' :: List.replicate (2 * level) ' '

mutual

/-- The text of a value that starts at a level, over several lines. -/
def prettyAt (level : Nat) : Json → List Char
  | .null => "null".toList
  | .bool true => "true".toList
  | .bool false => "false".toList
  | .number n => n.render
  | .string points => quoted points
  | .array [] => ['[', ']']
  | .array (v :: rest) =>
    '[' :: newLine (level + 1) ++ prettyAt (level + 1) v ++ prettyItems (level + 1) rest ++
      newLine level ++ [']']
  | .object [] => ['\x7b', '\x7d']
  | .object ((k, v) :: rest) =>
    '\x7b' :: newLine (level + 1) ++ quoted k ++ ':' :: ' ' :: prettyAt (level + 1) v ++
      prettyMembers (level + 1) rest ++ newLine level ++ ['\x7d']

/-- The items after the first. -/
def prettyItems (level : Nat) : List Json → List Char
  | [] => []
  | v :: rest => ',' :: newLine level ++ prettyAt level v ++ prettyItems level rest

/-- The members after the first. -/
def prettyMembers (level : Nat) : List (List Nat × Json) → List Char
  | [] => []
  | (k, v) :: rest =>
    ',' :: newLine level ++ quoted k ++ ':' :: ' ' :: prettyAt level v ++ prettyMembers level rest

end

/-- The text of a value over several lines. -/
def pretty (value : Json) : List Char := prettyAt 0 value

end Json

end CodeGolf
