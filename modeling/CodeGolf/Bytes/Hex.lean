import CodeGolf.Bytes.Utf8
import CodeGolf.Text.Quoted

/-!
# Hexadecimal text

`encode` writes a byte as two lower-case digits; `decode` reads two digits of either case as
a byte. The reader works on the bytes of the text: an odd number of them is refused before
any digit is looked at, and otherwise the first byte that is no digit is named with its
position. A text may carry the marker `0x`, which `withoutMarker` drops once.
-/

namespace CodeGolf.Hex

/-! ## Writing -/

/-- The digit of a value below sixteen. -/
def digit (n : Nat) : Char := Char.ofNat (if n < 10 then 0x30 + n else 0x57 + n)

/-- The two digits of a byte, the high half first. -/
def pair (b : UInt8) : List Char := [digit (b.toNat / 16), digit (b.toNat % 16)]

/-- The digits of a byte string. -/
def digits (bytes : Bytes) : List Char := bytes.flatMap pair

/-- The text of a byte string, two lower-case digits for each byte. -/
def encode (bytes : Bytes) : String := String.ofList (digits bytes)

/-! ## Reading -/

/-- Why a text is not hexadecimal. -/
inductive Error where
  | oddLength
  /-- The byte at `position` is no digit. -/
  | badDigit (byte : UInt8) (position : Nat)
  deriving DecidableEq

/-- The wording of a fault; the byte is shown as the character of the same number. -/
def Error.message : Error → String
  | .oddLength => "Odd number of digits"
  | .badDigit byte position =>
    "Invalid character " ++ String.ofList (Text.quote '\x27' [Char.ofNat byte.toNat]) ++
      " at position " ++ toString position

/-- The value of a digit of either case. -/
def value? (byte : UInt8) : Option Nat :=
  let n := byte.toNat
  if 0x30 ≤ n ∧ n ≤ 0x39 then some (n - 0x30)
  else if 0x41 ≤ n ∧ n ≤ 0x46 then some (n - 0x37)
  else if 0x61 ≤ n ∧ n ≤ 0x66 then some (n - 0x57)
  else none

/-- The value of a character that is a digit of either case. -/
def charValue? (c : Char) : Option Nat :=
  if c.toNat < 0x80 then value? (UInt8.ofNat c.toNat) else none

/-- Reads pairs of digits; `position` is that of the first byte. -/
def decodeFrom (position : Nat) : Bytes → Except Error Bytes
  | [] => .ok []
  | [_] => .error .oddLength
  | high :: low :: rest =>
    match value? high, value? low with
    | none, _ => .error (.badDigit high position)
    | some _, none => .error (.badDigit low (position + 1))
    | some h, some l => (decodeFrom (position + 2) rest).map (UInt8.ofNat (16 * h + l) :: ·)

/-- The byte string that a text spells. -/
def decode (text : List Char) : Except Error Bytes :=
  let bytes := Utf8.encode text
  if bytes.length % 2 = 1 then .error .oddLength else decodeFrom 0 bytes

/-- A text without the marker `0x`, which is dropped at most once. -/
def withoutMarker : List Char → List Char
  | '0' :: 'x' :: rest => rest
  | text => text

end CodeGolf.Hex
