import CodeGolf.Bytes.Hex
import CodeGolf.Text.Blank

/-!
# Opcodes on the command line

An opcode is written in base sixteen, with blanks around it, one marker `0x` and one plus sign
allowed. Leading zeros count for nothing.
-/

namespace CodeGolf.CommandLine

/-- Why digits are no byte. -/
inductive DigitFault where
  | empty
  | invalidDigit
  /-- The number is above 255. -/
  | tooLarge
  deriving DecidableEq

/-- The wording of a fault. -/
def DigitFault.message : DigitFault → String
  | .empty => "cannot parse integer from empty string"
  | .invalidDigit => "invalid digit found in string"
  | .tooLarge => "number too large to fit in target type"

/-- Reads digits after those that spell `value`; the first character that cannot be added is the
fault. -/
def byteFrom (value : Nat) : List Char → Except DigitFault UInt8
  | [] => .ok (UInt8.ofNat value)
  | c :: rest =>
    match Hex.charValue? c with
    | none => .error .invalidDigit
    | some digit =>
      if 255 < value * 16 + digit then .error .tooLarge else byteFrom (value * 16 + digit) rest

/-- The byte that digits spell, with one plus sign allowed in front. -/
def byteOf : List Char → Except DigitFault UInt8
  | [] => .error .empty
  | ['+'] => .error .invalidDigit
  | '+' :: digits => byteFrom 0 digits
  | digits => byteFrom 0 digits

/-- An opcode that cannot be read. -/
structure OpcodeFault where
  /-- The opcode, without the blanks around it. -/
  token : String
  fault : DigitFault

/-- The opcode that a text spells. -/
def opcodeOf (token : String) : Except OpcodeFault UInt8 :=
  let trimmed := Text.trim token.toList
  (byteOf (Hex.withoutMarker trimmed)).mapError fun fault => ⟨String.ofList trimmed, fault⟩

/-- The opcodes that texts spell, or the first that spells none. -/
def opcodesOf (tokens : List String) : Except OpcodeFault (List UInt8) := tokens.mapM opcodeOf

end CodeGolf.CommandLine
