import CodeGolf.Text.Unprintable
import CodeGolf.Text.Extending

/-!
# Quoted text

Text between two marks, written so that a reader sees every character: the mark, the
backslash and the usual controls have escapes of two characters, and a character without a
visible form of its own is written as its number.
-/

namespace CodeGolf.Text

/-- The digits of a number in base sixteen, in lower case and as few as it takes. -/
def hexDigits (n : Nat) : List Char := Nat.toDigits 16 n

/-- A character as it stands between two `mark`s. -/
def escape (mark c : Char) : List Char :=
  if c = '\x00' then ['\\', '0']
  else if c = '\t' then ['\\', 't']
  else if c = '\n' then ['\\', 'n']
  else if c = '\r' then ['\\', 'r']
  else if c = '\\' || c = mark then ['\\', c]
  else if isExtending c || isUnprintable c then
    ['\\', 'u', '\x7b'] ++ hexDigits c.toNat ++ ['\x7d']
  else [c]

/-- A text between two `mark`s. -/
def quote (mark : Char) (text : List Char) : List Char :=
  mark :: text.flatMap (escape mark) ++ [mark]

end CodeGolf.Text
