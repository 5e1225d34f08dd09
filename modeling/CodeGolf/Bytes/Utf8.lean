import CodeGolf.Bytes

/-!
# UTF-8

`encode` writes characters as bytes; `decode` reads bytes back or says where they stop being
UTF-8. The reader takes one byte at a time. Between characters it owes nothing; inside one it
remembers how many bytes are still owed and which range the next of them must lie in. Only
the first byte after the lead has a narrowed range: it is what rules out overlong forms,
surrogates and values past the last code point. A byte outside its range ends the character
*before* that byte, so a fault reports the bytes that were still acceptable.
-/

namespace CodeGolf.Utf8

/-! ## Writing -/

/-- The one to four bytes of a character. -/
def encodeChar (c : Char) : Bytes :=
  let n := c.toNat
  if n < 0x80 then [UInt8.ofNat n]
  else if n < 0x800 then [UInt8.ofNat (0xC0 + n / 64), UInt8.ofNat (0x80 + n % 64)]
  else if n < 0x10000 then
    [UInt8.ofNat (0xE0 + n / 4096), UInt8.ofNat (0x80 + n / 64 % 64), UInt8.ofNat (0x80 + n % 64)]
  else
    [UInt8.ofNat (0xF0 + n / 262144), UInt8.ofNat (0x80 + n / 4096 % 64),
      UInt8.ofNat (0x80 + n / 64 % 64), UInt8.ofNat (0x80 + n % 64)]

/-- The bytes of a text, character by character. -/
def encode (text : List Char) : Bytes := text.flatMap encodeChar

/-! ## Reading -/

/-- Why bytes are not UTF-8; `index` is where the faulty sequence starts. -/
inductive Error where
  /-- `length` bytes start a sequence that the byte after them cannot continue. -/
  | invalid (length index : Nat)
  /-- The bytes end inside a sequence. -/
  | incomplete (index : Nat)
  deriving DecidableEq

/-- The wording of a fault. -/
def Error.message : Error → String
  | .invalid length index => s!"invalid utf-8 sequence of {length} bytes from index {index}"
  | .incomplete index => s!"incomplete utf-8 byte sequence from index {index}"

/-- A character begun but not finished. -/
structure Pending where
  /-- The index of its lead byte. -/
  start : Nat
  /-- How many bytes are still owed. -/
  owed : Nat
  /-- The least value the next byte may have. -/
  low : Nat
  /-- The greatest value the next byte may have. -/
  high : Nat
  /-- The value of the bits read so far. -/
  value : Nat

/-- What the lead byte `n` at `index` promises; `owed` is zero for a character of one byte. -/
def lead? (index n : Nat) : Option Pending :=
  if n < 0x80 then some ⟨index, 0, 0x80, 0xBF, n⟩
  else if n < 0xC2 then none
  else if n < 0xE0 then some ⟨index, 1, 0x80, 0xBF, n - 0xC0⟩
  else if n = 0xE0 then some ⟨index, 2, 0xA0, 0xBF, 0⟩
  else if n = 0xED then some ⟨index, 2, 0x80, 0x9F, 0xD⟩
  else if n < 0xF0 then some ⟨index, 2, 0x80, 0xBF, n - 0xE0⟩
  else if n = 0xF0 then some ⟨index, 3, 0x90, 0xBF, 0⟩
  else if n < 0xF4 then some ⟨index, 3, 0x80, 0xBF, n - 0xF0⟩
  else if n = 0xF4 then some ⟨index, 3, 0x80, 0x8F, 4⟩
  else none

/-- Adds the six bits of a continuation byte `n`; the bytes after it have the full range. -/
def Pending.continued (p : Pending) (n : Nat) : Pending :=
  { p with owed := p.owed - 1, low := 0x80, high := 0xBF, value := p.value * 64 + (n - 0x80) }

mutual

/-- Reads from between two characters; `index` is the position of the first byte. -/
def decodeFrom (index : Nat) : Bytes → Except Error (List Char)
  | [] => .ok []
  | b :: rest =>
    match lead? index b.toNat with
    | none => .error (.invalid 1 index)
    | some p =>
      if p.owed = 0 then (decodeFrom (index + 1) rest).map (Char.ofNat p.value :: ·)
      else decodeRest p (index + 1) rest

/-- Reads from inside the character `p`. -/
def decodeRest (p : Pending) (index : Nat) : Bytes → Except Error (List Char)
  | [] => .error (.incomplete p.start)
  | b :: rest =>
    if p.low ≤ b.toNat ∧ b.toNat ≤ p.high then
      let q := p.continued b.toNat
      if q.owed = 0 then (decodeFrom (index + 1) rest).map (Char.ofNat q.value :: ·)
      else decodeRest q (index + 1) rest
    else .error (.invalid (index - p.start) p.start)

end

/-- The text whose bytes these are. -/
def decode (bytes : Bytes) : Except Error (List Char) := decodeFrom 0 bytes

end CodeGolf.Utf8
