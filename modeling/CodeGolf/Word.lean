import CodeGolf.Bytes.Hex

/-!
# Words of 256 bits

A digest, a player's key, a salt and an allow-list are all 32 bytes. A word is held as the
number that its bytes spell, the most significant byte first, so that words are ordered as
their bytes are. `ofBytes` and `toBytes` undo each other on strings of 32 bytes, and `parse`
reads 64 digits, with or without the marker `0x`.
-/

namespace CodeGolf

/-- A word of 32 bytes. -/
abbrev Word := BitVec 256

namespace Word

/-- The 32 bytes of a word, the most significant first. -/
def toBytes (w : Word) : Bytes := Bytes.bigEndian 32 w.toNat

/-- The word that a string of 32 bytes spells. -/
def ofBytes (bytes : Bytes) : Word := BitVec.ofNat 256 (Bytes.ofBigEndian bytes)

/-- A word has 32 bytes. -/
@[simp] theorem length_toBytes (w : Word) : w.toBytes.length = 32 := Bytes.length_bigEndian ..

/-- A word is spelled by its own bytes. -/
@[simp] theorem ofBytes_toBytes (w : Word) : ofBytes w.toBytes = w := by
  apply BitVec.eq_of_toNat_eq
  have fits : w.toNat < Nat.pow 256 32 := Nat.lt_of_lt_of_eq w.isLt (by decide)
  rw [ofBytes, BitVec.toNat_ofNat, toBytes, Bytes.ofBigEndian_bigEndian, Nat.mod_eq_of_lt fits,
    Nat.mod_eq_of_lt w.isLt]

/-- Strings of 32 bytes are the bytes of the words that they spell. -/
theorem toBytes_ofBytes {bytes : Bytes} (h : bytes.length = 32) :
    (ofBytes bytes).toBytes = bytes := by
  have bound := Bytes.ofLittleEndian_lt bytes.reverse
  rw [List.length_reverse, h] at bound
  have fits : Bytes.ofBigEndian bytes < 2 ^ 256 := by
    rw [Bytes.ofBigEndian]
    exact Nat.lt_of_lt_of_eq bound (by decide)
  rw [toBytes, ofBytes, BitVec.toNat_ofNat, Nat.mod_eq_of_lt fits]
  simpa [h] using Bytes.bigEndian_ofBigEndian bytes

/-- The bytes determine the word. -/
theorem toBytes_injective {v w : Word} (h : v.toBytes = w.toBytes) : v = w := by
  rw [← ofBytes_toBytes v, h, ofBytes_toBytes]

/-- The word whose bytes are all `b`. -/
def repeated (b : UInt8) : Word := ofBytes (List.replicate 32 b)

/-! ## Text -/

/-- The 64 lower-case digits of a word. -/
def hex (w : Word) : String := Hex.encode w.toBytes

/-- Why a text is not a word. -/
inductive ParseError where
  | badHex (fault : Hex.Error)
  /-- It spells another number of bytes than 32. -/
  | badLength (bytes : Nat)
  deriving DecidableEq

/-- The wording of a fault, for a word that stands for `what`. -/
def ParseError.message (what : String) : ParseError → String
  | .badHex fault => "Invalid " ++ what ++ " hex: " ++ fault.message
  | .badLength bytes =>
    "Invalid " ++ what ++ " length: expected 32 bytes, got " ++ toString bytes

/-- Reads a word from its digits; one marker `0x` in front is allowed. -/
def parse (text : String) : Except ParseError Word :=
  match Hex.decode (Hex.withoutMarker text.toList) with
  | .error fault => .error (.badHex fault)
  | .ok bytes => if bytes.length = 32 then .ok (ofBytes bytes) else .error (.badLength bytes.length)

end Word

end CodeGolf
