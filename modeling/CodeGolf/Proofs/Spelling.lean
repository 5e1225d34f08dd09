import CodeGolf.OpcodeSet

/-!
# Spelled text is read back

Text is written as UTF-8 and keys are written as hexadecimal digits, and each is read back as what
was written: `Utf8.decode_encode` for text, `Word.parse_hex` and `OpcodeSet.parse_hex` for digits.

The UTF-8 reader takes one byte at a time, so a character is read in steps: the lead byte promises
how many bytes are owed (`Utf8.lead?_two`, `Utf8.lead?_three`, `Utf8.lead?_four`), and each byte
owed adds six bits (`Utf8.decodeRest_cons`). Only the first byte after the lead has a narrowed
range. That the encoder stays inside it is where the bounds on characters are used: a character of
three bytes is at least `0x800` and no surrogate, and one of four bytes is at least `0x10000` and
below `0x110000`.
-/

namespace CodeGolf

/-! ## UTF-8 -/

namespace Utf8

section
variable (index : Nat) {k : Nat}

/-- A lead byte of two. -/
theorem lead?_two (hlow : 2 ≤ k) (hhigh : k < 32) :
    lead? index (0xC0 + k) = some ⟨index, 1, 0x80, 0xBF, k⟩ := by
  rw [lead?, if_neg (by omega), if_neg (by omega), if_pos (by omega), Nat.add_sub_cancel_left]

/-- A lead byte of three: the ranges keep out overlong forms and surrogates. -/
theorem lead?_three (hhigh : k < 16) :
    lead? index (0xE0 + k) =
      some ⟨index, 2, if k = 0 then 0xA0 else 0x80, if k = 13 then 0x9F else 0xBF, k⟩ := by
  rw [lead?, if_neg (by omega), if_neg (by omega), if_neg (by omega)]
  by_cases hzero : k = 0
  · subst hzero
    rfl
  · by_cases hsurrogate : k = 13
    · subst hsurrogate
      rfl
    · rw [if_neg (by omega), if_neg (by omega), if_pos (by omega), Nat.add_sub_cancel_left,
        if_neg hzero, if_neg hsurrogate]

/-- A lead byte of four: the ranges keep out overlong forms and values past the last character. -/
theorem lead?_four (hhigh : k < 5) :
    lead? index (0xF0 + k) =
      some ⟨index, 3, if k = 0 then 0x90 else 0x80, if k = 4 then 0x8F else 0xBF, k⟩ := by
  rw [lead?, if_neg (by omega), if_neg (by omega), if_neg (by omega), if_neg (by omega),
    if_neg (by omega), if_neg (by omega)]
  by_cases hzero : k = 0
  · subst hzero
    rfl
  · by_cases hlast : k = 4
    · subst hlast
      rfl
    · rw [if_neg (by omega), if_pos (by omega), Nat.add_sub_cancel_left, if_neg hzero,
        if_neg hlast]

end

/-- A byte is its number if the number fits. -/
theorem toNat_ofNat {n : Nat} (hn : n < 256) : (UInt8.ofNat n).toNat = n :=
  UInt8.toNat_ofNat_of_lt' hn

/-- A byte owed adds six bits. -/
theorem decodeRest_cons (p : Pending) (index : Nat) {bits : Nat} (rest : Bytes)
    (hbits : bits < 64) (hlow : p.low ≤ 0x80 + bits) (hhigh : 0x80 + bits ≤ p.high) :
    decodeRest p index (UInt8.ofNat (0x80 + bits) :: rest) =
      if p.owed - 1 = 0 then
        (decodeFrom (index + 1) rest).map (Char.ofNat (p.value * 64 + bits) :: ·)
      else decodeRest ⟨p.start, p.owed - 1, 0x80, 0xBF, p.value * 64 + bits⟩ (index + 1) rest := by
  rw [decodeRest, toNat_ofNat (by omega), if_pos ⟨hlow, hhigh⟩]
  simp only [Pending.continued, Nat.add_sub_cancel_left]

section
variable (index : Nat) {k x y z : Nat} (rest : Bytes)

/-- A character of two bytes. -/
theorem decodeFrom_two (hk : 2 ≤ k ∧ k < 32) (hx : x < 64) :
    decodeFrom index (UInt8.ofNat (0xC0 + k) :: UInt8.ofNat (0x80 + x) :: rest) =
      (decodeFrom (index + 2) rest).map (Char.ofNat (k * 64 + x) :: ·) := by
  rw [decodeFrom, toNat_ofNat (by omega), lead?_two index hk.1 hk.2]
  exact decodeRest_cons _ _ rest hx (Nat.le_add_right ..) (by show 0x80 + x ≤ 0xBF; omega)

/-- A character of three bytes that is not overlong and no surrogate. -/
theorem decodeFrom_three (hk : k < 16) (hx : x < 64) (hy : y < 64) (hlong : k = 0 → 32 ≤ x)
    (hsurrogate : k = 13 → x < 32) :
    decodeFrom index
        (UInt8.ofNat (0xE0 + k) :: UInt8.ofNat (0x80 + x) :: UInt8.ofNat (0x80 + y) :: rest) =
      (decodeFrom (index + 3) rest).map (Char.ofNat ((k * 64 + x) * 64 + y) :: ·) := by
  have hlow : (if k = 0 then 0xA0 else 0x80) ≤ 0x80 + x := by split <;> omega
  have hhigh : 0x80 + x ≤ if k = 13 then 0x9F else 0xBF := by split <;> omega
  rw [decodeFrom, toNat_ofNat (by omega), lead?_three index hk]
  refine (decodeRest_cons _ _ _ hx hlow hhigh).trans ?_
  exact decodeRest_cons _ _ rest hy (Nat.le_add_right ..) (by show 0x80 + y ≤ 0xBF; omega)

/-- A character of four bytes that is not overlong and not past the last one. -/
theorem decodeFrom_four (hk : k < 5) (hx : x < 64) (hy : y < 64) (hz : z < 64)
    (hlong : k = 0 → 16 ≤ x) (hlast : k = 4 → x < 16) :
    decodeFrom index
        (UInt8.ofNat (0xF0 + k) :: UInt8.ofNat (0x80 + x) :: UInt8.ofNat (0x80 + y) ::
          UInt8.ofNat (0x80 + z) :: rest) =
      (decodeFrom (index + 4) rest).map
        (Char.ofNat (((k * 64 + x) * 64 + y) * 64 + z) :: ·) := by
  have hlow : (if k = 0 then 0x90 else 0x80) ≤ 0x80 + x := by split <;> omega
  have hhigh : 0x80 + x ≤ if k = 4 then 0x8F else 0xBF := by split <;> omega
  rw [decodeFrom, toNat_ofNat (by omega), lead?_four index hk]
  refine (decodeRest_cons _ _ _ hx hlow hhigh).trans ?_
  refine (decodeRest_cons _ _ _ hy (Nat.le_add_right ..) (by show 0x80 + y ≤ 0xBF; omega)).trans ?_
  exact decodeRest_cons _ _ rest hz (Nat.le_add_right ..) (by show 0x80 + z ≤ 0xBF; omega)

end

/-- The bytes of a character are read as the character. -/
theorem decodeFrom_encodeChar (index : Nat) (c : Char) (rest : Bytes) :
    decodeFrom index (encodeChar c ++ rest) =
      (decodeFrom (index + (encodeChar c).length) rest).map (c :: ·) := by
  have hvalid : c.toNat < 0xD800 ∨ 0xDFFF < c.toNat ∧ c.toNat < 0x110000 := c.valid
  have hc : Char.ofNat c.toNat = c := Char.ofNat_toNat c
  rw [encodeChar]
  generalize c.toNat = n at hvalid hc
  split
  · next hone =>
    rw [List.singleton_append, decodeFrom, toNat_ofNat (by omega), lead?, if_pos hone]
    show (decodeFrom (index + 1) rest).map (Char.ofNat n :: ·) = _
    rw [hc]
    rfl
  · split
    · refine (decodeFrom_two index rest (by omega) (by omega)).trans ?_
      rw [show n / 64 * 64 + n % 64 = n by omega, hc]
      rfl
    · split
      · refine (decodeFrom_three index rest (by omega) (by omega) (by omega) (by omega)
          (by omega)).trans ?_
        rw [show (n / 4096 * 64 + n / 64 % 64) * 64 + n % 64 = n by omega, hc]
        rfl
      · refine (decodeFrom_four index rest (by omega) (by omega) (by omega) (by omega) (by omega)
          (by omega)).trans ?_
        rw [show ((n / 262144 * 64 + n / 4096 % 64) * 64 + n / 64 % 64) * 64 + n % 64 = n by omega,
          hc]
        rfl

/-- **A text is read back from its bytes.** -/
theorem decode_encode (text : List Char) : decode (encode text) = .ok text := by
  have hfrom : ∀ index, decodeFrom index (encode text) = .ok text := by
    induction text with
    | nil =>
      intro index
      rw [encode, List.flatMap_nil, decodeFrom]
    | cons c rest ih =>
      intro index
      rw [encode, List.flatMap_cons, decodeFrom_encodeChar]
      exact congrArg (Except.map (c :: ·)) (ih _)
  exact hfrom 0

/-- A character below 128 is one byte. -/
theorem encodeChar_of_lt {c : Char} (hc : c.toNat < 0x80) :
    encodeChar c = [UInt8.ofNat c.toNat] := by
  rw [encodeChar, if_pos hc]

end Utf8

/-! ## Hexadecimal digits -/

namespace Hex

/-- A digit is one byte, which is read as the value of the digit. -/
theorem value?_digit {k : Nat} (hk : k < 16) :
    (digit k).toNat < 0x80 ∧ value? (UInt8.ofNat (digit k).toNat) = some k ∧ digit k ≠ 'x' := by
  have hall : ∀ k : Fin 16, (digit k).toNat < 0x80 ∧
      value? (UInt8.ofNat (digit k).toNat) = some k.val ∧ digit k ≠ 'x' := by decide
  exact hall ⟨k, hk⟩

/-- The bytes of a pair of digits. -/
theorem encode_pair (b : UInt8) :
    Utf8.encode (pair b) =
      [UInt8.ofNat (digit (b.toNat / 16)).toNat, UInt8.ofNat (digit (b.toNat % 16)).toNat] := by
  have hb : b.toNat < 256 := b.toNat_lt
  rw [pair, Utf8.encode, List.flatMap_cons, List.flatMap_singleton,
    Utf8.encodeChar_of_lt (value?_digit (by omega)).1,
    Utf8.encodeChar_of_lt (value?_digit (by omega)).1, List.singleton_append]

/-- The bytes of digits, pair by pair. -/
theorem encode_digits_cons (b : UInt8) (bytes : Bytes) :
    Utf8.encode (digits (b :: bytes)) = Utf8.encode (pair b) ++ Utf8.encode (digits bytes) := by
  rw [digits, List.flatMap_cons, Utf8.encode, List.flatMap_append]
  rfl

/-- There are two digits for each byte. -/
theorem length_encode_digits (bytes : Bytes) :
    (Utf8.encode (digits bytes)).length = 2 * bytes.length := by
  induction bytes with
  | nil => rfl
  | cons b bytes ih =>
    rw [encode_digits_cons, List.length_append, ih, encode_pair, List.length_cons]
    simp only [List.length_cons, List.length_nil]
    omega

/-- The digits of a byte string are read as the byte string. -/
theorem decodeFrom_encode_digits (position : Nat) (bytes : Bytes) :
    decodeFrom position (Utf8.encode (digits bytes)) = .ok bytes := by
  induction bytes generalizing position with
  | nil =>
    rw [digits, List.flatMap_nil, Utf8.encode, List.flatMap_nil, decodeFrom]
  | cons b bytes ih =>
    have hb : b.toNat < 256 := b.toNat_lt
    have hhigh := (value?_digit (show b.toNat / 16 < 16 by omega)).2.1
    have hlow := (value?_digit (show b.toNat % 16 < 16 by omega)).2.1
    have hbyte : UInt8.ofNat (16 * (b.toNat / 16) + b.toNat % 16) = b := by
      rw [Nat.div_add_mod, UInt8.ofNat_toNat]
    rw [encode_digits_cons, encode_pair, List.cons_append, List.singleton_append, decodeFrom, hhigh,
      hlow]
    show (decodeFrom (position + 2) _).map
      (UInt8.ofNat (16 * (b.toNat / 16) + b.toNat % 16) :: ·) = _
    rw [ih, hbyte]
    rfl

/-- **A byte string is read back from its digits.** -/
theorem decode_digits (bytes : Bytes) : decode (digits bytes) = .ok bytes := by
  have heven : ¬ (Utf8.encode (digits bytes)).length % 2 = 1 := by
    rw [length_encode_digits]
    omega
  rw [decode, if_neg heven, decodeFrom_encode_digits]

/-- Digits carry no marker. -/
theorem withoutMarker_digits (bytes : Bytes) : withoutMarker (digits bytes) = digits bytes := by
  cases bytes with
  | nil => rfl
  | cons b bytes =>
    have hb : b.toNat < 256 := b.toNat_lt
    have hx := (value?_digit (show b.toNat % 16 < 16 by omega)).2.2
    rw [digits, List.flatMap_cons, pair, List.cons_append, List.cons_append, withoutMarker]
    rintro rest heq
    exact hx (List.cons.inj (List.cons.inj heq).2).1

end Hex

/-- **A word is read back from its digits.** -/
theorem Word.parse_hex (w : Word) : Word.parse (Word.hex w) = .ok w := by
  rw [parse, hex, Hex.encode, String.toList_ofList, Hex.withoutMarker_digits, Hex.decode_digits]
  show (if (toBytes w).length = 32 then _ else _) = _
  rw [if_pos (length_toBytes w), ofBytes_toBytes]

/-- **A set of opcodes is read back from its digits.** -/
theorem OpcodeSet.parse_hex (s : OpcodeSet) : OpcodeSet.parse s.hex = .ok s := by
  rw [parse, hex, Word.parse_hex]
  rfl

end CodeGolf
