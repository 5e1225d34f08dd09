import CodeGolf.Proofs.Spelling

/-!
# What is read was spelled

The readers of text accept nothing but spelled text. The UTF-8 reader accepts only the bytes of the
text that it gives (`Utf8.eq_encode_of_decode`): it has no second form for a character, because each
lead byte narrows the range of the byte after it. The reader of keys accepts only their digits
(`Word.plain_of_parse`), and there a choice is left: each digit may be of either case, and there may
be one marker in front.

Both proofs follow the reader. For UTF-8 a step takes one byte owed off the front
(`Utf8.exists_of_decodeRest`), so that what is read of one character is the character's bytes
(`Utf8.exists_of_decodeFrom`), and the rest is shorter. For digits a byte that has a value is a
character of one byte (`Hex.toLower_of_value?`), so the text is cut into digits as its bytes are.
-/

namespace CodeGolf

/-- What was read and put in another form was read. -/
theorem map_eq_ok_iff {ε α β : Type} {x : Except ε α} {f : α → β} {b : β} :
    x.map f = .ok b ↔ ∃ a, x = .ok a ∧ f a = b := by
  cases x with
  | error e => exact ⟨nofun, fun ⟨_, h, _⟩ => nomatch h⟩
  | ok a => exact ⟨fun h => ⟨a, rfl, Except.ok.inj h⟩, fun ⟨_, rfl, h⟩ => congrArg _ h⟩

/-! ## UTF-8 -/

namespace Utf8

section
variable {k x y z : Nat}

/-- A number that is valid is that of its character. -/
theorem toNat_charOfNat {n : Nat} (hn : n < 0xD800 ∨ 0xDFFF < n ∧ n < 0x110000) :
    (Char.ofNat n).toNat = n := by
  rw [Char.ofNat, dif_pos hn]
  rfl

/-- The character of two bytes with the given bits. -/
theorem encodeChar_two (hk : 2 ≤ k ∧ k < 32) (hx : x < 64) :
    encodeChar (Char.ofNat (k * 64 + x)) = [UInt8.ofNat (0xC0 + k), UInt8.ofNat (0x80 + x)] := by
  have hc := toNat_charOfNat (n := k * 64 + x) (by omega)
  rw [encodeChar]
  simp only [hc]
  rw [if_neg (by omega), if_pos (by omega), show (k * 64 + x) / 64 = k by omega,
    show (k * 64 + x) % 64 = x by omega]

/-- The character of three bytes with the given bits, if they are not overlong and no surrogate. -/
theorem encodeChar_three (hk : k < 16) (hx : x < 64) (hy : y < 64) (hlong : k = 0 → 32 ≤ x)
    (hsurrogate : k = 13 → x < 32) :
    encodeChar (Char.ofNat ((k * 64 + x) * 64 + y)) =
      [UInt8.ofNat (0xE0 + k), UInt8.ofNat (0x80 + x), UInt8.ofNat (0x80 + y)] := by
  have hc := toNat_charOfNat (n := (k * 64 + x) * 64 + y) (by omega)
  rw [encodeChar]
  simp only [hc]
  rw [if_neg (by omega), if_neg (by omega), if_pos (by omega),
    show ((k * 64 + x) * 64 + y) / 4096 = k by omega,
    show ((k * 64 + x) * 64 + y) / 64 % 64 = x by omega,
    show ((k * 64 + x) * 64 + y) % 64 = y by omega]

/-- The character of four bytes with the given bits, if they are not overlong and not past the last
character. -/
theorem encodeChar_four (hk : k < 5) (hx : x < 64) (hy : y < 64) (hz : z < 64)
    (hlong : k = 0 → 16 ≤ x) (hlast : k = 4 → x < 16) :
    encodeChar (Char.ofNat (((k * 64 + x) * 64 + y) * 64 + z)) =
      [UInt8.ofNat (0xF0 + k), UInt8.ofNat (0x80 + x), UInt8.ofNat (0x80 + y),
        UInt8.ofNat (0x80 + z)] := by
  have hc := toNat_charOfNat (n := ((k * 64 + x) * 64 + y) * 64 + z) (by omega)
  rw [encodeChar]
  simp only [hc]
  rw [if_neg (by omega), if_neg (by omega), if_neg (by omega),
    show (((k * 64 + x) * 64 + y) * 64 + z) / 262144 = k by omega,
    show (((k * 64 + x) * 64 + y) * 64 + z) / 4096 % 64 = x by omega,
    show (((k * 64 + x) * 64 + y) * 64 + z) / 64 % 64 = y by omega,
    show (((k * 64 + x) * 64 + y) * 64 + z) % 64 = z by omega]

end

/-- What is read from inside a character starts with a byte in the range of the next one. -/
theorem exists_of_decodeRest {p : Pending} {index : Nat} {bytes : Bytes} {text : List Char}
    (hp : 0x80 ≤ p.low ∧ p.high ≤ 0xBF) (h : decodeRest p index bytes = .ok text) :
    ∃ bits rest, bytes = UInt8.ofNat (0x80 + bits) :: rest ∧ bits < 64 ∧
      p.low ≤ 0x80 + bits ∧ 0x80 + bits ≤ p.high ∧
      (if p.owed - 1 = 0 then
        (decodeFrom (index + 1) rest).map (Char.ofNat (p.value * 64 + bits) :: ·)
      else decodeRest ⟨p.start, p.owed - 1, 0x80, 0xBF, p.value * 64 + bits⟩ (index + 1) rest) =
        .ok text := by
  cases bytes with
  | nil =>
    rw [decodeRest] at h
    cases h
  | cons b rest =>
    by_cases hb : p.low ≤ b.toNat ∧ b.toNat ≤ p.high
    · have hbyte : b = UInt8.ofNat (0x80 + (b.toNat - 0x80)) := by
        rw [show 0x80 + (b.toNat - 0x80) = b.toNat by omega, UInt8.ofNat_toNat]
      have hlow : p.low ≤ 0x80 + (b.toNat - 0x80) := by omega
      have hhigh : 0x80 + (b.toNat - 0x80) ≤ p.high := by omega
      rw [hbyte, decodeRest_cons p index rest (by omega) hlow hhigh] at h
      exact ⟨b.toNat - 0x80, rest, by rw [← hbyte], by omega, hlow, hhigh, h⟩
    · rw [decodeRest, if_neg hb] at h
      cases h

/-- What a lead byte can be: each kind promises its own number of bytes. -/
theorem lead_cases {n : Nat} (index : Nat) :
    n < 0x80 ∨ (∃ k, n = 0xC0 + k ∧ 2 ≤ k ∧ k < 32) ∨ (∃ k, n = 0xE0 + k ∧ k < 16) ∨
      (∃ k, n = 0xF0 + k ∧ k < 5) ∨ lead? index n = none := by
  by_cases hone : n < 0x80
  · exact .inl hone
  by_cases hcontinuation : n < 0xC2
  · refine .inr (.inr (.inr (.inr ?_)))
    rw [lead?, if_neg hone, if_pos hcontinuation]
  by_cases htwo : n < 0xE0
  · exact .inr (.inl ⟨n - 0xC0, by omega, by omega, by omega⟩)
  by_cases hthree : n < 0xF0
  · exact .inr (.inr (.inl ⟨n - 0xE0, by omega, by omega⟩))
  by_cases hfour : n < 0xF5
  · exact .inr (.inr (.inr (.inl ⟨n - 0xF0, by omega, by omega⟩)))
  · refine .inr (.inr (.inr (.inr ?_)))
    rw [lead?, if_neg hone, if_neg hcontinuation, if_neg htwo, if_neg (by omega),
      if_neg (by omega), if_neg hthree, if_neg (by omega), if_neg (by omega), if_neg (by omega)]

/-- What is read from between two characters is nothing, or starts with the bytes of a
character. -/
theorem exists_of_decodeFrom {index : Nat} {b : UInt8} {bytes : Bytes} {text : List Char}
    (h : decodeFrom index (b :: bytes) = .ok text) :
    ∃ c index' rest text', b :: bytes = encodeChar c ++ rest ∧ text = c :: text' ∧
      decodeFrom index' rest = .ok text' := by
  have hfull : 0x80 ≤ 0x80 ∧ 0xBF ≤ 0xBF := ⟨Nat.le_refl _, Nat.le_refl _⟩
  rw [decodeFrom] at h
  rcases lead_cases (n := b.toNat) index with
    hone | ⟨k, hb, hk⟩ | ⟨k, hb, hk⟩ | ⟨k, hb, hk⟩ | hnone
  · rw [lead?, if_pos hone] at h
    obtain ⟨text', htext', rfl⟩ := map_eq_ok_iff.mp h
    refine ⟨Char.ofNat b.toNat, index + 1, bytes, text', ?_, rfl, htext'⟩
    have hc := toNat_charOfNat (n := b.toNat) (by omega)
    rw [encodeChar_of_lt (by rwa [hc]), hc, UInt8.ofNat_toNat, List.singleton_append]
  · have hbyte : b = UInt8.ofNat (0xC0 + k) := by rw [← hb, UInt8.ofNat_toNat]
    rw [hb, lead?_two index hk.1 hk.2] at h
    obtain ⟨x, rest, rfl, hx, -, -, h⟩ := exists_of_decodeRest hfull h
    obtain ⟨text', htext', rfl⟩ := map_eq_ok_iff.mp h
    refine ⟨_, _, rest, text', ?_, rfl, htext'⟩
    rw [encodeChar_two hk hx, hbyte]
    rfl
  · have hbyte : b = UInt8.ofNat (0xE0 + k) := by rw [← hb, UInt8.ofNat_toNat]
    rw [hb, lead?_three index hk] at h
    obtain ⟨x, rest, rfl, hx, hlong, hsurrogate, h⟩ :=
      exists_of_decodeRest ⟨by dsimp only; split <;> omega, by dsimp only; split <;> omega⟩ h
    obtain ⟨y, rest, rfl, hy, -, -, h⟩ := exists_of_decodeRest hfull h
    obtain ⟨text', htext', rfl⟩ := map_eq_ok_iff.mp h
    refine ⟨_, _, rest, text', ?_, rfl, htext'⟩
    dsimp only at hlong hsurrogate ⊢
    rw [encodeChar_three hk hx hy (fun hzero => by rw [if_pos hzero] at hlong; omega)
      (fun hlast => by rw [if_pos hlast] at hsurrogate; omega), hbyte]
    rfl
  · have hbyte : b = UInt8.ofNat (0xF0 + k) := by rw [← hb, UInt8.ofNat_toNat]
    rw [hb, lead?_four index hk] at h
    obtain ⟨x, rest, rfl, hx, hlong, hlast, h⟩ :=
      exists_of_decodeRest ⟨by dsimp only; split <;> omega, by dsimp only; split <;> omega⟩ h
    obtain ⟨y, rest, rfl, hy, -, -, h⟩ := exists_of_decodeRest hfull h
    obtain ⟨z, rest, rfl, hz, -, -, h⟩ := exists_of_decodeRest hfull h
    obtain ⟨text', htext', rfl⟩ := map_eq_ok_iff.mp h
    refine ⟨_, _, rest, text', ?_, rfl, htext'⟩
    dsimp only at hlong hlast ⊢
    rw [encodeChar_four hk hx hy hz (fun hzero => by rw [if_pos hzero] at hlong; omega)
      (fun hfour => by rw [if_pos hfour] at hlast; omega), hbyte]
    rfl
  · rw [hnone] at h
    cases h

/-- A character has at least one byte. -/
theorem encodeChar_ne_nil (c : Char) : encodeChar c ≠ [] := by
  rw [encodeChar]
  split
  · simp
  · split
    · simp
    · split <;> simp

/-- **Only the bytes of a text are read as the text.** -/
theorem eq_encode_of_decode {bytes : Bytes} {text : List Char} (h : decode bytes = .ok text) :
    bytes = encode text := by
  rw [decode] at h
  generalize 0 = index at h
  -- The rest behind a character is shorter, but by one to four bytes.
  induction hn : bytes.length using Nat.strongRecOn generalizing bytes text index with
  | ind n ih =>
    cases bytes with
    | nil =>
      rw [decodeFrom] at h
      cases h
      rfl
    | cons b bytes =>
      obtain ⟨c, index', rest, text', hbytes, rfl, hrest⟩ := exists_of_decodeFrom h
      have hpos : 0 < (encodeChar c).length := List.length_pos_iff.mpr (encodeChar_ne_nil c)
      have hlength := congrArg List.length hbytes
      rw [List.length_append] at hlength
      rw [hbytes, ih rest.length (by omega) index' hrest rfl]
      rfl

end Utf8

/-! ## Hexadecimal digits -/

namespace Hex

/-- A text of digits as it is written: in lower case and without the marker. -/
def plain (text : String) : String :=
  String.ofList ((withoutMarker text.toList).map Char.toLower)

/-- A byte that has a value is the only byte of its character, and the character is the digit of the
value in one of the two cases. -/
theorem toLower_of_value? {c : Char} {x : UInt8} {more : Bytes} {k : Nat}
    (hc : Utf8.encodeChar c = x :: more) (hx : value? x = some k) :
    more = [] ∧ k < 16 ∧ c.toLower = digit k := by
  have hall : ∀ n : Fin 128, ∀ k ∈ value? (UInt8.ofNat n.val),
      k < 16 ∧ (Char.ofNat n.val).toLower = digit k := by decide
  by_cases hone : c.toNat < 0x80
  · rw [Utf8.encodeChar_of_lt hone] at hc
    cases hc
    have hdigit := hall ⟨c.toNat, hone⟩ k hx
    rw [Char.ofNat_toNat] at hdigit
    exact ⟨rfl, hdigit⟩
  · -- The first byte of a longer character is at least `0xC0`, and no digit is.
    have hlead : 0xC0 ≤ x.toNat := by
      have hvalid : c.toNat < 0xD800 ∨ 0xDFFF < c.toNat ∧ c.toNat < 0x110000 := c.valid
      rw [Utf8.encodeChar, if_neg hone] at hc
      split at hc
      · cases hc
        rw [Utf8.toNat_ofNat (by omega)]
        omega
      · split at hc <;>
        · cases hc
          rw [Utf8.toNat_ofNat (by omega)]
          omega
    rw [value?] at hx
    rw [if_neg (by omega), if_neg (by omega), if_neg (by omega)] at hx
    cases hx

/-- A text whose first byte has a value starts with a digit, and goes on with the other bytes. -/
theorem exists_of_encode_eq_cons {text : List Char} {x : UInt8} {bytes : Bytes} {k : Nat}
    (htext : Utf8.encode text = x :: bytes) (hx : value? x = some k) :
    ∃ c text', text = c :: text' ∧ k < 16 ∧ c.toLower = digit k ∧ Utf8.encode text' = bytes := by
  cases text with
  | nil => cases htext
  | cons c text' =>
    rw [Utf8.encode, List.flatMap_cons] at htext
    obtain ⟨x', more, hc⟩ := List.exists_cons_of_ne_nil (Utf8.encodeChar_ne_nil c)
    rw [hc, List.cons_append] at htext
    obtain ⟨rfl, hbytes⟩ := List.cons.inj htext
    obtain ⟨rfl, hk, hdigit⟩ := toLower_of_value? hc hx
    exact ⟨c, text', rfl, hk, hdigit, hbytes⟩

/-- Bytes are read as nothing, or as a byte and what the bytes behind its two digits are read as. -/
theorem decodeFrom_eq_ok {position : Nat} {bytes out : Bytes}
    (h : decodeFrom position bytes = .ok out) :
    (bytes = [] ∧ out = []) ∨
    ∃ high low rest v w out', bytes = high :: low :: rest ∧ value? high = some v ∧
      value? low = some w ∧ out = UInt8.ofNat (16 * v + w) :: out' ∧
      decodeFrom (position + 2) rest = .ok out' := by
  match bytes with
  | [] =>
    rw [decodeFrom] at h
    cases h
    exact .inl ⟨rfl, rfl⟩
  | [_] =>
    rw [decodeFrom] at h
    cases h
  | high :: low :: rest =>
    rw [decodeFrom] at h
    split at h
    · cases h
    · cases h
    · next v w hhigh hlow =>
      obtain ⟨out', hrest, rfl⟩ := map_eq_ok_iff.mp h
      exact .inr ⟨high, low, rest, v, w, out', rfl, hhigh, hlow, rfl, hrest⟩

/-- Only the digits of a byte string are read as the byte string, in either case. -/
theorem map_toLower_of_decodeFrom {position : Nat} {text : List Char} {out : Bytes}
    (h : decodeFrom position (Utf8.encode text) = .ok out) :
    text.map Char.toLower = digits out := by
  induction out generalizing position text with
  | nil =>
    rcases decodeFrom_eq_ok h with ⟨hnil, -⟩ | ⟨_, _, _, _, _, _, _, _, _, hout, _⟩
    · cases text with
      | nil => rfl
      | cons c text' =>
        rw [Utf8.encode, List.flatMap_cons, List.append_eq_nil_iff] at hnil
        exact absurd hnil.1 (Utf8.encodeChar_ne_nil c)
    · cases hout
  | cons b out ih =>
    rcases decodeFrom_eq_ok h with
      ⟨-, hout⟩ | ⟨high, low, rest, v, w, out', htext, hhigh, hlow, hout, hrest⟩
    · cases hout
    · cases hout
      obtain ⟨c, text', rfl, hv, hc, htext'⟩ := exists_of_encode_eq_cons htext hhigh
      obtain ⟨d, text'', rfl, hw, hd, rfl⟩ := exists_of_encode_eq_cons htext' hlow
      have hb : (UInt8.ofNat (16 * v + w)).toNat = 16 * v + w := Utf8.toNat_ofNat (by omega)
      rw [List.map_cons, List.map_cons, hc, hd, ih hrest, digits, digits, List.flatMap_cons, pair,
        hb, show (16 * v + w) / 16 = v by omega, show (16 * v + w) % 16 = w by omega]
      rfl

/-- **Only the digits of a byte string are read as it**, in either case. -/
theorem map_toLower_of_decode {text : List Char} {bytes : Bytes} (h : decode text = .ok bytes) :
    text.map Char.toLower = digits bytes := by
  rw [decode] at h
  split at h
  · cases h
  · exact map_toLower_of_decodeFrom h

end Hex

/-- **Only the digits of a word are read as it**, in either case and with or without the marker. -/
theorem Word.plain_of_parse {text : String} {w : Word} (h : Word.parse text = .ok w) :
    Hex.plain text = w.hex := by
  rw [parse] at h
  cases hbytes : Hex.decode (Hex.withoutMarker text.toList) with
  | error fault =>
    rw [hbytes] at h
    cases h
  | ok bytes =>
    rw [hbytes] at h
    dsimp only at h
    split at h
    · next hlength =>
      cases h
      rw [Hex.plain, Hex.map_toLower_of_decode hbytes, hex, toBytes_ofBytes hlength, Hex.encode]
    · cases h

/-- **Only the digits of a set of opcodes are read as it**, in either case and with or without the
marker. -/
theorem OpcodeSet.plain_of_parse {text : String} {s : OpcodeSet} (h : parse text = .ok s) :
    Hex.plain text = s.hex := by
  obtain ⟨w, hw, rfl⟩ := map_eq_ok_iff.mp h
  exact Word.plain_of_parse hw

end CodeGolf
