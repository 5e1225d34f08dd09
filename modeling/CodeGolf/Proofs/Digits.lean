import CodeGolf.OpcodeSet.Json
import CodeGolf.Player
import CodeGolf.Proofs.JsonReading
import CodeGolf.Proofs.Limbs
import CodeGolf.Proofs.Reading

/-!
# Which texts are keys

Players and allow-lists are read from the same texts: 64 digits of base sixteen, with one marker in
front or none. What a text is read as, and why another one is refused, is decided in three steps.

* An odd number of bytes is refused before any digit is looked at, and of an even number the first
  byte that is no digit is named. `Hex.Fault` says this of bytes, and `Hex.decode_eq_error_iff` of
  the reader. Both rest on one case distinction: bytes are all digits, or they are split at the
  first one that is not (`Hex.digits_or_split`).
* Digits are bytes and characters at once, so a text whose bytes are digits has as many characters
  (`Hex.digitBytes_iff`), and it spells half as many bytes.
* Of the strings of bytes that are spelled, only those of 32 are words.

`ReadsExactly` is the outcome of this for any kind of value that holds a word, and
`ReadsExactly.ofWord` gives it to players and allow-lists.
-/

namespace CodeGolf

namespace Hex

/-! ## Digits -/

/-- A digit of base sixteen, in either case. -/
def IsDigit (c : Char) : Prop :=
  ('0' ≤ c ∧ c ≤ '9') ∨ ('A' ≤ c ∧ c ≤ 'F') ∨ ('a' ≤ c ∧ c ≤ 'f')

instance (c : Char) : Decidable (IsDigit c) := inferInstanceAs (Decidable (_ ∨ _))

/-- The byte of a digit. -/
def IsDigitByte (b : UInt8) : Prop := IsDigit (Char.ofNat b.toNat)

instance (b : UInt8) : Decidable (IsDigitByte b) := inferInstanceAs (Decidable (IsDigit _))

/-- The digits, by the ranges of their numbers. -/
theorem isDigit_iff {c : Char} : IsDigit c ↔ (0x30 ≤ c.toNat ∧ c.toNat ≤ 0x39) ∨
    (0x41 ≤ c.toNat ∧ c.toNat ≤ 0x46) ∨ (0x61 ≤ c.toNat ∧ c.toNat ≤ 0x66) := by
  simp only [IsDigit, Char.le_def, UInt32.le_iff_toNat_le]
  exact Iff.rfl

/-- The bytes that have no value are those of no digit. -/
theorem value?_eq_none_iff {b : UInt8} : value? b = none ↔ ¬ IsDigitByte b := by
  have hb := b.toNat_lt
  rw [IsDigitByte, isDigit_iff, Utf8.toNat_charOfNat (by omega), value?]
  split
  · simp; omega
  split
  · simp; omega
  split
  · simp; omega
  · simp; omega

/-- The byte of a digit has a value. -/
theorem IsDigitByte.exists_value {b : UInt8} (h : IsDigitByte b) : ∃ k, value? b = some k :=
  Option.ne_none_iff_exists'.mp fun hnone => value?_eq_none_iff.mp hnone h

/-- A digit is a character of one byte, and so is what has the byte of a digit in front. -/
theorem digitBytes_char_iff {c : Char} :
    (∀ b ∈ Utf8.encodeChar c, IsDigitByte b) ↔ IsDigit c := by
  by_cases hone : c.toNat < 0x80
  · rw [Utf8.encodeChar_of_lt hone, List.forall_mem_singleton, IsDigitByte,
      Utf8.toNat_ofNat (by omega), Char.ofNat_toNat]
  · refine ⟨fun h => ?_, fun h => absurd (isDigit_iff.mp h) (by omega)⟩
    obtain ⟨x, more, hc⟩ := List.exists_cons_of_ne_nil (Utf8.encodeChar_ne_nil c)
    obtain ⟨k, hk⟩ := (h x (hc ▸ List.mem_cons_self)).exists_value
    obtain ⟨rfl, -⟩ := toLower_of_value? hc hk
    rw [Utf8.encodeChar, if_neg hone] at hc
    split at hc
    · cases hc
    · split at hc <;> cases hc

/-- The bytes of a text are digits exactly if its characters are. -/
theorem digitBytes_iff {text : List Char} :
    (∀ b ∈ Utf8.encode text, IsDigitByte b) ↔ ∀ c ∈ text, IsDigit c := by
  rw [Utf8.encode, List.forall_mem_flatMap]
  exact forall₂_congr fun c _ => digitBytes_char_iff

/-- A text of digits has one byte for each of them. -/
theorem length_encode_of_digits {text : List Char} (h : ∀ c ∈ text, IsDigit c) :
    (Utf8.encode text).length = text.length := by
  induction text with
  | nil => rfl
  | cons c rest ih =>
    obtain ⟨hc, hrest⟩ := List.forall_mem_cons.mp h
    have hone : c.toNat < 0x80 := by
      have := isDigit_iff.mp hc
      omega
    rw [Utf8.encode, List.flatMap_cons, Utf8.encodeChar_of_lt hone, List.singleton_append,
      List.length_cons, List.length_cons]
    exact congrArg (· + 1) (ih hrest)

/-! ## What is refused -/

/-- Why bytes are not the digits of a byte string. -/
inductive Fault : Bytes → Error → Prop
  | odd {bytes : Bytes} (h : bytes.length % 2 = 1) : Fault bytes .oddLength
  /-- The first byte that is no digit. -/
  | digit {front rest : Bytes} {b : UInt8} (heven : (front ++ b :: rest).length % 2 = 0)
      (hfront : ∀ d ∈ front, IsDigitByte d) (hb : ¬ IsDigitByte b) :
      Fault (front ++ b :: rest) (.badDigit b front.length)

/-- Bytes are all digits, or they are split at the first one that is not. -/
theorem digits_or_split (bytes : Bytes) :
    (∀ b ∈ bytes, IsDigitByte b) ∨
    ∃ front b rest,
      bytes = front ++ b :: rest ∧ (∀ d ∈ front, IsDigitByte d) ∧ ¬ IsDigitByte b := by
  induction bytes with
  | nil => exact .inl (List.forall_mem_nil _)
  | cons b rest ih =>
    by_cases hb : IsDigitByte b
    · rcases ih with hall | ⟨front, c, rest, rfl, hfront, hc⟩
      · exact .inl (List.forall_mem_cons.mpr ⟨hb, hall⟩)
      · exact .inr ⟨b :: front, c, rest, rfl, List.forall_mem_cons.mpr ⟨hb, hfront⟩, hc⟩
    · exact .inr ⟨[], b, rest, rfl, List.forall_mem_nil _, hb⟩

/-- An even number of digits is read, two for each byte. -/
theorem exists_decodeFrom_eq_ok (position : Nat) : ∀ {bytes : Bytes},
    bytes.length % 2 = 0 → (∀ b ∈ bytes, IsDigitByte b) →
      ∃ out, decodeFrom position bytes = .ok out ∧ bytes.length = 2 * out.length
  | [], _, _ => ⟨[], rfl, rfl⟩
  | [_], heven, _ => by simp at heven
  | high :: low :: rest, heven, h => by
    obtain ⟨hhigh, h⟩ := List.forall_mem_cons.mp h
    obtain ⟨hlow, hrest⟩ := List.forall_mem_cons.mp h
    obtain ⟨v, hv⟩ := hhigh.exists_value
    obtain ⟨w, hw⟩ := hlow.exists_value
    have heven : rest.length % 2 = 0 := by
      simp only [List.length_cons] at heven
      omega
    obtain ⟨out, hout, hlength⟩ := exists_decodeFrom_eq_ok (position + 2) heven hrest
    refine ⟨UInt8.ofNat (16 * v + w) :: out, ?_, ?_⟩
    · rw [decodeFrom, hv, hw]
      exact congrArg (Except.map _) hout
    · simp only [List.length_cons, hlength]
      omega

/-- Of an even number of bytes the first one that is no digit is named. -/
theorem decodeFrom_eq_badDigit (position : Nat) {b : UInt8} {rest : Bytes}
    (hb : ¬ IsDigitByte b) : ∀ {front : Bytes}, (front ++ b :: rest).length % 2 = 0 →
      (∀ d ∈ front, IsDigitByte d) →
      decodeFrom position (front ++ b :: rest) = .error (.badDigit b (position + front.length))
  | [], heven, _ => by
    have hnone := value?_eq_none_iff.mpr hb
    cases rest with
    | nil => simp at heven
    | cons low rest => rw [List.nil_append, decodeFrom, hnone]; rfl
  | [high], heven, h => by
    obtain ⟨v, hv⟩ := (List.forall_mem_singleton.mp h).exists_value
    rw [List.singleton_append, decodeFrom, hv, value?_eq_none_iff.mpr hb]
    rfl
  | high :: low :: front, heven, h => by
    obtain ⟨hhigh, h⟩ := List.forall_mem_cons.mp h
    obtain ⟨hlow, hfront⟩ := List.forall_mem_cons.mp h
    obtain ⟨v, hv⟩ := hhigh.exists_value
    obtain ⟨w, hw⟩ := hlow.exists_value
    have heven : (front ++ b :: rest).length % 2 = 0 := by
      simp only [List.cons_append, List.length_cons] at heven
      omega
    rw [List.cons_append, List.cons_append, decodeFrom, hv, hw]
    show (decodeFrom (position + 2) (front ++ b :: rest)).map _ = _
    rw [decodeFrom_eq_badDigit (position + 2) hb heven hfront, List.length_cons, List.length_cons,
      show position + 2 + front.length = position + (front.length + 1 + 1) by omega]
    rfl

/-- A text is refused for the fault of its bytes. -/
theorem Fault.decode_eq {text : List Char} {fault : Error} (h : Fault (Utf8.encode text) fault) :
    decode text = .error fault := by
  rw [decode]
  generalize Utf8.encode text = bytes at h
  cases h with
  | odd hodd => exact if_pos hodd
  | @digit front rest b heven hfront hb =>
    have hread := decodeFrom_eq_badDigit 0 hb heven hfront
    rw [Nat.zero_add] at hread
    exact (if_neg (by omega)).trans hread

/-- There is a fault if the number of bytes is odd or a byte is no digit. -/
theorem exists_fault_iff {bytes : Bytes} :
    (∃ fault, Fault bytes fault) ↔ bytes.length % 2 = 1 ∨ ∃ b ∈ bytes, ¬ IsDigitByte b := by
  constructor
  · rintro ⟨fault, hodd | ⟨-, -, hb⟩⟩
    · exact .inl hodd
    · exact .inr ⟨_, List.mem_append_right _ List.mem_cons_self, hb⟩
  · intro h
    by_cases hodd : bytes.length % 2 = 1
    · exact ⟨_, .odd hodd⟩
    · obtain ⟨b, hmem, hb⟩ := h.resolve_left hodd
      rcases digits_or_split bytes with hall | ⟨front, c, rest, rfl, hfront, hc⟩
      · exact absurd (hall b hmem) hb
      · exact ⟨_, .digit (by omega) hfront hc⟩

/-- A text is made of digits and read, or it has a fault. -/
theorem digits_or_fault (text : List Char) :
    ((∀ c ∈ text, IsDigit c) ∧ ∃ bytes, decode text = .ok bytes ∧ text.length = 2 * bytes.length) ∨
    ∃ fault, Fault (Utf8.encode text) fault := by
  by_cases hfault : ∃ fault, Fault (Utf8.encode text) fault
  · exact .inr hfault
  · obtain ⟨hodd, hall⟩ := not_or.mp (mt exists_fault_iff.mpr hfault)
    have hbytes : ∀ b ∈ Utf8.encode text, IsDigitByte b := by simpa using hall
    have hdigits := digitBytes_iff.mp hbytes
    obtain ⟨bytes, hread, hlength⟩ := exists_decodeFrom_eq_ok 0 (by omega) hbytes
    rw [length_encode_of_digits hdigits] at hlength
    exact .inl ⟨hdigits, bytes, (if_neg hodd).trans hread, hlength⟩

/-- **A text is refused exactly for the fault of its bytes.** -/
theorem decode_eq_error_iff {text : List Char} {fault : Error} :
    decode text = .error fault ↔ Fault (Utf8.encode text) fault := by
  refine ⟨fun h => ?_, Fault.decode_eq⟩
  rcases digits_or_fault text with ⟨-, bytes, hread, -⟩ | ⟨other, hother⟩
  · cases hread.symm.trans h
  · cases hother.decode_eq.symm.trans h
    exact hother

/-! ## What is read -/

/-- **A text of digits spells half as many bytes**, and no other text spells any. -/
theorem exists_decode_eq_ok_iff {text : List Char} {n : Nat} :
    (∃ bytes, decode text = .ok bytes ∧ bytes.length = n) ↔
      text.length = 2 * n ∧ ∀ c ∈ text, IsDigit c := by
  rcases digits_or_fault text with ⟨hdigits, bytes, hread, hlength⟩ | ⟨fault, hfault⟩
  · constructor
    · rintro ⟨bytes', hread', rfl⟩
      cases hread.symm.trans hread'
      exact ⟨hlength, hdigits⟩
    · rintro ⟨hn, -⟩
      exact ⟨bytes, hread, by omega⟩
  · constructor
    · rintro ⟨bytes, hread, -⟩
      cases hread.symm.trans hfault.decode_eq
    · rintro ⟨hn, hdigits⟩
      have hlength := length_encode_of_digits hdigits
      rcases exists_fault_iff.mp ⟨fault, hfault⟩ with hodd | ⟨b, hmem, hb⟩
      · omega
      · exact absurd (digitBytes_iff.mpr hdigits b hmem) hb

/-- A character changes to its lower case by 32, and only from `A` on. -/
theorem toLower_cases (c : Char) :
    (0x41 ≤ c.toNat ∧ c.toLower.toNat = c.toNat + 0x20) ∨ c.toLower = c := by
  by_cases hupper : 'A'.val ≤ c.val ∧ c.val ≤ 'Z'.val
  · have hlow : 0x41 ≤ c.toNat := UInt32.le_iff_toNat_le.mp hupper.1
    have hhigh : c.toNat ≤ 0x5A := UInt32.le_iff_toNat_le.mp hupper.2
    have hlower : c.toLower.val = c.val + 0x20 := congrArg Char.val (dif_pos hupper)
    have hsum : (c.val + 0x20).toNat = c.toNat + 0x20 :=
      Nat.mod_eq_of_lt (by show c.toNat + 0x20 < 0x100000000; omega)
    exact .inl ⟨hlow, (congrArg UInt32.toNat hlower).trans hsum⟩
  · exact .inr (dif_neg hupper)

/-- What is a digit in lower case is one. -/
theorem IsDigit.of_toLower {c : Char} (h : IsDigit c.toLower) : IsDigit c := by
  rcases toLower_cases c with ⟨hlow, hlower⟩ | hsame
  · rw [isDigit_iff, hlower] at h
    rw [isDigit_iff]
    omega
  · rwa [hsame] at h

/-- The digits of a byte string are read as it in either case, and nothing else is. -/
theorem decode_eq_ok_iff {text : List Char} {bytes : Bytes} :
    decode text = .ok bytes ↔ text.map Char.toLower = digits bytes := by
  refine ⟨map_toLower_of_decode, fun h => ?_⟩
  obtain ⟨hlength, hdigits⟩ := exists_decode_eq_ok_iff.mp ⟨bytes, decode_digits bytes, rfl⟩
  rw [← h] at hlength hdigits
  rw [List.length_map] at hlength
  have htext : ∀ c ∈ text, IsDigit c := fun c hc =>
    IsDigit.of_toLower (hdigits _ (List.mem_map_of_mem hc))
  obtain ⟨out, hread, -⟩ := exists_decode_eq_ok_iff.mpr ⟨hlength, htext⟩
  have hout : Except.ok out = (.ok bytes : Except Error Bytes) := by
    rw [← decode_digits out, ← map_toLower_of_decode hread, h, decode_digits]
  exact hread.trans hout

/-- A text without the marker, if it has one in front. -/
def bare (text : String) : List Char :=
  if ['0', 'x'] <+: text.toList then text.toList.drop 2 else text.toList

/-- A text without its marker, read off the text. -/
theorem withoutMarker_eq_bare (text : String) : withoutMarker text.toList = bare text := by
  rw [bare]
  split
  · next hmarked =>
    obtain ⟨rest, hrest⟩ := hmarked
    rw [← hrest]
    rfl
  · next hunmarked =>
    rw [withoutMarker]
    rintro rest hrest
    exact hunmarked ⟨rest, hrest.symm⟩

/-- What is left of a text without its marker, in lower case. -/
theorem plain_eq_iff {text other : String} :
    plain text = other ↔ (bare text).map Char.toLower = other.toList := by
  rw [plain, withoutMarker_eq_bare, ← String.toList_inj, String.toList_ofList]

end Hex

/-! ## Words -/

namespace Word

variable {text : String}

/-- A key is refused for its digits exactly if they have this fault. -/
theorem parse_eq_badHex_iff {fault : Hex.Error} :
    parse text = .error (.badHex fault) ↔ Hex.Fault (Utf8.encode (Hex.bare text)) fault := by
  rw [← Hex.decode_eq_error_iff, parse, Hex.withoutMarker_eq_bare]
  cases Hex.decode (Hex.bare text) with
  | error other => simp
  | ok bytes =>
    dsimp only
    split <;> simp

/-- A key is refused for its length exactly if it spells this other number of bytes. -/
theorem parse_eq_badLength_iff {n : Nat} :
    parse text = .error (.badLength n) ↔
      (Hex.bare text).length = 2 * n ∧ (∀ c ∈ Hex.bare text, Hex.IsDigit c) ∧ n ≠ 32 := by
  rw [← and_assoc, ← Hex.exists_decode_eq_ok_iff, parse, Hex.withoutMarker_eq_bare]
  cases Hex.decode (Hex.bare text) with
  | error other => simp
  | ok bytes =>
    dsimp only
    split <;> simp <;> omega

/-- A key is read exactly if it has 64 digits. -/
theorem exists_parse_eq_ok_iff :
    (∃ w, parse text = .ok w) ↔
      (Hex.bare text).length = 64 ∧ ∀ c ∈ Hex.bare text, Hex.IsDigit c := by
  rw [show 64 = 2 * 32 from rfl, ← Hex.exists_decode_eq_ok_iff, parse, Hex.withoutMarker_eq_bare]
  cases Hex.decode (Hex.bare text) with
  | error other => simp
  | ok bytes =>
    dsimp only
    split <;> simp <;> omega

/-- A key is read as the word whose digits it has, in whatever case. -/
theorem parse_eq_ok_iff {w : Word} :
    parse text = .ok w ↔ (Hex.bare text).map Char.toLower = w.hex.toList := by
  refine ⟨fun h => Hex.plain_eq_iff.mp (plain_of_parse h), fun h => ?_⟩
  rw [hex, Hex.encode, String.toList_ofList] at h
  rw [parse, Hex.withoutMarker_eq_bare, Hex.decode_eq_ok_iff.mpr h]
  simp

/-- A word is read back from its digits behind the marker. -/
theorem parse_marked (w : Word) : parse ("0x" ++ w.hex) = .ok w := by
  obtain ⟨v, hread, hv⟩ := map_eq_ok_iff.mp (OpcodeSet.parse_render ⟨w⟩)
  cases hv
  exact hread

end Word

/-- How a kind of value that holds a word is read from texts. -/
structure ReadsExactly {α : Type} (parse : String → Except Word.ParseError α) (hex : α → String) :
    Prop where
  /-- A text is read if it is 64 digits and perhaps a marker. -/
  ok_iff : ∀ text, (∃ a, parse text = .ok a) ↔
    (Hex.bare text).length = 64 ∧ ∀ c ∈ Hex.bare text, Hex.IsDigit c
  /-- It is read as the value that has its digits, in lower case. -/
  eq_ok_iff : ∀ text a, parse text = .ok a ↔ (Hex.bare text).map Char.toLower = (hex a).toList
  badHex_iff : ∀ text, (∃ fault, parse text = .error (.badHex fault)) ↔
    (Utf8.encode (Hex.bare text)).length % 2 = 1 ∨
      ∃ b ∈ Utf8.encode (Hex.bare text), ¬ Hex.IsDigitByte b
  badLength_iff : ∀ text n, parse text = .error (.badLength n) ↔
    (Hex.bare text).length = 2 * n ∧ (∀ c ∈ Hex.bare text, Hex.IsDigit c) ∧ n ≠ 32
  parse_hex : ∀ a, parse (hex a) = .ok a
  parse_marked : ∀ a, parse ("0x" ++ hex a) = .ok a

/-- What holds a word and nothing else is read as the word is. -/
theorem ReadsExactly.ofWord {α : Type} {mk : Word → α} {key : α → Word}
    (hkey : ∀ w, key (mk w) = w) (hmk : ∀ a, mk (key a) = a) :
    ReadsExactly (fun text => (Word.parse text).map mk) (fun a => (key a).hex) where
  ok_iff text := by
    rw [← Word.exists_parse_eq_ok_iff]
    cases Word.parse text <;> simp [Except.map]
  eq_ok_iff text a := by
    rw [← Word.parse_eq_ok_iff, map_eq_ok_iff]
    constructor
    · rintro ⟨w, hread, rfl⟩
      rw [hread, hkey]
    · exact fun hread => ⟨key a, hread, hmk a⟩
  badHex_iff text := by
    rw [← Hex.exists_fault_iff]
    refine exists_congr fun fault => ?_
    rw [← Word.parse_eq_badHex_iff]
    cases Word.parse text <;> simp [Except.map]
  badLength_iff text n := by
    rw [← Word.parse_eq_badLength_iff]
    cases Word.parse text <;> simp [Except.map]
  parse_hex a := by
    rw [Word.parse_hex]
    exact congrArg Except.ok (hmk a)
  parse_marked a := by
    rw [Word.parse_marked]
    exact congrArg Except.ok (hmk a)

/-! ## Players and allow-lists -/

namespace OpcodeSet

/-- An allow-list is read back from its JSON text. -/
theorem parseJson?_renderJson (s : OpcodeSet) : parseJson? s.renderJson = some s := by
  have hspells : Json.SpellsElement s.renderJson.toList (Json.ofText s.hex) := by
    rw [renderJson, String.toList_ofList]
    exact (Json.spells_quoted s.hex).element
  rw [parseJson?, Json.parse?_of_spells hspells, Option.bind_some, Json.ofText, ofJson?,
    Json.textOf?_pointsOf, Option.bind_some, parse_hex]
  rfl

/-- The digits of an allow-list are those of its four words, the last one first. -/
theorem hex_toSet (w : Limbs) : w.toSet.hex = Hex.encode w.toBytes := by
  rw [← Limbs.toBytes_toSet]
  rfl

end OpcodeSet

/-- **Players and allow-lists are read exactly.** Both are read from 64 digits with at most one
marker in front, as the value that has the digits, and every other text is refused for what is wrong
with it. An allow-list is read back from its printed form and from its JSON text too, and its digits
are those of its four words. -/
theorem keys_are_read_exactly :
    ReadsExactly Player.parse Player.hex ∧
    ReadsExactly OpcodeSet.parse OpcodeSet.hex ∧
    (∀ s : OpcodeSet,
      OpcodeSet.parse s.render = .ok s ∧ OpcodeSet.parseJson? s.renderJson = some s) ∧
    ∀ w : Limbs, w.toSet.hex = Hex.encode w.toBytes ∧
      OpcodeSet.parse (Hex.encode w.toBytes) = .ok w.toSet := by
  refine ⟨.ofWord (fun _ => rfl) fun _ => rfl, .ofWord (fun _ => rfl) fun _ => rfl,
    fun s => ⟨OpcodeSet.parse_render s, OpcodeSet.parseJson?_renderJson s⟩, fun w => ?_⟩
  have hhex := OpcodeSet.hex_toSet w
  exact ⟨hhex, hhex ▸ OpcodeSet.parse_hex w.toSet⟩

/-- A second marker is no digit. -/
example : Player.parse "0x0xff" = .error (.badHex (.badDigit 0x78 1)) := by decide

end CodeGolf
