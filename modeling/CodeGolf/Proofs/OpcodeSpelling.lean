import Mathlib.Data.List.TakeWhile
import CodeGolf.CommandLine.Run
import CodeGolf.Proofs.Spelling
import CodeGolf.Proofs.Step

/-!
# How an opcode may be written

`SpellsOpcode` says which texts spell an opcode, with no regard to how they are read: blanks, a
marker, a plus sign, at least one digit, blanks, where the digits of base sixteen have the number of
the opcode as their value. `opcodeOf_eq_ok_iff` is that these texts are read, as the opcode that
they spell, and no others are.

The reader gives up as soon as the number is too large, and a number only grows with more digits
(`Hex.le_of_number?_eq_some`), so nothing is refused that would have become a byte. What is around
the digits cannot be taken for them, since no blank, no sign and no letter of a marker is a digit
(`trim_spelling`, `Hex.withoutMarker_of_notMem`).

A list of texts is read if each of them is (`setDenying_eq_ok_iff`), and the set that is left has
the other opcodes as its members.
-/

namespace CodeGolf

/-! ## Numbers in base sixteen -/

namespace Hex

/-- The number that digits of either case spell after those of `value`. -/
def number? (value : Nat) (digits : List Char) : Option Nat :=
  digits.foldlM (fun value c => (charValue? c).map (value * 16 + ·)) value

theorem number?_nil (value : Nat) : number? value [] = some value := rfl

theorem number?_cons_of_none {c : Char} (hc : charValue? c = none) (value : Nat)
    (digits : List Char) : number? value (c :: digits) = none := by
  rw [number?, List.foldlM_cons, hc]
  rfl

theorem number?_cons_of_some {c : Char} {digit : Nat} (hc : charValue? c = some digit) (value : Nat)
    (digits : List Char) : number? value (c :: digits) = number? (value * 16 + digit) digits := by
  rw [number?, List.foldlM_cons, hc]
  rfl

/-- More digits never make a number less. -/
theorem le_of_number?_eq_some {digits : List Char} {value n : Nat}
    (h : number? value digits = some n) : value ≤ n := by
  induction digits generalizing value with
  | nil => exact Nat.le_of_eq (Option.some.inj h)
  | cons c digits ih =>
    cases hc : charValue? c with
    | none =>
      rw [number?_cons_of_none hc] at h
      cases h
    | some digit =>
      rw [number?_cons_of_some hc] at h
      have hle := ih h
      omega

/-- Each character of a number is a digit. -/
theorem charValue?_ne_none_of_mem {digits : List Char} {value n : Nat}
    (h : number? value digits = some n) : ∀ c ∈ digits, charValue? c ≠ none := by
  induction digits generalizing value with
  | nil => exact fun c hc => absurd hc List.not_mem_nil
  | cons c digits ih =>
    cases hc : charValue? c with
    | none =>
      rw [number?_cons_of_none hc] at h
      cases h
    | some digit =>
      rw [number?_cons_of_some hc] at h
      intro c' hc'
      cases List.mem_cons.mp hc' with
      | inl heq => rw [heq, hc]; exact Option.some_ne_none digit
      | inr hmem => exact ih h c' hmem

/-- No blank is a digit. -/
theorem charValue?_eq_none_of_isBlank {c : Char} (hc : Text.isBlank c = true) :
    charValue? c = none := by
  simp only [Text.isBlank, Bool.or_eq_true, Bool.and_eq_true, decide_eq_true_eq, beq_iff_eq] at hc
  rw [charValue?]
  split
  · next hlt =>
    have htoNat : (UInt8.ofNat c.toNat).toNat = c.toNat := Utf8.toNat_ofNat (by omega)
    rw [value?, htoNat, if_neg (by omega), if_neg (by omega), if_neg (by omega)]
  · rfl

/-- A text without the letter of the marker carries none. -/
theorem withoutMarker_of_notMem {text : List Char} (h : 'x' ∉ text) :
    withoutMarker text = text := by
  rw [withoutMarker]
  rintro rest rfl
  exact h (List.mem_cons_of_mem _ List.mem_cons_self)

/-- What is left of a text without its marker is behind a marker or the text itself. -/
theorem exists_marker (text : List Char) :
    ∃ marker, (marker = [] ∨ marker = ['0', 'x']) ∧ text = marker ++ withoutMarker text := by
  unfold withoutMarker
  split
  · exact ⟨['0', 'x'], .inr rfl, rfl⟩
  · exact ⟨[], .inl rfl, rfl⟩

end Hex

/-! ## Blanks around a text -/

namespace Text

/-- Blanks around a text without blanks are dropped. -/
theorem trim_eq_of_blanks {before core after : List Char}
    (hbefore : ∀ c ∈ before, isBlank c = true) (hcore : ∀ c ∈ core, isBlank c = false)
    (hafter : ∀ c ∈ after, isBlank c = true) : trim (before ++ core ++ after) = core := by
  cases core with
  | nil =>
    rw [trim, List.append_nil, List.dropWhile_append_of_pos hbefore,
      List.dropWhile_eq_nil_iff.mpr hafter]
    rfl
  | cons first core =>
    have hfirst : isBlank first = false := hcore first List.mem_cons_self
    have hreverse : ∀ c ∈ after.reverse, isBlank c = true := fun c hc =>
      hafter c (List.mem_reverse.mp hc)
    have hlast : (first :: core).reverse.dropWhile isBlank = (first :: core).reverse := by
      refine List.dropWhile_eq_self_iff.mpr fun hl => ?_
      rw [hcore _ (List.mem_reverse.mp (List.getElem_mem hl))]
      exact Bool.noConfusion
    rw [trim, List.append_assoc, List.dropWhile_append_of_pos hbefore, List.cons_append,
      List.dropWhile_cons_of_neg (by rw [hfirst]; exact Bool.noConfusion), ← List.cons_append,
      List.reverse_append, List.dropWhile_append_of_pos hreverse, hlast, List.reverse_reverse]

/-- Only blanks are dropped. -/
theorem exists_blanks (text : List Char) :
    ∃ before after, (∀ c ∈ before, isBlank c = true) ∧ (∀ c ∈ after, isBlank c = true) ∧
      text = before ++ trim text ++ after := by
  refine ⟨text.takeWhile isBlank, ((text.dropWhile isBlank).reverse.takeWhile isBlank).reverse,
    fun c hc => List.mem_takeWhile_imp hc,
    fun c hc => List.mem_takeWhile_imp (List.mem_reverse.mp hc), ?_⟩
  rw [trim, List.append_assoc, ← List.reverse_append, List.takeWhile_append_dropWhile,
    List.reverse_reverse, List.takeWhile_append_dropWhile]

end Text

/-! ## Opcodes -/

namespace CommandLine

/-- A text spells an opcode: the digits of its number in base sixteen, with a marker, a plus sign
and blanks around it allowed. -/
def SpellsOpcode (token : String) (opcode : UInt8) : Prop :=
  ∃ before marker sign digits after,
    token.toList = before ++ marker ++ sign ++ digits ++ after ∧
    (∀ c ∈ before, Text.isBlank c = true) ∧ (∀ c ∈ after, Text.isBlank c = true) ∧
    (marker = [] ∨ marker = ['0', 'x']) ∧ (sign = [] ∨ sign = ['+']) ∧
    digits ≠ [] ∧ Hex.number? 0 digits = some opcode.toNat

/-- Digits are read as a byte exactly if their number is the number of the byte. -/
theorem byteFrom_eq_ok_iff {value : Nat} (hvalue : value ≤ 255) {digits : List Char}
    {opcode : UInt8} :
    byteFrom value digits = .ok opcode ↔ Hex.number? value digits = some opcode.toNat := by
  have hopcode : opcode.toNat < 256 := opcode.toNat_lt
  induction digits generalizing value with
  | nil =>
    rw [byteFrom, Hex.number?_nil, Except.ok.injEq, Option.some.injEq, ← UInt8.toNat_inj,
      Utf8.toNat_ofNat (by omega)]
  | cons c digits ih =>
    rw [byteFrom]
    cases hc : Hex.charValue? c with
    | none =>
      rw [Hex.number?_cons_of_none hc]
      exact ⟨fun h => (by cases h), fun h => (by cases h)⟩
    | some digit =>
      rw [Hex.number?_cons_of_some hc]
      by_cases hlarge : 255 < value * 16 + digit
      · simp only [if_pos hlarge]
        refine ⟨fun h => (by cases h), fun h => ?_⟩
        have hle := Hex.le_of_number?_eq_some h
        omega
      · simp only [if_neg hlarge]
        exact ih (by omega)

/-- Digits behind a plus sign are read as if the sign were not there. -/
theorem byteOf_plus {digits : List Char} (hdigits : digits ≠ []) :
    byteOf ('+' :: digits) = byteFrom 0 digits := by
  cases digits with
  | nil => exact absurd rfl hdigits
  | cons c digits => rfl

/-- Digits without a sign are read as they are. -/
theorem byteOf_of_ne_plus {c : Char} (hc : c ≠ '+') (digits : List Char) :
    byteOf (c :: digits) = byteFrom 0 (c :: digits) := by
  unfold byteOf
  split
  · next heq => cases heq
  · next heq => exact absurd (List.cons.inj heq).1 hc
  · next heq => exact absurd (List.cons.inj heq).1 hc
  · rfl

/-- What is behind a marker is read as a byte if it is digits, with one plus sign allowed. -/
theorem byteOf_eq_ok_iff {text : List Char} {opcode : UInt8} :
    byteOf text = .ok opcode ↔
      ∃ sign digits, text = sign ++ digits ∧ (sign = [] ∨ sign = ['+']) ∧ digits ≠ [] ∧
        Hex.number? 0 digits = some opcode.toNat := by
  have hread : ∀ digits, byteFrom 0 digits = .ok opcode ↔
      Hex.number? 0 digits = some opcode.toNat := fun _ => byteFrom_eq_ok_iff (Nat.zero_le 255)
  constructor
  · intro h
    cases text with
    | nil => cases h
    | cons c digits =>
      by_cases hc : c = '+'
      · subst hc
        have hdigits : digits ≠ [] := by
          rintro rfl
          cases h
        rw [byteOf_plus hdigits, hread] at h
        exact ⟨['+'], digits, rfl, .inr rfl, hdigits, h⟩
      · rw [byteOf_of_ne_plus hc, hread] at h
        exact ⟨[], c :: digits, rfl, .inl rfl, List.cons_ne_nil c digits, h⟩
  · rintro ⟨sign, digits, rfl, rfl | rfl, hdigits, hnumber⟩
    · cases digits with
      | nil => exact absurd rfl hdigits
      | cons c digits =>
        have hc : c ≠ '+' := by
          rintro rfl
          exact Hex.charValue?_ne_none_of_mem hnumber '+' List.mem_cons_self (by decide)
        rw [List.nil_append, byteOf_of_ne_plus hc, hread]
        exact hnumber
    · rw [List.singleton_append, byteOf_plus hdigits, hread]
      exact hnumber

/-- The blanks around a spelling are all that is dropped from it. -/
theorem trim_spelling {before marker sign digits after : List Char}
    (hbefore : ∀ c ∈ before, Text.isBlank c = true) (hafter : ∀ c ∈ after, Text.isBlank c = true)
    (hmarker : marker = [] ∨ marker = ['0', 'x']) (hsign : sign = [] ∨ sign = ['+'])
    (hdigits : ∀ c ∈ digits, Hex.charValue? c ≠ none) :
    Text.trim (before ++ marker ++ sign ++ digits ++ after) = marker ++ (sign ++ digits) := by
  have hmarkerBlank : ∀ c ∈ marker, Text.isBlank c = false := by
    rcases hmarker with rfl | rfl
    · exact List.forall_mem_nil _
    · exact List.forall_mem_cons.mpr ⟨rfl, List.forall_mem_singleton.mpr rfl⟩
  have hsignBlank : ∀ c ∈ sign, Text.isBlank c = false := by
    rcases hsign with rfl | rfl
    · exact List.forall_mem_nil _
    · exact List.forall_mem_singleton.mpr rfl
  have hdigitsBlank : ∀ c ∈ digits, Text.isBlank c = false := fun c hc =>
    Bool.eq_false_iff.mpr fun h => hdigits c hc (Hex.charValue?_eq_none_of_isBlank h)
  rw [List.append_assoc before, List.append_assoc before, List.append_assoc marker]
  exact Text.trim_eq_of_blanks hbefore (List.forall_mem_append.mpr
    ⟨hmarkerBlank, List.forall_mem_append.mpr ⟨hsignBlank, hdigitsBlank⟩⟩) hafter

/-- **A text is read as an opcode** exactly if it spells the opcode. -/
theorem opcodeOf_eq_ok_iff {token : String} {opcode : UInt8} :
    opcodeOf token = .ok opcode ↔ SpellsOpcode token opcode := by
  rw [opcodeOf, mapError_eq_ok_iff, byteOf_eq_ok_iff]
  constructor
  · rintro ⟨sign, digits, htext, hsign, hdigits, hnumber⟩
    obtain ⟨before, after, hbefore, hafter, htoken⟩ := Text.exists_blanks token.toList
    obtain ⟨marker, hmarker, hcore⟩ := Hex.exists_marker (Text.trim token.toList)
    refine ⟨before, marker, sign, digits, after, ?_, hbefore, hafter, hmarker, hsign, hdigits,
      hnumber⟩
    rw [htoken, hcore, htext]
    simp only [List.append_assoc]
  · rintro ⟨before, marker, sign, digits, after, htoken, hbefore, hafter, hmarker, hsign, hdigits,
      hnumber⟩
    have hdigit := Hex.charValue?_ne_none_of_mem hnumber
    have hletter : 'x' ∉ sign ++ digits := by
      refine fun hx => (List.mem_append.mp hx).elim ?_ fun hx => hdigit 'x' hx (by decide)
      rcases hsign with rfl | rfl <;> decide
    refine ⟨sign, digits, ?_, hsign, hdigits, hnumber⟩
    rw [htoken, trim_spelling hbefore hafter hmarker hsign hdigit]
    rcases hmarker with rfl | rfl
    · exact Hex.withoutMarker_of_notMem hletter
    · rfl

/-! ## Lists of opcodes -/

/-- A list is read if each of its texts is, and then text by text. -/
theorem opcodesOf_eq_ok_iff {tokens : List String} {opcodes : List UInt8} :
    opcodesOf tokens = .ok opcodes ↔ tokens.map opcodeOf = opcodes.map .ok := by
  rw [opcodesOf]
  induction tokens generalizing opcodes with
  | nil =>
    rw [List.mapM_nil, List.map_nil]
    constructor
    · intro h
      cases h
      rfl
    · intro h
      rw [List.map_eq_nil_iff.mp h.symm]
      rfl
  | cons token tokens ih =>
    rw [List.mapM_cons, bind_eq_ok_iff, List.map_cons]
    constructor
    · rintro ⟨opcode, htoken, h⟩
      obtain ⟨rest, htokens, h⟩ := bind_eq_ok_iff.mp h
      cases h
      rw [htoken, ih.mp htokens, List.map_cons]
    · intro h
      obtain ⟨opcode, rest, rfl, htoken, htokens⟩ := List.map_eq_cons_iff.mp h.symm
      exact ⟨opcode, htoken.symm, bind_eq_ok_iff.mpr ⟨rest, ih.mpr htokens.symm, rfl⟩⟩

/-- The opcodes that are read from a list are those that its texts spell. -/
theorem mem_iff_of_opcodesOf {tokens : List String} {opcodes : List UInt8}
    (h : opcodesOf tokens = .ok opcodes) (opcode : UInt8) :
    opcode ∈ opcodes ↔ ∃ token ∈ tokens, SpellsOpcode token opcode := by
  have hmem : opcode ∈ opcodes ↔ .ok opcode ∈ tokens.map opcodeOf := by
    rw [opcodesOf_eq_ok_iff.mp h, List.mem_map]
    simp only [Except.ok.injEq, exists_eq_right]
  rw [hmem, List.mem_map]
  simp only [opcodeOf_eq_ok_iff]

/-- A list is read as some opcodes exactly if each of its texts spells one. -/
theorem exists_opcodesOf_eq_ok_iff {tokens : List String} :
    (∃ opcodes, opcodesOf tokens = .ok opcodes) ↔
      ∀ token ∈ tokens, ∃ opcode, SpellsOpcode token opcode := by
  simp only [opcodesOf_eq_ok_iff, ← opcodeOf_eq_ok_iff]
  induction tokens with
  | nil => exact ⟨fun _ _ h => absurd h List.not_mem_nil, fun _ => ⟨[], rfl⟩⟩
  | cons token tokens ih =>
    rw [List.forall_mem_cons, ← ih, List.map_cons]
    constructor
    · rintro ⟨opcodes, h⟩
      obtain ⟨opcode, rest, rfl, htoken, htokens⟩ := List.map_eq_cons_iff.mp h.symm
      exact ⟨⟨opcode, htoken.symm⟩, rest, htokens.symm⟩
    · rintro ⟨⟨opcode, htoken⟩, rest, htokens⟩
      exact ⟨opcode :: rest, by rw [htoken, htokens, List.map_cons]⟩

end CommandLine

/-! ## Sets of opcodes -/

namespace OpcodeSet

/-- Denying opcodes one after the other leaves the members that are not among them. -/
theorem mem_foldl_erase (opcodes : List UInt8) (s : OpcodeSet) (opcode : UInt8) :
    opcode ∈ opcodes.foldl erase s ↔ opcode ∈ s ∧ opcode ∉ opcodes := by
  induction opcodes generalizing s with
  | nil => exact ⟨fun h => ⟨h, List.not_mem_nil⟩, And.left⟩
  | cons denied opcodes ih =>
    have herase : opcode ∈ s.erase denied ↔ opcode ∈ s ∧ opcode ≠ denied := by
      show (s.erase denied).contains opcode = true ↔ s.contains opcode = true ∧ _
      rw [contains_erase, Bool.and_eq_true, Bool.not_eq_true', beq_eq_false_iff_ne, ne_comm]
    rw [List.foldl_cons, ih, herase, List.mem_cons, not_or, and_assoc]

/-- The set of all opcodes but the listed ones has the others as its members. -/
theorem mem_allExcept {opcodes : List UInt8} {opcode : UInt8} :
    opcode ∈ allExcept opcodes ↔ opcode ∉ opcodes := by
  rw [allExcept, mem_foldl_erase]
  exact and_iff_right (contains_full opcode)

/-- Two sets with the same members are equal. -/
theorem ext_mem {s t : OpcodeSet} (h : ∀ opcode, opcode ∈ s ↔ opcode ∈ t) : s = t :=
  ext_contains fun opcode => Bool.eq_iff_iff.mpr (h opcode)

/-- **A set of opcodes is read back from its text.** -/
theorem parse_render (s : OpcodeSet) : parse s.render = .ok s := by
  have hmarker : Hex.withoutMarker s.render.toList = Hex.withoutMarker s.hex.toList := by
    have hdigits : s.hex.toList = Hex.digits s.toBytes := String.toList_ofList
    rw [render, String.toList_append, hdigits, Hex.withoutMarker_digits]
    rfl
  have hparse := parse_hex s
  rw [parse, Word.parse] at hparse ⊢
  rw [hmarker, hparse]

end OpcodeSet

namespace CommandLine

/-- **What is left when opcodes are denied.** A list of texts gives a set exactly if each of them
spells an opcode, and the set has the opcodes as its members that none of them spells. -/
theorem setDenying_eq_ok_iff {tokens : List String} {set : OpcodeSet} :
    setDenying tokens = .ok set ↔
      (∀ token ∈ tokens, ∃ opcode, SpellsOpcode token opcode) ∧
      ∀ opcode, opcode ∈ set ↔ ∀ token ∈ tokens, ¬SpellsOpcode token opcode := by
  rw [← exists_opcodesOf_eq_ok_iff, setDenying]
  cases h : opcodesOf tokens with
  | error fault =>
    constructor
    · intro hset
      cases hset
    · rintro ⟨⟨opcodes, hopcodes⟩, -⟩
      cases hopcodes
  | ok opcodes =>
    have hmem : ∀ opcode, opcode ∈ OpcodeSet.allExcept opcodes ↔
        ∀ token ∈ tokens, ¬SpellsOpcode token opcode := fun opcode => by
      rw [OpcodeSet.mem_allExcept, mem_iff_of_opcodesOf h, not_exists]
      simp only [not_and]
    constructor
    · intro hset
      cases hset
      exact ⟨⟨opcodes, rfl⟩, hmem⟩
    · rintro ⟨-, hset⟩
      exact congrArg Except.ok
        (OpcodeSet.ext_mem fun opcode => (hmem opcode).trans (hset opcode).symm)

end CommandLine

end CodeGolf
