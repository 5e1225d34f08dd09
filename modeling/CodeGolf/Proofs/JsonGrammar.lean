import CodeGolf.Json.Token
import CodeGolf.Proofs.OpcodeSpelling

/-!
# What spells a JSON value

The grammar of JSON texts, character by character and with no regard to how they are read. Each
relation is one production: a text on the left, what it spells on the right. A value may have blanks
on both sides where it stands by itself, in an array or behind a colon (`SpellsElement`), and a name
may have them where a member is (`SpellsMember`), so blanks are allowed around every token and
nowhere else.

A string spells code points. Two escapes that are the halves of a surrogate pair are one code point,
and a half that stands alone is one too, though no character: that is why the first half may stand
alone only before something else than a second half (`SpellsPoints.unit`).

The printers write what the grammar says. A text is spelled by its quotation (`spells_quoted`), and
what `prettyAt` makes of an object is spelled over several lines if that is so for its members
(`Printed.record`).
-/

namespace CodeGolf.Json

/-! ## Blanks -/

/-- Blanks may stand between tokens. -/
def Blank (text : List Char) : Prop := ∀ c ∈ text, c = ' ' ∨ c = '\t' ∨ c = '\n' ∨ c = '\r'

/-! ## Numbers -/

/-- At least one digit, and nothing else. -/
def Digits (text : List Char) : Prop := text ≠ [] ∧ ∀ c ∈ text, c.isDigit = true

/-- The digits before a fraction: a zero stands alone, and no other number starts with one. -/
inductive Whole : List Char → Prop
  | zero : Whole ['0']
  | other {c : Char} {rest : List Char} (hc : c.isDigit = true) (hne : c ≠ '0')
      (hrest : ∀ d ∈ rest, d.isDigit = true) : Whole (c :: rest)

/-- What stands in front of the point are digits. -/
theorem Whole.isDigit {whole : List Char} (h : Whole whole) : ∀ c ∈ whole, c.isDigit = true := by
  cases h with
  | zero => simp
  | other hc hne hrest => exact List.forall_mem_cons.mpr ⟨hc, hrest⟩

/-- What stands behind the digits of a number: nothing, or a point and digits. -/
inductive Fraction : List Char → Prop
  | none : Fraction []
  | some {digits : List Char} (h : Digits digits) : Fraction ('.' :: digits)

/-- What stands at the end of a number: nothing, or a mark, a sign or none, and digits. -/
inductive Exponent : List Char → Prop
  | none : Exponent []
  | some {mark : Char} {sign digits : List Char} (hmark : mark = 'e' ∨ mark = 'E')
      (hsign : sign = [] ∨ sign = ['+'] ∨ sign = ['-']) (h : Digits digits) :
      Exponent (mark :: (sign ++ digits))

/-- A number, with a sign if it is negative. -/
inductive SpellsNumeral : List Char → Numeral → Prop
  | positive {whole fraction exponent : List Char} (hwhole : Whole whole)
      (hfraction : Fraction fraction) (hexponent : Exponent exponent) :
      SpellsNumeral (whole ++ (fraction ++ exponent))
        ⟨false, Nat.ofDigitChars 10 whole 0, fraction ++ exponent⟩
  | negative {whole fraction exponent : List Char} (hwhole : Whole whole)
      (hfraction : Fraction fraction) (hexponent : Exponent exponent) :
      SpellsNumeral ('-' :: (whole ++ (fraction ++ exponent)))
        ⟨true, Nat.ofDigitChars 10 whole 0, fraction ++ exponent⟩

/-! ## Strings -/

/-- The escapes of two characters: the one behind the backslash, and the code point. -/
def shortEscapes : List (Char × Nat) :=
  [('"', 0x22), ('\\', 0x5C), ('/', 0x2F), ('b', 0x08), ('f', 0x0C), ('n', 0x0A), ('r', 0x0D),
    ('t', 0x09)]

/-- Four digits of base sixteen behind a backslash and a letter. -/
def unitEscape (digits : List Char) : List Char := '\\' :: 'u' :: digits

/-- The number of four digits of base sixteen. -/
def SpellsUnit (digits : List Char) (u : Nat) : Prop :=
  digits.length = 4 ∧ Hex.number? 0 digits = some u

/-- What stands between the quotes of a string. -/
inductive SpellsPoints : List Char → List Nat → Prop
  | nil : SpellsPoints [] []
  | plain {c : Char} {body : List Char} {ps : List Nat} (hquote : c ≠ '"') (hback : c ≠ '\\')
      (hcontrol : 0x20 ≤ c.toNat) (h : SpellsPoints body ps) :
      SpellsPoints (c :: body) (c.toNat :: ps)
  | short {e : Char} {p : Nat} {body : List Char} {ps : List Nat} (he : (e, p) ∈ shortEscapes)
      (h : SpellsPoints body ps) : SpellsPoints ('\\' :: e :: body) (p :: ps)
  /-- An escape that is no half of a pair: a first half is none if no second one follows. -/
  | unit {digits body : List Char} {u : Nat} {ps : List Nat} (hu : SpellsUnit digits u)
      (halone : Token.isHigh u = true → ∀ p ∈ ps.head?, Token.isLow p = false)
      (h : SpellsPoints body ps) : SpellsPoints (unitEscape digits ++ body) (u :: ps)
  | pair {first second body : List Char} {u v : Nat} {ps : List Nat} (hu : SpellsUnit first u)
      (hhigh : Token.isHigh u = true) (hv : SpellsUnit second v) (hlow : Token.isLow v = true)
      (h : SpellsPoints body ps) :
      SpellsPoints (unitEscape first ++ (unitEscape second ++ body))
        ((0x10000 + (u - 0xD800) * 0x400 + (v - 0xDC00)) :: ps)

/-! ## Values -/

mutual

/-- A value without blanks around it. -/
inductive SpellsValue : List Char → Json → Prop
  | null : SpellsValue ['n', 'u', 'l', 'l'] .null
  | true : SpellsValue ['t', 'r', 'u', 'e'] (.bool true)
  | false : SpellsValue ['f', 'a', 'l', 's', 'e'] (.bool false)
  | number {text : List Char} {n : Numeral} (h : SpellsNumeral text n) :
      SpellsValue text (.number n)
  | string {body : List Char} {ps : List Nat} (h : SpellsPoints body ps) :
      SpellsValue ('"' :: (body ++ ['"'])) (.string ps)
  | emptyArray {gap : List Char} (h : Blank gap) : SpellsValue ('[' :: (gap ++ [']'])) (.array [])
  | array {body : List Char} {items : List Json} (h : SpellsElements body items) :
      SpellsValue ('[' :: (body ++ [']'])) (.array items)
  | emptyObject {gap : List Char} (h : Blank gap) :
      SpellsValue ('\x7b' :: (gap ++ ['\x7d'])) (.object [])
  | object {body : List Char} {members : List (List Nat × Json)} (h : SpellsMembers body members) :
      SpellsValue ('\x7b' :: (body ++ ['\x7d'])) (.object members)

/-- A value with blanks around it. -/
inductive SpellsElement : List Char → Json → Prop
  | mk {before text after : List Char} {v : Json} (hbefore : Blank before)
      (h : SpellsValue text v) (hafter : Blank after) :
      SpellsElement (before ++ (text ++ after)) v

/-- The items of an array, with commas between them. -/
inductive SpellsElements : List Char → List Json → Prop
  | one {text : List Char} {v : Json} (h : SpellsElement text v) : SpellsElements text [v]
  | more {text rest : List Char} {v : Json} {items : List Json} (h : SpellsElement text v)
      (hrest : SpellsElements rest items) : SpellsElements (text ++ ',' :: rest) (v :: items)

/-- A name with blanks around it, and the value behind the colon. -/
inductive SpellsMember : List Char → List Nat × Json → Prop
  | mk {before name after text : List Char} {k : List Nat} {v : Json} (hbefore : Blank before)
      (hname : SpellsPoints name k) (hafter : Blank after) (h : SpellsElement text v) :
      SpellsMember (before ++ '"' :: (name ++ '"' :: (after ++ ':' :: text))) (k, v)

/-- The members of an object, with commas between them. -/
inductive SpellsMembers : List Char → List (List Nat × Json) → Prop
  | one {text : List Char} {m : List Nat × Json} (h : SpellsMember text m) : SpellsMembers text [m]
  | more {text rest : List Char} {m : List Nat × Json} {members : List (List Nat × Json)}
      (h : SpellsMember text m) (hrest : SpellsMembers rest members) :
      SpellsMembers (text ++ ',' :: rest) (m :: members)

end

/-! ## What the printers write -/

/-- Nothing at all is blank. -/
theorem blank_nil : Blank [] := fun _ h => absurd h List.not_mem_nil

/-- A new line with its indentation is blank. -/
theorem blank_newLine (level : Nat) : Blank (newLine level) := by
  intro c hc
  rcases List.mem_cons.mp hc with rfl | hc
  · simp
  · exact .inl (List.eq_of_mem_replicate hc)

/-- A value may stand without blanks. -/
theorem SpellsValue.element {text : List Char} {v : Json} (h : SpellsValue text v) :
    SpellsElement text v := by
  have hmk := SpellsElement.mk blank_nil h blank_nil
  rwa [List.nil_append, List.append_nil] at hmk

/-- The digits of a number are those of an integer without a sign. -/
theorem whole_toDigits (n : Nat) : Whole (Nat.toDigits 10 n) := by
  have hhead : ∀ k : Fin 10, k.val ≠ 0 →
      (Nat.digitChar k.val).isDigit = true ∧ Nat.digitChar k.val ≠ '0' := by decide
  induction n using Nat.strongRecOn with
  | ind n ih =>
    by_cases hsmall : n < 10
    · rw [Nat.toDigits_of_lt_base hsmall]
      by_cases hzero : n = 0
      · subst hzero
        exact .zero
      · obtain ⟨hdigit, hne⟩ := hhead ⟨n, hsmall⟩ hzero
        exact .other hdigit hne (List.forall_mem_nil _)
    · have hlast : ∀ d ∈ [Nat.digitChar (n % 10)], d.isDigit = true := fun d hd =>
        Nat.isDigit_of_mem_toDigits (by decide) (by decide) (n := n % 10) (b := 10) (by
          rwa [Nat.toDigits_of_lt_base (Nat.mod_lt _ (by decide))])
      have hvalue : Nat.ofDigitChars 10 (Nat.toDigits 10 (n / 10)) 0 = n / 10 :=
        Nat.ofDigitChars_ten_toDigits
      have hfront := ih (n / 10) (by omega)
      rw [Nat.toDigits_of_base_le (by decide) (by omega)]
      generalize Nat.toDigits 10 (n / 10) = front at hfront hvalue ⊢
      cases hfront with
      | zero =>
        have hzero : 0 = n / 10 := hvalue
        omega
      | other hc hne hrest => exact .other hc hne (List.forall_mem_append.mpr ⟨hrest, hlast⟩)

/-- A number is spelled by its digits. -/
theorem spells_ofNat (n : Nat) : SpellsValue (Nat.toDigits 10 n) (ofNat n) := by
  have h := SpellsNumeral.positive (whole_toDigits n) .none .none
  rw [Nat.ofDigitChars_ten_toDigits, List.append_nil, List.append_nil] at h
  exact .number h

/-- A code point below the blank is written as an escape. -/
theorem spellsUnit_fourDigits {n : Nat} (hn : n < 0x20) :
    SpellsUnit (fourDigits n) n := by
  have hall : ∀ k : Fin 0x20, (fourDigits k.val).length = 4 ∧
      Hex.number? 0 (fourDigits k.val) = some k.val := by decide
  exact hall ⟨n, hn⟩

/-- A character is spelled by its escape. -/
theorem SpellsPoints.escape {body : List Char} {ps : List Nat} (c : Char)
    (h : SpellsPoints body ps) : SpellsPoints (escape c.toNat ++ body) (c.toNat :: ps) := by
  have hvalid : c.toNat.isValidChar := c.valid
  unfold Json.escape
  split
  · next hc => rw [hc]; exact .short (by decide) h
  split
  · next hc => rw [hc]; exact .short (by decide) h
  split
  · next hc => rw [hc]; exact .short (by decide) h
  split
  · next hc => rw [hc]; exact .short (by decide) h
  split
  · next hc => rw [hc]; exact .short (by decide) h
  split
  · next hc => rw [hc]; exact .short (by decide) h
  split
  · next hc => rw [hc]; exact .short (by decide) h
  split
  · next hc =>
    have hlt : c.toNat < 0x20 := by simpa [hvalid] using hc
    exact .unit (spellsUnit_fourDigits hlt) (fun hhigh => by simp [Token.isHigh] at hhigh; omega) h
  · next hquote hback _ _ _ _ _ hc =>
    have hle : 0x20 ≤ c.toNat := by simpa [hvalid] using hc
    rw [Char.ofNat_toNat]
    refine .plain ?_ ?_ hle h
    · rintro rfl
      exact hquote rfl
    · rintro rfl
      exact hback rfl

/-- The points of a text are spelled by their escapes. -/
theorem spellsPoints_escapes (text : String) :
    SpellsPoints ((pointsOf text).flatMap Json.escape) (pointsOf text) := by
  rw [pointsOf]
  induction text.toList with
  | nil => exact .nil
  | cons c rest ih =>
    rw [List.map_cons, List.flatMap_cons]
    exact ih.escape c

/-- **A text is spelled by its quotation.** -/
theorem spells_quoted (text : String) : SpellsValue (quoted (pointsOf text)) (ofText text) :=
  .string (spellsPoints_escapes text)

/-- What is printed over several lines spells the value, at whatever level it starts. -/
def Printed (v : Json) : Prop := ∀ level, SpellsValue (prettyAt level v) v

/-- The text that is printed for null spells it. -/
theorem printed_null : Printed .null := fun _ => .null

/-- The text that is printed for a truth value spells it. -/
theorem printed_bool (b : Bool) : Printed (.bool b) := fun _ => by
  cases b with
  | false => exact .false
  | true => exact .true

/-- The text that is printed for a number spells it. -/
theorem printed_ofNat (n : Nat) : Printed (ofNat n) := fun level => by
  have htext : prettyAt level (ofNat n) = Nat.toDigits 10 n := by
    simp [ofNat, prettyAt, Numeral.render]
  rw [htext]
  exact spells_ofNat n

/-- What may be absent is printed as null or as it is printed elsewhere. -/
theorem printed_ofOption {α : Type} {write : α → Json} (h : ∀ a, Printed (write a)) :
    ∀ a, Printed (ofOption write a)
  | none => printed_null
  | some a => h a

section
variable (level : Nat) (name : String) {v : Json}

/-- A member is printed on a line of its own, and blanks may follow it. -/
theorem spellsMember_pretty {after : List Char} (hv : Printed v) (hafter : Blank after) :
    SpellsMember (newLine level ++ (quoted (pointsOf name) ++ ':' :: ' ' ::
      (prettyAt level v ++ after))) (pointsOf name, v) := by
  have hblank : Blank [' '] := by simp [Blank]
  have h := SpellsMember.mk (blank_newLine level) (spellsPoints_escapes name) blank_nil
    (.mk hblank (hv level) hafter)
  simpa [quoted] using h

/-- Members are printed line by line, and blanks may follow the last one. -/
theorem spellsMembers_pretty {gap : List Char} {rest : List (String × Json)} (hv : Printed v)
    (hrest : ∀ m ∈ rest, Printed m.2) (hgap : Blank gap) :
    SpellsMembers (newLine level ++ (quoted (pointsOf name) ++ ':' :: ' ' :: (prettyAt level v ++
        (prettyMembers level (rest.map fun m => (pointsOf m.1, m.2)) ++ gap))))
      ((pointsOf name, v) :: rest.map fun m => (pointsOf m.1, m.2)) := by
  induction rest generalizing name v with
  | nil => simpa [prettyMembers] using SpellsMembers.one (spellsMember_pretty level name hv hgap)
  | cons m rest ih =>
    obtain ⟨hm, hrest⟩ := List.forall_mem_cons.mp hrest
    have h := SpellsMembers.more (spellsMember_pretty level name hv blank_nil) (ih m.1 hm hrest)
    simpa [prettyMembers] using h

/-- **An object is printed as it is spelled** if its members are. -/
theorem Printed.record {members : List (String × Json)} (h : ∀ m ∈ members, Printed m.2) :
    Printed (record members) := by
  intro level
  cases members with
  | nil => exact .emptyObject blank_nil
  | cons m rest =>
    obtain ⟨hm, hrest⟩ := List.forall_mem_cons.mp h
    have hobject := SpellsValue.object
      (spellsMembers_pretty (level + 1) m.1 hm hrest (blank_newLine level))
    simpa [Json.record, prettyAt] using hobject

end

end CodeGolf.Json
