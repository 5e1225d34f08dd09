import CodeGolf.Proofs.JsonGrammar

/-!
# Tokens are read as they are spelled

The reader of tokens takes as many characters as it can, so a number is read whole only if what
follows cannot go on with it (`Token.EndsNumber`); behind a value stand blanks, a comma, a bracket,
a brace or nothing, and none of them can. Every other token ends by itself. With that, each token of
the grammar is read as what it spells: numbers (`Token.numeral?_append`) part by part, strings
(`Token.points?_append`) code point by code point.

The reader of strings takes each escape for itself and puts the halves of pairs together afterwards.
What it has before that is not what the string spells, but it becomes it (`Token.joinPairs`).
-/

namespace CodeGolf.Token

open Json (Blank Digits Whole Fraction Exponent SpellsNumeral SpellsUnit SpellsPoints)

/-! ## Numbers -/

/-- What cannot go on with the digits before it. -/
def EndsDigits (rest : List Char) : Prop := ∀ c ∈ rest.head?, c.isDigit = false

/-- What cannot go on with the number before it. -/
def EndsNumber (rest : List Char) : Prop :=
  ∀ c ∈ rest.head?, c.isDigit = false ∧ c ≠ '.' ∧ c ≠ 'e' ∧ c ≠ 'E'

section
variable {rest : List Char}

/-- What ends a number ends its digits. -/
theorem EndsNumber.endsDigits (h : EndsNumber rest) : EndsDigits rest := fun c hc => (h c hc).1

/-- Digits are taken as long as they go on. -/
theorem spanDigits_append {digits : List Char} (hdigits : ∀ c ∈ digits, c.isDigit = true)
    (hrest : EndsDigits rest) : spanDigits (digits ++ rest) = (digits, rest) := by
  have hstop : rest.takeWhile Char.isDigit = [] ∧ rest.dropWhile Char.isDigit = rest := by
    cases rest with
    | nil => exact ⟨rfl, rfl⟩
    | cons c rest =>
      have hc : c.isDigit = false := hrest c rfl
      simp [hc]
  rw [spanDigits, List.takeWhile_append_of_pos hdigits, List.dropWhile_append_of_pos hdigits,
    hstop.1, hstop.2, List.append_nil]

/-- Digits are read up to their end. -/
theorem someDigits?_append {digits : List Char} (hdigits : Digits digits)
    (hrest : EndsDigits rest) : someDigits? (digits ++ rest) = some (digits, rest) := by
  rw [someDigits?, spanDigits_append hdigits.2 hrest]
  simp [hdigits.1]

/-- The digits behind the point are read, or there is no point. -/
theorem fraction?_append {fraction : List Char} (h : Fraction fraction) (hdigits : EndsDigits rest)
    (hpoint : '.' ∉ rest.head?) : fraction? (fraction ++ rest) = some (fraction, rest) := by
  cases h with
  | none =>
    rw [List.nil_append, fraction?]
    rintro tail rfl
    exact hpoint rfl
  | some h =>
    rw [List.cons_append, fraction?, someDigits?_append h hdigits]
    rfl

/-- The digits of an exponent are read behind their sign. -/
theorem exponentDigits?_append {sign digits : List Char}
    (hsign : sign = [] ∨ sign = ['+'] ∨ sign = ['-']) (hdigits : Digits digits)
    (hrest : EndsDigits rest) :
    exponentDigits? (sign ++ digits ++ rest) = some (sign ++ digits, rest) := by
  have hread := someDigits?_append hdigits hrest
  rcases hsign with rfl | rfl | rfl
  · obtain ⟨c, more, rfl⟩ := List.exists_cons_of_ne_nil hdigits.1
    have hc : c.isDigit = true := hdigits.2 c List.mem_cons_self
    rw [List.nil_append, List.cons_append, exponentDigits?]
    · exact hread
    · rintro tail heq
      cases heq
      exact absurd hc (by decide)
    · rintro tail heq
      cases heq
      exact absurd hc (by decide)
  · rw [List.append_assoc, List.singleton_append, exponentDigits?, hread]
    rfl
  · rw [List.append_assoc, List.singleton_append, exponentDigits?, hread]
    rfl

/-- An exponent is read, or there is none. -/
theorem exponent?_append {exponent : List Char} (h : Exponent exponent) (hrest : EndsNumber rest) :
    exponent? (exponent ++ rest) = some (exponent, rest) := by
  cases h with
  | none =>
    rw [List.nil_append, exponent?]
    · rintro tail rfl
      exact (hrest 'e' rfl).2.2.1 rfl
    · rintro tail rfl
      exact (hrest 'E' rfl).2.2.2 rfl
  | some hmark hsign hdigits =>
    have hread := exponentDigits?_append hsign hdigits hrest.endsDigits
    rcases hmark with rfl | rfl <;>
    · rw [List.cons_append, exponent?, hread]
      rfl

/-- An exponent, or what ends a number, does not go on with digits or with a fraction. -/
theorem EndsNumber.exponent_append {exponent : List Char} (hrest : EndsNumber rest)
    (h : Exponent exponent) :
    EndsDigits (exponent ++ rest) ∧ '.' ∉ (exponent ++ rest).head? := by
  cases h with
  | none => exact ⟨hrest.endsDigits, fun hpoint => (hrest '.' hpoint).2.1 rfl⟩
  | some hmark hsign hdigits =>
    rcases hmark with rfl | rfl <;> simp [EndsDigits]

/-- A fraction and an exponent do not go on with digits. -/
theorem EndsNumber.fraction_append {fraction exponent : List Char} (hrest : EndsNumber rest)
    (hfraction : Fraction fraction) (hexponent : Exponent exponent) :
    EndsDigits (fraction ++ (exponent ++ rest)) := by
  cases hfraction with
  | none => exact (hrest.exponent_append hexponent).1
  | some h => simp [EndsDigits]

/-- The digits in front of the point pass the check of leading zeros. -/
theorem isWhole_of_whole {whole : List Char} (h : Whole whole) : isWhole whole = true := by
  cases h with
  | zero => rfl
  | other hc hne hrest =>
    unfold isWhole
    split <;> simp_all

/-- A number is read as it is spelled, the sign apart. -/
theorem unsigned?_append {whole fraction exponent : List Char} (negative : Bool)
    (hwhole : Whole whole) (hfraction : Fraction fraction) (hexponent : Exponent exponent)
    (hrest : EndsNumber rest) :
    unsigned? negative (whole ++ (fraction ++ exponent) ++ rest) =
      some (⟨negative, Nat.ofDigitChars 10 whole 0, fraction ++ exponent⟩, rest) := by
  have hends := hrest.fraction_append hfraction hexponent
  obtain ⟨hdigits, hpoint⟩ := hrest.exponent_append hexponent
  rw [List.append_assoc, List.append_assoc, unsigned?, spanDigits_append hwhole.isDigit hends]
  simp [isWhole_of_whole hwhole, fraction?_append hfraction hdigits hpoint,
    exponent?_append hexponent hrest]

/-- **A number is read as it is spelled.** -/
theorem numeral?_append {text : List Char} {n : Numeral} (h : SpellsNumeral text n)
    (hrest : EndsNumber rest) : numeral? (text ++ rest) = some (n, rest) := by
  cases h with
  | positive hwhole hfraction hexponent =>
    have hread := unsigned?_append false hwhole hfraction hexponent hrest
    cases hwhole with
    | zero => exact hread
    | other hc hne hdigits =>
      rw [List.append_assoc, List.cons_append] at hread ⊢
      rw [numeral?]
      · exact hread
      · rintro tail heq
        cases heq
        exact absurd hc (by decide)
  | negative hwhole hfraction hexponent =>
    rw [List.cons_append, numeral?]
    exact unsigned?_append true hwhole hfraction hexponent hrest

end

/-! ## Strings -/

/-- A short escape is known by its letter. -/
theorem shortEscape?_of_mem {e : Char} {p : Nat} (h : (e, p) ∈ Json.shortEscapes) :
    shortEscape? e = some p := by
  simp only [Json.shortEscapes, List.mem_cons, List.not_mem_nil, or_false, Prod.mk.injEq] at h
  rcases h with ⟨rfl, rfl⟩ | ⟨rfl, rfl⟩ | ⟨rfl, rfl⟩ | ⟨rfl, rfl⟩ | ⟨rfl, rfl⟩ | ⟨rfl, rfl⟩ |
    ⟨rfl, rfl⟩ | ⟨rfl, rfl⟩ <;> rfl

/-- Four digits are read as the number that they spell. -/
theorem unit?_eq_number? (a b c d : Char) : unit? a b c d = Hex.number? 0 [a, b, c, d] := by
  cases ha : Hex.charValue? a <;> cases hb : Hex.charValue? b <;> cases hc : Hex.charValue? c <;>
    cases hd : Hex.charValue? d <;> simp [unit?, Hex.number?, ha, hb, hc, hd]

/-- An escape of four digits is read as its unit; two units that are a pair are joined later. -/
theorem points?_unitEscape {digits : List Char} {u : Nat} (hu : SpellsUnit digits u)
    (rest : List Char) :
    points? (Json.unitEscape digits ++ rest) =
      (points? rest).map fun (ps, after) => (u :: ps, after) := by
  obtain ⟨hlength, hnumber⟩ := hu
  match digits with
  | [a, b, c, d] =>
    rw [← unit?_eq_number?] at hnumber
    show points? ('\\' :: 'u' :: a :: b :: c :: d :: rest) = _
    rw [points?, hnumber]

/-- A point is left as it is, unless it is the first half of a pair and the second one follows. -/
theorem joinPairs_cons {p : Nat} {us : List Nat}
    (h : isHigh p = true → ∀ q ∈ (joinPairs us).head?, isLow q = false) :
    joinPairs (p :: us) = p :: joinPairs us := by
  cases us with
  | nil => rfl
  | cons q us =>
    rw [joinPairs, if_neg]
    intro hpair
    obtain ⟨hhigh, hlow⟩ := Bool.and_eq_true_iff.mp hpair
    -- The second half of a pair is not the first half of another one, so it is left as it is.
    have hq : isHigh q = false := by
      simp [isHigh, isLow] at hlow ⊢
      omega
    have hhead : q ∈ (joinPairs (q :: us)).head? := by
      cases us with
      | nil => rfl
      | cons r us => simp [joinPairs, hq]
    rw [h hhigh q hhead] at hlow
    cases hlow

/-- A character is no half of a pair. -/
theorem isHigh_toNat (c : Char) : isHigh c.toNat = false := by
  have hvalid : c.toNat < 0xD800 ∨ 0xDFFF < c.toNat ∧ c.toNat < 0x110000 := c.valid
  simp [isHigh]
  omega

/-- **A string is read as it is spelled**: its points are taken one by one, and become what it
spells when the halves of pairs are put together. -/
theorem points?_append {body : List Char} {ps : List Nat} (h : SpellsPoints body ps) :
    ∃ us, joinPairs us = ps ∧ ∀ rest, points? (body ++ '"' :: rest) = some (us, rest) := by
  induction h with
  | nil => exact ⟨[], rfl, fun rest => by rw [List.nil_append, points?]⟩
  | @plain c body ps hquote hback hcontrol h ih =>
    obtain ⟨us, rfl, hread⟩ := ih
    refine ⟨c.toNat :: us, joinPairs_cons fun hhigh => ?_, fun rest => ?_⟩
    · rw [isHigh_toNat] at hhigh
      cases hhigh
    · rw [List.cons_append, points?, hread]
      · simp [hback, Nat.not_lt.mpr hcontrol]
      · exact hquote
      · exact fun _ _ _ _ _ hc _ => hback hc
      · exact fun _ _ hc _ => hback hc
  | @short e p body ps he h ih =>
    obtain ⟨us, rfl, hread⟩ := ih
    have hall : ∀ x ∈ Json.shortEscapes, isHigh x.2 = false ∧ x.1 ≠ 'u' := by decide
    refine ⟨p :: us, joinPairs_cons fun hhigh => ?_, fun rest => ?_⟩
    · rw [(hall _ he).1] at hhigh
      cases hhigh
    · rw [List.cons_append, List.cons_append, points?, shortEscape?_of_mem he]
      · simp [hread]
      · exact fun _ _ _ _ _ hu _ => (hall _ he).2 hu
  | @unit digits body u ps hu halone h ih =>
    obtain ⟨us, rfl, hread⟩ := ih
    refine ⟨u :: us, joinPairs_cons halone, fun rest => ?_⟩
    rw [List.append_assoc, points?_unitEscape hu, hread]
    rfl
  | @pair first second body u v ps hu hhigh hv hlow h ih =>
    obtain ⟨us, rfl, hread⟩ := ih
    refine ⟨u :: v :: us, ?_, fun rest => ?_⟩
    · simp [joinPairs, hhigh, hlow]
    · rw [List.append_assoc, List.append_assoc, points?_unitEscape hu, points?_unitEscape hv, hread]
      rfl

/-! ## Tokens -/

section
variable {rest : List Char}

/-- A quoted text is one token, whatever stands behind it. -/
theorem token?_string {body : List Char} {ps : List Nat} (h : SpellsPoints body ps) :
    token? ('"' :: (body ++ '"' :: rest)) = some (.string ps, rest) := by
  obtain ⟨us, rfl, hread⟩ := points?_append h
  rw [token?, hread]
  rfl

/-- What starts like a number is read as a number. -/
theorem token?_of_numeral {c : Char} (hc : c = '-' ∨ c.isDigit = true) :
    token? (c :: rest) =
      (numeral? (c :: rest)).map fun (n, after) => (.number n, after) := by
  rw [token?]
  all_goals
    intros
    simp_all

/-- A number is one token, if what stands behind it ends a number. -/
theorem token?_number {text : List Char} {n : Numeral} (h : SpellsNumeral text n)
    (hrest : EndsNumber rest) : token? (text ++ rest) = some (.number n, rest) := by
  have hread := numeral?_append h hrest
  cases h with
  | positive hwhole hfraction hexponent =>
    cases hwhole with
    | zero =>
      rw [List.append_assoc, List.singleton_append] at hread ⊢
      rw [token?_of_numeral (.inr rfl), hread]
      rfl
    | other hc hne hdigits =>
      rw [List.append_assoc, List.cons_append] at hread ⊢
      rw [token?_of_numeral (.inr hc), hread]
      rfl
  | negative hwhole hfraction hexponent =>
    rw [List.cons_append] at hread ⊢
    rw [token?_of_numeral (.inl rfl), hread]
    rfl

end

/-! ## Splitting -/

/-- Blanks are dropped, and then one token is taken after the other. -/
theorem tokens?_eq (text : List Char) :
    tokens? text = match text.dropWhile isSpace with
      | [] => some []
      | c :: rest => (token? (c :: rest)).bind fun (t, after) => (tokens? after).map (t :: ·) := by
  rw [tokens?]
  split
  · next hnil => rw [hnil]
  · next c rest hcons =>
    rw [hcons]
    split
    · next hnone =>
      simp only [hnone]
      rfl
    · next t after hsome =>
      simp only [hsome]
      rfl

/-- The empty text has no tokens. -/
theorem tokens?_nil : tokens? [] = some [] := by
  rw [tokens?_eq]
  rfl

/-- Blanks in front of a text are no tokens. -/
theorem tokens?_blank {gap : List Char} (h : Blank gap) (rest : List Char) :
    tokens? (gap ++ rest) = tokens? rest := by
  have hspace : ∀ c ∈ gap, isSpace c = true := by
    intro c hc
    rcases h c hc with rfl | rfl | rfl | rfl <;> rfl
  rw [tokens?_eq, List.dropWhile_append_of_pos hspace, ← tokens?_eq]

/-- No token starts with a blank. -/
theorem isSpace_of_token? {c : Char} {rest after : List Char} {t : Token}
    (h : token? (c :: rest) = some (t, after)) : isSpace c = false := by
  rw [Bool.eq_false_iff]
  intro hspace
  have hc : c = ' ' ∨ c = '\t' ∨ c = '\n' ∨ c = '\r' := by
    simpa [isSpace, or_assoc] using hspace
  rcases hc with rfl | rfl | rfl | rfl <;>
    simp [token?, numeral?, unsigned?, spanDigits, isWhole] at h

/-- The token that a text starts with is the first one of its tokens. -/
theorem tokens?_of_token? {text after : List Char} {t : Token}
    (h : token? text = some (t, after)) : tokens? text = (tokens? after).map (t :: ·) := by
  cases text with
  | nil => cases h
  | cons c rest =>
    have hdrop : (c :: rest).dropWhile isSpace = c :: rest := by simp [isSpace_of_token? h]
    rw [tokens?_eq, hdrop]
    simp [h]

end CodeGolf.Token
