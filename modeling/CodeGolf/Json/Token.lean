import CodeGolf.Json

/-!
# JSON tokens

A text splits into tokens with blanks between them. A token takes as many characters as it
can: digits go on until one is missing, and a string ends at its closing quote. What a token
leaves is shorter than what it started from (`length_lt_of_token?`), so splitting ends.
-/

namespace CodeGolf

/-- A piece of JSON text. -/
inductive Token where
  | openBracket
  | closeBracket
  | openBrace
  | closeBrace
  | comma
  | colon
  | null
  | bool (value : Bool)
  | number (value : Numeral)
  | string (points : List Nat)
  deriving DecidableEq

namespace Token

/-! ## Strings -/

/-- The value of four hexadecimal digits. -/
def unit? (a b c d : Char) : Option Nat := do
  let p ← Hex.charValue? a
  let q ← Hex.charValue? b
  let r ← Hex.charValue? c
  let s ← Hex.charValue? d
  some (((p * 16 + q) * 16 + r) * 16 + s)

/-- The code point of an escape of two characters. -/
def shortEscape? : Char → Option Nat
  | '"' => some 0x22
  | '\\' => some 0x5C
  | '/' => some 0x2F
  | 'b' => some 0x08
  | 'f' => some 0x0C
  | 'n' => some 0x0A
  | 'r' => some 0x0D
  | 't' => some 0x09
  | _ => none

/-- The code points of a string up to its closing quote, each escape for itself, and the text
after the quote. Control characters may not stand in a string. -/
def points? : List Char → Option (List Nat × List Char)
  | [] => none
  | '"' :: rest => some ([], rest)
  | '\\' :: 'u' :: a :: b :: c :: d :: rest =>
    match unit? a b c d with
    | none => none
    | some u => (points? rest).map fun (ps, after) => (u :: ps, after)
  | '\\' :: e :: rest =>
    match shortEscape? e with
    | none => none
    | some p => (points? rest).map fun (ps, after) => (p :: ps, after)
  | c :: rest =>
    if c = '\\' || c.toNat < 0x20 then none
    else (points? rest).map fun (ps, after) => (c.toNat :: ps, after)

/-- Whether a code point is the first half of a surrogate pair. -/
def isHigh (p : Nat) : Bool := 0xD800 ≤ p && p ≤ 0xDBFF

/-- Whether a code point is the second half of a surrogate pair. -/
def isLow (p : Nat) : Bool := 0xDC00 ≤ p && p ≤ 0xDFFF

/-- Puts together the halves of surrogate pairs. -/
def joinPairs : List Nat → List Nat
  | [] => []
  | [p] => [p]
  | p :: q :: rest =>
    if isHigh p && isLow q then
      (0x10000 + (p - 0xD800) * 0x400 + (q - 0xDC00)) :: joinPairs rest
    else p :: joinPairs (q :: rest)

/-! ## Numbers -/

/-- The digits that a text starts with, and the text after them. -/
def spanDigits (text : List Char) : List Char × List Char :=
  (text.takeWhile Char.isDigit, text.dropWhile Char.isDigit)

/-- At least one digit, and the text after the digits. -/
def someDigits? (text : List Char) : Option (List Char × List Char) :=
  if (spanDigits text).1.isEmpty then none else some (spanDigits text)

/-- The fraction that a text starts with; none is empty, a point without digits is refused. -/
def fraction? : List Char → Option (List Char × List Char)
  | '.' :: rest => (someDigits? rest).map fun (ds, after) => ('.' :: ds, after)
  | text => some ([], text)

/-- The digits of an exponent with the sign before them. -/
def exponentDigits? : List Char → Option (List Char × List Char)
  | '+' :: rest => (someDigits? rest).map fun (ds, after) => ('+' :: ds, after)
  | '-' :: rest => (someDigits? rest).map fun (ds, after) => ('-' :: ds, after)
  | text => someDigits? text

/-- The exponent that a text starts with; none is empty, a mark without digits is refused. -/
def exponent? : List Char → Option (List Char × List Char)
  | 'e' :: rest => (exponentDigits? rest).map fun (ds, after) => ('e' :: ds, after)
  | 'E' :: rest => (exponentDigits? rest).map fun (ds, after) => ('E' :: ds, after)
  | text => some ([], text)

/-- Whether digits may stand before a fraction: there is one, and a zero stands alone. -/
def isWhole : List Char → Bool
  | [] => false
  | ['0'] => true
  | c :: _ => c != '0'

/-- The number that a text starts with, the sign apart. -/
def unsigned? (negative : Bool) (text : List Char) : Option (Numeral × List Char) :=
  let (ds, rest) := spanDigits text
  if !isWhole ds then none
  else
    match fraction? rest with
    | none => none
    | some (frac, rest) =>
      match exponent? rest with
      | none => none
      | some (exp, rest) => some (⟨negative, Nat.ofDigitChars 10 ds 0, frac ++ exp⟩, rest)

/-- The number that a text starts with. -/
def numeral? : List Char → Option (Numeral × List Char)
  | '-' :: rest => unsigned? true rest
  | text => unsigned? false text

/-! ## Tokens -/

/-- Whether a character may stand between tokens. -/
def isSpace (c : Char) : Bool := c == ' ' || c == '\t' || c == '\n' || c == '\r'

/-- The token that a text starts with, and the text after it. -/
def token? : List Char → Option (Token × List Char)
  | [] => none
  | '[' :: rest => some (.openBracket, rest)
  | ']' :: rest => some (.closeBracket, rest)
  | '\x7b' :: rest => some (.openBrace, rest)
  | '\x7d' :: rest => some (.closeBrace, rest)
  | ',' :: rest => some (.comma, rest)
  | ':' :: rest => some (.colon, rest)
  | 'n' :: 'u' :: 'l' :: 'l' :: rest => some (.null, rest)
  | 't' :: 'r' :: 'u' :: 'e' :: rest => some (.bool true, rest)
  | 'f' :: 'a' :: 'l' :: 's' :: 'e' :: rest => some (.bool false, rest)
  | '"' :: rest => (points? rest).map fun (ps, after) => (.string (joinPairs ps), after)
  | text => (numeral? text).map fun (n, after) => (.number n, after)

/-! ## What a token leaves -/

/-- A quoted text takes at least its closing quote. -/
theorem length_lt_of_points? {text after : List Char} {ps : List Nat}
    (h : points? text = some (ps, after)) : after.length < text.length := by
  fun_induction points? text generalizing ps after with
  | case1 => cases h
  | case2 rest => cases h; simp
  | case3 => cases h
  | case4 a b c d rest u _ ih =>
    obtain ⟨⟨ps', after'⟩, hp, he⟩ := Option.map_eq_some_iff.mp h
    cases he
    have := ih hp
    simp only [List.length_cons]
    omega
  | case5 => cases h
  | case6 e rest _ p _ ih =>
    obtain ⟨⟨ps', after'⟩, hp, he⟩ := Option.map_eq_some_iff.mp h
    cases he
    have := ih hp
    simp only [List.length_cons]
    omega
  | case7 => cases h
  | case8 c rest _ _ _ _ ih =>
    obtain ⟨⟨ps', after'⟩, hp, he⟩ := Option.map_eq_some_iff.mp h
    cases he
    have := ih hp
    simp only [List.length_cons]
    omega

/-- Digits and what stands behind them are the whole text. -/
theorem length_spanDigits (text : List Char) :
    (spanDigits text).1.length + (spanDigits text).2.length = text.length := by
  rw [spanDigits, ← List.length_append, List.takeWhile_append_dropWhile]

/-- Reading digits makes no text longer. -/
theorem length_le_of_someDigits? {text ds after : List Char}
    (h : someDigits? text = some (ds, after)) : after.length ≤ text.length := by
  rw [someDigits?] at h
  split at h
  · cases h
  · have := length_spanDigits text
    rw [Option.some.inj h] at this
    simp only at this
    omega

/-- Reading a fraction makes no text longer. -/
theorem length_le_of_fraction? {text ds after : List Char}
    (h : fraction? text = some (ds, after)) : after.length ≤ text.length := by
  rw [fraction?.eq_def] at h
  split at h
  · obtain ⟨⟨ds', after'⟩, hp, he⟩ := Option.map_eq_some_iff.mp h
    cases he
    have := length_le_of_someDigits? hp
    simp only [List.length_cons]
    omega
  · cases h
    exact Nat.le_refl _

/-- Reading the digits of an exponent makes no text longer. -/
theorem length_le_of_exponentDigits? {text ds after : List Char}
    (h : exponentDigits? text = some (ds, after)) : after.length ≤ text.length := by
  rw [exponentDigits?.eq_def] at h
  split at h
  · obtain ⟨⟨ds', after'⟩, hp, he⟩ := Option.map_eq_some_iff.mp h
    cases he
    have := length_le_of_someDigits? hp
    simp only [List.length_cons]
    omega
  · obtain ⟨⟨ds', after'⟩, hp, he⟩ := Option.map_eq_some_iff.mp h
    cases he
    have := length_le_of_someDigits? hp
    simp only [List.length_cons]
    omega
  · exact length_le_of_someDigits? h

/-- Reading an exponent makes no text longer. -/
theorem length_le_of_exponent? {text ds after : List Char}
    (h : exponent? text = some (ds, after)) : after.length ≤ text.length := by
  rw [exponent?.eq_def] at h
  split at h
  · obtain ⟨⟨ds', after'⟩, hp, he⟩ := Option.map_eq_some_iff.mp h
    cases he
    have := length_le_of_exponentDigits? hp
    simp only [List.length_cons]
    omega
  · obtain ⟨⟨ds', after'⟩, hp, he⟩ := Option.map_eq_some_iff.mp h
    cases he
    have := length_le_of_exponentDigits? hp
    simp only [List.length_cons]
    omega
  · cases h
    exact Nat.le_refl _

/-- A number without sign takes at least one digit. -/
theorem length_lt_of_unsigned? {negative : Bool} {text after : List Char} {n : Numeral}
    (h : unsigned? negative text = some (n, after)) : after.length < text.length := by
  rw [unsigned?] at h
  have hlen := length_spanDigits text
  simp only at h
  split at h
  · cases h
  · next hw =>
    have hpos : 0 < (spanDigits text).1.length := by
      cases hds : (spanDigits text).1 with
      | nil => simp [hds, isWhole] at hw
      | cons => simp
    split at h
    · cases h
    · next frac rest hf =>
      split at h
      · cases h
      · next exp rest' he =>
        cases h
        have := length_le_of_fraction? hf
        have := length_le_of_exponent? he
        omega

/-- A number takes at least one digit. -/
theorem length_lt_of_numeral? {text after : List Char} {n : Numeral}
    (h : numeral? text = some (n, after)) : after.length < text.length := by
  rw [numeral?.eq_def] at h
  split at h
  · exact Nat.lt_succ_of_lt (length_lt_of_unsigned? h)
  · exact length_lt_of_unsigned? h

/-- A token takes at least one character. -/
theorem length_lt_of_token? {text after : List Char} {t : Token}
    (h : token? text = some (t, after)) : after.length < text.length := by
  rw [token?.eq_def] at h
  split at h
  all_goals first
    | cases h; done
    | (cases h; simp only [List.length_cons]; omega)
    | skip
  · obtain ⟨⟨ps, after'⟩, hp, he⟩ := Option.map_eq_some_iff.mp h
    cases he
    exact Nat.lt_succ_of_lt (length_lt_of_points? hp)
  · obtain ⟨⟨n, after'⟩, hp, he⟩ := Option.map_eq_some_iff.mp h
    cases he
    exact length_lt_of_numeral? hp

/-! ## Splitting -/

/-- The tokens of a text. -/
def tokens? (text : List Char) : Option (List Token) :=
  match _hs : text.dropWhile isSpace with
  | [] => some []
  | c :: rest =>
    match _ht : token? (c :: rest) with
    | none => none
    | some (t, after) => (tokens? after).map (t :: ·)
  termination_by text.length
  decreasing_by
    have h1 := length_lt_of_token? _ht
    have h2 : (text.dropWhile isSpace).length ≤ text.length := (List.dropWhile_sublist _).length_le
    rw [_hs] at h2
    omega

end Token

end CodeGolf
