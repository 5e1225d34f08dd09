import CodeGolf.Bytes.Utf8

/-!
# Plain text

A text for a terminal holds control characters and control sequences, which a terminal obeys and
does not show. The plain text is what is left of it without them, line breaks apart.

A control sequence starts with the escape character, and what comes next says of what kind it is
and so where it ends. Another escape character starts another sequence, and the characters
`cancel` and `substitute` end every one. A line break in a short sequence is shown, and so is what
follows it, up to the next control character, where the sequence goes on.

Plain text holds shown characters only (`isShown_of_mem_plain`), nothing that was not there
(`plain_sublist`), and a text of shown characters is plain already (`plain_of_forall_isShown`).
-/

namespace CodeGolf.Text

/-! ## Characters -/

/-- The character that starts a control sequence. -/
def escapeCharacter : Char := '\x1b'

/-- Whether a control character moves to another place on the page and nothing more. -/
def isBreak (c : Char) : Bool := c == '\t' || c == '\n' || c == '\x0c' || c == '\r'

/-- Whether a character outside of control sequences is shown. -/
def isShown (c : Char) : Bool := isBreak c || (' ' ≤ c && c != '\x7f')

/-- Whether a character is one of those from `low` to `high`. -/
def isBetween (low high c : Char) : Bool := low ≤ c && c ≤ high

/-- Whether a character has the byte that ends a string among its bytes. -/
def holdsTerminator (c : Char) : Bool := (Utf8.encodeChar c).contains 0x9C

/-! ## Control sequences -/

/-- A place in a text for a terminal. -/
inductive Place where
  /-- No sequence is open. -/
  | outside
  /-- Behind the escape character. -/
  | escape
  /-- In a short sequence whose last character is to come. -/
  | escapeTail
  /-- In a sequence with parameters. -/
  | control
  /-- In a command for the system, which a bell ends. -/
  | system
  /-- At the start of a command for a device. -/
  | device
  /-- In the parameters of a command for a device. -/
  | deviceParameters
  /-- Behind the parameters of a command for a device. -/
  | deviceTail
  /-- In a string, which only its terminator ends. -/
  | string
  deriving DecidableEq

/-- The place behind a character. -/
def Place.next (place : Place) (c : Char) : Place :=
  if c == escapeCharacter then .escape
  else if c == '\x18' || c == '\x1a' then .outside
  else
    match place with
    | .outside => .outside
    | .escape =>
      if isBetween ' ' '/' c then .escapeTail
      else if c == '[' then .control
      else if c == ']' then .system
      else if c == 'P' then .device
      else if c == 'X' || c == '^' || c == '_' then .string
      else if isBetween '0' '~' c then .outside
      else .escape
    | .escapeTail => if isBetween '0' '~' c then .outside else .escapeTail
    | .control => if isBetween '@' '~' c then .outside else .control
    | .system => if c == '\x07' then .outside else .system
    | .device =>
      if isBetween ' ' '/' c then .deviceTail
      else if isBetween '0' '?' c then .deviceParameters
      else if isBetween '@' '~' c then .string
      else .device
    | .deviceParameters =>
      if isBetween ' ' '/' c then .deviceTail
      else if isBetween '<' '~' c then .string
      else .deviceParameters
    | .deviceTail => if isBetween '0' '~' c then .string else .deviceTail
    | .string => if holdsTerminator c then .outside else .string

/-- Whether a character is shown at a place. -/
def Place.shows (place : Place) (c : Char) : Bool :=
  match place with
  | .outside => isShown c
  | .escape | .escapeTail | .control => isBreak c
  | .system | .device | .deviceParameters | .deviceTail | .string => false

/-! ## Plain text -/

/-- What is shown of a text that goes on at a place. If the sequence there is `paused`, then text
is shown until a control character comes; a character beyond ASCII ends such a sequence. -/
def plainFrom (place : Place) (paused : Bool) : List Char → List Char
  | [] => []
  | c :: rest =>
    if paused && isShown c then
      c :: plainFrom (if c.toNat < 0x80 then place else .outside) true rest
    else if place.shows c then c :: plainFrom (place.next c) true rest
    else plainFrom (place.next c) false rest

/-- The plain text of a text. -/
def plain (text : List Char) : List Char := plainFrom .outside false text

/-- A character that is shown anywhere is shown outside of sequences. -/
theorem Place.isShown_of_shows {place : Place} {c : Char} (h : place.shows c = true) :
    isShown c = true := by
  cases place <;> simp_all [shows, isShown]

/-- No sequence starts at a character that is shown. -/
theorem Place.next_outside {c : Char} (h : isShown c = true) : next .outside c = .outside := by
  have hc : c ≠ escapeCharacter := by rintro rfl; exact absurd h (by decide)
  simp [next, hc]

/-- From any place, nothing is shown that is not there. -/
theorem plainFrom_sublist (place : Place) (paused : Bool) (text : List Char) :
    (plainFrom place paused text).Sublist text := by
  induction text generalizing place paused with
  | nil => exact .slnil
  | cons c rest ih =>
    rw [plainFrom]
    split
    · exact (ih _ _).cons_cons c
    · split
      · exact (ih _ _).cons_cons c
      · exact (ih _ _).cons c

/-- From any place, only shown characters are shown. -/
theorem isShown_of_mem_plainFrom {place : Place} {paused : Bool} {text : List Char} {c : Char}
    (h : c ∈ plainFrom place paused text) : isShown c = true := by
  induction text generalizing place paused with
  | nil => cases h
  | cons a rest ih =>
    rw [plainFrom] at h
    split at h
    next ha =>
      cases h with
      | head => exact (Bool.and_eq_true_iff.1 ha).2
      | tail _ h => exact ih h
    next =>
      split at h
      next ha =>
        cases h with
        | head => exact Place.isShown_of_shows ha
        | tail _ h => exact ih h
      next => exact ih h

/-- Outside of sequences, a text of shown characters is plain. -/
theorem plainFrom_outside {paused : Bool} {text : List Char}
    (h : ∀ c ∈ text, isShown c = true) : plainFrom .outside paused text = text := by
  induction text generalizing paused with
  | nil => rfl
  | cons c rest ih =>
    have hc : isShown c = true := h c List.mem_cons_self
    have hrest : ∀ b : Bool, plainFrom .outside b rest = rest := fun b =>
      ih fun a ha => h a (List.mem_cons_of_mem c ha)
    simp [plainFrom, Place.shows, hc, Place.next_outside hc, hrest]

/-- Plain text holds nothing that was not there. -/
theorem plain_sublist (text : List Char) : (plain text).Sublist text :=
  plainFrom_sublist .outside false text

/-- Plain text holds shown characters only. -/
theorem isShown_of_mem_plain {text : List Char} {c : Char} (h : c ∈ plain text) :
    isShown c = true := isShown_of_mem_plainFrom h

/-- A text of shown characters is plain. -/
theorem plain_of_forall_isShown {text : List Char} (h : ∀ c ∈ text, isShown c = true) :
    plain text = text := plainFrom_outside h

end CodeGolf.Text
