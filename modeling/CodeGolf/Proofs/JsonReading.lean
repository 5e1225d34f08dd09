import CodeGolf.Json.Reader
import CodeGolf.Proofs.JsonTokens

/-!
# Every text of the grammar is read

The reader is a machine on tokens with the open arrays and objects on a stack. `State.resume` is
what becomes of a state when a text comes: the steps of the machine on its tokens. A text in front
is worked off by itself (`State.resume_token`, `State.resume_blank`), so the theorem about values
says how the text of a value changes the state, whatever is on the stack and whatever follows
(`SpellsValue.resume_eq`). It goes by the productions of the grammar, all of them at once: a value
in an array is read with the array on the stack, and at the end of the array the stack is as before.

A value is read in the same way behind a comma, behind a colon and behind an opening bracket, where
an empty array might still come (`State.Opens`); and a name is read in the same way behind a comma
and behind an opening brace (`State.TakesKey`). The depth of nesting does not matter anywhere.
-/

namespace CodeGolf.Json

open Token (EndsNumber token? tokens?)

/-! ## Steps on a text -/

/-- The state after the tokens of a text. -/
def State.resume (s : State) (text : List Char) : Option State :=
  (tokens? text).bind (List.foldlM State.next s)

/-- A value may come, and it will lie on this stack. -/
def State.Opens (s : State) (stack : List Frame) : Prop :=
  ∀ t ≠ Token.closeBracket, s.next t = begin stack t

/-- A name may come, behind these members of the object. -/
def State.TakesKey (s : State) (done : List (List Nat × Json)) (stack : List Frame) : Prop :=
  ∀ k, s.next (.string k) = some (.afterKey done k stack)

/-- Where a value is due, every value may come. -/
theorem opens_value (stack : List Frame) : (State.value stack).Opens stack := fun _ _ => rfl

/-- Behind an opening bracket a value may come, as the first item of the array. -/
theorem opens_firstItem (stack : List Frame) :
    (State.firstItem stack).Opens (.items [] :: stack) := by
  intro t ht
  cases t <;> first | rfl | exact absurd rfl ht

/-- Behind an opening brace a name may come, and there are no members before it. -/
theorem takesKey_firstKey (stack : List Frame) : (State.firstKey stack).TakesKey [] stack :=
  fun _ => rfl

/-- Behind a comma in an object a name may come. -/
theorem takesKey_nextKey (done : List (List Nat × Json)) (stack : List Frame) :
    (State.nextKey done stack).TakesKey done stack := fun _ => rfl

section
variable {s s' : State} {stack : List Frame} {text rest : List Char}

/-- Where the text ends, the state stays. -/
theorem State.resume_nil : s.resume [] = some s := by
  rw [resume, Token.tokens?_nil]
  rfl

/-- Blanks change no state. -/
theorem State.resume_blank {gap : List Char} (h : Blank gap) :
    s.resume (gap ++ rest) = s.resume rest := by
  rw [resume, Token.tokens?_blank h, resume]

/-- A text is resumed by the step on its first token, and then on what stands behind it. -/
theorem State.resume_token {t : Token} (ht : token? text = some (t, rest))
    (hs : s.next t = some s') : s.resume text = s'.resume rest := by
  rw [resume, resume, Token.tokens?_of_token? ht]
  cases tokens? rest with
  | none => rfl
  | some ts => simp [hs]

/-- A blank, a comma, a bracket or a brace ends a number, and so does the end of the text. -/
theorem endsNumber_blank {gap : List Char} (h : Blank gap) (hrest : EndsNumber rest) :
    EndsNumber (gap ++ rest) := by
  cases gap with
  | nil => exact hrest
  | cons c gap =>
    intro d hd
    cases hd
    rcases h c List.mem_cons_self with rfl | rfl | rfl | rfl <;> decide

/-- The end of the text ends a number. -/
theorem endsNumber_nil : EndsNumber [] := nofun

/-- A comma ends a number. -/
theorem endsNumber_comma : EndsNumber (',' :: rest) := by simp [EndsNumber]

/-- A closing bracket ends a number. -/
theorem endsNumber_closeBracket : EndsNumber (']' :: rest) := by simp [EndsNumber]

/-- A closing brace ends a number. -/
theorem endsNumber_closeBrace : EndsNumber ('\x7d' :: rest) := by simp [EndsNumber]

end

/-! ## Values -/

mutual

/-- The text of a value leaves the value behind, on the stack that was there. -/
theorem SpellsValue.resume_eq {text : List Char} {v : Json} :
    SpellsValue text v → ∀ {s : State} {stack : List Frame} {rest : List Char}, s.Opens stack →
      EndsNumber rest → s.resume (text ++ rest) = (State.after v stack).resume rest
  | .null, s, stack, rest, hs, hrest => State.resume_token rfl (hs .null nofun)
  | .true, s, stack, rest, hs, hrest => State.resume_token rfl (hs (.bool true) nofun)
  | .false, s, stack, rest, hs, hrest => State.resume_token rfl (hs (.bool false) nofun)
  | .number (n := n) h, s, stack, rest, hs, hrest =>
    State.resume_token (Token.token?_number h hrest) (hs (.number n) nofun)
  | .string h, s, stack, rest, hs, hrest => by
    rw [List.cons_append, List.append_assoc, List.singleton_append]
    exact State.resume_token (Token.token?_string h) (hs (.string _) nofun)
  | .emptyArray h, s, stack, rest, hs, hrest => by
    rw [List.cons_append, List.append_assoc, List.singleton_append,
      State.resume_token rfl (hs .openBracket nofun), State.resume_blank h]
    exact State.resume_token rfl rfl
  | .array h, s, stack, rest, hs, hrest => by
    rw [List.cons_append, List.append_assoc, List.singleton_append,
      State.resume_token rfl (hs .openBracket nofun)]
    exact h.resume_eq (opens_firstItem stack)
  | .emptyObject h, s, stack, rest, hs, hrest => by
    rw [List.cons_append, List.append_assoc, List.singleton_append,
      State.resume_token rfl (hs .openBrace nofun), State.resume_blank h]
    exact State.resume_token rfl rfl
  | .object h, s, stack, rest, hs, hrest => by
    rw [List.cons_append, List.append_assoc, List.singleton_append,
      State.resume_token rfl (hs .openBrace nofun)]
    exact h.resume_eq (takesKey_firstKey stack)

/-- A value with blanks around it leaves the value behind, as it does without them. -/
theorem SpellsElement.resume_eq {text : List Char} {v : Json} :
    SpellsElement text v → ∀ {s : State} {stack : List Frame} {rest : List Char}, s.Opens stack →
      EndsNumber rest → s.resume (text ++ rest) = (State.after v stack).resume rest
  | .mk hbefore h hafter, s, stack, rest, hs, hrest => by
    rw [List.append_assoc, List.append_assoc, State.resume_blank hbefore,
      h.resume_eq hs (endsNumber_blank hafter hrest), State.resume_blank hafter]

/-- The items of an array join those that the array has, and the bracket closes it. -/
theorem SpellsElements.resume_eq {text : List Char} {items : List Json} :
    SpellsElements text items → ∀ {s : State} {done : List Json} {stack : List Frame}
      {rest : List Char}, s.Opens (.items done :: stack) →
      s.resume (text ++ ']' :: rest) =
        (State.after (.array (done.reverse ++ items)) stack).resume rest
  | .one h, s, done, stack, rest, hs => by
    rw [h.resume_eq hs endsNumber_closeBracket]
    refine State.resume_token rfl ?_
    simp [State.next]
  | .more h hrest, s, done, stack, rest, hs => by
    rw [List.append_assoc, List.cons_append, h.resume_eq hs endsNumber_comma,
      State.resume_token rfl rfl, hrest.resume_eq (opens_value _)]
    simp

/-- A member of an object leaves its value behind, inside the object that has its name. -/
theorem SpellsMember.resume_eq {text : List Char} {m : List Nat × Json} :
    SpellsMember text m → ∀ {s : State} {done : List (List Nat × Json)} {stack : List Frame}
      {rest : List Char}, s.TakesKey done stack → EndsNumber rest →
      s.resume (text ++ rest) = (State.after m.2 (.members done m.1 :: stack)).resume rest
  | .mk hbefore hname hafter h, s, done, stack, rest, hs, hrest => by
    simp only [List.append_assoc, List.cons_append]
    rw [State.resume_blank hbefore, State.resume_token (Token.token?_string hname) (hs _),
      State.resume_blank hafter, State.resume_token rfl rfl]
    exact h.resume_eq (opens_value _) hrest

/-- The members of an object join those that the object has, and the brace closes it. -/
theorem SpellsMembers.resume_eq {text : List Char} {members : List (List Nat × Json)} :
    SpellsMembers text members → ∀ {s : State} {done : List (List Nat × Json)}
      {stack : List Frame} {rest : List Char}, s.TakesKey done stack →
      s.resume (text ++ '\x7d' :: rest) =
        (State.after (.object (done.reverse ++ members)) stack).resume rest
  | .one h, s, done, stack, rest, hs => by
    rw [h.resume_eq hs endsNumber_closeBrace]
    refine State.resume_token rfl ?_
    simp [State.next]
  | .more h hrest, s, done, stack, rest, hs => by
    rw [List.append_assoc, List.cons_append, h.resume_eq hs endsNumber_comma,
      State.resume_token rfl rfl, hrest.resume_eq (takesKey_nextKey _ _)]
    simp

end

/-- **Every text of the grammar is read as the value that it spells.** -/
theorem parse?_of_spells {text : List Char} {v : Json} (h : SpellsElement text v) :
    parse? text = some v := by
  have hresume : (State.value []).resume text = some (.after v []) := by
    have hread := h.resume_eq (opens_value []) endsNumber_nil
    rwa [List.append_nil, State.resume_nil] at hread
  rw [State.resume] at hresume
  cases htokens : tokens? text with
  | none =>
    rw [htokens] at hresume
    cases hresume
  | some ts =>
    rw [htokens, Option.bind_some] at hresume
    rw [parse?, htokens, Option.bind_some, ofTokens?, hresume]

end CodeGolf.Json
