import CodeGolf.Config.File
import CodeGolf.Proofs.JsonReading
import Mathlib.Data.List.Induction
import Mathlib.Tactic.Convert

/-!
# Settings from any text

What the settings of a board are when a text spells an object: a setting is what the one member of
its name gives, and the usual one if no member has its name. The order of the members, the blanks
and the members with other names make no difference.

The members are read one after the other, so the argument is an induction on the last of them. It
may be about any of the three settings or about none, and what was read before is then what the
members give without it (`foldlM_readMember`).
-/

namespace CodeGolf.Config

open Json (pointsOf textOf?_pointsOf blank_nil SpellsElement SpellsMember SpellsPoints)

/-! ## What members give -/

/-- The values of the members with a name. -/
def valuesOf (name : String) (members : List (String × Json)) : List Json :=
  (members.filter fun m => m.1 = name).map Prod.snd

theorem valuesOf_concat (name k : String) (v : Json) (members : List (String × Json)) :
    valuesOf name (members ++ [(k, v)]) =
      valuesOf name members ++ if k = name then [v] else [] := by
  by_cases h : k = name <;> simp [valuesOf, h]

/-- Each setting has at most one member, which holds a value of its kind: a truth value, or an
integer that is written without a sign. -/
structure Gives (members : List (String × Json)) (given : Fields) : Prop where
  age : valuesOf "min_commit_age" members = given.age.toList.map fun n => Json.ofNat n.toNat
  single : valuesOf "single_use_commitments" members = given.single.toList.map Json.bool
  limit : valuesOf "max_solution_bytes" members =
    given.limit.toList.map (Json.ofOption fun n => Json.ofNat n.toNat)

/-- A value behind others in an optional place is alone there. -/
theorem exists_of_concat_eq_toList {α β : Type} {write : α → β} {a : Option α} {v : β}
    {values : List β} (h : values ++ [v] = a.toList.map write) :
    ∃ x, a = some x ∧ v = write x ∧ values = [] := by
  cases a with
  | none => simp at h
  | some x =>
    have hlast : values ++ [v] = [] ++ [write x] := h
    obtain ⟨hnil, hv⟩ := List.append_inj' hlast rfl
    exact ⟨x, rfl, by simpa using hv, hnil⟩

/-! ## One member -/

theorem word?_ofNat (n : UInt64) : word? (Json.ofNat n.toNat) = some n := by
  simp [word?, Json.ofNat, Numeral.nat?, UInt64.toNat_lt_size]

theorem limit?_ofOption (n : Option UInt64) :
    limit? (Json.ofOption (fun k => Json.ofNat k.toNat) n) = some n := by
  cases n with
  | none => rfl
  | some k => exact congrArg (Option.map some) (word?_ofNat k)

/-- A member is read by its name, and one with another name is skipped, whatever it holds. -/
theorem readMember_pointsOf (f : Fields) (k : String) (v : Json) :
    f.readMember (pointsOf k, v) =
      if k = "min_commit_age" then f.readAge v
      else if k = "single_use_commitments" then f.readSingle v
      else if k = "max_solution_bytes" then f.readLimit v
      else some f := by
  rw [Fields.readMember, textOf?_pointsOf]
  split <;> simp_all

/-! ## All members -/

/-- **What is read is what the members give**, in whatever order they stand. -/
theorem foldlM_readMember {members : List (String × Json)} {given : Fields}
    (h : Gives members given) :
    (members.map fun m => (pointsOf m.1, m.2)).foldlM Fields.readMember {} = some given := by
  induction members using List.reverseRecOn generalizing given with
  | nil =>
    obtain ⟨hage, hsingle, hlimit⟩ := h
    cases given
    simp_all [valuesOf]
  | append_singleton members m ih =>
    obtain ⟨k, v⟩ := m
    obtain ⟨age, single, limit⟩ := given
    obtain ⟨hage, hsingle, hlimit⟩ := h
    rw [valuesOf_concat] at hage hsingle hlimit
    rw [List.map_append, List.foldlM_append]
    by_cases hkage : k = "min_commit_age"
    · subst hkage
      obtain ⟨n, rfl, rfl, hnone⟩ := exists_of_concat_eq_toList hage
      have hrest : Gives members ⟨none, single, limit⟩ :=
        ⟨hnone, by simpa using hsingle, by simpa using hlimit⟩
      rw [ih hrest]
      simp [readMember_pointsOf, Fields.readAge, word?_ofNat, once]
    by_cases hksingle : k = "single_use_commitments"
    · subst hksingle
      obtain ⟨b, rfl, rfl, hnone⟩ := exists_of_concat_eq_toList hsingle
      have hrest : Gives members ⟨age, none, limit⟩ :=
        ⟨by simpa using hage, hnone, by simpa using hlimit⟩
      rw [ih hrest]
      simp [readMember_pointsOf, Fields.readSingle, flag?, once]
    by_cases hklimit : k = "max_solution_bytes"
    · subst hklimit
      obtain ⟨n, rfl, rfl, hnone⟩ := exists_of_concat_eq_toList hlimit
      have hrest : Gives members ⟨age, single, none⟩ :=
        ⟨by simpa using hage, by simpa using hsingle, hnone⟩
      rw [ih hrest]
      simp [readMember_pointsOf, Fields.readLimit, limit?_ofOption, once]
    · rw [if_neg hkage, List.append_nil] at hage
      rw [if_neg hksingle, List.append_nil] at hsingle
      rw [if_neg hklimit, List.append_nil] at hlimit
      rw [ih ⟨hage, hsingle, hlimit⟩]
      simp [readMember_pointsOf, hkage, hksingle, hklimit]

/-- A text that spells an object is read as the settings that its members give. -/
theorem parse?_of_gives {text : String} {members : List (String × Json)} {given : Fields}
    (htext : SpellsElement text.toList (Json.record members)) (h : Gives members given) :
    parse? text = some given.config := by
  rw [parse?, Json.parse?_of_spells htext, Option.bind_some, Json.record, ofJson?,
    foldlM_readMember h, Option.map_some]

/-- The printed members give the settings. -/
theorem gives_settings (c : Config) :
    Gives [("min_commit_age", Json.ofNat c.minCommitAge.toNat),
        ("single_use_commitments", Json.bool c.singleUseCommitments),
        ("max_solution_bytes", Json.ofOption (fun n => Json.ofNat n.toNat) c.maxSolutionBytes)]
      ⟨some c.minCommitAge, some c.singleUseCommitments, some c.maxSolutionBytes⟩ := by
  constructor <;> simp [valuesOf]

/-- The text over several lines spells the settings. -/
theorem spells_render (c : Config) : SpellsElement c.render.toList c.toJson := by
  have hprinted : Json.Printed c.toJson := by
    refine .record fun m hm => ?_
    simp only [List.mem_cons, List.not_mem_nil, or_false] at hm
    obtain rfl | rfl | rfl := hm
    · exact Json.printed_ofNat _
    · exact Json.printed_bool _
    · exact Json.printed_ofOption (fun _ => Json.printed_ofNat _) _
  rw [render, Json.pretty, String.toList_ofList]
  exact (hprinted 0).element

/-- **A text and its settings agree.** Settings are read back from the text that they are printed
as. Whatever else the members of an object are, in whatever order and with whatever blanks, the
object is read as the settings that it gives, and as the usual ones where it gives none. -/
theorem ofText_agrees :
    (∀ c : Config, ofText c.render = .ok c) ∧
      ∀ (text : String) (members : List (String × Json)) (given : Fields),
        SpellsElement text.toList (Json.record members) → Gives members given →
          ofText text = .ok { minCommitAge := given.age.getD 60
                              singleUseCommitments := given.single.getD true
                              maxSolutionBytes := given.limit.getD none } := by
  refine ⟨fun c => ?_, fun text members given htext h => ?_⟩
  · rw [ofText, parse?_of_gives (spells_render c) (gives_settings c)]
    rfl
  · rw [ofText, parse?_of_gives htext h]
    rfl

/-- A name that is known is spelled with an escape, and a member with another name holds half of a
surrogate pair. -/
theorem ofText_agrees_of_escaped_name :
    let text := " \x7b\"max_solution_bytes\" :null,\"note\":[\"\\uD800\",\x7b\x7d],\n" ++
      "\"\\u006din_commit_age\": 18446744073709551615\x7d"
    let members : List (String × Json) := [("max_solution_bytes", .null),
      ("note", .array [.string [0xD800], .object []]),
      ("min_commit_age", Json.ofNat 18446744073709551615)]
    let given : Fields := { age := some 18446744073709551615, limit := some none }
    SpellsElement text.toList (Json.record members) ∧ Gives members given ∧
      ofText text = .ok { minCommitAge := 18446744073709551615 } := by
  intro text members given
  have hblank : Json.Blank [' '] := by simp [Json.Blank]
  have hline : Json.Blank ['\n'] := by simp [Json.Blank]
  have hlimit := SpellsMember.mk blank_nil (Json.spellsPoints_escapes "max_solution_bytes") hblank
    (Json.SpellsValue.element .null)
  have hhalf : SpellsPoints (Json.unitEscape ['D', '8', '0', '0'] ++ []) [0xD800] :=
    .unit ⟨rfl, by decide⟩ (by simp) .nil
  have hitems : Json.SpellsElements _ [.string [0xD800], .object []] :=
    .more (Json.SpellsValue.string hhalf).element
      (.one (Json.SpellsValue.emptyObject blank_nil).element)
  have hnote := SpellsMember.mk blank_nil (Json.spellsPoints_escapes "note") blank_nil
    (Json.SpellsValue.array hitems).element
  have hname : SpellsPoints
      (Json.unitEscape ['0', '0', '6', 'd'] ++ (pointsOf "in_commit_age").flatMap Json.escape)
      (pointsOf "min_commit_age") :=
    .unit ⟨rfl, by decide⟩ (by decide) (Json.spellsPoints_escapes "in_commit_age")
  have hage := SpellsMember.mk hline hname blank_nil
    (.mk hblank (Json.spells_ofNat 18446744073709551615) blank_nil)
  have htext : SpellsElement text.toList (Json.record members) := by
    have h := SpellsElement.mk hblank (.object (.more hlimit (.more hnote (.one hage)))) blank_nil
    convert h using 1
    · decide +kernel
    · rfl
  have hgives : Gives members given := by
    constructor <;> simp [valuesOf, members, given, Json.ofOption]
  exact ⟨htext, hgives, ofText_agrees.2 text members given htext hgives⟩

end CodeGolf.Config
