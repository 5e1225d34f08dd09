/-!
# Tables

A table is a list of records in strictly ascending order of a number that each record carries,
its rank. The rank stands for the record's key, so a key has at most one record, the order in
which a table is listed is part of its type, and two tables with the same records are equal
(`Table.ext_find?`).

`insert` puts a record at the place of its rank and replaces the one that was there; `find?`
is what a table is known by, and `find?_insert` says what `insert` does to it.
-/

namespace CodeGolf

universe u

/-- Records in strictly ascending order of `rank`. -/
structure Table {α : Type u} (rank : α → Nat) where
  toList : List α
  ascending : toList.Pairwise fun a b => rank a < rank b

namespace Table

variable {α : Type u} {rank : α → Nat}

/-! ## Lists in order -/

/-- A record put at the place of its rank, in the stead of one that was there. -/
def place (rank : α → Nat) (a : α) : List α → List α
  | [] => [a]
  | b :: rest =>
    if rank a < rank b then a :: b :: rest
    else if rank a = rank b then a :: rest
    else b :: place rank a rest

/-- What is in a list after a record was put into it is the record or was there before. -/
theorem mem_place {a x : α} {l : List α} (h : x ∈ place rank a l) : x = a ∨ x ∈ l := by
  induction l with
  | nil => exact .inl (by simpa [place] using h)
  | cons b rest ih =>
    rw [place] at h
    split at h
    · simpa using h
    · split at h
      · rcases List.mem_cons.mp h with rfl | h
        · exact .inl rfl
        · exact .inr (List.mem_cons_of_mem _ h)
      · rcases List.mem_cons.mp h with rfl | h
        · exact .inr (List.mem_cons_self ..)
        · exact (ih h).imp_right (List.mem_cons_of_mem _)

/-- A list in order stays in order when a record is put at its place. -/
theorem ascending_place (a : α) {l : List α} (h : l.Pairwise fun a b => rank a < rank b) :
    (place rank a l).Pairwise fun a b => rank a < rank b := by
  induction l with
  | nil => simp [place]
  | cons b rest ih =>
    obtain ⟨hb, hrest⟩ := List.pairwise_cons.mp h
    rw [place]
    split
    · next hlt =>
      refine List.pairwise_cons.mpr ⟨fun x hx => ?_, h⟩
      rcases List.mem_cons.mp hx with rfl | hx
      · exact hlt
      · exact Nat.lt_trans hlt (hb x hx)
    · split
      · next heq => exact List.pairwise_cons.mpr ⟨fun x hx => heq ▸ hb x hx, hrest⟩
      · next hlt hne =>
        refine List.pairwise_cons.mpr ⟨fun x hx => ?_, ih hrest⟩
        rcases mem_place hx with rfl | hx
        · omega
        · exact hb x hx

/-! ## Operations -/

/-- The table without records. -/
def empty : Table rank := ⟨[], .nil⟩

/-- The record of a rank. -/
def find? (t : Table rank) (n : Nat) : Option α := t.toList.find? fun a => rank a == n

/-- Whether a rank has a record. -/
def contains (t : Table rank) (n : Nat) : Bool := (t.find? n).isSome

/-- The table with a record added, or put in the stead of the one with its rank. -/
def insert (t : Table rank) (a : α) : Table rank :=
  ⟨place rank a t.toList, ascending_place a t.ascending⟩

/-- The table of the listed records; of two with the same rank the later one stays. -/
def ofList (records : List α) : Table rank := records.foldl insert empty

/-- How many records there are. -/
def size (t : Table rank) : Nat := t.toList.length

/-! ## What a table is known by -/

/-- A record is found where it was put, and at every other rank what was found before. -/
theorem find?_place (a : α) (l : List α) (n : Nat) :
    (place rank a l).find? (fun x => rank x == n) =
      if rank a = n then some a else l.find? fun x => rank x == n := by
  induction l with
  | nil => by_cases h : rank a = n <;> simp [place, h]
  | cons b rest ih =>
    rw [place]
    split
    · next hlt => by_cases h : rank a = n <;> simp [List.find?_cons, h]
    · split
      · next heq => by_cases h : rank a = n <;> simp [h, ← heq]
      · next hne =>
        by_cases h : rank a = n
        · have hb : rank b ≠ n := fun e => hne (h.trans e.symm)
          simp [h, hb, ih]
        · simp [List.find?_cons, h, ih]

/-- A record is found at its own rank after it was inserted, and no other rank changes. -/
theorem find?_insert (t : Table rank) (a : α) (n : Nat) :
    (t.insert a).find? n = if rank a = n then some a else t.find? n :=
  find?_place a t.toList n

/-- Nothing is found in the table without records. -/
@[simp] theorem find?_empty (n : Nat) : (empty : Table rank).find? n = none := rfl

/-- What is found at a rank has this rank. -/
theorem rank_of_find? {t : Table rank} {n : Nat} {a : α} (h : t.find? n = some a) : rank a = n := by
  simpa using List.find?_some h

/-- A record is in the table exactly if it is the one found at its rank. -/
theorem mem_toList_iff {t : Table rank} {a : α} : a ∈ t.toList ↔ t.find? (rank a) = some a := by
  refine ⟨fun h => ?_, fun h => List.mem_of_find?_eq_some h⟩
  obtain ⟨l, hl⟩ := t
  simp only [find?] at h ⊢
  induction l with
  | nil => cases h
  | cons b rest ih =>
    obtain ⟨hb, hrest⟩ := List.pairwise_cons.mp hl
    rcases List.mem_cons.mp h with rfl | h
    · simp
    · have hne : rank b ≠ rank a := Nat.ne_of_lt (hb a h)
      simp [hne, ih hrest h]

/-- Two ascending lists with the same members are equal. -/
theorem eq_of_mem_iff {l m : List α} (hl : l.Pairwise fun a b => rank a < rank b)
    (hm : m.Pairwise fun a b => rank a < rank b) (h : ∀ a, a ∈ l ↔ a ∈ m) : l = m := by
  induction l generalizing m with
  | nil => exact (List.eq_nil_iff_forall_not_mem.mpr fun a ha => by simpa using (h a).mpr ha).symm
  | cons x xs ih =>
    cases m with
    | nil => exact absurd ((h x).mp (List.mem_cons_self ..)) (by simp)
    | cons y ys =>
      obtain ⟨hx, hxs⟩ := List.pairwise_cons.mp hl
      obtain ⟨hy, hys⟩ := List.pairwise_cons.mp hm
      have hxy : x = y := by
        rcases List.mem_cons.mp ((h x).mp (List.mem_cons_self ..)) with e | hin
        · exact e
        · rcases List.mem_cons.mp ((h y).mpr (List.mem_cons_self ..)) with e | hin'
          · exact e.symm
          · exact absurd (Nat.lt_trans (hx y hin') (hy x hin)) (Nat.lt_irrefl _)
      subst hxy
      congr 1
      refine ih hxs hys fun a => ⟨fun ha => ?_, fun ha => ?_⟩
      · rcases List.mem_cons.mp ((h a).mp (List.mem_cons_of_mem _ ha)) with rfl | hin
        · exact absurd (hx a ha) (Nat.lt_irrefl _)
        · exact hin
      · rcases List.mem_cons.mp ((h a).mpr (List.mem_cons_of_mem _ ha)) with rfl | hin
        · exact absurd (hy a ha) (Nat.lt_irrefl _)
        · exact hin

/-- Two tables that find the same records are equal. -/
theorem ext_find? {s t : Table rank} (h : ∀ n, s.find? n = t.find? n) : s = t := by
  have : s.toList = t.toList := eq_of_mem_iff s.ascending t.ascending fun a => by
    rw [mem_toList_iff, mem_toList_iff, h]
  cases s
  cases t
  cases this
  rfl

end Table

end CodeGolf
