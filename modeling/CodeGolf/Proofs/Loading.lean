import CodeGolf.Board.Query
import CodeGolf.Proofs.Reachable
import CodeGolf.Proofs.Standings

/-!
# Which snapshots are loaded, and as what

A snapshot can list anything, in any order. `Snapshot.WellFormed` says which snapshots a board is
put together from, and `Snapshot.NormalFormOf` what the snapshots of this board are then: the same
records and the same pars, each list in the order of its keys, and of the commitments the last one
of each key.

Records and pars are loaded by folds of one shape: an entry is taken if it is good by itself and if
its key is free, and then it is the only one that is new (`Loads`). Such a fold takes a list exactly
if all its entries are good and their keys are distinct, and it ends with the entries of the list in
some order (`Loads.exists_foldlM_iff`, `Loads.perm_foldlM`); the order is that of the table.
Commitments are never refused, and `Table.mem_ofList_iff` says which of them stay.
`Board.restore_normalises` puts the parts together.
-/

namespace CodeGolf

universe u v

/-! ## The last of a key -/

section
variable {α : Type u} {κ : Type v} {key : α → κ}

/-- An entry of a list is the last one of its key. -/
def LastOf (key : α → κ) (l : List α) (a : α) : Prop :=
  ∃ before later, l = before ++ a :: later ∧ ∀ x ∈ later, key x ≠ key a

theorem not_lastOf_nil {a : α} : ¬LastOf key [] a := by
  rintro ⟨before, later, h, -⟩
  simp at h

/-- In a list with one more entry at its end, this one is the last of its key, and the other keys
keep their last entries. -/
theorem lastOf_concat {l : List α} {a b : α} :
    LastOf key (l ++ [b]) a ↔ b = a ∨ key b ≠ key a ∧ LastOf key l a := by
  constructor
  · rintro ⟨before, later, hl, hlater⟩
    rcases later.eq_nil_or_concat with rfl | ⟨later, c, rfl⟩
    · obtain ⟨-, heq⟩ := List.append_inj' hl rfl
      exact .inl (List.singleton_inj.mp heq)
    · rw [List.concat_eq_append, ← List.cons_append, ← List.append_assoc] at hl
      obtain ⟨rfl, heq⟩ := List.append_inj' hl rfl
      obtain rfl := List.singleton_inj.mp heq
      rw [List.concat_eq_append, List.forall_mem_append] at hlater
      exact .inr ⟨hlater.2 b (List.mem_singleton_self b), before, later, rfl, hlater.1⟩
  · rintro (rfl | ⟨hne, before, later, rfl, hlater⟩)
    · exact ⟨l, [], rfl, nofun⟩
    · refine ⟨before, later ++ [b], by simp, List.forall_mem_append.mpr ⟨hlater, ?_⟩⟩
      intro x hx
      rwa [List.mem_singleton.mp hx]

end

/-! ## Tables -/

namespace Table

variable {α : Type u} {rank : α → Nat}

/-- A record whose place is free is the only one that is new. -/
theorem toList_insert_perm {t : Table rank} {a : α} (hfree : t.contains (rank a) = false) :
    (t.insert a).toList.Perm (a :: t.toList) := by
  have hnone : t.find? (rank a) = none := by simpa [contains] using hfree
  have hnew : a ∉ t.toList := fun ha => by
    rw [mem_toList_iff, hnone] at ha
    cases ha
  refine (List.perm_ext_iff_of_nodup (nodup_toList _)
    (List.nodup_cons.mpr ⟨hnew, nodup_toList t⟩)).mpr fun x => ?_
  rw [mem_toList_iff, find?_insert, List.mem_cons, mem_toList_iff]
  by_cases hrank : rank a = rank x
  · rw [if_pos hrank, ← hrank, hnone]
    simp [eq_comm]
  · have hne : x ≠ a := fun heq => hrank (heq ▸ rfl)
    rw [if_neg hrank, or_iff_right hne]

/-- A listed record stays if it is the last one of its rank. -/
theorem mem_ofList_iff {l : List α} {a : α} :
    a ∈ (ofList l : Table rank).toList ↔ LastOf rank l a := by
  induction l using List.reverseRecOn with
  | nil => exact ⟨nofun, fun h => absurd h not_lastOf_nil⟩
  | append_singleton l b ih =>
    have hinsert : (ofList (l ++ [b]) : Table rank) = (ofList l).insert b := List.foldl_append
    rw [hinsert, mem_toList_iff, find?_insert, lastOf_concat, ← ih]
    by_cases hrank : rank b = rank a
    · simp [hrank]
    · have hne : b ≠ a := fun heq => hrank (congrArg rank heq)
      simp [hrank, hne, mem_toList_iff]

end Table

/-! ## Loading a list entry by entry -/

/-- A step takes an entry exactly if it is good by itself and nothing of what is there has its key,
and adds this entry and nothing else. -/
structure Loads {σ α κ ε : Type} (step : σ → α → Except ε σ) (entries : σ → List α) (key : α → κ)
    (Good : α → Prop) : Prop where
  ok_iff : ∀ s a, (∃ s', step s a = .ok s') ↔ Good a ∧ key a ∉ (entries s).map key
  perm : ∀ {s a s'}, step s a = .ok s' → (entries s').Perm (a :: entries s)

namespace Loads

variable {σ α κ ε : Type} {step : σ → α → Except ε σ} {entries : σ → List α} {key : α → κ}
  {Good : α → Prop}

/-- A list is loaded exactly if all its entries are good, no two of them have one key, and none has
the key of what was there before. -/
theorem exists_foldlM_iff_of (h : Loads step entries key Good) (l : List α) (s : σ) :
    (∃ s', l.foldlM step s = .ok s') ↔
      (∀ a ∈ l, Good a) ∧ (l.map key).Nodup ∧ ∀ a ∈ l, key a ∉ (entries s).map key := by
  induction l generalizing s with
  | nil => exact ⟨fun _ => ⟨nofun, .nil, nofun⟩, fun _ => ⟨s, rfl⟩⟩
  | cons a rest ih =>
    -- The keys that are taken after the first step are those from before and the one of `a`.
    have hkeys : ∀ {s'}, step s a = .ok s' → ∀ k,
        k ∈ (entries s').map key ↔ k = key a ∨ k ∈ (entries s).map key := fun hs' k => by
      rw [((h.perm hs').map key).mem_iff, List.map_cons, List.mem_cons]
    simp only [List.foldlM_cons, bind_eq_ok_iff, List.forall_mem_cons, List.map_cons,
      List.nodup_cons]
    constructor
    · rintro ⟨last, s', hs', hlast⟩
      obtain ⟨hgood, hfree⟩ := (h.ok_iff s a).mp ⟨s', hs'⟩
      obtain ⟨hgoods, hnodup, hfrees⟩ := (ih s').mp ⟨last, hlast⟩
      refine ⟨⟨hgood, hgoods⟩, ⟨fun hmem => ?_, hnodup⟩, hfree, fun b hb hmem => ?_⟩
      · obtain ⟨b, hb, heq⟩ := List.mem_map.mp hmem
        exact hfrees b hb ((hkeys hs' _).mpr (.inl heq))
      · exact hfrees b hb ((hkeys hs' _).mpr (.inr hmem))
    · rintro ⟨⟨hgood, hgoods⟩, ⟨hnew, hnodup⟩, hfree, hfrees⟩
      obtain ⟨s', hs'⟩ := (h.ok_iff s a).mpr ⟨hgood, hfree⟩
      obtain ⟨last, hlast⟩ := (ih s').mpr ⟨hgoods, hnodup, fun b hb hmem => by
        rcases (hkeys hs' _).mp hmem with heq | hmem
        · exact hnew (heq ▸ List.mem_map_of_mem hb)
        · exact hfrees b hb hmem⟩
      exact ⟨last, s', hs', hlast⟩

/-- Where nothing was before, a list is loaded exactly if all its entries are good and no two of
them have one key. -/
theorem exists_foldlM_iff (h : Loads step entries key Good) (l : List α) {s : σ}
    (hs : entries s = []) :
    (∃ s', l.foldlM step s = .ok s') ↔ (∀ a ∈ l, Good a) ∧ (l.map key).Nodup := by
  rw [h.exists_foldlM_iff_of, hs]
  simp

/-- What was loaded is there, beside what was there before, and nothing else. -/
theorem perm_foldlM_of (h : Loads step entries key Good) {l : List α} {s s' : σ}
    (hl : l.foldlM step s = .ok s') : (entries s').Perm (l ++ entries s) := by
  induction l generalizing s with
  | nil =>
    cases hl
    exact .refl _
  | cons a rest ih =>
    rw [List.foldlM_cons, bind_eq_ok_iff] at hl
    obtain ⟨s₁, hs₁, hrest⟩ := hl
    exact ((ih hrest).trans ((h.perm hs₁).append_left rest)).trans List.perm_middle

/-- Where nothing was before, what was loaded is there and nothing else. -/
theorem perm_foldlM (h : Loads step entries key Good) {l : List α} {s s' : σ}
    (hs : entries s = []) (hl : l.foldlM step s = .ok s') : (entries s').Perm l := by
  have hperm := h.perm_foldlM_of hl
  rwa [hs, List.append_nil] at hperm

end Loads

/-! ## Courses -/

namespace Registry

variable {r : Registry} {resolve : CourseRecord → Option Course}

/-- An id is taken exactly if a record has it. -/
theorem contains_iff_mem_records {id : CourseId} :
    r.contains id = true ↔ id ∈ r.records.map CourseRecord.id := by
  rw [contains_eq_isSome, Option.isSome_iff_exists, records, List.map_map, List.mem_map]
  constructor
  · rintro ⟨c, hc⟩
    exact ⟨c, List.mem_of_find?_eq_some hc, id_of_find? hc⟩
  · rintro ⟨c, hc, rfl⟩
    exact ⟨c, Table.mem_toList_iff.mp hc⟩

/-- Records are loaded if they are consistent and bound, under an id of their own. -/
theorem loads_restoreRecord (resolve : CourseRecord → Option Course) :
    Loads (restoreRecord resolve) records CourseRecord.id
      fun r => r.inconsistency? = none ∧ ∃ course, resolve r = some course where
  ok_iff r record := by
    rw [← contains_iff_mem_records, Bool.not_eq_true]
    simp only [restoreRecord_eq_ok_iff]
    constructor
    · rintro ⟨_, hconsistent, course, hbound, hfree, -⟩
      exact ⟨⟨hconsistent, course, hbound⟩, hfree⟩
    · rintro ⟨⟨hconsistent, course, hbound⟩, hfree⟩
      exact ⟨_, hconsistent, course, hbound, hfree, rfl⟩
  perm {r record r'} h := by
    obtain ⟨-, course, -, hfree, rfl⟩ := restoreRecord_eq_ok_iff.mp h
    have hperm := Table.toList_insert_perm (t := r.courses) (a := ⟨record, course⟩) hfree
    exact hperm.map RegisteredCourse.record

/-- The records are listed in the order of their ids. -/
theorem pairwise_records (r : Registry) :
    r.records.Pairwise fun x y => x.id.number < y.id.number :=
  List.pairwise_map.mpr (r.courses.ascending.imp UInt32.lt_iff_toNat_lt.mpr)

end Registry

/-- The position that follows that of an id is one more, as far as ids go. -/
theorem CourseId.rank_following (id : CourseId) :
    id.following.rank = min 0xFFFFFFFF (id.rank + 1) := by
  have hlt := id.number.toNat_lt
  rw [following]
  cases hnext : id.succ? with
  | none =>
    rw [succ?] at hnext
    split at hnext
    · next hlast =>
      have hrank : id.rank = 0xFFFFFFFF := congrArg UInt32.toNat hlast
      rw [Option.getD_none, hrank]
      rfl
    · cases hnext
  | some next =>
    have hsucc : next.rank = id.rank + 1 := toNat_of_succ? hnext
    have hlt' := next.number.toNat_lt
    rw [Option.getD_some, hsucc]
    simp only [rank] at hsucc ⊢
    omega

/-- The next id of a numbered registry comes after the greatest id, as far as ids go, and is the
first one if there is no course. -/
theorem Registry.Numbered.rank_nextId {r : Registry} (h : r.Numbered) {l : List CourseRecord}
    (hl : r.records.Perm l) :
    r.nextId.rank =
      max 1 (min 0xFFFFFFFF (((l.map fun x => x.id.rank).max?.map (· + 1)).getD 0)) := by
  have hbounds : ∀ n, r.Bounds n ↔
      1 ≤ n ∧ ∀ m ∈ l.map (fun x => x.id.rank), min 0xFFFFFFFF (m + 1) ≤ n := by
    intro n
    rw [Bounds, List.forall_mem_map]
    simp only [contains_iff_mem_records, (hl.map _).mem_iff, List.forall_mem_map,
      CourseId.rank_following]
  have hnext := (hbounds _).mp h.bounds
  have hleast := fun n hn => h.least n ((hbounds n).mpr hn)
  generalize l.map (fun x => x.id.rank) = ids at hnext hleast ⊢
  cases hmax : ids.max? with
  | none =>
    obtain rfl := List.max?_eq_none_iff.mp hmax
    exact Nat.le_antisymm (hleast 1 ⟨Nat.le_refl 1, List.forall_mem_nil _⟩) hnext.1
  | some greatest =>
    obtain ⟨hmem, hle⟩ := List.max?_eq_some_iff.mp hmax
    rw [Option.map_some, Option.getD_some]
    refine Nat.le_antisymm (hleast _ ⟨Nat.le_max_left .., fun m hm => ?_⟩)
      (Nat.max_le.mpr ⟨hnext.1, hnext.2 greatest hmem⟩)
    have := hle m hm
    omega

/-! ## Pars -/

namespace Pars

variable {pars : Pars} {p : Par}

/-- The place of a par is taken exactly if a par has its course and its player. -/
theorem contains_iff_mem_toList :
    pars.table.contains p.rank = true ↔
      (p.course, p.holder) ∈ pars.toList.map fun q => (q.course, q.holder) := by
  rw [Table.contains, Option.isSome_iff_exists, toList, List.mem_map]
  constructor
  · rintro ⟨q, hq⟩
    have hfind : pars.find? p.course p.holder = some q := hq
    obtain ⟨hcourse, hholder⟩ := key_of_find? hfind
    exact ⟨q, List.mem_of_find?_eq_some hq, by rw [hcourse, hholder]⟩
  · rintro ⟨q, hq, hkey⟩
    obtain ⟨hcourse, hholder⟩ := Prod.mk.inj hkey
    refine ⟨q, ?_⟩
    rw [Par.rank, ← hcourse, ← hholder]
    exact Table.mem_toList_iff.mp hq

/-- Pars are loaded if their course is there, and each player's only once for a course. -/
theorem loads_restorePar (r : Registry) :
    Loads (restorePar r) toList (fun p => (p.course, p.holder))
      fun p => p.course ∈ r.records.map CourseRecord.id where
  ok_iff pars p := by
    rw [← contains_iff_mem_toList, ← Registry.contains_iff_mem_records, Bool.not_eq_true]
    simp only [restorePar_eq_ok_iff]
    constructor
    · rintro ⟨_, hcourse, hfree, -⟩
      exact ⟨hcourse, hfree⟩
    · rintro ⟨hcourse, hfree⟩
      exact ⟨_, hcourse, hfree, rfl⟩
  perm h := by
    obtain ⟨-, hfree, rfl⟩ := restorePar_eq_ok_iff.mp h
    exact Table.toList_insert_perm hfree

end Pars

/-- The order of the pars: by course, then by player. -/
theorem Par.rank_lt_iff {p q : Par} :
    p.rank < q.rank ↔
      p.course.number < q.course.number ∨ p.course = q.course ∧ p.holder.key < q.holder.key := by
  have hp := p.holder.key.isLt
  have hq := q.holder.key.isLt
  have hcourse : p.course = q.course ↔ p.course.rank = q.course.rank :=
    ⟨congrArg _, CourseId.rank_injective⟩
  rw [hcourse, UInt32.lt_iff_toNat_lt, BitVec.lt_def]
  simp only [rank, position, Nat.shiftLeft_eq, CourseId.rank]
  omega

/-! ## Commitments -/

/-- Of the listed commitments of a key the last one stays. -/
theorem Ledger.mem_ofList_iff {l : List (Digest × Commitment)} {minAge : UInt64} {singleUse : Bool}
    {x : Digest × Commitment} :
    x ∈ (ofList l minAge singleUse).toList ↔ LastOf Prod.fst l x := by
  have hrank : ∀ y : Digest × Commitment, Commitment.rank y ≠ Commitment.rank x ↔ y.1 ≠ x.1 :=
    fun y => not_congr BitVec.toNat_inj
  rw [ofList, toList, Table.mem_ofList_iff, LastOf, LastOf]
  simp only [hrank]

/-! ## Snapshots -/

/-- What a snapshot has to be for a board to be put together from it: no record contradicts itself,
each record is bound to a course and has an id of its own, and each par is on a listed course and is
the only one of its player there. -/
structure Snapshot.WellFormed (s : Snapshot) (resolve : CourseRecord → Option Course) : Prop where
  consistent : ∀ r ∈ s.courses, r.inconsistency? = none
  bound : ∀ r ∈ s.courses, ∃ course, resolve r = some course
  ids : (s.courses.map CourseRecord.id).Nodup
  listed : ∀ p ∈ s.pars, p.course ∈ s.courses.map CourseRecord.id
  single : (s.pars.map fun p => (p.course, p.holder)).Nodup

/-- A snapshot taken at a time has the records and the pars of another one and the last commitment
of each key, and each list is strictly in the order of its keys. -/
structure Snapshot.NormalFormOf (n s : Snapshot) (now : Time) : Prop where
  takenAt : n.takenAt = now
  courses : n.courses.Perm s.courses
  courses_sorted : n.courses.Pairwise fun r r' => r.id.number < r'.id.number
  pars : n.pars.Perm s.pars
  pars_sorted : n.pars.Pairwise fun p p' =>
    p.course.number < p'.course.number ∨ p.course = p'.course ∧ p.holder.key < p'.holder.key
  commitments : ∀ x, x ∈ n.commitments ↔ LastOf Prod.fst s.commitments x
  commitments_sorted : n.commitments.Pairwise fun x y => x.1 < y.1

/-- A snapshot has one normal form at a time. -/
theorem Snapshot.NormalFormOf.eq {n n' s : Snapshot} {now : Time} (h : n.NormalFormOf s now)
    (h' : n'.NormalFormOf s now) : n = n' := by
  have htime : n.takenAt = n'.takenAt := h.takenAt.trans h'.takenAt.symm
  have hcourses : n.courses = n'.courses :=
    @Table.eq_of_mem_iff _ (fun r => r.id.rank) _ _
      (h.courses_sorted.imp UInt32.lt_iff_toNat_lt.mp)
      (h'.courses_sorted.imp UInt32.lt_iff_toNat_lt.mp)
      fun r => (h.courses.trans h'.courses.symm).mem_iff
  have hpars : n.pars = n'.pars :=
    @Table.eq_of_mem_iff _ Par.rank _ _ (h.pars_sorted.imp Par.rank_lt_iff.mpr)
      (h'.pars_sorted.imp Par.rank_lt_iff.mpr) fun p => (h.pars.trans h'.pars.symm).mem_iff
  have hcommitments : n.commitments = n'.commitments :=
    @Table.eq_of_mem_iff _ Commitment.rank _ _
      (h.commitments_sorted.imp BitVec.lt_def.mp) (h'.commitments_sorted.imp BitVec.lt_def.mp)
      fun x => (h.commitments x).trans (h'.commitments x).symm
  cases n
  cases n'
  simp_all only

namespace Board

variable {b : Board} {config : Config} {admin : AdminPolicy} {snapshot : Snapshot}
  {resolve : CourseRecord → Option Course}

/-- A board is put together from the well-formed snapshots, and from no other ones. -/
theorem exists_restore_iff :
    (∃ b, restore config admin snapshot resolve = .ok b) ↔ snapshot.WellFormed resolve := by
  have hcourses := (Registry.loads_restoreRecord resolve).exists_foldlM_iff snapshot.courses
    (s := .empty) rfl
  have hpars := fun registry => (Pars.loads_restorePar registry).exists_foldlM_iff snapshot.pars
    (s := .empty) rfl
  have hids : ∀ registry,
      snapshot.courses.foldlM (Registry.restoreRecord resolve) .empty = .ok registry →
        ∀ id, id ∈ registry.records.map CourseRecord.id ↔
          id ∈ snapshot.courses.map CourseRecord.id := by
    intro registry hregistry id
    have hperm := (Registry.loads_restoreRecord resolve).perm_foldlM rfl hregistry
    exact (hperm.map CourseRecord.id).mem_iff
  simp only [restore_eq_ok_iff]
  constructor
  · rintro ⟨b, registry, hregistry, pars, hp, -⟩
    obtain ⟨hgood, hnodup⟩ := hcourses.mp ⟨registry, hregistry⟩
    obtain ⟨hlisted, hsingle⟩ := (hpars registry).mp ⟨pars, hp⟩
    exact ⟨fun r hr => (hgood r hr).1, fun r hr => (hgood r hr).2, hnodup,
      fun p hp => (hids registry hregistry _).mp (hlisted p hp), hsingle⟩
  · intro h
    obtain ⟨registry, hregistry⟩ := hcourses.mpr
      ⟨fun r hr => ⟨h.consistent r hr, h.bound r hr⟩, h.ids⟩
    obtain ⟨pars, hp⟩ := (hpars registry).mpr
      ⟨fun p hp => (hids registry hregistry _).mpr (h.listed p hp), h.single⟩
    exact ⟨_, registry, hregistry, pars, hp, rfl⟩

/-- What a board that was put together is: the tables that the parts of the snapshot are loaded
into. -/
theorem perm_of_restore (h : restore config admin snapshot resolve = .ok b) :
    b.registry.records.Perm snapshot.courses ∧ b.pars.toList.Perm snapshot.pars ∧
      b.ledger = .ofList snapshot.commitments config.minCommitAge config.singleUseCommitments := by
  obtain ⟨registry, hregistry, pars, hpars, rfl⟩ := restore_eq_ok_iff.mp h
  exact ⟨(Registry.loads_restoreRecord resolve).perm_foldlM rfl hregistry,
    (Pars.loads_restorePar registry).perm_foldlM rfl hpars, rfl⟩

/-- The snapshots of a board that was put together are normal forms of the snapshot that it was put
together from. -/
theorem normalFormOf_of_restore (h : restore config admin snapshot resolve = .ok b) (now : Time) :
    (b.snapshot now).NormalFormOf snapshot now := by
  obtain ⟨hcourses, hpars, hledger⟩ := perm_of_restore h
  exact {
    takenAt := rfl
    courses := hcourses
    courses_sorted := b.registry.pairwise_records
    pars := hpars
    pars_sorted := b.pars.table.ascending.imp Par.rank_lt_iff.mp
    commitments := fun x => by
      rw [← Ledger.mem_ofList_iff, ← hledger]
      rfl
    commitments_sorted := b.ledger.entries.ascending.imp BitVec.lt_def.mpr }

/-- **Loading accepts the well-formed snapshots and brings them into normal form.** For all
settings, administrators and snapshots, and for every way to bind records to courses:

* a board is put together exactly if the snapshot is well-formed, and otherwise there is a fault;
* at every time the snapshot of that board is the normal form of the one it was put together from;
* the next id comes after the greatest id of the records, as far as ids go, and is one if there is
  no record. -/
theorem restore_normalises (config : Config) (admin : AdminPolicy) (snapshot : Snapshot)
    (resolve : CourseRecord → Option Course) :
    ((∃ b, restore config admin snapshot resolve = .ok b) ↔ snapshot.WellFormed resolve) ∧
    ((∃ fault, restore config admin snapshot resolve = .error fault) ↔
      ¬snapshot.WellFormed resolve) ∧
    ∀ b, restore config admin snapshot resolve = .ok b →
      (∀ now kept, b.snapshot now = kept ↔ kept.NormalFormOf snapshot now) ∧
      b.registry.nextId.rank =
        max 1 (min 0xFFFFFFFF
          (((snapshot.courses.map fun r => r.id.rank).max?.map (· + 1)).getD 0)) := by
  refine ⟨exists_restore_iff, ?_, fun b h => ⟨fun now kept => ?_, ?_⟩⟩
  · rw [← @exists_restore_iff config admin]
    cases restore config admin snapshot resolve <;> simp
  · have hnormal := normalFormOf_of_restore h now
    exact ⟨fun heq => heq ▸ hnormal, hnormal.eq⟩
  · exact (coherent_of_restore h).numbered.rank_nextId (perm_of_restore h).1

/-- Records and pars out of order and a key that is committed twice: the lists are put in order, the
later commitment of the key stays, and the next course gets the id after the greatest one. With one
of its records a second time, the snapshot has a fault. -/
theorem restore_normalises_of_unordered :
    let record (number : UInt32) : CourseRecord := .fresh ⟨number⟩ "shortest" .full 0
    let par (number : UInt32) (player : Player) : Par := .fresh ⟨number⟩ player 9 4
    let snapshot : Snapshot :=
      { takenAt := 5
        courses := [record 3, record 1]
        commitments := [(7, ⟨Sample.alice, 1, none⟩), (5, ⟨Sample.bob, 2, some 3⟩),
          (7, ⟨Sample.bob, 3, none⟩)]
        pars := [par 3 Sample.bob, par 1 Sample.bob, par 1 Sample.alice] }
    let resolve : CourseRecord → Option Course := fun _ => some Sample.shortest
    (∃ b, restore {} (.owner Sample.root) snapshot resolve = .ok b ∧
      b.snapshot 9 =
        { takenAt := 9
          courses := [record 1, record 3]
          commitments := [(5, ⟨Sample.bob, 2, some 3⟩), (7, ⟨Sample.bob, 3, none⟩)]
          pars := [par 1 Sample.alice, par 1 Sample.bob, par 3 Sample.bob] } ∧
      b.registry.nextId = ⟨4⟩) ∧
    ∃ fault, restore {} (.owner Sample.root)
      { snapshot with courses := record 3 :: snapshot.courses } resolve = .error fault := by
  intro record par snapshot resolve
  obtain ⟨hiff, -, hrestored⟩ := restore_normalises {} (.owner Sample.root) snapshot resolve
  obtain ⟨b, hb⟩ := hiff.mpr
    { consistent := by decide
      bound := fun _ _ => ⟨_, rfl⟩
      ids := by decide
      listed := by decide
      single := by decide }
  obtain ⟨hsnapshot, hnext⟩ := hrestored b hb
  refine ⟨⟨b, hb, (hsnapshot 9 _).mpr ?_, CourseId.rank_injective hnext⟩, ?_⟩
  · exact {
      takenAt := rfl
      courses := .swap ..
      courses_sorted := by decide
      pars := by decide
      pars_sorted := by decide
      commitments := fun x => @Ledger.mem_ofList_iff snapshot.commitments 60 true x
      commitments_sorted := by decide }
  · refine (restore_normalises {} (.owner Sample.root) _ resolve).2.1.mpr fun h => ?_
    exact absurd h.ids (by decide)

end Board

end CodeGolf
