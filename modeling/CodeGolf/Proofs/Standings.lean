import Mathlib.Algebra.GroupWithZero.Nat
import CodeGolf.Proofs.Lookup

/-!
# The standings of a course

The standings are cut out of the pars between two positions, and these are the pars on the course
(`Pars.standings_eq`). So they list the pars on a course, each once (`Pars.mem_standings`,
`Pars.nodup_standings`), ordered by cost, then by the time when the cost was reached, then by player
(`Par.standing_le_iff`).
Three things are said about them here. A submission puts one par into the standings, in the stead of
the recipient's old one if there is one (`Pars.standings_credit_perm`), and it does not touch the
standings of another course. The number of submissions that the pars on a course count together
(`Pars.submissionsOn`) goes up by one with it. And the first row is the par that no other one
undercuts (`Pars.head?_standings_eq_some_iff`).
-/

namespace CodeGolf

universe u

namespace Table

variable {α : Type u} {rank : α → Nat}

/-- No record is in a table twice. -/
theorem nodup_toList (t : Table rank) : t.toList.Nodup := by
  refine t.ascending.imp ?_
  rintro a _ hlt rfl
  exact Nat.lt_irrefl _ hlt

end Table

/-! ## The par after a submission -/

namespace Pars

variable {pars : Pars} {id : CourseId} {holder : Player} {cost : Cost} {now : Time} {p : Par}

/-- The best cost after a submission is the lower one of the best cost before and the cost of the
submission. -/
theorem bestCost_next (pars : Pars) (id : CourseId) (holder : Player) (cost : Cost) (now : Time) :
    (pars.next id holder cost now).bestCost =
      ((pars.find? id holder).map fun p => if cost < p.bestCost then cost else p.bestCost).getD
        cost := by
  rw [next]
  cases pars.find? id holder with
  | none => rfl
  | some p =>
    simp only [Par.credit, Option.map_some, Option.getD_some]
    split <;> rfl

/-- The number of submissions of a player goes up by one, in 64 bits. -/
theorem submissions_next (pars : Pars) (id : CourseId) (holder : Player) (cost : Cost)
    (now : Time) :
    (pars.next id holder cost now).submissions =
      ((pars.find? id holder).map Par.submissions).getD 0 + 1 := by
  rw [next]
  cases pars.find? id holder with
  | none => rfl
  | some p =>
    simp only [Par.credit, Option.map_some, Option.getD_some]
    split <;> rfl

/-! ## Rows -/

/-- What lies between the least and the greatest player on a course are the pars on it. -/
theorem between_eq_filter_course (pars : Pars) (course : CourseId) :
    pars.between (Par.position course .least) (Par.position course .greatest) =
      pars.toList.filter fun p => p.course == course := by
  refine List.filter_congr fun p _ => ?_
  rw [Bool.eq_iff_iff, beq_iff_eq, decide_eq_true_iff]
  exact Par.course_eq_iff_between.symm

/-- **The standings are the pars on the course**, in their order. -/
theorem standings_eq (pars : Pars) (course : CourseId) :
    pars.standings course = (pars.toList.filter fun p => p.course == course).mergeSort
      fun p q => p.standing ≤ q.standing := by
  rw [standings, between_eq_filter_course]

/-- The standings of a course are the pars that are found on it. -/
theorem mem_standings :
    p ∈ pars.standings id ↔ p.course = id ∧ pars.find? id p.holder = some p := by
  rw [standings_eq, List.mem_mergeSort, List.mem_filter, beq_iff_eq, and_comm]
  refine and_congr_right fun hcourse => ?_
  rw [toList, Table.mem_toList_iff, find?, ← hcourse]
  rfl

/-- A par that is found is in the standings of its course. -/
theorem mem_standings_of_find? (h : pars.find? id holder = some p) : p ∈ pars.standings id := by
  obtain ⟨hcourse, hholder⟩ := key_of_find? h
  exact mem_standings.mpr ⟨hcourse, hholder ▸ h⟩

/-- No par is in the standings twice. -/
theorem nodup_standings (pars : Pars) (id : CourseId) : (pars.standings id).Nodup :=
  (List.mergeSort_perm ..).nodup_iff.mpr (pars.table.nodup_toList.filter _)

/-- The row of a player, and the rows of all others. -/
theorem standings_perm (h : pars.find? id holder = some p) :
    (pars.standings id).Perm (p :: (pars.standings id).filter fun q => q.holder ≠ holder) := by
  obtain ⟨-, hholder⟩ := key_of_find? h
  have hnodup : (p :: (pars.standings id).filter fun q => q.holder ≠ holder).Nodup := by
    refine List.nodup_cons.mpr ⟨fun hmem => ?_, (pars.nodup_standings id).filter _⟩
    have := (List.mem_filter.mp hmem).2
    simp [hholder] at this
  refine (List.perm_ext_iff_of_nodup (pars.nodup_standings id) hnodup).mpr fun q => ?_
  rw [List.mem_cons, List.mem_filter, decide_eq_true_iff]
  refine ⟨fun hq => ?_, fun hq => hq.elim (fun heq => heq ▸ mem_standings_of_find? h) And.left⟩
  by_cases hsame : q.holder = holder
  · have hfind := (mem_standings.mp hq).2
    rw [hsame, h] at hfind
    exact .inl (Option.some.inj hfind).symm
  · exact .inr ⟨hq, hsame⟩

/-- A player without a par has no row. -/
theorem filter_standings_of_find?_eq_none (h : pars.find? id holder = none) :
    ((pars.standings id).filter fun q => q.holder ≠ holder) = pars.standings id := by
  refine List.filter_eq_self.mpr fun q hq => decide_eq_true fun hsame => ?_
  have hfind := (mem_standings.mp hq).2
  rw [hsame, h] at hfind
  cases hfind

/-- **A submission puts one row into the standings**, in the stead of the old row of the player. -/
theorem standings_credit_perm (pars : Pars) (id : CourseId) (holder : Player) (cost : Cost)
    (now : Time) :
    ((pars.credit id holder cost now).2.standings id).Perm
      (pars.next id holder cost now ::
        (pars.standings id).filter fun q => q.holder ≠ holder) := by
  have hfind := pars.find?_credit id holder cost now id
  have hnext : (pars.credit id holder cost now).2.find? id holder =
      some (pars.next id holder cost now) := by rw [hfind, if_pos ⟨rfl, rfl⟩]
  have hothers : ((pars.credit id holder cost now).2.standings id).filter
      (fun q => q.holder ≠ holder) |>.Perm
        ((pars.standings id).filter fun q => q.holder ≠ holder) := by
    refine (List.perm_ext_iff_of_nodup ((nodup_standings _ id).filter _)
      ((nodup_standings _ id).filter _)).mpr fun q => ?_
    rw [List.mem_filter, List.mem_filter, mem_standings, mem_standings, decide_eq_true_iff]
    refine and_congr_left fun hne => ?_
    rw [hfind, if_neg fun h => hne h.2.symm]
  exact (standings_perm hnext).trans (hothers.cons _)

/-- The standings of a course are determined by the pars that are found on it. -/
theorem standings_congr {pars' : Pars}
    (h : ∀ player, pars.find? id player = pars'.find? id player) :
    pars.standings id = pars'.standings id := by
  rw [standings_eq, standings_eq]
  congr 1
  refine Table.eq_of_mem_iff (pars.table.ascending.filter _) (pars'.table.ascending.filter _)
    fun q => ?_
  rw [← List.mem_mergeSort, ← standings_eq, mem_standings, h, ← mem_standings, standings_eq,
    List.mem_mergeSort]

/-- A submission does not touch the standings of another course. -/
theorem standings_credit_of_ne {other : CourseId} (hne : other ≠ id) (pars : Pars)
    (holder : Player) (cost : Cost) (now : Time) :
    (pars.credit other holder cost now).2.standings id = pars.standings id :=
  standings_congr fun player => by rw [find?_credit, if_neg fun h => hne h.1]

/-! ## Counting -/

/-- The number of submissions that the pars on a course count together. -/
def submissionsOn (pars : Pars) (id : CourseId) : Nat :=
  ((pars.standings id).map fun p => p.submissions.toNat).sum

/-- The submissions of one player, and those of all others. -/
theorem submissionsOn_eq (h : pars.find? id holder = some p) :
    pars.submissionsOn id = p.submissions.toNat +
      (((pars.standings id).filter fun q => q.holder ≠ holder).map
        fun q => q.submissions.toNat).sum := by
  have hsum := ((standings_perm h).map fun q => q.submissions.toNat).sum_nat
  rwa [List.map_cons, List.sum_cons] at hsum

/-- **A submission is counted once**, as long as the counter of its player does not overflow. -/
theorem submissionsOn_credit (pars : Pars) (id : CourseId) (holder : Player) (cost : Cost)
    (now : Time) (hcount : pars.submissionsOn id + 1 < UInt64.size) :
    (pars.credit id holder cost now).2.submissionsOn id = pars.submissionsOn id + 1 := by
  have hothers := ((pars.standings_credit_perm id holder cost now).map
    fun p => p.submissions.toNat).sum_nat
  rw [List.map_cons, List.sum_cons, submissions_next, ← submissionsOn] at hothers
  rw [hothers]
  cases hp : pars.find? id holder with
  | none =>
    rw [filter_standings_of_find?_eq_none hp, ← submissionsOn, Nat.add_comm]
    rfl
  | some p =>
    have hbefore := submissionsOn_eq hp
    have hword : (p.submissions + 1).toNat = p.submissions.toNat + 1 :=
      toNat_succ_of_lt (Nat.lt_of_le_of_lt (by rw [hbefore]; simp) hcount)
    rw [Option.map_some, Option.getD_some, hword]
    omega

end Pars

/-! ## The first row -/

/-- The order of the standings: by cost, then by the time when the cost was reached, then by
player. -/
theorem Par.standing_le_iff {p q : Par} :
    p.standing ≤ q.standing ↔
      p.bestCost < q.bestCost ∨ p.bestCost = q.bestCost ∧
        (p.bestAt < q.bestAt ∨ p.bestAt = q.bestAt ∧ p.holder.key ≤ q.holder.key) := by
  have hp := p.holder.key.isLt
  have hq := q.holder.key.isLt
  have hpAt := p.bestAt.toNat_lt
  have hqAt := q.bestAt.toNat_lt
  simp only [standing, Nat.shiftLeft_eq, UInt64.lt_iff_toNat_lt, ← UInt64.toNat_inj,
    BitVec.le_def]
  omega

/-- Two rows of one place are rows of one player. -/
theorem Par.holder_eq_of_standing_eq {p q : Par} (h : p.standing = q.standing) :
    p.holder = q.holder := by
  have hp := p.holder.key.isLt
  have hq := q.holder.key.isLt
  simp only [standing, Nat.shiftLeft_eq] at h
  have hkey : p.holder.key.toNat = q.holder.key.toNat := by omega
  cases hpl : p.holder
  cases hql : q.holder
  rw [hpl, hql] at hkey
  exact congrArg Player.mk (BitVec.eq_of_toNat_eq hkey)

namespace Pars

variable {pars : Pars} {id : CourseId} {p : Par}

/-- The rows are in the order of the standings. -/
theorem pairwise_standings (pars : Pars) (id : CourseId) :
    (pars.standings id).Pairwise fun p q => p.standing ≤ q.standing := by
  have hsorted := (List.pairwise_mergeSort (fun _ _ _ => by simpa using Nat.le_trans)
    (fun _ _ => by simpa using Nat.le_total _ _) _ :
      (pars.standings id).Pairwise fun p q => decide (p.standing ≤ q.standing) = true)
  exact hsorted.imp of_decide_eq_true

/-- Pars that are kept in the order of the standings are the standings. -/
theorem standings_eq_of_pairwise {rows : List Par}
    (hrows : (pars.toList.filter fun p => p.course == id) = rows)
    (hsorted : rows.Pairwise fun p q => p.standing ≤ q.standing) : pars.standings id = rows := by
  rw [standings_eq, hrows]
  exact List.mergeSort_of_pairwise (hsorted.imp decide_eq_true)

/-- **The first row is the par that no other one comes before.** -/
theorem head?_standings_eq_some_iff :
    (pars.standings id).head? = some p ↔
      p ∈ pars.standings id ∧ ∀ q ∈ pars.standings id, p.standing ≤ q.standing := by
  constructor
  · intro hhead
    obtain ⟨rest, hrows⟩ := List.head?_eq_some_iff.mp hhead
    have hsorted := pars.pairwise_standings id
    rw [hrows] at hsorted ⊢
    refine ⟨List.mem_cons_self .., fun q hq => ?_⟩
    rcases List.mem_cons.mp hq with rfl | hq
    · exact Nat.le_refl _
    · exact (List.pairwise_cons.mp hsorted).1 q hq
  · rintro ⟨hp, hleast⟩
    cases hrows : pars.standings id with
    | nil =>
      rw [hrows] at hp
      cases hp
    | cons q rest =>
      have hq : q ∈ pars.standings id := hrows ▸ List.mem_cons_self ..
      have hsorted := pars.pairwise_standings id
      have hqp : q.standing ≤ p.standing := by
        rw [hrows] at hsorted hp
        rcases List.mem_cons.mp hp with rfl | hp
        · exact Nat.le_refl _
        · exact (List.pairwise_cons.mp hsorted).1 p hp
      -- Neither comes before the other, so they are the par of one player.
      have hholder := Par.holder_eq_of_standing_eq (Nat.le_antisymm hqp (hleast q hq))
      have hfindp := (mem_standings.mp hp).2
      have hfindq := (mem_standings.mp hq).2
      rw [hholder, hfindp] at hfindq
      rw [List.head?_cons, ← Option.some.inj hfindq]

end Pars

end CodeGolf
