import Mathlib.Data.List.Nodup
import CodeGolf.Proofs.Loading

/-!
# The views of the pars

The pars are kept in one list, by course and then by player, and there are two ways to see a part of
it: the standings of a course and the pars of a player. This module says that both views are exact,
whatever operations have written the pars.

An operation writes the par of one course and one player (`Pars.find?_perform`), so what is found
under a course and a player is what the operations about these two made of it, in their order, and
nothing else (`Pars.find?_after`). A view is a list without repetitions of the pars with one key,
and the views for different keys are disjoint; so the views together are the whole list
(`flatMap_perm_of_mem_iff`). The standings take the pars at the positions from that of the least
player on a course to that of the greatest one, and these are the pars on the course
(`Pars.between_eq_filter_course`): no player's key falls out at either end. `Pars.views_are_exact`
puts the parts together.
-/

namespace CodeGolf

/-! ## Views of a list -/

/-- Lists without repetitions that hold the entries of one key each are together the whole list, if
every key of an entry is listed once. -/
theorem flatMap_perm_of_mem_iff {α κ : Type} {l : List α} {key : α → κ} {view : κ → List α}
    (hl : l.Nodup) (hview : ∀ k, (view k).Nodup)
    (hmem : ∀ k a, a ∈ view k ↔ a ∈ l ∧ key a = k) {keys : List κ} (hkeys : keys.Nodup)
    (hcovers : ∀ a ∈ l, key a ∈ keys) : (keys.flatMap view).Perm l := by
  have hdisjoint : keys.Pairwise fun k k' => (view k).Disjoint (view k') := by
    refine hkeys.imp fun hne a ha ha' => hne ?_
    rw [← ((hmem _ a).mp ha).2, ((hmem _ a).mp ha').2]
  have hnodup : (keys.flatMap view).Nodup :=
    List.nodup_flatMap.mpr ⟨fun k _ => hview k, hdisjoint⟩
  refine (List.perm_ext_iff_of_nodup hnodup hl).mpr fun a => ?_
  simp only [List.mem_flatMap, hmem]
  constructor
  · rintro ⟨k, -, ha, -⟩
    exact ha
  · intro ha
    exact ⟨key a, hcovers a ha, ha, rfl⟩

/-! ## Orders -/

namespace Par

/-- The order of the rows of the standings: by cost, then by the time when the cost was reached,
then by player. -/
def Leads (p q : Par) : Prop :=
  p.bestCost < q.bestCost ∨ p.bestCost = q.bestCost ∧
    (p.bestAt < q.bestAt ∨ p.bestAt = q.bestAt ∧ p.holder.key < q.holder.key)

instance (p q : Par) : Decidable (p.Leads q) := by
  unfold Leads
  infer_instance

/-- One row leads another one if its place is before the other one's. -/
theorem leads_iff_standing_lt {p q : Par} : p.Leads q ↔ p.standing < q.standing := by
  have hp := p.holder.key.isLt
  have hq := q.holder.key.isLt
  have hpAt := p.bestAt.toNat_lt
  have hqAt := q.bestAt.toNat_lt
  simp only [Leads, standing, Nat.shiftLeft_eq, UInt64.lt_iff_toNat_lt, ← UInt64.toNat_inj,
    BitVec.lt_def]
  omega

end Par

namespace Pars

/-! ## Operations as data -/

/-- An operation on the pars. -/
inductive Operation where
  | credit (course : CourseId) (holder : Player) (cost : Cost) (now : Time)
  | restore (p : Par)

namespace Operation

/-- The course and the player whose par an operation is about. -/
def key : Operation → CourseId × Player
  | .credit course holder _ _ => (course, holder)
  | .restore p => (p.course, p.holder)

/-- The par that there is after an operation about it, from the one that there was. -/
def written : Operation → Option Par → Par
  | .credit course holder cost now, none => .fresh course holder cost now
  | .credit _ _ cost now, some p => p.credit cost now
  | .restore p, none => p
  | .restore _, some old => old

end Operation

/-- The pars that an operation leaves. -/
def perform (pars : Pars) : Operation → Pars
  | .credit course holder cost now => (pars.credit course holder cost now).2
  | .restore p => (pars.restore p).2

/-- The pars after operations performed one after the other. -/
def after (pars : Pars) (operations : List Operation) : Pars := operations.foldl perform pars

variable {pars : Pars} {course : CourseId} {holder : Player} {p : Par}

/-- A par comes back to its place if the place is free, and nothing else changes. -/
theorem find?_restore (pars : Pars) (p : Par) (course : CourseId) (holder : Player) :
    (pars.restore p).2.find? course holder =
      if p.course = course ∧ p.holder = holder then some ((pars.find? course holder).getD p)
      else pars.find? course holder := by
  have hrank : p.rank = Par.position course holder ↔ p.course = course ∧ p.holder = holder :=
    ⟨Par.position_injective, fun ⟨hcourse, hholder⟩ => by rw [Par.rank, hcourse, hholder]⟩
  rw [restore]
  cases htaken : pars.table.contains p.rank with
  | false =>
    have hfree : pars.table.find? p.rank = none := by simpa [Table.contains] using htaken
    simp only [Bool.false_eq_true, if_false, find?, Table.find?_insert, hrank]
    refine ite_congr rfl (fun hkey => ?_) fun _ => rfl
    rw [← hrank.mpr hkey, hfree, Option.getD_none]
  | true =>
    obtain ⟨old, hold⟩ := Option.isSome_iff_exists.mp htaken
    simp only [if_true]
    split
    · next hkey => rw [find?, ← hrank.mpr hkey, hold, Option.getD_some]
    · rfl

/-- **An operation writes one par**: that of the course and the player it is about. -/
theorem find?_perform (pars : Pars) (operation : Operation) (course : CourseId) (holder : Player) :
    (pars.perform operation).find? course holder =
      if operation.key = (course, holder) then some (operation.written (pars.find? course holder))
      else pars.find? course holder := by
  cases operation with
  | credit course' holder' cost now =>
    simp only [perform, find?_credit, Operation.key, Prod.mk.injEq]
    refine ite_congr rfl (fun ⟨hcourse, hholder⟩ => ?_) fun _ => rfl
    rw [next, hcourse, hholder]
    cases pars.find? course holder <;> rfl
  | restore p =>
    simp only [perform, find?_restore, Operation.key, Prod.mk.injEq]
    refine ite_congr rfl (fun _ => ?_) fun _ => rfl
    cases pars.find? course holder <;> rfl

/-- The par of a course and a player after operations is what those about the two made of it, one
after the other. -/
theorem find?_after (pars : Pars) (operations : List Operation) (course : CourseId)
    (holder : Player) :
    (pars.after operations).find? course holder =
      (operations.filter fun operation => operation.key = (course, holder)).foldl
        (fun p operation => some (operation.written p)) (pars.find? course holder) := by
  induction operations generalizing pars with
  | nil => rfl
  | cons operation rest ih =>
    have hrest := ih (pars.perform operation)
    rw [find?_perform] at hrest
    rw [after, List.foldl_cons, ← after, hrest, List.filter_cons]
    by_cases hkey : operation.key = (course, holder)
    · simp only [hkey, decide_true, if_true, List.foldl_cons]
    · simp only [hkey, decide_false, Bool.false_eq_true, if_false]

/-! ## What the views hold -/

/-- A par is found under a course and a player exactly if it is listed and its own course and player
are these. -/
theorem find?_eq_some_iff :
    pars.find? course holder = some p ↔
      p ∈ pars.toList ∧ p.course = course ∧ p.holder = holder := by
  rw [toList, Table.mem_toList_iff]
  constructor
  · intro hfind
    obtain ⟨hcourse, hholder⟩ := key_of_find? hfind
    refine ⟨?_, hcourse, hholder⟩
    rw [Par.rank, hcourse, hholder]
    exact hfind
  · rintro ⟨hfind, rfl, rfl⟩
    exact hfind

/-- A par is in the standings of a course exactly if it is listed and on the course. -/
theorem mem_standings_iff_mem_toList (course : CourseId) (p : Par) :
    p ∈ pars.standings course ↔ p ∈ pars.toList ∧ p.course = course := by
  rw [mem_standings, find?_eq_some_iff, and_comm]
  simp only [and_true, and_assoc, and_self]

/-- The pars of a player are those listed pars that are his. -/
theorem mem_ofPlayer (holder : Player) (p : Par) :
    p ∈ pars.ofPlayer holder ↔ p ∈ pars.toList ∧ p.holder = holder := by
  rw [ofPlayer, List.mem_filter, beq_iff_eq]

/-- No par is listed twice among the pars of a player. -/
theorem nodup_ofPlayer (pars : Pars) (holder : Player) : (pars.ofPlayer holder).Nodup :=
  pars.table.nodup_toList.filter _

/-! ## The order of the views -/

/-- Each row of the standings leads all rows below it. -/
theorem pairwise_leads_standings (pars : Pars) (course : CourseId) :
    (pars.standings course).Pairwise Par.Leads := by
  have hsorted := (pars.pairwise_standings course).and (pars.nodup_standings course)
  refine hsorted.imp_of_mem fun {p q} hp hq ⟨hle, hne⟩ => ?_
  rw [Par.leads_iff_standing_lt]
  refine Nat.lt_of_le_of_ne hle fun heq => hne ?_
  -- Rows of one place are the par of one player on one course.
  have hfindp := (mem_standings.mp hp).2
  have hfindq := (mem_standings.mp hq).2
  rw [Par.holder_eq_of_standing_eq heq, hfindq] at hfindp
  exact (Option.some.inj hfindp).symm

/-- The pars of a player are in the order of their courses, one for a course. -/
theorem pairwise_ofPlayer (pars : Pars) (holder : Player) :
    (pars.ofPlayer holder).Pairwise fun p q => p.course.number < q.course.number := by
  refine (pars.table.ascending.filter _).imp_of_mem fun {p q} hp hq hlt => ?_
  have hp := (mem_ofPlayer holder p).mp hp
  have hq := (mem_ofPlayer holder q).mp hq
  rcases Par.rank_lt_iff.mp hlt with hcourse | ⟨-, hkey⟩
  · exact hcourse
  · rw [hp.2, hq.2] at hkey
    exact absurd hkey (BitVec.lt_irrefl _)

/-- **The views of the pars are exact.** After any operations on no pars:

* a par is found under a course and a player exactly if it is listed and its own course and player
  are these, and it is what the operations about the two made of it, in their order;
* the standings of a course hold each par on the course once and nothing else, which are the pars
  from the least to the greatest player on it, and each row leads the rows below it;
* the pars of a player are listed once each, and nothing else, with rising courses;
* the standings of all courses together are the list of all pars, and so are the pars of all
  players;
* a further operation changes no par but that of the course and the player that it is about. -/
theorem views_are_exact (operations : List Operation) :
    let pars := empty.after operations
    (∀ course holder p, pars.find? course holder = some p ↔
      p ∈ pars.toList ∧ p.course = course ∧ p.holder = holder) ∧
    (∀ course holder, pars.find? course holder =
      (operations.filter fun operation => operation.key = (course, holder)).foldl
        (fun p operation => some (operation.written p)) none) ∧
    (∀ course,
      (∀ p ∈ pars.toList, p.course = course → (pars.standings course).count p = 1) ∧
      (∀ p ∈ pars.standings course, p ∈ pars.toList ∧ p.course = course) ∧
      (pars.standings course).Perm
        (pars.between (Par.position course .least) (Par.position course .greatest)) ∧
      (pars.standings course).Pairwise Par.Leads) ∧
    (∀ holder,
      (∀ p ∈ pars.toList, p.holder = holder → (pars.ofPlayer holder).count p = 1) ∧
      (∀ p ∈ pars.ofPlayer holder, p ∈ pars.toList ∧ p.holder = holder) ∧
      (pars.ofPlayer holder).Pairwise fun p q => p.course.number < q.course.number) ∧
    (∀ courses : List CourseId, courses.Nodup → (∀ p ∈ pars.toList, p.course ∈ courses) →
      (courses.flatMap pars.standings).Perm pars.toList) ∧
    (∀ players : List Player, players.Nodup → (∀ p ∈ pars.toList, p.holder ∈ players) →
      (players.flatMap pars.ofPlayer).Perm pars.toList) ∧
    ∀ operation course holder, operation.key ≠ (course, holder) →
      (pars.perform operation).find? course holder = pars.find? course holder := by
  intro pars
  refine ⟨fun _ _ _ => find?_eq_some_iff, find?_after empty operations, fun course => ?_,
    fun holder => ?_, fun courses hcourses hcovers => ?_, fun players hplayers hcovers => ?_,
    fun operation course holder hne => ?_⟩
  · refine ⟨fun p hp hcourse => ?_, fun p => (mem_standings_iff_mem_toList course p).mp,
      List.mergeSort_perm .., pars.pairwise_leads_standings course⟩
    exact List.count_eq_one_of_mem (pars.nodup_standings course)
      ((mem_standings_iff_mem_toList course p).mpr ⟨hp, hcourse⟩)
  · refine ⟨fun p hp hholder => ?_, fun p => (mem_ofPlayer holder p).mp,
      pars.pairwise_ofPlayer holder⟩
    exact List.count_eq_one_of_mem (pars.nodup_ofPlayer holder)
      ((mem_ofPlayer holder p).mpr ⟨hp, hholder⟩)
  · exact flatMap_perm_of_mem_iff pars.table.nodup_toList pars.nodup_standings
      mem_standings_iff_mem_toList hcourses hcovers
  · exact flatMap_perm_of_mem_iff pars.table.nodup_toList pars.nodup_ofPlayer mem_ofPlayer
      hplayers hcovers
  · rw [find?_perform, if_neg hne]

/-- The least and the greatest player on the first and on the last id, with a tie of cost and time
and a par that does not come back, because its place is taken. Both rows of the first id are in its
standings, and the views of the two ids and of the two players are all pars. -/
theorem views_are_exact_of_ends :
    let first : CourseId := ⟨0⟩
    let last : CourseId := ⟨0xFFFFFFFF⟩
    let operations : List Operation :=
      [.credit last .greatest 70 5, .credit first .greatest 70 2, .credit first .least 70 2,
        .restore (.fresh first .least 1 1), .restore (.fresh last .least 9 9)]
    let pars := empty.after operations
    [last, first].Nodup ∧ (∀ p ∈ pars.toList, p.course ∈ [last, first]) ∧
    [Player.greatest, .least].Nodup ∧
    (∀ p ∈ pars.toList, p.holder ∈ [Player.greatest, .least]) ∧
    pars.find? first .least = some (.fresh first .least 70 2) ∧
    (pars.standings first).Perm [.fresh first .least 70 2, .fresh first .greatest 70 2] ∧
    (pars.standings first).Pairwise Par.Leads ∧
    ([last, first].flatMap pars.standings).Perm pars.toList ∧
    ([Player.greatest, .least].flatMap pars.ofPlayer).Perm pars.toList ∧
    (pars.perform (.credit last .least 1 1)).find? first .least = pars.find? first .least := by
  intro first last operations pars
  obtain ⟨-, hfind, hstandings, -, hcourses, hplayers, hothers⟩ := views_are_exact operations
  obtain ⟨-, -, hbetween, hleads⟩ := hstandings first
  have hnodup : [last, first].Nodup := by decide
  have hcovers : ∀ p ∈ pars.toList, p.course ∈ [last, first] := by decide
  have hnodup' : [Player.greatest, .least].Nodup := by decide
  have hcovers' : ∀ p ∈ pars.toList, p.holder ∈ [Player.greatest, .least] := by decide
  have hrows : pars.between (Par.position first .least) (Par.position first .greatest) =
      [.fresh first .least 70 2, .fresh first .greatest 70 2] := by decide
  exact ⟨hnodup, hcovers, hnodup', hcovers', hfind first .least, hrows ▸ hbetween, hleads,
    hcourses _ hnodup hcovers, hplayers _ hnodup' hcovers',
    hothers (.credit last .least 1 1) first .least (by decide)⟩

end Pars

end CodeGolf
