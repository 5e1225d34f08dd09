import CodeGolf.Board.Restore
import CodeGolf.Proofs.History

/-!
# Reachable boards

A board is reached from a new one by operations, by installing validators and deployers, and by
being put together from a snapshot (`Board.Reachable`).

A snapshot does not hold all of a board: the next id is left out, and so are the rules of the
ledger. They are not lost, because a reachable board is coherent (`Board.Coherent`): its next id is
the least one that is above all ids (`Registry.Numbered`), its ledger goes by the settings, and its
pars are on courses that it has. Each effect of a step keeps this (`Board.Effect.coherent`), and so
does each record and each par that is put back (`Board.coherent_of_restore`).

The records of a reachable board need not be consistent (`Registry.Consistent`). Counters are words
of 64 bits, and an accepted solution makes a full counter start again at zero, below the number of
titles. Where all operations of a run count (`Board.Counts`), the records are consistent
(`Board.ReachedBy.consistent`), so `Board.ReachedBy` says of which kind the operations of a run are.
-/

namespace CodeGolf

/-! ## Consistent records -/

/-- A word that does not start again at zero is counted on by one. -/
theorem toNat_succ_of_le {n : UInt64} (h : n ≤ n + 1) : (n + 1).toNat = n.toNat + 1 := by
  have hlt := n.toNat_lt
  rw [UInt64.le_iff_toNat_le, UInt64.toNat_add] at h
  rw [UInt64.toNat_add]
  simp only [UInt64.reduceToNat] at h ⊢
  omega

namespace CourseRecord

variable {r : CourseRecord}

/-- A record does not contradict itself exactly if it counts no more titles than solutions, and if
a holder, a cost and a count of titles are there together or not at all. -/
theorem inconsistency?_eq_none_iff :
    r.inconsistency? = none ↔
      r.titleChanges ≤ r.solutionCount ∧
      (r.titleHolder = none → r.leadingCost = 0 ∧ r.titleChanges = 0) ∧
      (r.titleHolder ≠ none → r.titleChanges ≠ 0) := by
  rw [inconsistency?, ← UInt64.not_lt]
  by_cases hlt : r.solutionCount < r.titleChanges
  · simp [hlt]
  · cases r.titleHolder with
    | none => by_cases hcost : r.leadingCost = 0 <;> simp [hlt, hcost]
    | some holder => simp [hlt]

/-- One more solution keeps a record consistent, as long as it can be counted. -/
theorem inconsistency?_credit (hr : r.inconsistency? = none) (player : Player) (cost : Cost)
    (hcount : r.solutionCount ≤ (r.credit player cost).solutionCount) :
    (r.credit player cost).inconsistency? = none := by
  obtain ⟨hchanges, -, htitled⟩ := inconsistency?_eq_none_iff.mp hr
  rw [solutionCount_credit] at hcount
  have hsolutions := toNat_succ_of_le hcount
  rw [UInt64.le_iff_toNat_le] at hchanges
  rw [inconsistency?_eq_none_iff, solutionCount_credit, UInt64.le_iff_toNat_le, hsolutions, credit]
  split
  · -- There are at most as many titles as solutions, so the title can be counted too.
    have hle : r.titleChanges ≤ r.titleChanges + 1 := by
      have hlt := (r.solutionCount + 1).toNat_lt
      rw [UInt64.le_iff_toNat_le, UInt64.toNat_add]
      simp only [UInt64.reduceToNat]
      omega
    have htitles := toNat_succ_of_le hle
    refine ⟨?_, fun hnone => absurd hnone (Option.some_ne_none player), fun _ hzero => ?_⟩
    · show (r.titleChanges + 1).toNat ≤ _
      omega
    · have hnat : (r.titleChanges + 1).toNat = 0 := congrArg UInt64.toNat hzero
      omega
  · next hkeeps =>
    have hholder := titleHolder_ne_none_of_not_yieldsTo hkeeps
    refine ⟨?_, fun hnone => absurd hnone hholder, htitled⟩
    show r.titleChanges.toNat ≤ _
    omega

end CourseRecord

/-! ## The next id -/

/-- The id that follows an id; the last one follows itself. -/
def CourseId.following (id : CourseId) : CourseId := id.succ?.getD id

/-- An id does not come behind the one that follows it. -/
theorem CourseId.rank_le_rank_following (id : CourseId) : id.rank ≤ id.following.rank := by
  rw [following]
  cases hnext : id.succ? with
  | none => exact Nat.le_refl _
  | some next => exact Nat.le_of_lt (Nat.lt_of_succ_le (Nat.le_of_eq (toNat_of_succ? hnext).symm))

namespace Registry

variable {r : Registry}

/-- The next id of a registry into which a record is put back is the greater of the next one that
it had and the one that follows the record. -/
theorem rank_nextAfter (r : Registry) (id : CourseId) :
    (r.nextAfter id).rank = max r.nextId.rank id.following.rank := by
  have hle : r.nextId.number ≤ id.following.number ↔ r.nextId.rank ≤ id.following.rank :=
    UInt32.le_iff_toNat_le
  show (if r.nextId.number ≤ id.following.number then id.following else r.nextId).rank = _
  split
  · next h => exact (Nat.max_eq_right (hle.mp h)).symm
  · next h => exact (Nat.max_eq_left (Nat.le_of_lt (Nat.lt_of_not_le (mt hle.mpr h)))).symm

/-- An id is taken after a write if it is the written one or was taken before. -/
theorem contains_insert (r : Registry) (c : RegisteredCourse) (id : CourseId) :
    (r.insert c).contains id = true ↔ c.record.id = id ∨ r.contains id = true := by
  rw [contains_eq_isSome, contains_eq_isSome, find?_insert]
  by_cases h : c.record.id = id <;> simp [h]

/-- Whether a rank is above that of every id, as far as ids go; ids are given from one. -/
def Bounds (r : Registry) (n : Nat) : Prop :=
  1 ≤ n ∧ ∀ id, r.contains id = true → id.following.rank ≤ n

/-- What is above all ids after a write is above those before and above the written one. -/
theorem bounds_insert {c : RegisteredCourse} {n : Nat} :
    (r.insert c).Bounds n ↔ r.Bounds n ∧ c.record.id.following.rank ≤ n := by
  simp only [Bounds, contains_insert]
  constructor
  · rintro ⟨hpos, hall⟩
    exact ⟨⟨hpos, fun id hid => hall id (.inr hid)⟩, hall _ (.inl rfl)⟩
  · rintro ⟨⟨hpos, hall⟩, hc⟩
    refine ⟨hpos, fun id hid => ?_⟩
    rcases hid with rfl | hid
    · exact hc
    · exact hall id hid

/-- The next id is the least one above all ids. -/
structure Numbered (r : Registry) : Prop where
  bounds : r.Bounds r.nextId.rank
  least : ∀ n, r.Bounds n → r.nextId.rank ≤ n

/-- In an empty registry the next id is one, the least of all. -/
theorem numbered_empty : empty.Numbered where
  bounds := ⟨Nat.le_refl _, nofun⟩
  least _ h := h.1

/-- **The courses determine the next id.** -/
theorem Numbered.eq_of_courses_eq {r' : Registry} (h : r.Numbered) (h' : r'.Numbered)
    (hcourses : r'.courses = r.courses) : r' = r := by
  have hbounds : r'.Bounds = r.Bounds := by
    funext n
    rw [Bounds, Bounds]
    simp only [contains, hcourses]
  have hle := h.least _ (hbounds ▸ h'.bounds)
  have hge := h'.least _ (hbounds ▸ h.bounds)
  have hnext : r'.nextId = r.nextId := CourseId.rank_injective (Nat.le_antisymm hge hle)
  cases r
  cases r'
  cases hcourses
  cases hnext
  rfl

/-- Writing a course whose id is taken keeps the next id the least one. -/
theorem Numbered.replace (h : r.Numbered) {c : RegisteredCourse}
    (hc : r.contains c.record.id = true) : (r.insert c).Numbered where
  bounds := bounds_insert.mpr ⟨h.bounds, h.bounds.2 _ hc⟩
  least n hn := h.least n (bounds_insert.mp hn).1

/-- Registering a course moves the next id on to the one that follows it. -/
theorem Numbered.register (h : r.Numbered) {next : CourseId} (hnext : r.nextId.succ? = some next)
    {c : RegisteredCourse} (hc : c.record.id = r.nextId) :
    ({ r with nextId := next }.insert c).Numbered := by
  have hfollowing : c.record.id.following = next := by
    rw [CourseId.following, hc, hnext, Option.getD_some]
  have hle : r.nextId.rank ≤ next.rank := by
    rw [← hfollowing, hc]
    exact CourseId.rank_le_rank_following _
  refine ⟨bounds_insert.mpr ⟨⟨?_, fun id hid => ?_⟩, ?_⟩, fun n hn => ?_⟩
  · exact Nat.le_trans h.bounds.1 hle
  · exact Nat.le_trans (h.bounds.2 id hid) hle
  · exact Nat.le_of_eq (congrArg CourseId.rank hfollowing)
  · rw [bounds_insert, hfollowing] at hn
    exact hn.2

/-- Putting a record back moves the next id past its id, if it is not there already. -/
theorem Numbered.restore (h : r.Numbered) (c : RegisteredCourse) :
    ({ r with nextId := r.nextAfter c.record.id }.insert c).Numbered := by
  have hmax := r.rank_nextAfter c.record.id
  refine ⟨bounds_insert.mpr ⟨⟨?_, fun id hid => ?_⟩, ?_⟩, fun n hn => ?_⟩
  · have := h.bounds.1
    show 1 ≤ (r.nextAfter c.record.id).rank
    omega
  · have := h.bounds.2 id hid
    show id.following.rank ≤ (r.nextAfter c.record.id).rank
    omega
  · show c.record.id.following.rank ≤ (r.nextAfter c.record.id).rank
    omega
  · obtain ⟨hold, hc⟩ := bounds_insert.mp hn
    have := h.least n hold
    show (r.nextAfter c.record.id).rank ≤ n
    omega

/-- No record contradicts itself. -/
def Consistent (r : Registry) : Prop :=
  ∀ id c, r.find? id = some c → c.record.inconsistency? = none

/-- An empty registry has no record to contradict itself. -/
theorem consistent_empty : empty.Consistent := fun _ _ h => nomatch h

/-- Writing a consistent record keeps all records consistent. -/
theorem Consistent.insert (h : r.Consistent) {c : RegisteredCourse}
    (hc : c.record.inconsistency? = none) : (r.insert c).Consistent := by
  intro id c' hf
  rw [find?_insert] at hf
  split at hf
  · cases hf
    exact hc
  · exact h id c' hf

/-- Counting a solution keeps all records consistent, as long as it can be counted. -/
theorem Consistent.credited (h : r.Consistent) {id : CourseId} {c : RegisteredCourse}
    (hc : r.find? id = some c) (recipient : Player) (cost : Cost)
    (hcount : c.record.solutionCount ≤ (c.record.credit recipient cost).solutionCount) :
    (r.credited id recipient cost).Consistent := by
  rw [credited_eq_insert hc]
  exact h.insert (CourseRecord.inconsistency?_credit (h _ _ hc) recipient cost hcount)

end Registry

/-- The pars are on courses of the registry. -/
def Pars.RankedOn (pars : Pars) (r : Registry) : Prop :=
  ∀ id player p, pars.find? id player = some p → r.contains id = true

/-- No pars are on any courses. -/
theorem Pars.rankedOn_empty {r : Registry} : empty.RankedOn r := by
  intro id player p hp
  cases hp

/-- A course that is written takes no id away. -/
theorem Pars.RankedOn.insert {pars : Pars} {r : Registry} (h : pars.RankedOn r) (next : CourseId)
    (c : RegisteredCourse) : pars.RankedOn ({ r with nextId := next }.insert c) :=
  fun id player p hp => (Registry.contains_insert ..).mpr (.inr (h id player p hp))

/-- A submission on a course of the registry is a par on one. -/
theorem Pars.RankedOn.credit {pars : Pars} {r : Registry} (h : pars.RankedOn r) {id : CourseId}
    (hid : r.contains id = true) (holder : Player) (cost : Cost) (now : Time) :
    (pars.credit id holder cost now).2.RankedOn r := by
  intro id' player p hp
  rw [find?_credit] at hp
  split at hp
  · next heq => exact heq.1 ▸ hid
  · exact h id' player p hp

/-! ## Coherent boards -/

namespace Board

/-- What a snapshot relies on: all that it leaves out of a board can be told from what it lists, and
the pars that it lists are on courses that it lists. -/
structure Coherent (b : Board) : Prop where
  numbered : b.registry.Numbered
  ranked : b.pars.RankedOn b.registry
  minAge : b.ledger.minAge = b.config.minCommitAge
  singleUse : b.ledger.singleUse = b.config.singleUseCommitments

/-- A new board is coherent. -/
theorem coherent_new (config : Config) (admin : AdminPolicy) : (new config admin).Coherent where
  numbered := Registry.numbered_empty
  ranked := Pars.rankedOn_empty
  minAge := rfl
  singleUse := rfl

variable {b : Board}

/-- Writing a record keeps a board coherent if it keeps the next id the least one. -/
theorem Coherent.insert (hb : b.Coherent) (next : CourseId) (c : RegisteredCourse)
    (hnumbered : ({ b.registry with nextId := next }.insert c).Numbered) :
    Coherent { b with registry := { b.registry with nextId := next }.insert c } where
  numbered := hnumbered
  ranked := hb.ranked.insert next c
  minAge := hb.minAge
  singleUse := hb.singleUse

/-- Counting an accepted solution keeps a board coherent. -/
theorem Coherent.credited (hb : b.Coherent) {id : CourseId} {c : RegisteredCourse}
    (hc : b.registry.find? id = some c) (recipient : Player) (cost : Cost) (now : Time) :
    (b.credited id recipient cost now).Coherent := by
  have hid : c.record.id = id := Registry.id_of_find? hc
  have hcontains : b.registry.contains id = true := by
    rw [Registry.contains_eq_isSome, hc, Option.isSome_some]
  have hinsert := hb.insert b.registry.nextId { c with record := c.record.credit recipient cost }
    (hb.numbered.replace (by rwa [CourseRecord.id_credit, hid]))
  rw [← Registry.credited_eq_insert hc] at hinsert
  refine ⟨hinsert.numbered, hinsert.ranked.credit ?_ recipient cost now, hb.minAge, hb.singleUse⟩
  show (b.registry.credited id recipient cost).contains id = true
  rw [Registry.contains_eq_isSome, Registry.find?_credited, if_pos rfl, hc]
  rfl

variable {now : Time} {action : Action} {reply : Reply}

/-- **One step keeps a board coherent.** -/
theorem Effect.coherent (he : b.Effect now action reply) (hb : b.Coherent) :
    reply.board.Coherent := by
  cases he with
  | refused => exact hb
  | courseAdded hadmin hname hnext hfree => exact hb.insert _ _ (hb.numbered.register hnext rfl)
  | @allowListReplaced caller id allowed c hadmin hc =>
    have hcontains : b.registry.contains c.record.id = true := by
      rw [Registry.contains_eq_isSome, Registry.id_of_find? hc, hc, Option.isSome_some]
    exact hb.insert _ _ (hb.numbered.replace hcontains)
  | validatorReplaced | committed => exact ⟨hb.numbered, hb.ranked, hb.minAge, hb.singleUse⟩
  | submitted hc hj => exact hb.credited hc _ _ now
  | @revealed _ _ _ _ recipient committer _ cost _ hk he hc hj =>
    have hcredited := hb.credited hc (recipient.getD committer) cost now
    exact ⟨hcredited.numbered, hcredited.ranked, hb.minAge, hb.singleUse⟩

/-! ## Counting steps -/

/-- A reply counts if no course has counted fewer solutions after it: no counter overflowed. -/
def Counts (b : Board) (reply : Reply) : Prop :=
  ∀ id r r', b.course? id = some r → reply.board.course? id = some r' →
    r.solutionCount ≤ r'.solutionCount

/-- The count of a credited course is read off the board that a reply leaves. -/
theorem Counts.credited (hcounts : b.Counts reply) {id : CourseId} {c : RegisteredCourse}
    {recipient : Player} {cost : Cost} (hc : b.registry.find? id = some c)
    (hreply : reply.board.registry = b.registry.credited id recipient cost) :
    c.record.solutionCount ≤ (c.record.credit recipient cost).solutionCount := by
  refine hcounts id _ _ (course?_of_find? hc) ?_
  rw [course?, hreply, Registry.record?, Registry.find?_credited, if_pos rfl, hc]
  rfl

/-- **One step keeps the records consistent**, as long as the counters do not overflow. -/
theorem Effect.consistent (he : b.Effect now action reply) (hb : b.registry.Consistent)
    (hcounts : b.Counts reply) : reply.board.registry.Consistent := by
  cases he with
  | refused | validatorReplaced | committed => exact hb
  | courseAdded => exact hb.insert rfl
  | @allowListReplaced caller id allowed c hadmin hc =>
    have hconsistent : c.record.inconsistency? = none := hb _ _ hc
    exact hb.insert hconsistent
  | submitted hc hj | revealed hk he hc hj => exact hb.credited hc _ _ (hcounts.credited hc rfl)

end Board

/-! ## Putting a board together -/

section
variable {ε α β : Type}

/-- What each part of a fold keeps, the whole fold keeps. -/
theorem foldlM_keeps (P : β → Prop) {f : β → α → Except ε β}
    (hf : ∀ {b a b'}, P b → f b a = .ok b' → P b') {l : List α} {b b' : β} (hb : P b)
    (h : l.foldlM f b = .ok b') : P b' := by
  induction l generalizing b with
  | nil =>
    cases h
    exact hb
  | cons a rest ih =>
    rw [List.foldlM_cons, bind_eq_ok_iff] at h
    obtain ⟨b₁, hb₁, hrest⟩ := h
    exact ih (hf hb hb₁) hrest

end

/-- A record is put back exactly if it is consistent, is bound to a course and has an id of its
own. -/
theorem Registry.restoreRecord_eq_ok_iff {resolve : CourseRecord → Option Course}
    {r r' : Registry} {record : CourseRecord} :
    r.restoreRecord resolve record = .ok r' ↔
      record.inconsistency? = none ∧ ∃ course, resolve record = some course ∧
        r.contains record.id = false ∧
        { r with nextId := r.nextAfter record.id }.insert ⟨record, course⟩ = r' := by
  rw [restoreRecord]
  cases record.inconsistency? with
  | some problem => simp
  | none =>
    cases resolve record with
    | none => simp
    | some course =>
      cases hcontains : r.contains record.id <;> simp [run_restore, hcontains]

/-- A par is put back exactly if its course is there and its player has no par on it yet. -/
theorem Pars.restorePar_eq_ok_iff {r : Registry} {pars pars' : Pars} {p : Par} :
    Pars.restorePar r pars p = .ok pars' ↔
      r.contains p.course = true ∧ pars.table.contains p.rank = false ∧
        ⟨pars.table.insert p⟩ = pars' := by
  rw [restorePar, restore]
  cases r.contains p.course with
  | false => simp
  | true => cases pars.table.contains p.rank <;> simp

/-- Putting a record back keeps the next id the least one above all ids. -/
theorem Registry.Numbered.restoreRecord {resolve : CourseRecord → Option Course} {r r' : Registry}
    {record : CourseRecord} (hr : r.Numbered) (h : r.restoreRecord resolve record = .ok r') :
    r'.Numbered := by
  obtain ⟨-, course, -, -, rfl⟩ := Registry.restoreRecord_eq_ok_iff.mp h
  exact hr.restore ⟨record, course⟩

/-- Only consistent records are put back. -/
theorem Registry.Consistent.restoreRecord {resolve : CourseRecord → Option Course}
    {r r' : Registry} {record : CourseRecord} (hr : r.Consistent)
    (h : r.restoreRecord resolve record = .ok r') : r'.Consistent := by
  obtain ⟨hrecord, course, -, -, rfl⟩ := Registry.restoreRecord_eq_ok_iff.mp h
  exact hr.insert hrecord

/-- Only pars on courses of the registry are put back. -/
theorem Pars.RankedOn.restorePar {r : Registry} {pars pars' : Pars} {p : Par}
    (hpars : pars.RankedOn r) (h : Pars.restorePar r pars p = .ok pars') : pars'.RankedOn r := by
  obtain ⟨hcontains, -, rfl⟩ := Pars.restorePar_eq_ok_iff.mp h
  intro id player p' hp'
  rw [Pars.find?, Table.find?_insert] at hp'
  split at hp'
  · next hrank => exact (Par.position_injective hrank).1 ▸ hcontains
  · exact hpars id player p' hp'

namespace Board

variable {b : Board} {config : Config} {admin : AdminPolicy} {snapshot : Snapshot}
  {resolve : CourseRecord → Option Course}

/-- A board is put together exactly if its records are, and then its pars. -/
theorem restore_eq_ok_iff :
    restore config admin snapshot resolve = .ok b ↔
      ∃ registry, snapshot.courses.foldlM (Registry.restoreRecord resolve) .empty = .ok registry ∧
      ∃ pars, snapshot.pars.foldlM (Pars.restorePar registry) .empty = .ok pars ∧
        { new config admin with
          registry, pars
          ledger := .ofList snapshot.commitments config.minCommitAge
            config.singleUseCommitments } = b := by
  simp only [restore, bind_eq_ok_iff, Except.ok.injEq]

/-- **A board that was put together is coherent**, whatever the snapshot. -/
theorem coherent_of_restore (h : restore config admin snapshot resolve = .ok b) : b.Coherent := by
  obtain ⟨registry, hregistry, pars, hpars, rfl⟩ := restore_eq_ok_iff.mp h
  have hnumbered : registry.Numbered :=
    foldlM_keeps Registry.Numbered (fun hr h => hr.restoreRecord h) Registry.numbered_empty
      hregistry
  have hranked : pars.RankedOn registry :=
    foldlM_keeps (fun pars => pars.RankedOn registry) (fun hp h => hp.restorePar h)
      Pars.rankedOn_empty hpars
  exact ⟨hnumbered, hranked, rfl, rfl⟩

/-- The records of a board that was put together are consistent, whatever the snapshot. -/
theorem consistent_of_restore (h : restore config admin snapshot resolve = .ok b) :
    b.registry.Consistent := by
  obtain ⟨registry, hregistry, pars, -, rfl⟩ := restore_eq_ok_iff.mp h
  exact foldlM_keeps Registry.Consistent (fun hr h => hr.restoreRecord h)
    Registry.consistent_empty hregistry

/-! ## Reachability -/

/-- The boards that are reached from new ones by operations of one kind, by installing a validator
or a deployer, and by putting a board together from a snapshot. An operation is of the kind if the
board and the reply to the operation are in the relation. -/
inductive ReachedBy (Kind : Board → Reply → Prop) : Board → Prop where
  | new (config : Config) (admin : AdminPolicy) : ReachedBy Kind (new config admin)
  | withValidator {b : Board} (hb : b.ReachedBy Kind) (validator : Validator) :
      ReachedBy Kind (b.withValidator validator)
  | withDeployer {b : Board} (hb : b.ReachedBy Kind) (deployer : Deployer) :
      ReachedBy Kind (b.withDeployer deployer)
  | step {b : Board} (hb : b.ReachedBy Kind) (now : Time) (action : Action)
      (hkind : Kind b (b.step now action)) : ReachedBy Kind (b.step now action).board
  | restored {config : Config} {admin : AdminPolicy} {snapshot : Snapshot}
      {resolve : CourseRecord → Option Course} {b : Board}
      (h : restore config admin snapshot resolve = .ok b) : ReachedBy Kind b

/-- A board is reachable if any operations at all lead to it. -/
def Reachable (b : Board) : Prop := b.ReachedBy fun _ _ => True

section
variable {Kind Kind' : Board → Reply → Prop}

/-- Operations of one kind are operations of every kind that allows more. -/
theorem ReachedBy.mono (hb : b.ReachedBy Kind)
    (hkinds : ∀ b reply, Kind b reply → Kind' b reply) : b.ReachedBy Kind' := by
  induction hb with
  | new config admin => exact .new config admin
  | withValidator _ validator ih => exact .withValidator ih validator
  | withDeployer _ deployer ih => exact .withDeployer ih deployer
  | step _ now action hkind ih => exact .step ih now action (hkinds _ _ hkind)
  | restored h => exact .restored h

/-- Operations of whatever kind lead to reachable boards. -/
theorem ReachedBy.reachable (hb : b.ReachedBy Kind) : b.Reachable :=
  hb.mono fun _ _ _ => trivial

/-- **Every reachable board is coherent.** -/
theorem Reachable.coherent (hb : b.Reachable) : b.Coherent := by
  induction hb with
  | new config admin => exact coherent_new config admin
  | withValidator _ _ ih | withDeployer _ _ ih =>
    exact ⟨ih.numbered, ih.ranked, ih.minAge, ih.singleUse⟩
  | step _ now action _ ih => exact (effect_step _ now action).coherent ih
  | restored h => exact coherent_of_restore h

/-- **Where every operation counts, the records are consistent.** -/
theorem ReachedBy.consistent (hb : b.ReachedBy Counts) : b.registry.Consistent := by
  induction hb with
  | new config admin => exact Registry.consistent_empty
  | withValidator _ _ ih | withDeployer _ _ ih => exact ih
  | step _ now action hcounts ih => exact (effect_step _ now action).consistent ih hcounts
  | restored h => exact consistent_of_restore h

end

/-- The entries of a history are among the operations of its run. -/
theorem length_history_le (b : Board) (id : CourseId) (actions : List (Time × Action)) :
    (b.history id actions).length ≤ actions.length := by
  have hlog : (b.log actions).length = actions.length := by
    rw [log, List.length_zip, length_replies, Nat.min_self]
  exact hlog ▸ List.length_filterMap_le ..

/-- An opened board that performs fewer operations than there are words of 64 bits counts all of
them. -/
theorem reachedBy_counts_after (config : Config) (admin : AdminPolicy) (validator : Validator)
    (deployer : Deployer) (actions : List (Time × Action))
    (hlength : actions.length < UInt64.size) :
    ((opened config admin validator deployer).after actions).ReachedBy Counts := by
  induction actions using List.reverseRecOn with
  | nil => exact .withDeployer (.withValidator (.new config admin) validator) deployer
  | append_singleton actions x ih =>
    obtain ⟨now, action⟩ := x
    have hfewer : actions.length < UInt64.size := by
      rw [List.length_append] at hlength
      omega
    rw [after_concat]
    refine .step (ih hfewer) now action fun id r r' hr hr' => ?_
    -- Both counts are lengths of histories, and the later history is the longer one.
    have htally := tallies_history config admin validator deployer id actions
    have htally' := tallies_history config admin validator deployer id (actions ++ [(now, action)])
    obtain ⟨c, hc, rfl⟩ := Option.map_eq_some_iff.mp hr
    rw [← after_concat] at hr'
    obtain ⟨c', hc', rfl⟩ := Option.map_eq_some_iff.mp hr'
    have hle := length_history_le (opened config admin validator deployer) id
      (actions ++ [(now, action)])
    rw [history_concat] at hle htally'
    rw [(htally.record hc).count, (htally'.record hc').count, UInt64.le_iff_toNat_le]
    rw [List.length_append] at hle ⊢
    rw [UInt64.toNat_ofNat_of_lt' (by omega), UInt64.toNat_ofNat_of_lt' (by omega)]
    omega

end Board

end CodeGolf
