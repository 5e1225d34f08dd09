import CodeGolf.Proofs.Frame
import CodeGolf.Proofs.Loading

/-!
# An id is given once

A registry gives a new course the next id, and lets a record come back under the id that it had.
Both move the next id: a registration by one step, which fails at the last id, and a record that
comes back past its own id, which stops at the last one. `Registry.Written` says what one operation
can do to a registry, and each of its cases keeps the next id the least one above all ids
(`Registry.Numbered`), so every sequence of operations does.

What follows for the next registration is a matter of the two greatest ids. The next id is free
unless it is the last one, and it is the last one exactly if one of these two is taken
(`Registry.Numbered.succ?_nextId_eq_none_iff`); an id is refused as exhausted before anybody looks
whether it is taken. No operation takes a course away, so an id that was given stays with its course
(`Registry.ids_are_given_once`).
-/

namespace CodeGolf

/-- The greatest id. -/
def CourseId.last : CourseId := ⟨0xFFFFFFFF⟩

/-- The id before the greatest one. -/
def CourseId.nextToLast : CourseId := ⟨0xFFFFFFFE⟩

/-- There is an id after an id unless it is the last one. -/
theorem CourseId.succ?_eq_none_iff {id : CourseId} : id.succ? = none ↔ id.rank = 0xFFFFFFFF := by
  rw [succ?]
  constructor
  · intro h
    split at h
    · next hlast => exact congrArg UInt32.toNat hlast
    · cases h
  · intro h
    have hlast : id.number = 0xFFFFFFFF := UInt32.toNat_inj.mp h
    exact if_pos hlast

namespace Registry

/-! ## Operations as data -/

/-- An operation on the courses. -/
inductive Operation where
  | register (course : Course) (allowed : OpcodeSet) (now : Time)
  | restore (record : CourseRecord) (course : Course)
  | setAllowed (id : CourseId) (allowed : OpcodeSet)
  | recordSolution (id : CourseId) (player : Player) (cost : Cost)

/-- The registry that an operation leaves, refused or not. -/
def perform (r : Registry) : Operation → Registry
  | .register course allowed now => stateAfter (register course allowed now) r
  | .restore record course => stateAfter (restore record course) r
  | .setAllowed id allowed => stateAfter (setAllowed id allowed) r
  | .recordSolution id player cost => stateAfter (recordSolution id player cost) r

/-- The registry after operations performed one after the other. -/
def after (r : Registry) (operations : List Operation) : Registry := operations.foldl perform r

/-- What an operation writes: nothing; or a new course under the next id; or a course that comes
back under an id that is free; or a course in the place of itself. -/
inductive Written (r : Registry) : Registry → Prop where
  | kept : r.Written r
  | added {next : CourseId} {c : RegisteredCourse} (hnext : r.nextId.succ? = some next)
      (hid : c.record.id = r.nextId) (hfree : r.find? c.record.id = none) :
      r.Written ({ r with nextId := next }.insert c)
  | restored {c : RegisteredCourse} (hfree : r.find? c.record.id = none) :
      r.Written ({ r with nextId := r.nextAfter c.record.id }.insert c)
  | rewritten {c c' : RegisteredCourse} (hc : r.find? c.record.id = some c)
      (hsame : c'.identity = c.identity) : r.Written (r.insert c')

variable {r r' : Registry}

/-- A course that is found is found under its own id. -/
theorem find?_own {id : CourseId} {c : RegisteredCourse} (hc : r.find? id = some c) :
    r.find? c.record.id = some c := by
  rw [id_of_find? hc, hc]

/-- Every operation writes one of these things. -/
theorem written_perform (r : Registry) (operation : Operation) :
    r.Written (r.perform operation) := by
  cases operation with
  | register course allowed now =>
    rw [perform, stateAfter]
    rcases r.register_cases course allowed now with
      ⟨reason, hrun⟩ | ⟨next, -, hnext, hfree, hrun⟩
    · rw [hrun]
      exact .kept
    · rw [hrun]
      exact .added hnext rfl hfree
  | restore record course =>
    rw [perform, stateAfter, run_restore, contains_eq_isSome]
    cases hfind : r.find? record.id with
    | some c => exact .kept
    | none => exact .restored (c := ⟨record, course⟩) hfind
  | setAllowed id allowed =>
    rw [perform, stateAfter, run_setAllowed]
    cases hc : r.find? id with
    | none => exact .kept
    | some c => exact .rewritten (find?_own hc) rfl
  | recordSolution id player cost =>
    rw [perform, stateAfter, run_recordSolution]
    cases hc : r.find? id with
    | none => exact .kept
    | some c =>
      exact .rewritten (find?_own hc) (RegisteredCourse.identity_credit ..).1

/-- **What an operation writes keeps the next id the least one above all ids.** -/
theorem Written.numbered (h : r.Written r') (hr : r.Numbered) : r'.Numbered := by
  cases h with
  | kept => exact hr
  | added hnext hid _ => exact hr.register hnext hid
  | restored _ => exact hr.restore _
  | @rewritten c c' hc hsame =>
    have hid : c'.record.id = c.record.id := congrArg RegisteredCourse.Identity.id hsame
    refine hr.replace ?_
    rw [hid, contains_eq_isSome, hc, Option.isSome_some]

/-- What an operation writes leaves every course the course it is. -/
theorem Written.identity (h : r.Written r') {id : CourseId} {c : RegisteredCourse}
    (hc : r.find? id = some c) : ∃ c', r'.find? id = some c' ∧ c'.identity = c.identity := by
  cases h with
  | kept => exact ⟨c, hc, rfl⟩
  | @added _ new _ _ hfree | @restored new hfree =>
    have hne : new.record.id ≠ id := fun heq => by
      rw [heq, hc] at hfree
      cases hfree
    exact ⟨c, by rw [find?_insert, if_neg hne]; exact hc, rfl⟩
  | @rewritten old new hold hsame =>
    rw [find?_insert]
    split
    · next heq =>
      have hid : new.record.id = old.record.id := congrArg RegisteredCourse.Identity.id hsame
      rw [← hid, heq, hc] at hold
      cases hold
      exact ⟨new, rfl, hsame⟩
    · exact ⟨c, hc, rfl⟩

/-- Operations keep the next id the least one above all ids. -/
theorem Numbered.after (hr : r.Numbered) (operations : List Operation) :
    (r.after operations).Numbered := by
  induction operations generalizing r with
  | nil => exact hr
  | cons operation rest ih => exact ih ((r.written_perform operation).numbered hr)

/-- Operations leave every course the course it is. -/
theorem identity_after {id : CourseId} {c : RegisteredCourse} (hc : r.find? id = some c)
    (operations : List Operation) :
    ∃ c', (r.after operations).find? id = some c' ∧ c'.identity = c.identity := by
  induction operations generalizing r c with
  | nil => exact ⟨c, hc, rfl⟩
  | cons operation rest ih =>
    obtain ⟨c₁, hc₁, hsame₁⟩ := (r.written_perform operation).identity hc
    obtain ⟨c', hc', hsame⟩ := ih hc₁
    exact ⟨c', hc', hsame.trans hsame₁⟩

/-! ## The next registration -/

/-- Every id is below the next one, unless that is the last id. -/
theorem Numbered.rank_lt_nextId (hr : r.Numbered) {next id : CourseId}
    (hnext : r.nextId.succ? = some next) (hid : r.contains id = true) :
    id.rank < r.nextId.rank := by
  have hle := hr.bounds.2 id hid
  have hlast : r.nextId.rank ≠ 0xFFFFFFFF := fun heq => by
    rw [CourseId.succ?_eq_none_iff.mpr heq] at hnext
    cases hnext
  have hlt := r.nextId.number.toNat_lt
  rw [CourseId.rank_following] at hle
  simp only [CourseId.rank] at hle hlast ⊢
  omega

/-- **Ids are exhausted** exactly if one of the two greatest ids is taken. -/
theorem Numbered.succ?_nextId_eq_none_iff (hr : r.Numbered) :
    r.nextId.succ? = none ↔
      r.contains CourseId.nextToLast = true ∨ r.contains CourseId.last = true := by
  rw [CourseId.succ?_eq_none_iff]
  constructor
  · intro hlast
    by_contra hfree
    obtain ⟨hfree', hfree⟩ := not_or.mp hfree
    -- Then a lesser number is above all ids, too.
    have hbounds : r.Bounds 0xFFFFFFFE := by
      refine ⟨by decide, fun id hid => ?_⟩
      have hne : id.rank ≠ 0xFFFFFFFF := fun heq =>
        hfree (CourseId.rank_injective (b := CourseId.last) heq ▸ hid)
      have hne' : id.rank ≠ 0xFFFFFFFE := fun heq =>
        hfree' (CourseId.rank_injective (b := CourseId.nextToLast) heq ▸ hid)
      have hlt := id.number.toNat_lt
      rw [CourseId.rank_following]
      simp only [CourseId.rank] at hne hne' ⊢
      omega
    have := hr.least _ hbounds
    omega
  · intro htaken
    have hlt := r.nextId.number.toNat_lt
    have hle : 0xFFFFFFFF ≤ r.nextId.rank := by
      rcases htaken with hid | hid
      · exact hr.bounds.2 _ hid
      · exact hr.bounds.2 _ hid
    simp only [CourseId.rank] at hle ⊢
    omega

/-- The next id is free, or there is no id after it. -/
theorem Numbered.contains_nextId (hr : r.Numbered) {next : CourseId}
    (hnext : r.nextId.succ? = some next) : r.contains r.nextId = false := by
  rw [← Bool.not_eq_true]
  exact fun hid => Nat.lt_irrefl _ (hr.rank_lt_nextId hnext hid)

/-- A registration under a name that is not blank gives the next id, or ids are exhausted. -/
theorem Numbered.run_register (hr : r.Numbered) {course : Course}
    (hname : (Text.trim course.name.toList).isEmpty = false) (allowed : OpcodeSet) (now : Time) :
    (Registry.register course allowed now).run r =
      match r.nextId.succ? with
      | none => .error .idsExhausted r
      | some next =>
        .ok r.nextId ({ r with nextId := next }.insert
          ⟨.fresh r.nextId course.name allowed now, course⟩) := by
  rw [Registry.run_register, hname]
  cases hnext : r.nextId.succ? with
  | none => rfl
  | some next =>
    simp only [hr.contains_nextId hnext]
    rfl

/-- No registration finds its id taken. -/
theorem Numbered.register_ne_alreadyRegistered (hr : r.Numbered) (course : Course)
    (allowed : OpcodeSet) (now : Time) (id : CourseId) (r' : Registry) :
    (Registry.register course allowed now).run r ≠ .error (.alreadyRegistered id) r' := by
  cases hname : (Text.trim course.name.toList).isEmpty with
  | true =>
    rw [Registry.run_register, hname]
    exact nofun
  | false =>
    rw [hr.run_register hname]
    cases r.nextId.succ? with
    | none => exact nofun
    | some next => exact nofun

section
variable {course : Course} {allowed : OpcodeSet} {now : Time}

/-- A registration under a name that is not blank succeeds exactly if none of the two greatest ids
is taken. -/
theorem Numbered.exists_register_ok_iff (hr : r.Numbered)
    (hname : (Text.trim course.name.toList).isEmpty = false) :
    (∃ id r', (Registry.register course allowed now).run r = .ok id r') ↔
      r.contains CourseId.nextToLast = false ∧ r.contains CourseId.last = false := by
  have hfree : (r.contains CourseId.nextToLast = false ∧ r.contains CourseId.last = false) ↔
      r.nextId.succ? ≠ none := by
    rw [Ne, hr.succ?_nextId_eq_none_iff, not_or, Bool.not_eq_true, Bool.not_eq_true]
  rw [hfree, hr.run_register hname]
  cases r.nextId.succ? with
  | none => simp
  | some next => exact iff_of_true ⟨_, _, rfl⟩ (Option.some_ne_none next)

/-- A registration that succeeds gives the next id, which is above all others, and writes the new
course under it and nothing else. -/
theorem Numbered.of_register_ok (hr : r.Numbered)
    (hname : (Text.trim course.name.toList).isEmpty = false) {id : CourseId}
    (h : (Registry.register course allowed now).run r = .ok id r') :
    id = r.nextId ∧ (∀ id', r.contains id' = true → id'.number < id.number) ∧
      r'.find? id = some ⟨.fresh id course.name allowed now, course⟩ ∧
      ∀ id', id' ≠ id → r'.find? id' = r.find? id' := by
  rw [hr.run_register hname] at h
  cases hnext : r.nextId.succ? with
  | none =>
    rw [hnext] at h
    cases h
  | some next =>
    rw [hnext] at h
    cases h
    refine ⟨rfl, fun id' hid => UInt32.lt_iff_toNat_lt.mpr (hr.rank_lt_nextId hnext hid), ?_,
      fun id' hne => ?_⟩
    · rw [find?_insert]
      exact if_pos rfl
    · rw [find?_insert]
      exact if_neg hne.symm

/-- A registration that fails under a name that is not blank fails because ids are exhausted, and
writes nothing. -/
theorem Numbered.of_register_error (hr : r.Numbered)
    (hname : (Text.trim course.name.toList).isEmpty = false) {reason : RegistryError}
    (h : (Registry.register course allowed now).run r = .error reason r') :
    reason = .idsExhausted ∧ r' = r := by
  rw [hr.run_register hname] at h
  split at h
  · cases h
    exact ⟨rfl, rfl⟩
  · cases h

end

/-- A record comes back unless its id is taken, and then nothing is written. -/
theorem restore_error_iff (r : Registry) (record : CourseRecord) (course : Course) :
    ((∃ reason r', (restore record course).run r = .error reason r') ↔
      r.contains record.id = true) ∧
    ∀ reason r', (restore record course).run r = .error reason r' → r' = r := by
  rw [run_restore]
  cases r.contains record.id with
  | true => exact ⟨iff_of_true ⟨_, _, rfl⟩ rfl, fun reason r' h => by cases h; rfl⟩
  | false => simp

/-- **An id is given once.** After any operations on an empty registry:

* the next id comes after the greatest id, as far as ids go, and is one if there is no course;
* a registration under a name that is not blank succeeds exactly if none of the two greatest ids is
  taken. It then gives the next id, which is greater than all others, and touches no other course;
  otherwise ids are exhausted, and nothing changes;
* no registration, under whatever name, finds its id taken;
* a record comes back exactly if its id is free, and otherwise nothing changes;
* whatever is done later, every course stays under its id as the course it is. -/
theorem ids_are_given_once (operations : List Operation) :
    let r := empty.after operations
    r.nextId.rank =
      max 1 (min 0xFFFFFFFF (((r.records.map fun x => x.id.rank).max?.map (· + 1)).getD 0)) ∧
    (∀ course allowed now, (Text.trim course.name.toList).isEmpty = false →
      ((∃ id r', (register course allowed now).run r = .ok id r') ↔
        r.contains CourseId.nextToLast = false ∧ r.contains CourseId.last = false) ∧
      (∀ id r', (register course allowed now).run r = .ok id r' →
        id = r.nextId ∧ (∀ id', r.contains id' = true → id'.number < id.number) ∧
        r'.find? id = some ⟨.fresh id course.name allowed now, course⟩ ∧
        ∀ id', id' ≠ id → r'.find? id' = r.find? id') ∧
      ∀ reason r', (register course allowed now).run r = .error reason r' →
        reason = .idsExhausted ∧ r' = r) ∧
    (∀ course allowed now id r',
      (register course allowed now).run r ≠ .error (.alreadyRegistered id) r') ∧
    (∀ record course,
      ((∃ reason r', (restore record course).run r = .error reason r') ↔
        r.contains record.id = true) ∧
      ∀ reason r', (restore record course).run r = .error reason r' → r' = r) ∧
    ∀ later id c, r.find? id = some c →
      ∃ c', (r.after later).find? id = some c' ∧ c'.identity = c.identity := by
  intro r
  have hr : r.Numbered := numbered_empty.after operations
  exact ⟨hr.rank_nextId (.refl _), fun course allowed now hname =>
      ⟨hr.exists_register_ok_iff hname, fun _ _ => hr.of_register_ok hname,
        fun _ _ => hr.of_register_error hname⟩,
    hr.register_ne_alreadyRegistered, r.restore_error_iff,
    fun later _ _ hc => identity_after hc later⟩

/-- Two records come back, and the next course gets the id after the greater one; a third record
under one of their ids is refused, and their courses stay. With a record under the last id but one,
there is no id for the next course. -/
theorem ids_are_given_once_of_gap :
    let record (number : UInt32) : CourseRecord := .fresh ⟨number⟩ "shortest" .full 0
    let gap : List Operation :=
      [.restore (record 7) Sample.shortest, .register Sample.shortest .full 1,
        .restore (record 3) Sample.shortest, .recordSolution ⟨7⟩ Sample.alice 5]
    let r := empty.after gap
    let full := empty.after (gap ++ [.restore (record 0xFFFFFFFE) Sample.shortest])
    (Text.trim Sample.shortest.name.toList).isEmpty = false ∧
    (∃ r', (register Sample.shortest .full 2).run r = .ok ⟨9⟩ r' ∧
      (∀ id', r.contains id' = true → id'.number < 9) ∧ r'.find? ⟨7⟩ = r.find? ⟨7⟩) ∧
    (∃ reason, (restore (record 7) Sample.shortest).run r = .error reason r) ∧
    (∃ c', (r.after [.setAllowed ⟨7⟩ .empty]).find? ⟨7⟩ = some c' ∧ c'.record.name = "shortest") ∧
    (register Sample.shortest .full 2).run full = .error .idsExhausted full := by
  intro record gap r full
  have hname : (Text.trim Sample.shortest.name.toList).isEmpty = false := by decide
  obtain ⟨-, hregister, -, hrestore, hidentity⟩ := ids_are_given_once gap
  obtain ⟨hgives, hgiven, -⟩ := hregister Sample.shortest .full 2 hname
  obtain ⟨id, r', hrun⟩ := hgives.mpr (by decide)
  obtain ⟨hid, hgreatest, -, hothers⟩ := hgiven id r' hrun
  obtain rfl : id = ⟨9⟩ := hid.trans (by decide)
  obtain ⟨htaken, hkept⟩ := hrestore (record 7) Sample.shortest
  obtain ⟨reason, r₁, hrefused⟩ := htaken.mpr (by decide)
  obtain rfl := hkept reason r₁ hrefused
  obtain ⟨c', hc', hsame⟩ := hidentity [.setAllowed ⟨7⟩ .empty] ⟨7⟩ _ rfl
  refine ⟨hname, ⟨r', hrun, hgreatest, hothers ⟨7⟩ (by decide)⟩, ⟨reason, hrefused⟩,
    ⟨c', hc', congrArg RegisteredCourse.Identity.name hsame⟩, ?_⟩
  obtain ⟨-, hregister', -⟩ :=
    ids_are_given_once (gap ++ [.restore (record 0xFFFFFFFE) Sample.shortest])
  obtain ⟨hgives', -, hexhausted⟩ := hregister' Sample.shortest .full 2 hname
  cases hrun' : (register Sample.shortest .full 2).run full with
  | ok id r' => exact absurd (hgives'.mp ⟨id, r', hrun'⟩) (by decide)
  | error reason r' =>
    obtain ⟨rfl, rfl⟩ := hexhausted reason r' hrun'
    rfl

end Registry

end CodeGolf
