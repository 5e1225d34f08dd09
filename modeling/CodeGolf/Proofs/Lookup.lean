import CodeGolf.Board

/-!
# What a lookup finds after a write

The courses, the pars and the commitments of a board are tables whose positions are numbers made
from keys. Each of the three positions determines its key (`CourseId.rank_injective`,
`Par.position_injective`, and a digest is its own number), so `Table.find?_insert` becomes one
equation per kind of write: the entry of the written key is the new one, and every other entry is
the one from before. The fields of a record that a credit writes have an equation each.
-/

namespace CodeGolf

/-! ## Counters -/

/-- A counter that has room is counted on by one. -/
theorem toNat_succ_of_lt {n : UInt64} (h : n.toNat + 1 < UInt64.size) :
    (n + 1).toNat = n.toNat + 1 := by
  rw [UInt64.toNat_add]
  exact Nat.mod_eq_of_lt h

/-! ## Records -/

namespace CourseRecord

/-- A cost takes a title that nobody holds, or that is held at a higher cost. -/
theorem yieldsTo_iff {r : CourseRecord} {cost : Cost} :
    r.title.yieldsTo cost = true ↔ r.titleHolder = none ∨ cost < r.leadingCost := by
  rw [title]
  cases r.titleHolder with
  | none => simp [Title.yieldsTo]
  | some holder => simp [Title.yieldsTo]

/-- A title that does not yield to some cost has a holder. -/
theorem titleHolder_ne_none_of_not_yieldsTo {r : CourseRecord} {cost : Cost}
    (h : ¬r.title.yieldsTo cost) : r.titleHolder ≠ none :=
  fun hnone => h (yieldsTo_iff.mpr (.inl hnone))

section
variable (r : CourseRecord) (player : Player) (cost : Cost)

/-- After a credit the title is with the player if it yielded, and where it was if not. -/
theorem titleHolder_credit :
    (r.credit player cost).titleHolder =
      if r.title.yieldsTo cost then some player else r.titleHolder := by
  rw [credit]
  split <;> rfl

/-- The leading cost after a credit is the cost if it took the title. -/
theorem leadingCost_credit :
    (r.credit player cost).leadingCost =
      if r.title.yieldsTo cost then cost else r.leadingCost := by
  rw [credit]
  split <;> rfl

theorem solutionCount_credit :
    (r.credit player cost).solutionCount = r.solutionCount + 1 := by
  rw [credit]
  split <;> rfl

/-- The title is counted if it moved. -/
theorem titleChanges_credit :
    (r.credit player cost).titleChanges =
      if r.title.yieldsTo cost then r.titleChanges + 1 else r.titleChanges := by
  rw [credit]
  split <;> rfl

end

end CourseRecord

/-! ## Courses -/

/-- The id after an id is the next number. -/
theorem CourseId.toNat_of_succ? {id next : CourseId} (h : id.succ? = some next) :
    next.number.toNat = id.number.toNat + 1 := by
  rw [succ?] at h
  split at h
  · cases h
  · next hne =>
    cases h
    have hlt : id.number.toNat ≠ 0xFFFFFFFF := fun h => hne (UInt32.toNat_inj.mp h)
    have := id.number.toNat_lt
    rw [UInt32.toNat_add]
    simp only [UInt32.reduceToNat]
    omega

namespace Registry

variable {r : Registry} {id : CourseId} {c : RegisteredCourse}

/-- A course is found under the id of its own record. -/
theorem id_of_find? (h : r.find? id = some c) : c.record.id = id :=
  CourseId.rank_injective (Table.rank_of_find? (t := r.courses) h)

/-- Where one course is listed, no other one is found. -/
theorem eq_of_find?_of_toList_eq {c' : RegisteredCourse} (h : r.find? id = some c')
    (hlisted : r.courses.toList = [c]) : c' = c := by
  have hmem : c' ∈ r.courses.toList := List.mem_of_find?_eq_some h
  rw [hlisted] at hmem
  exact List.mem_singleton.mp hmem

/-- Whether an id is taken is whether it is found. -/
theorem contains_eq_isSome (r : Registry) (id : CourseId) :
    r.contains id = (r.find? id).isSome := rfl

/-- An inserted course is found under its id; under every other id nothing changes. -/
theorem find?_insert (r : Registry) (c : RegisteredCourse) (id : CourseId) :
    (r.insert c).find? id = if c.record.id = id then some c else r.find? id := by
  rw [find?, insert, Table.find?_insert]
  by_cases h : c.record.id = id
  · rw [if_pos h, if_pos (show c.rank = id.rank from congrArg CourseId.rank h)]
  · have hrank : c.rank ≠ id.rank := fun hr => h (CourseId.rank_injective hr)
    rw [if_neg h, if_neg hrank, find?]

/-- The registry after a solution of a course was counted for a player; an unknown course leaves
it as it is. -/
def credited (r : Registry) (id : CourseId) (player : Player) (cost : Cost) : Registry :=
  match r.find? id with
  | none => r
  | some c => r.insert { c with record := c.record.credit player cost }

/-- To count a solution of a course is to write its record. -/
theorem credited_eq_insert (h : r.find? id = some c) (player : Player) (cost : Cost) :
    r.credited id player cost = r.insert { c with record := c.record.credit player cost } := by
  rw [credited, h]

@[simp] theorem nextId_credited (r : Registry) (id : CourseId) (player : Player) (cost : Cost) :
    (r.credited id player cost).nextId = r.nextId := by
  rw [credited]
  split <;> rfl

/-- Counting a solution of a course changes the record of this course and no other. -/
theorem find?_credited (r : Registry) (id : CourseId) (player : Player) (cost : Cost)
    (id' : CourseId) :
    (r.credited id player cost).find? id' =
      if id = id' then (r.find? id').map fun c => { c with record := c.record.credit player cost }
      else r.find? id' := by
  cases hc : r.find? id with
  | none =>
    simp only [credited, hc]
    split
    · next h => rw [← h, hc, Option.map_none]
    · rfl
  | some c =>
    have hid : (c.record.credit player cost).id = id := by
      rw [CourseRecord.id_credit, id_of_find? hc]
    simp only [credited, hc, find?_insert, hid]
    split
    · next h => rw [← h, hc, Option.map_some]
    · rfl

end Registry

/-! ## Pars -/

/-- The position of a par determines the course and the player. -/
theorem Par.position_injective {course course' : CourseId} {holder holder' : Player}
    (h : Par.position course holder = Par.position course' holder') :
    course = course' ∧ holder = holder' := by
  have hk := holder.key.isLt
  have hk' := holder'.key.isLt
  simp only [Par.position, Nat.shiftLeft_eq] at h
  -- The player's key is the remainder by `2 ^ 256`, and the course is the quotient.
  have hcourse : course.rank = course'.rank := by omega
  have hkey : holder.key.toNat = holder'.key.toNat := by omega
  refine ⟨CourseId.rank_injective hcourse, ?_⟩
  cases holder
  cases holder'
  exact congrArg Player.mk (BitVec.eq_of_toNat_eq hkey)

/-- The pars on a course are at the positions from that of the least player to that of the greatest
one, both of them included. -/
theorem Par.course_eq_iff_between {p : Par} {course : CourseId} :
    p.course = course ↔
      position course .least ≤ p.rank ∧ p.rank ≤ position course .greatest := by
  have hp := p.holder.key.isLt
  have hgreatest : Player.greatest.key.toNat = 2 ^ 256 - 1 := BitVec.toNat_allOnes
  have hleast : Player.least.key.toNat = 0 := rfl
  have hcourse : p.course = course ↔ p.course.rank = course.rank :=
    ⟨congrArg _, CourseId.rank_injective⟩
  rw [hcourse]
  simp only [rank, position, Nat.shiftLeft_eq, hgreatest, hleast]
  omega

namespace Pars

variable {pars : Pars} {course : CourseId} {holder : Player} {p : Par}

/-- A par is found under its own course and its own player. -/
theorem key_of_find? (h : pars.find? course holder = some p) :
    p.course = course ∧ p.holder = holder :=
  Par.position_injective (Table.rank_of_find? (t := pars.table) h)

/-- The par of a player on a course after one more submission: the one there was with the
submission counted, or else a fresh one. -/
def next (pars : Pars) (course : CourseId) (holder : Player) (cost : Cost) (now : Time) : Par :=
  match pars.find? course holder with
  | none => .fresh course holder cost now
  | some p => p.credit cost now

/-- Counting a submission keeps the course and the player of a par. -/
theorem key_credit (p : Par) (cost : Cost) (now : Time) :
    (p.credit cost now).course = p.course ∧ (p.credit cost now).holder = p.holder := by
  rw [Par.credit]
  split <;> exact ⟨rfl, rfl⟩

theorem rank_next (pars : Pars) (course : CourseId) (holder : Player) (cost : Cost) (now : Time) :
    (pars.next course holder cost now).rank = Par.position course holder := by
  rw [next]
  cases h : pars.find? course holder with
  | none => rfl
  | some p =>
    obtain ⟨hc, hh⟩ := key_credit p cost now
    obtain ⟨hc', hh'⟩ := key_of_find? h
    simp only [Par.rank, hc, hh, hc', hh']

/-- What a counted submission writes is `next`. -/
theorem credit_snd (pars : Pars) (course : CourseId) (holder : Player) (cost : Cost)
    (now : Time) :
    (pars.credit course holder cost now).2 =
      ⟨pars.table.insert (pars.next course holder cost now)⟩ := by
  rw [credit, next]
  cases pars.find? course holder <;> rfl

/-- Counting a submission of a player on a course changes this par and no other. -/
theorem find?_credit (pars : Pars) (course : CourseId) (holder : Player) (cost : Cost)
    (now : Time) (course' : CourseId) (holder' : Player) :
    (pars.credit course holder cost now).2.find? course' holder' =
      if course = course' ∧ holder = holder' then some (pars.next course holder cost now)
      else pars.find? course' holder' := by
  rw [credit_snd, find?, Table.find?_insert, rank_next]
  by_cases h : course = course' ∧ holder = holder'
  · rw [if_pos h, h.1, h.2, if_pos rfl]
  · rw [if_neg h, if_neg fun hp => h (Par.position_injective hp), find?]

end Pars

/-! ## Commitments -/

namespace Ledger

/-- An inserted commitment is found under its key; under every other key nothing changes. -/
theorem find?_insert (l : Ledger) (key : Digest) (c : Commitment) (key' : Digest) :
    (l.insert key c).find? key' = if key = key' then some c else l.find? key' := by
  rw [find?, insert, Table.find?_insert]
  by_cases h : key = key'
  · have hrank : Commitment.rank (key, c) = key'.toNat := congrArg BitVec.toNat h
    rw [if_pos h, if_pos hrank, Option.map_some]
  · have hrank : Commitment.rank (key, c) ≠ key'.toNat := fun hk => h (BitVec.eq_of_toNat_eq hk)
    rw [if_neg h, if_neg hrank, find?]

end Ledger

end CodeGolf
