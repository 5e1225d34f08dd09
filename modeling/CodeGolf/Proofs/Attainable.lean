import CodeGolf.Proofs.Listener
import CodeGolf.Proofs.Reachable

/-!
# Which scores a course can come to have

A course is registered without a title and with empty counters, and from then on solutions are
credited to it one after the other. `CourseRecord.Possible` says which scores it can come to have:
the record does not contradict itself, solutions were counted only if somebody holds the title, and
the costs that the title moved to, each lower than the one before it, have room among the words of
64 bits.

A fresh course has such a score, and a credit keeps it (`CourseRecord.Possible.credit`); for the
other direction `CourseRecord.Possible.exists_credits` writes the solutions down: the holder comes
down to the leading cost one by one, once for each change of the title, and repeats it for the
solutions that are left. `CourseRecord.attained_iff` says this of the operations of the registry, for as many
solutions as a word of 64 bits can count.

The check of a record looks for the first of the three only, so it lets pass records that no course
comes to have, however many solutions it has (`CourseRecord.consistent_not_attained`): the first
solution takes the title, and from then on somebody holds it (`CourseRecord.titled_credit`).
-/

namespace CodeGolf

/-! ## Solutions one after the other -/

/-- The record of a course after solutions were credited to it one after the other. -/
def CourseRecord.credits (r : CourseRecord) (solutions : List (Player × Cost)) : CourseRecord :=
  solutions.foldl (fun r (player, cost) => r.credit player cost) r

namespace CourseRecord

/-- The first solution is credited first. -/
theorem credits_cons (r : CourseRecord) (player : Player) (cost : Cost)
    (rest : List (Player × Cost)) :
    r.credits ((player, cost) :: rest) = (r.credit player cost).credits rest := rfl

/-- Further solutions are credited to the record that the first ones leave. -/
theorem credits_append (r : CourseRecord) (first rest : List (Player × Cost)) :
    r.credits (first ++ rest) = (r.credits first).credits rest := List.foldl_append

end CourseRecord

namespace Registry

/-- Counts solutions of a course one after the other. -/
def recordSolutions (id : CourseId) :
    List (Player × Cost) → EStateM RegistryError Registry Unit
  | [] => return
  | (player, cost) :: rest => do
    let _ ← recordSolution id player cost
    recordSolutions id rest

/-- Solutions of a course that is there are all counted, and its record is credited with them. -/
theorem run_recordSolutions {r : Registry} {id : CourseId} {c : RegisteredCourse}
    (hc : r.find? id = some c) (solutions : List (Player × Cost)) :
    ∃ last, (recordSolutions id solutions).run r = .ok () last ∧
      last.find? id = some { c with record := c.record.credits solutions } := by
  induction solutions generalizing r c with
  | nil => exact ⟨r, rfl, hc⟩
  | cons x rest ih =>
    obtain ⟨player, cost⟩ := x
    have hnext : (r.insert { c with record := c.record.credit player cost }).find? id =
        some { c with record := c.record.credit player cost } := by
      rw [find?_insert, CourseRecord.id_credit, if_pos (id_of_find? hc)]
    obtain ⟨last, hrun, hlast⟩ := ih hnext
    refine ⟨last, ?_, hlast⟩
    rw [recordSolutions, EStateM.run_bind, run_recordSolution, hc]
    exact hrun

end Registry

/-! ## What a credit keeps -/

namespace CourseRecord

variable {r r' : CourseRecord} {solutions : List (Player × Cost)}

/-- Somebody holds the title once a solution was credited. -/
theorem titled_credit (r : CourseRecord) (player : Player) (cost : Cost) :
    (r.credit player cost).titleHolder ≠ none := by
  rw [titleHolder_credit]
  split
  · exact Option.some_ne_none player
  · next hkeeps => exact titleHolder_ne_none_of_not_yieldsTo hkeeps

/-- Only where there were no solutions, nobody holds the title. -/
theorem eq_nil_of_untitled_credits (h : (r.credits solutions).titleHolder = none) :
    solutions = [] := by
  rcases solutions.eq_nil_or_concat with rfl | ⟨first, ⟨player, cost⟩, rfl⟩
  · rfl
  · rw [List.concat_eq_append, credits_append] at h
    exact absurd h (titled_credit _ player cost)

/-- What the record of a course can be: it does not contradict itself, an untitled course has no
solutions, and a titled one has moved down to its leading cost as often as it counts. -/
structure Possible (r : CourseRecord) : Prop where
  consistent : r.inconsistency? = none
  untitled : r.titleHolder = none → r.solutionCount = 0
  room : r.titleHolder ≠ none → r.leadingCost.toNat + r.titleChanges.toNat ≤ UInt64.size

/-- The record of a new course is possible. -/
theorem possible_fresh (id : CourseId) (name : String) (allowed : OpcodeSet) (now : Time) :
    (fresh id name allowed now).Possible where
  consistent := rfl
  untitled _ := rfl
  room htitled := absurd rfl htitled

/-- Whether a record is possible is a question of its score. -/
theorem Possible.of_score_eq (h : r.Possible) (hscore : r'.score = r.score) : r'.Possible := by
  obtain ⟨hcost, hholder, hcount, hchanges⟩ := CourseScore.mk.inj hscore
  refine ⟨?_, ?_, ?_⟩
  · rw [inconsistency?_eq_none_iff, hcost, hholder, hcount, hchanges, ← inconsistency?_eq_none_iff]
    exact h.consistent
  · rw [hholder, hcount]
    exact h.untitled
  · rw [hholder, hcost, hchanges]
    exact h.room

/-- **A credit keeps a record possible**, as long as the solution can be counted. -/
theorem Possible.credit (h : r.Possible) (player : Player) (cost : Cost)
    (hcount : r.solutionCount ≤ (r.credit player cost).solutionCount) :
    (r.credit player cost).Possible where
  consistent := inconsistency?_credit h.consistent player cost hcount
  untitled hnone := absurd hnone (titled_credit r player cost)
  room _ := by
    obtain ⟨-, hnone, -⟩ := inconsistency?_eq_none_iff.mp h.consistent
    rw [leadingCost_credit, titleChanges_credit]
    split
    · next htakes =>
      have hle : (r.titleChanges + 1).toNat ≤ r.titleChanges.toNat + 1 := by
        rw [UInt64.toNat_add]
        exact Nat.mod_le ..
      by_cases huntitled : r.titleHolder = none
      · -- The first title may be at any cost.
        have hzero : r.titleChanges.toNat = 0 := congrArg UInt64.toNat (hnone huntitled).2
        have hcost := cost.toNat_lt_size
        omega
      · -- A further title is at a lower cost, and makes room for its own change.
        have hlt := UInt64.lt_iff_toNat_lt.mp ((yieldsTo_iff.mp htakes).resolve_left huntitled)
        have hroom := h.room huntitled
        omega
    · next hkeeps => exact h.room (titleHolder_ne_none_of_not_yieldsTo hkeeps)

/-- Credits keep a record possible, as long as all solutions can be counted. -/
theorem Possible.credits (h : r.Possible)
    (hcount : r.solutionCount.toNat + solutions.length < UInt64.size) :
    (r.credits solutions).Possible := by
  induction solutions generalizing r with
  | nil => exact h
  | cons x rest ih =>
    obtain ⟨player, cost⟩ := x
    rw [List.length_cons] at hcount
    have hsucc : (r.credit player cost).solutionCount.toNat = r.solutionCount.toNat + 1 := by
      rw [solutionCount_credit]
      exact toNat_succ_of_lt (by omega)
    have hle : r.solutionCount ≤ (r.credit player cost).solutionCount := by
      rw [UInt64.le_iff_toNat_le, hsucc]
      exact Nat.le_succ _
    rw [credits_cons]
    exact ih (h.credit player cost hle) (by omega)

/-! ## Solutions for a possible record -/

/-- Solutions of one player whose costs come down one by one, the last one at `cost`. -/
def descent (player : Player) : Nat → Cost → List (Player × Cost)
  | 0, _ => []
  | n + 1, cost => descent player n (cost + 1) ++ [(player, cost)]

/-- A descent has as many solutions as steps. -/
@[simp] theorem length_descent (player : Player) (n : Nat) (cost : Cost) :
    (descent player n cost).length = n := by
  induction n generalizing cost with
  | zero => rfl
  | succ n ih => rw [descent, List.length_append, ih, List.length_singleton]

/-- Each solution of a descent moves the title, the first one because nobody holds it yet. -/
theorem score_credits_descent (hr : r.score = ⟨0, none, 0, 0⟩) (player : Player) (n : Nat)
    (cost : Cost) (hroom : cost.toNat + (n + 1) ≤ UInt64.size) :
    (r.credits (descent player (n + 1) cost)).score =
      ⟨cost, some player, UInt64.ofNat (n + 1), UInt64.ofNat (n + 1)⟩ := by
  induction n generalizing cost with
  | zero =>
    have htakes : r.title.yieldsTo cost = true :=
      yieldsTo_iff.mpr (.inl (congrArg CourseScore.titleHolder hr))
    show (r.credit player cost).score = _
    rw [score_credit, if_pos htakes, hr]
    rfl
  | succ n ih =>
    have hsucc : (cost + 1).toNat = cost.toNat + 1 :=
      toNat_succ_of_lt (by omega)
    have hfirst := ih (cost + 1) (by omega)
    have htakes : (r.credits (descent player (n + 1) (cost + 1))).title.yieldsTo cost = true := by
      have hlead : (r.credits (descent player (n + 1) (cost + 1))).leadingCost = cost + 1 :=
        congrArg CourseScore.leadingCost hfirst
      rw [yieldsTo_iff, hlead, UInt64.lt_iff_toNat_lt]
      omega
    rw [descent, credits_append]
    show (CourseRecord.credit _ player cost).score = _
    rw [score_credit, if_pos htakes, hfirst, UInt64.ofNat_add (n + 1) 1]
    rfl

/-- Solutions at the leading cost of a title are counted and move nothing. -/
theorem score_credits_replicate {holder : Player} (hr : r.titleHolder = some holder)
    (player : Player) (n : Nat) :
    (r.credits (List.replicate n (player, r.leadingCost))).score =
      ⟨r.leadingCost, some holder, r.solutionCount + UInt64.ofNat n, r.titleChanges⟩ := by
  induction n with
  | zero =>
    show r.score = _
    rw [score, hr, show UInt64.ofNat 0 = 0 from rfl, UInt64.add_zero]
  | succ n ih =>
    obtain ⟨hlead, hholder, -⟩ := CourseScore.mk.inj ih
    have hkeeps : ¬(r.credits (List.replicate n (player, r.leadingCost))).title.yieldsTo
        r.leadingCost := by
      rw [yieldsTo_iff, hlead, hholder]
      simp [UInt64.lt_irrefl]
    rw [List.replicate_succ', credits_append]
    show (CourseRecord.credit _ player r.leadingCost).score = _
    rw [score_credit, if_neg hkeeps, ih, UInt64.ofNat_add, UInt64.add_assoc]
    rfl

/-- **Every possible record has the score of some solutions**, as many as it counts: the holder
comes down to the leading cost, and repeats it. -/
theorem Possible.exists_credits (h : r.Possible) (hr' : r'.score = ⟨0, none, 0, 0⟩) :
    ∃ solutions, solutions.length < UInt64.size ∧ (r'.credits solutions).score = r.score := by
  obtain ⟨hle, hnone, hsome⟩ := inconsistency?_eq_none_iff.mp h.consistent
  cases hholder : r.titleHolder with
  | none =>
    obtain ⟨hcost, hchanges⟩ := hnone hholder
    refine ⟨[], by decide, ?_⟩
    show r'.score = r.score
    rw [hr', score, hcost, hholder, h.untitled hholder, hchanges]
  | some holder =>
    have htitled : r.titleHolder ≠ none := hholder ▸ Option.some_ne_none holder
    have hroom := h.room htitled
    obtain ⟨n, hn⟩ : ∃ n, r.titleChanges.toNat = n + 1 :=
      Nat.exists_eq_succ_of_ne_zero fun hzero => hsome htitled (UInt64.toNat_inj.mp hzero)
    obtain ⟨m, hm⟩ := Nat.exists_eq_add_of_le (UInt64.le_iff_toNat_le.mp hle)
    have hdescent := score_credits_descent hr' holder n r.leadingCost (by omega)
    obtain ⟨hlead, hholder', hcount, hchanges⟩ := CourseScore.mk.inj hdescent
    refine ⟨descent holder (n + 1) r.leadingCost ++ List.replicate m (holder, r.leadingCost),
      ?_, ?_⟩
    · rw [List.length_append, length_descent, List.length_replicate, ← hn, ← hm]
      exact r.solutionCount.toNat_lt_size
    · have hrepeat := score_credits_replicate hholder' holder m
      rw [hlead] at hrepeat
      rw [credits_append, hrepeat, hcount, hchanges, score, hholder, ← hn, ← UInt64.ofNat_add, ← hm,
        UInt64.ofNat_toNat, UInt64.ofNat_toNat]

end CourseRecord

/-! ## Recorded solutions -/

namespace Registry

/-- Solutions of a course bring it the score of a record. -/
def ScoredBy (registered : Registry) (id : CourseId) (solutions : List (Player × Cost))
    (r : CourseRecord) : Prop :=
  ∃ last r', (recordSolutions id solutions).run registered = .ok () last ∧
    last.record? id = some r' ∧ r'.score = r.score

/-- The course that a registration adds. -/
theorem find?_of_register {r registered : Registry} {course : Course} {allowed : OpcodeSet}
    {now : Time} {id : CourseId} (h : (register course allowed now).run r = .ok id registered) :
    registered.find? id = some ⟨.fresh id course.name allowed now, course⟩ := by
  rcases r.register_cases course allowed now with ⟨reason, hrun⟩ | ⟨next, -, -, -, hrun⟩
  · cases hrun.symm.trans h
  · cases hrun.symm.trans h
    rw [find?_insert]
    exact if_pos rfl

/-- Solutions of a course that was just registered bring it the score that they credit to a fresh
record. -/
theorem scoredBy_iff {start registered : Registry} {course : Course} {allowed : OpcodeSet}
    {now : Time} {id : CourseId} {solutions : List (Player × Cost)}
    (h : (register course allowed now).run start = .ok id registered) (r : CourseRecord) :
    registered.ScoredBy id solutions r ↔
      ((CourseRecord.fresh id course.name allowed now).credits solutions).score = r.score := by
  obtain ⟨last, hrun, hlast⟩ := run_recordSolutions (find?_of_register h) solutions
  have hrecord : last.record? id =
      some ((CourseRecord.fresh id course.name allowed now).credits solutions) := by
    rw [record?, hlast, Option.map_some]
  constructor
  · rintro ⟨last', r', hrun', hlast', hscore⟩
    cases hrun.symm.trans hrun'
    cases hrecord.symm.trans hlast'
    exact hscore
  · intro hscore
    exact ⟨last, _, hrun, hrecord, hscore⟩

/-- A course that was just registered can be brought the scores of the possible records, and no
other ones, by as many solutions as can be counted. -/
theorem exists_scoredBy_iff_possible {start registered : Registry} {course : Course}
    {allowed : OpcodeSet} {now : Time} {id : CourseId}
    (h : (register course allowed now).run start = .ok id registered) (r : CourseRecord) :
    (∃ solutions, solutions.length < UInt64.size ∧ registered.ScoredBy id solutions r) ↔
      r.Possible := by
  simp only [scoredBy_iff h]
  constructor
  · rintro ⟨solutions, hlength, hscore⟩
    have hcount : (0 : UInt64).toNat + solutions.length < UInt64.size := by simpa using hlength
    exact ((CourseRecord.possible_fresh ..).credits hcount).of_score_eq hscore.symm
  · intro hr
    exact hr.exists_credits rfl

end Registry

namespace CourseRecord

/-- A record has the score of a course that was registered under its name and had the solutions
recorded. -/
def AttainedBy (r : CourseRecord) (solutions : List (Player × Cost)) : Prop :=
  ∃ (start registered : Registry) (course : Course) (allowed : OpcodeSet) (now : Time)
    (id : CourseId), course.name = r.name ∧
    (Registry.register course allowed now).run start = .ok id registered ∧
    registered.ScoredBy id solutions r

variable {r : CourseRecord}

/-- As many solutions as can be counted attain possible records only. -/
theorem AttainedBy.possible {solutions : List (Player × Cost)} (h : r.AttainedBy solutions)
    (hlength : solutions.length < UInt64.size) : r.Possible := by
  obtain ⟨start, registered, course, allowed, now, id, -, hregister, hscored⟩ := h
  exact (Registry.exists_scoredBy_iff_possible hregister r).mp ⟨solutions, hlength, hscored⟩

/-- The first course of an empty registry can be brought every possible score. -/
theorem Possible.attained (h : r.Possible) (hname : (Text.trim r.name.toList).isEmpty = false) :
    ∃ solutions, solutions.length < UInt64.size ∧ r.AttainedBy solutions := by
  let course : Course := ⟨r.name, fun _ _ => .ok 0⟩
  have hregister : (Registry.register course .full 0).run .empty = .ok ⟨1⟩
      ({ Registry.empty with nextId := ⟨2⟩ }.insert ⟨.fresh ⟨1⟩ r.name .full 0, course⟩) := by
    rw [Registry.run_register, show (Text.trim course.name.toList).isEmpty = false from hname]
    rfl
  obtain ⟨solutions, hlength, hscored⟩ :=
    (Registry.exists_scoredBy_iff_possible hregister r).mpr h
  exact ⟨solutions, hlength, _, _, _, _, _, _, rfl, hregister, hscored⟩

/-- **Which scores a course can come to have.** A record whose name is not blank has the score of a
course that was registered under this name and had solutions recorded, as many as can be counted,
exactly if it does not contradict itself, and moreover counts no solutions while nobody holds the
title, and leaves room above its leading cost for the costs of the earlier titles. It makes no
difference in which registry, when and with which allow-list the course was registered. -/
theorem attained_iff (r : CourseRecord)
    (hname : (Text.trim r.name.toList).isEmpty = false) :
    ((∃ solutions, solutions.length < UInt64.size ∧ r.AttainedBy solutions) ↔
      r.inconsistency? = none ∧ (r.titleHolder = none → r.solutionCount = 0) ∧
      (r.titleHolder ≠ none → r.leadingCost.toNat + r.titleChanges.toNat ≤ UInt64.size)) ∧
    ∀ start registered course allowed now id,
      (Registry.register course allowed now).run start = .ok id registered →
        ((∃ solutions, solutions.length < UInt64.size ∧ registered.ScoredBy id solutions r) ↔
          ∃ solutions, solutions.length < UInt64.size ∧ r.AttainedBy solutions) := by
  have hpossible : ∀ solutions, solutions.length < UInt64.size ∧ r.AttainedBy solutions →
      r.Possible := fun _ ⟨hlength, h⟩ => h.possible hlength
  refine ⟨⟨fun ⟨solutions, h⟩ => ?_, ?_⟩,
    fun start registered course allowed now id hregister => ?_⟩
  · have hr := hpossible solutions h
    exact ⟨hr.consistent, hr.untitled, hr.room⟩
  · rintro ⟨hconsistent, huntitled, hroom⟩
    exact Possible.attained ⟨hconsistent, huntitled, hroom⟩ hname
  · rw [Registry.exists_scoredBy_iff_possible hregister]
    exact ⟨fun h => h.attained hname, fun ⟨solutions, h⟩ => hpossible solutions h⟩

/-- Two changes of the title may have led to a cost of three, and not to the greatest cost of all,
although neither record contradicts itself. -/
theorem attained_iff_of_titled :
    let r : CourseRecord :=
      { CourseRecord.fresh ⟨1⟩ "length" .full 0 with
        leadingCost := 3, titleHolder := some Sample.alice, solutionCount := 5, titleChanges := 2 }
    let r' : CourseRecord := { r with leadingCost := 0xFFFFFFFFFFFFFFFF }
    (Text.trim r.name.toList).isEmpty = false ∧
      (∃ solutions, solutions.length < UInt64.size ∧ r.AttainedBy solutions) ∧
      r'.inconsistency? = none ∧
      ¬∃ solutions, solutions.length < UInt64.size ∧ r'.AttainedBy solutions := by
  intro r r'
  have hname : (Text.trim r.name.toList).isEmpty = false := by decide
  have hr := (attained_iff r hname).1
  have hr' := (attained_iff r' hname).1
  refine ⟨hname, hr.mpr ⟨rfl, nofun, fun _ => by decide⟩, rfl, fun h => ?_⟩
  have hroom := (hr'.mp h).2.2 (Option.some_ne_none _)
  exact absurd hroom (by decide)

/-- An untitled record that solutions attain counts none: there were none. -/
theorem AttainedBy.solutionCount_eq_zero {solutions : List (Player × Cost)}
    (h : r.AttainedBy solutions) (huntitled : r.titleHolder = none) : r.solutionCount = 0 := by
  obtain ⟨start, registered, course, allowed, now, id, -, hregister, hscored⟩ := h
  have hscore := (Registry.scoredBy_iff hregister r).mp hscored
  obtain ⟨-, hholder, -, -⟩ := CourseScore.mk.inj hscore
  obtain rfl := eq_nil_of_untitled_credits (hholder.trans huntitled)
  exact (congrArg CourseScore.solutionCount hscore).symm

/-- **A record that does not contradict itself need not be the record of a course**, however many
solutions the course has. Five solutions were counted and nobody holds the title, but the first of
them would have taken it. -/
theorem consistent_not_attained :
    ¬∀ r : CourseRecord, (Text.trim r.name.toList).isEmpty = false →
      (r.inconsistency? = none ↔ ∃ solutions, r.AttainedBy solutions) := by
  intro hall
  let r : CourseRecord := { CourseRecord.fresh ⟨1⟩ "a" .full 0 with solutionCount := 5 }
  obtain ⟨solutions, hattained⟩ : ∃ solutions, r.AttainedBy solutions :=
    (hall r (by decide)).mp rfl
  have hzero : (5 : UInt64) = 0 := hattained.solutionCount_eq_zero rfl
  exact absurd hzero (by decide)

end CourseRecord

end CodeGolf
