import CodeGolf.Board.Restore
import CodeGolf.Proofs.Frame

/-!
# Scores and commitments move one way

The cost to beat on a course goes down and never up, the counters of the course go up, a par only
gets better, and a mark on a commitment stays. `AdvancesTo` says so of one record, of one par and of
one commitment, and then of two boards, the later of which has every entry of the earlier one; for a
course it says so against the submissions that were accepted on it in between, since the leading
cost falls, and the counters move, with these alone.

Nothing is assumed of the board, so there is no history to argue from: it may have come out of any
snapshot, with a title that no par supports or with solutions that nobody is credited with. What a
step can do to one entry is known from `Board.CourseStep`, `Board.Effect.personalBest?_cases` and
`Board.CommitmentStep`. All three relations compose, so what holds of a step holds of a run
(`Board.scores_move_one_way`). Counters are words of 64 bits, and `CountsOn` speaks of them as long
as they do not overflow.
-/

namespace CodeGolf

/-! ## Counters -/

/-- A counter has gone from `n` to `n'` by counting `k` things, unless it overflowed. -/
def CountsOn (n : UInt64) (k : Nat) (n' : UInt64) : Prop :=
  n.toNat + k < UInt64.size → n'.toNat = n.toNat + k

namespace CountsOn

variable {n n' n'' : UInt64} {j k : Nat}

/-- Nothing is counted. -/
theorem refl (n : UInt64) : CountsOn n 0 n := fun _ => rfl

/-- One more is counted. -/
theorem succ (n : UInt64) : CountsOn n 1 (n + 1) := toNat_succ_of_lt

/-- What is counted in two parts is counted together. -/
theorem trans (h : CountsOn n j n') (h' : CountsOn n' k n'') : CountsOn n (j + k) n'' := by
  intro hroom
  have hfirst := h (by omega)
  rw [h' (by omega), hfirst, Nat.add_assoc]

end CountsOn

/-! ## One course -/

/-- What may become of a record while submissions are accepted on its course. A course with a title
keeps one, at a cost that does not rise, and falls exactly if one of the submissions moved the
title. Every submission is counted, and every one that moved the title. -/
structure CourseRecord.AdvancesTo (r : CourseRecord) (accepted : List Submission)
    (r' : CourseRecord) : Prop where
  titled : r.titleHolder ≠ none → r'.titleHolder ≠ none
  leadingCost_le : r.titleHolder ≠ none → r'.leadingCost ≤ r.leadingCost
  leadingCost_lt_iff : r.titleHolder ≠ none →
    (r'.leadingCost < r.leadingCost ↔ ∃ s ∈ accepted, s.titleChanged = true)
  solutionCount : CountsOn r.solutionCount accepted.length r'.solutionCount
  titleChanges : CountsOn r.titleChanges (accepted.countP Submission.titleChanged) r'.titleChanges

namespace CourseRecord

variable {r r' r'' : CourseRecord} {before later : List Submission}

/-- A record that is not touched stays. -/
theorem AdvancesTo.refl (r : CourseRecord) : r.AdvancesTo [] r where
  titled htitled := htitled
  leadingCost_le _ := UInt64.le_refl _
  leadingCost_lt_iff _ := by simp [UInt64.lt_irrefl]
  solutionCount := .refl _
  titleChanges := .refl _

/-- The allow-list is no part of a score. -/
theorem AdvancesTo.withAllowed (h : r.AdvancesTo before r') (allowed : OpcodeSet) :
    r.AdvancesTo before { r' with allowed } :=
  ⟨h.titled, h.leadingCost_le, h.leadingCost_lt_iff, h.solutionCount, h.titleChanges⟩

/-- The accepted submissions of two parts of a run advance a record one after the other. -/
theorem AdvancesTo.trans (h : r.AdvancesTo before r') (h' : r'.AdvancesTo later r'') :
    r.AdvancesTo (before ++ later) r'' where
  titled htitled := h'.titled (h.titled htitled)
  leadingCost_le htitled :=
    UInt64.le_trans (h'.leadingCost_le (h.titled htitled)) (h.leadingCost_le htitled)
  leadingCost_lt_iff htitled := by
    have hle := h.leadingCost_le htitled
    have hle' := h'.leadingCost_le (h.titled htitled)
    simp only [List.mem_append, or_and_right, exists_or, ← h.leadingCost_lt_iff htitled,
      ← h'.leadingCost_lt_iff (h.titled htitled)]
    rw [UInt64.le_iff_toNat_le] at hle hle'
    simp only [UInt64.lt_iff_toNat_lt]
    omega
  solutionCount := by
    rw [List.length_append]
    exact h.solutionCount.trans h'.solutionCount
  titleChanges := by
    rw [List.countP_append]
    exact h.titleChanges.trans h'.titleChanges

/-- A credit advances a record by the submission that it counts, whoever is credited. -/
theorem advancesTo_credit {s : Submission} (hmoved : s.titleChanged = r.title.yieldsTo s.cost) :
    r.AdvancesTo [s] (r.credit s.recipient s.cost) where
  titled htitled := by
    rw [titleHolder_credit]
    split
    · exact Option.some_ne_none _
    · exact htitled
  leadingCost_le htitled := by
    rw [leadingCost_credit]
    split
    · next htakes =>
      exact UInt64.le_of_lt ((yieldsTo_iff.mp htakes).resolve_left htitled)
    · exact UInt64.le_refl _
  leadingCost_lt_iff htitled := by
    rw [leadingCost_credit]
    simp only [List.mem_singleton, exists_eq_left, hmoved]
    split
    · next htakes =>
      exact iff_of_true ((yieldsTo_iff.mp htakes).resolve_left htitled) htakes
    · next hkeeps => exact iff_of_false (UInt64.lt_irrefl _) hkeeps
  solutionCount := by
    rw [solutionCount_credit]
    exact .succ _
  titleChanges := by
    rw [titleChanges_credit, List.countP_singleton, hmoved]
    split
    · exact .succ _
    · exact .refl _

end CourseRecord

/-! ## One par -/

/-- What may become of a par: it stays with its player on its course and keeps the time when it
began, its cost does not rise, and the time of its cost changes only if the cost falls. -/
structure Par.AdvancesTo (p p' : Par) : Prop where
  course : p'.course = p.course
  holder : p'.holder = p.holder
  createdAt : p'.createdAt = p.createdAt
  bestCost_le : p'.bestCost ≤ p.bestCost
  bestCost_lt : p'.bestAt ≠ p.bestAt → p'.bestCost < p.bestCost

namespace Par

variable {p p' p'' : Par}

/-- A par that is not touched stays. -/
theorem AdvancesTo.refl (p : Par) : p.AdvancesTo p :=
  ⟨rfl, rfl, rfl, UInt64.le_refl _, fun hne => absurd rfl hne⟩

/-- A par advances through two parts of a run. -/
theorem AdvancesTo.trans (h : p.AdvancesTo p') (h' : p'.AdvancesTo p'') : p.AdvancesTo p'' where
  course := h'.course.trans h.course
  holder := h'.holder.trans h.holder
  createdAt := h'.createdAt.trans h.createdAt
  bestCost_le := UInt64.le_trans h'.bestCost_le h.bestCost_le
  bestCost_lt hne := by
    -- The time differs from the one before in the first half, or only in the second.
    by_cases hsame : p'.bestAt = p.bestAt
    · exact UInt64.lt_of_lt_of_le (h'.bestCost_lt (hsame ▸ hne)) h.bestCost_le
    · exact UInt64.lt_of_le_of_lt h'.bestCost_le (h.bestCost_lt hsame)

/-- One more submission advances a par. -/
theorem advancesTo_credit (p : Par) (cost : Cost) (now : Time) :
    p.AdvancesTo (p.credit cost now) := by
  rw [credit]
  split
  · next hlt => exact ⟨rfl, rfl, rfl, UInt64.le_of_lt hlt, fun _ => hlt⟩
  · exact ⟨rfl, rfl, rfl, UInt64.le_refl _, fun hne => absurd rfl hne⟩

end Par

/-! ## One commitment -/

/-- What may become of a commitment: it stays with its player and keeps its time, and once it is
marked as revealed, the mark stays as it is. -/
structure Commitment.AdvancesTo (c c' : Commitment) : Prop where
  player : c'.player = c.player
  committedAt : c'.committedAt = c.committedAt
  revealedAt : ∀ time, c.revealedAt = some time → c'.revealedAt = some time

namespace Commitment

variable {c c' c'' : Commitment}

/-- A commitment that is not touched stays. -/
theorem AdvancesTo.refl (c : Commitment) : c.AdvancesTo c := ⟨rfl, rfl, fun _ h => h⟩

/-- A commitment advances through two parts of a run. -/
theorem AdvancesTo.trans (h : c.AdvancesTo c') (h' : c'.AdvancesTo c'') : c.AdvancesTo c'' where
  player := h'.player.trans h.player
  committedAt := h'.committedAt.trans h.committedAt
  revealedAt time htime := h'.revealedAt time (h.revealedAt time htime)

/-- A reveal advances a commitment. -/
theorem advancesTo_revealed (c : Commitment) (now : Time) : c.AdvancesTo (c.revealed now) where
  player := rfl
  committedAt := rfl
  revealedAt time htime := by rw [revealed, htime, Option.getD_some]

end Commitment

/-! ## Boards -/

/-- The submission on a course that an entry of a log accepts. -/
def accepted? (id : CourseId) : (Time × Action) × Reply → Option Submission
  | ((_, action), reply) => if action.submitsTo? = some id then reply.submission? else none

/-- An entry that is no score on a course accepts no submission on it. -/
theorem accepted?_of_score? {id : CourseId} {now : Time} {action : Action} {reply : Reply}
    (h : score? id ((now, action), reply) = none) : accepted? id ((now, action), reply) = none := by
  rw [score?] at h
  rw [accepted?]
  split at h
  · next hnames =>
    rw [if_pos hnames]
    exact Option.map_eq_none_iff.mp h
  · next hne => exact if_neg hne

/-- An accepted submission is accepted on the course that the operation names. -/
theorem accepted?_of_ok {id : CourseId} {now : Time} {action : Action} {reply : Reply}
    {s : Submission} (hnames : action.submitsTo? = some id)
    (hanswer : reply.answer = .ok (.submission s)) :
    accepted? id ((now, action), reply) = some s := by
  rw [accepted?, if_pos hnames, Reply.submission?, hanswer]

namespace Board

/-- The submissions that are accepted on a course in a run, in order. -/
def accepted (b : Board) (id : CourseId) (actions : List (Time × Action)) : List Submission :=
  (b.log actions).filterMap (accepted? id)

/-- A later board has every course, every par and every commitment of an earlier one, as far as it
can have come with the submissions that were accepted on each course in between. -/
structure AdvancesTo (b : Board) (accepted : CourseId → List Submission) (b' : Board) : Prop where
  course : ∀ id r, b.course? id = some r →
    ∃ r', b'.course? id = some r' ∧ r.AdvancesTo (accepted id) r'
  par : ∀ id player p, b.personalBest? id player = some p →
    ∃ p', b'.personalBest? id player = some p' ∧ p.AdvancesTo p'
  commitment : ∀ key c, b.commitment? key = some c →
    ∃ c', b'.commitment? key = some c' ∧ c.AdvancesTo c'

/-- A board that is not touched stays. -/
theorem AdvancesTo.refl (b : Board) : b.AdvancesTo (fun _ => []) b where
  course _ r hr := ⟨r, hr, .refl r⟩
  par _ _ p hp := ⟨p, hp, .refl p⟩
  commitment _ c hc := ⟨c, hc, .refl c⟩

/-- A board advances through two parts of a run. -/
theorem AdvancesTo.trans {b b' b'' : Board} {before later : CourseId → List Submission}
    (h : b.AdvancesTo before b') (h' : b'.AdvancesTo later b'') :
    b.AdvancesTo (fun id => before id ++ later id) b'' where
  course id r hr := by
    obtain ⟨r', hr', hadvances⟩ := h.course id r hr
    obtain ⟨r'', hr'', hadvances'⟩ := h'.course id r' hr'
    exact ⟨r'', hr'', hadvances.trans hadvances'⟩
  par id player p hp := by
    obtain ⟨p', hp', hadvances⟩ := h.par id player p hp
    obtain ⟨p'', hp'', hadvances'⟩ := h'.par id player p' hp'
    exact ⟨p'', hp'', hadvances.trans hadvances'⟩
  commitment key c hc := by
    obtain ⟨c', hc', hadvances⟩ := h.commitment key c hc
    obtain ⟨c'', hc'', hadvances'⟩ := h'.commitment key c' hc'
    exact ⟨c'', hc'', hadvances.trans hadvances'⟩

variable {b : Board} {now : Time} {action : Action} {reply : Reply} {id : CourseId}

/-- An accepted submission reports that the title moved exactly if the title of its course yielded
to its cost. -/
theorem Effect.titleChanged_eq (he : b.Effect now action reply) {s : Submission}
    {c : RegisteredCourse} (hnames : action.submitsTo? = some id)
    (hanswer : reply.answer = .ok (.submission s)) (hc : b.registry.find? id = some c) :
    s.titleChanged = c.record.title.yieldsTo s.cost := by
  cases he with
  | refused | courseAdded | allowListReplaced | validatorReplaced | committed => cases hanswer
  | submitted hc' | revealed _ _ hc' =>
    cases hanswer
    cases hnames
    cases hc'.symm.trans hc
    rfl

/-- A step advances a course by the submission that it accepts on it, if it accepts one. -/
theorem Effect.course_advances (he : b.Effect now action reply) {r : CourseRecord}
    (hr : b.course? id = some r) :
    ∃ r', reply.board.course? id = some r' ∧
      r.AdvancesTo (accepted? id ((now, action), reply)).toList r' := by
  obtain ⟨c, hc, rfl⟩ := exists_find?_of_course? hr
  cases he.courseStep id with
  | kept hscore hfind =>
    rw [accepted?_of_score? hscore]
    exact ⟨_, course?_of_find? (hfind.trans hc), .refl _⟩
  | added _ _ _ hfree _ =>
    rw [hfree] at hc
    cases hc
  | replaced haction _ _ hc' hfind =>
    cases hc'.symm.trans hc
    subst haction
    exact ⟨_, course?_of_find? hfind, (CourseRecord.AdvancesTo.refl _).withAllowed _⟩
  | credited hnames hanswer hc' hfind =>
    cases hc'.symm.trans hc
    rw [accepted?_of_ok hnames hanswer]
    exact ⟨_, course?_of_find? hfind,
      CourseRecord.advancesTo_credit (he.titleChanged_eq hnames hanswer hc)⟩

/-- **One step moves every entry its one way.** -/
theorem Effect.advancesTo (he : b.Effect now action reply) :
    b.AdvancesTo (fun id => (accepted? id ((now, action), reply)).toList) reply.board where
  course id r := he.course_advances
  par id player p hp := by
    rcases he.personalBest?_cases id player with hkept | ⟨s, -, -, -, hfind⟩
    · exact ⟨p, hkept.trans hp, .refl p⟩
    · have hnext : b.pars.next id player s.cost now = p.credit s.cost now := by
        rw [Pars.next, show b.pars.find? id player = some p from hp]
      exact ⟨_, hfind, hnext ▸ p.advancesTo_credit s.cost now⟩
  commitment key c hc := by
    cases he.commitmentStep key with
    | kept hfind => exact ⟨c, hfind.trans hc, .refl c⟩
    | made _ _ hfree _ =>
      rw [hfree] at hc
      cases hc
    | marked _ _ hc' hfind =>
      cases hc'.symm.trans hc
      exact ⟨_, hfind, c.advancesTo_revealed now⟩

/-- A run moves every entry its one way. -/
theorem advancesTo_after (b : Board) (actions : List (Time × Action)) :
    b.AdvancesTo (fun id => b.accepted id actions) (b.after actions) := by
  induction actions using List.reverseRecOn with
  | nil => exact .refl b
  | append_singleton actions x ih =>
    obtain ⟨now, action⟩ := x
    rw [after_concat]
    simp only [accepted, filterMap_log_concat]
    exact ih.trans (effect_step _ now action).advancesTo

/-- **Scores and commitments move one way.** From every board, however it came to be, at every point
of every run, with any times: a step takes no course, no par and no commitment away, and moves each
of them only as `AdvancesTo` says, a course by the one submission that the step accepts on it, if it
accepts one; and so does every further run, by the submissions that it accepts on each course. -/
theorem scores_move_one_way (b : Board) (before : List (Time × Action)) :
    (∀ now action,
      (b.after before).AdvancesTo
        (fun id => (accepted? id ((now, action), (b.after before).step now action)).toList)
        ((b.after before).step now action).board) ∧
    ∀ later, (b.after before).AdvancesTo (fun id => (b.after before).accepted id later)
      (b.after (before ++ later)) := by
  refine ⟨fun now action => (effect_step _ now action).advancesTo, fun later => ?_⟩
  rw [after_append]
  exact advancesTo_after _ later

/-- A board out of a snapshot whose tables have little to do with each other: a title without a par,
a par below the leading cost, and a commitment that was revealed. The clock goes back during the
run, and only the second submission moves the title. -/
theorem scores_move_one_way_of_restored :
    let record : CourseRecord :=
      { CourseRecord.fresh ⟨1⟩ "shortest" .full 0 with
        leadingCost := 3, titleHolder := some Sample.alice, solutionCount := 5, titleChanges := 2 }
    let b : Board :=
      { new {} (.owner Sample.root) with
        registry := ⟨.ofList [⟨record, Sample.shortest⟩], ⟨2⟩⟩
        pars := ⟨.ofList [⟨⟨1⟩, Sample.bob, 2, 4, 1, 8⟩]⟩
        ledger := .ofList [(7, ⟨Sample.alice, 1, some 5⟩)] 60 true }
    let run : List (Time × Action) :=
      [(4, .submit Sample.bob ⟨1⟩ [1, 2, 3] none), (2, .submit Sample.alice ⟨1⟩ [1] none)]
    restore {} (.owner Sample.root) (b.snapshot 9) (fun _ => some Sample.shortest) = .ok b ∧
    (b.accepted ⟨1⟩ run).map Submission.titleChanged = [false, true] ∧
    (∃ r', (b.after run).course? ⟨1⟩ = some r' ∧ r'.titleHolder ≠ none ∧ r'.leadingCost < 3 ∧
      r'.solutionCount.toNat = 7 ∧ r'.titleChanges.toNat = 3) ∧
    (∃ p', (b.after run).personalBest? ⟨1⟩ Sample.bob = some p' ∧ p'.createdAt = 1 ∧
      p'.bestCost ≤ 2) ∧
    ∃ c', (b.after run).commitment? 7 = some c' ∧ c'.player = Sample.alice ∧
      c'.revealedAt = some 5 := by
  intro record b run
  have hmoved : (b.accepted ⟨1⟩ run).map Submission.titleChanged = [false, true] := by
    decide +kernel
  have hadvances : b.AdvancesTo (fun id => b.accepted id run) (b.after run) :=
    (scores_move_one_way b []).2 run
  obtain ⟨r', hr', hcourse⟩ := hadvances.course ⟨1⟩ record rfl
  obtain ⟨p', hp', hpar⟩ := hadvances.par ⟨1⟩ Sample.bob ⟨⟨1⟩, Sample.bob, 2, 4, 1, 8⟩ rfl
  obtain ⟨c', hc', hcommitment⟩ := hadvances.commitment 7 ⟨Sample.alice, 1, some 5⟩ rfl
  have htitled : record.titleHolder ≠ none := Option.some_ne_none _
  have hsome : ∃ s ∈ b.accepted ⟨1⟩ run, s.titleChanged = true := by
    refine List.mem_map.mp ?_
    rw [hmoved]
    decide
  have hlength : (b.accepted ⟨1⟩ run).length = 2 := by
    simpa using congrArg List.length hmoved
  have hchanges : (b.accepted ⟨1⟩ run).countP Submission.titleChanged = 1 := by
    have hcount := congrArg (List.countP id) hmoved
    rwa [List.countP_map] at hcount
  have hsolutions := hcourse.solutionCount
  have htitles := hcourse.titleChanges
  rw [hlength] at hsolutions
  rw [hchanges] at htitles
  exact ⟨rfl, hmoved, ⟨r', hr', hcourse.titled htitled,
    (hcourse.leadingCost_lt_iff htitled).mpr hsome, hsolutions (by decide), htitles (by decide)⟩,
    ⟨p', hp', hpar.createdAt, hpar.bestCost_le⟩,
    ⟨c', hc', hcommitment.player, hcommitment.revealedAt 5 rfl⟩⟩

end Board

end CodeGolf
