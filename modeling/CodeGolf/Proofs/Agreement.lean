import CodeGolf.Proofs.Reachable
import CodeGolf.Proofs.Standings

/-!
# Titles agree with pars

The title of a course and the pars on it are kept in two tables, and each has a comparison of its
own: a record gives the title away to a lower cost, and a par is improved by one. They agree
(`Board.Agrees`) if the pars on a course count as many submissions together as the course counts
solutions, if a course has a title holder exactly if it has pars, and if the holder's par is at the
leading cost and no par is below it.

Nothing is assumed here about how a board came to be. `CourseRecord.AgreesWith.credit` is the one
case with an argument: a cost that takes the title undercuts every par on the course
(`CourseRecord.AgreesWith.lt_bestCost`), so the recipient's par is at that cost afterwards, and a
cost that does not take it leaves the holder's par as it is. `Board.tables_agree` says that a new
board agrees, that every operation keeps a board in agreement, whatever board it is, and that a
title never moves without a par that is created or improved.
-/

namespace CodeGolf

/-! ## A record and the pars -/

namespace CourseRecord

/-- The title and the counter of a record agree with the pars on its course. -/
structure AgreesWith (r : CourseRecord) (pars : Pars) : Prop where
  count : pars.submissionsOn r.id = r.solutionCount.toNat
  untitled : r.titleHolder = none ↔ pars.standings r.id = []
  unplayed : pars.standings r.id = [] ↔ r.solutionCount = 0
  held : ∀ holder, r.titleHolder = some holder →
    ∃ p, pars.find? r.id holder = some p ∧ p.bestCost = r.leadingCost
  lowest : r.titleHolder ≠ none → ∀ p ∈ pars.standings r.id, r.leadingCost ≤ p.bestCost

variable {r : CourseRecord} {pars : Pars} {p : Par} {cost : Cost}

/-- The record of a new course agrees with pars on other courses. -/
theorem agreesWith_fresh {id : CourseId} (hnone : pars.standings id = []) (name : String)
    (allowed : OpcodeSet) (now : Time) : (fresh id name allowed now).AgreesWith pars where
  count := by
    show pars.submissionsOn id = 0
    rw [Pars.submissionsOn, hnone]
    rfl
  untitled := iff_of_true rfl hnone
  unplayed := iff_of_true hnone rfl
  held := nofun
  lowest h := absurd rfl h

/-- The allow-list has no part in the agreement. -/
theorem AgreesWith.withAllowed (h : r.AgreesWith pars) (allowed : OpcodeSet) :
    ({ r with allowed } : CourseRecord).AgreesWith pars :=
  ⟨h.count, h.untitled, h.unplayed, h.held, h.lowest⟩

/-- A course with a par has a title holder, and the par is not below the leading cost. -/
theorem AgreesWith.leadingCost_le (h : r.AgreesWith pars) (hp : p ∈ pars.standings r.id) :
    r.titleHolder ≠ none ∧ r.leadingCost ≤ p.bestCost := by
  have hheld : r.titleHolder ≠ none := fun hnone => by
    rw [h.untitled.mp hnone] at hp
    cases hp
  exact ⟨hheld, h.lowest hheld p hp⟩

/-- **A cost that takes the title undercuts every par on the course.** -/
theorem AgreesWith.lt_bestCost (h : r.AgreesWith pars) (htakes : r.title.yieldsTo cost = true)
    (hp : p ∈ pars.standings r.id) : cost < p.bestCost := by
  obtain ⟨hheld, hle⟩ := h.leadingCost_le hp
  rcases yieldsTo_iff.mp htakes with hnone | hlt
  · exact absurd hnone hheld
  · exact UInt64.lt_of_lt_of_le hlt hle

/-- A recipient who takes the title has a par at its cost. -/
theorem AgreesWith.bestCost_next_eq (h : r.AgreesWith pars)
    (htakes : r.title.yieldsTo cost = true) (recipient : Player) (now : Time) :
    (pars.next r.id recipient cost now).bestCost = cost := by
  rw [Pars.bestCost_next]
  cases hp : pars.find? r.id recipient with
  | none => rfl
  | some p => exact if_pos (h.lt_bestCost htakes (Pars.mem_standings_of_find? hp))

/-- A recipient who does not take the title has no par below the leading cost. -/
theorem AgreesWith.leadingCost_le_next (h : r.AgreesWith pars)
    (hkeeps : ¬r.title.yieldsTo cost = true) (recipient : Player) (now : Time) :
    r.leadingCost ≤ (pars.next r.id recipient cost now).bestCost := by
  have hcost : r.leadingCost ≤ cost :=
    UInt64.not_lt.mp fun hlt => hkeeps (yieldsTo_iff.mpr (.inr hlt))
  rw [Pars.bestCost_next]
  cases hp : pars.find? r.id recipient with
  | none => exact hcost
  | some p =>
    show r.leadingCost ≤ if cost < p.bestCost then cost else p.bestCost
    split
    · exact hcost
    · exact (h.leadingCost_le (Pars.mem_standings_of_find? hp)).2

/-- The par of the holder stays at the leading cost if the title stays. -/
theorem AgreesWith.held_next (h : r.AgreesWith pars) (hkeeps : ¬r.title.yieldsTo cost = true)
    {holder : Player} (hholder : r.titleHolder = some holder) (now : Time) :
    (pars.next r.id holder cost now).bestCost = r.leadingCost := by
  obtain ⟨p, hp, hbest⟩ := h.held holder hholder
  rw [Pars.bestCost_next, hp, ← hbest]
  exact if_neg fun hlt => hkeeps (yieldsTo_iff.mpr (.inr (hbest ▸ hlt)))

/-- **Crediting a solution keeps the agreement**, as long as the solution can be counted. -/
theorem AgreesWith.credit (h : r.AgreesWith pars) (recipient : Player) (cost : Cost) (now : Time)
    (hcount : r.solutionCount ≤ (r.credit recipient cost).solutionCount) :
    (r.credit recipient cost).AgreesWith (pars.credit r.id recipient cost now).2 := by
  have hrows := pars.standings_credit_perm r.id recipient cost now
  have hrow : ∀ q, q ∈ (pars.credit r.id recipient cost now).2.standings r.id ↔
      q = pars.next r.id recipient cost now ∨ q ∈ pars.standings r.id ∧ q.holder ≠ recipient := by
    intro q
    rw [hrows.mem_iff, List.mem_cons, List.mem_filter, decide_eq_true_iff]
  have hrowsne : (pars.credit r.id recipient cost now).2.standings r.id ≠ [] :=
    List.ne_nil_of_mem ((hrow _).mpr (.inl rfl))
  rw [solutionCount_credit] at hcount
  have hsucc := toNat_succ_of_le hcount
  have hfind := fun holder => pars.find?_credit r.id recipient cost now r.id holder
  constructor
  · have hlt := (r.solutionCount + 1).toNat_lt
    rw [id_credit, solutionCount_credit, hsucc, ← h.count]
    refine Pars.submissionsOn_credit pars r.id recipient cost now ?_
    rw [h.count, ← hsucc]
    exact hlt
  · rw [id_credit, titleHolder_credit]
    refine iff_of_false (fun hnone => ?_) hrowsne
    split at hnone
    · cases hnone
    · next hkeeps => exact titleHolder_ne_none_of_not_yieldsTo hkeeps hnone
  · rw [id_credit, solutionCount_credit]
    refine iff_of_false hrowsne fun hzero => ?_
    rw [hzero] at hsucc
    cases hsucc
  · intro holder hholder
    rw [titleHolder_credit] at hholder
    rw [id_credit, leadingCost_credit, hfind]
    by_cases htakes : r.title.yieldsTo cost = true
    · rw [if_pos htakes, Option.some.injEq] at hholder
      rw [if_pos ⟨rfl, hholder⟩, if_pos htakes]
      exact ⟨_, rfl, h.bestCost_next_eq htakes recipient now⟩
    · rw [if_neg htakes] at hholder
      rw [if_neg htakes]
      by_cases hsame : recipient = holder
      · rw [if_pos ⟨rfl, hsame⟩]
        exact ⟨_, rfl, hsame ▸ h.held_next htakes (hsame ▸ hholder) now⟩
      · rw [if_neg fun hand => hsame hand.2]
        exact h.held holder hholder
  · rw [id_credit, leadingCost_credit]
    intro _ q hq
    by_cases htakes : r.title.yieldsTo cost = true
    · rw [if_pos htakes]
      rcases (hrow q).mp hq with rfl | ⟨hold, -⟩
      · exact UInt64.le_of_eq (h.bestCost_next_eq htakes recipient now).symm
      · exact UInt64.le_of_lt (h.lt_bestCost htakes hold)
    · rw [if_neg htakes]
      rcases (hrow q).mp hq with rfl | ⟨hold, -⟩
      · exact h.leadingCost_le_next htakes recipient now
      · exact (h.leadingCost_le hold).2

/-- A submission on another course does not touch the agreement. -/
theorem AgreesWith.credit_of_ne (h : r.AgreesWith pars) {other : CourseId} (hne : other ≠ r.id)
    (recipient : Player) (cost : Cost) (now : Time) :
    r.AgreesWith (pars.credit other recipient cost now).2 := by
  have hrows := Pars.standings_credit_of_ne hne pars recipient cost now
  refine ⟨?_, ?_, ?_, fun holder hholder => ?_, ?_⟩
  · rw [Pars.submissionsOn, hrows]
    exact h.count
  · rw [hrows]
    exact h.untitled
  · rw [hrows]
    exact h.unplayed
  · rw [Pars.find?_credit, if_neg fun hand => hne hand.1]
    exact h.held holder hholder
  · rw [hrows]
    exact h.lowest

/-- **A title does not move without a par.** The recipient had none on the course, or a higher
one. -/
theorem AgreesWith.credit_fst (h : r.AgreesWith pars) (htakes : r.title.yieldsTo cost = true)
    (recipient : Player) (now : Time) :
    (pars.credit r.id recipient cost now).1 = .created ∨
      ∃ previous, (pars.credit r.id recipient cost now).1 = .improved previous ∧
        cost < previous := by
  rw [Pars.credit]
  cases hp : pars.find? r.id recipient with
  | none => exact .inl rfl
  | some p =>
    have hlt := h.lt_bestCost htakes (Pars.mem_standings_of_find? hp)
    exact .inr ⟨p.bestCost, if_pos hlt, hlt⟩

end CourseRecord

/-! ## A board and its tables -/

namespace Board

/-- The two tables of a board agree: all pars are on courses that the board has, and each course
agrees with the pars on it. -/
structure Agrees (b : Board) : Prop where
  ranked : b.pars.RankedOn b.registry
  record : ∀ id r, b.course? id = some r → r.AgreesWith b.pars

/-- The tables of a new board are empty and agree. -/
theorem agrees_new (config : Config) (admin : AdminPolicy) : (new config admin).Agrees where
  ranked := Pars.rankedOn_empty
  record := nofun

variable {b : Board}

/-- Writing a record that agrees with the pars keeps a board in agreement. -/
theorem Agrees.insert (hb : b.Agrees) (next : CourseId) (c : RegisteredCourse)
    (hc : c.record.AgreesWith b.pars) :
    Agrees { b with registry := { b.registry with nextId := next }.insert c } where
  ranked := hb.ranked.insert next c
  record id r hr := by
    rw [course?, Registry.record?, Registry.find?_insert] at hr
    split at hr
    · cases hr
      exact hc
    · exact hb.record id r hr

/-- No par is on a course whose id is free. -/
theorem Agrees.standings_eq_nil (hb : b.Agrees) {id : CourseId}
    (hfree : b.registry.find? id = none) : b.pars.standings id = [] := by
  refine List.eq_nil_iff_forall_not_mem.mpr fun p hp => ?_
  have hcontains := hb.ranked id p.holder p (Pars.mem_standings.mp hp).2
  rw [Registry.contains_eq_isSome, hfree] at hcontains
  cases hcontains

/-- The record of a course that is found agrees with the pars. -/
theorem Agrees.of_find? (hb : b.Agrees) {id : CourseId} {c : RegisteredCourse}
    (hc : b.registry.find? id = some c) : c.record.AgreesWith b.pars :=
  hb.record id _ (course?_of_find? hc)

/-- Counting an accepted solution keeps a board in agreement, as long as it can be counted. -/
theorem Agrees.credited (hb : b.Agrees) {id : CourseId} {c : RegisteredCourse}
    (hc : b.registry.find? id = some c) (recipient : Player) (cost : Cost) (now : Time)
    (hcount : c.record.solutionCount ≤ (c.record.credit recipient cost).solutionCount) :
    (b.credited id recipient cost now).Agrees := by
  have hid : c.record.id = id := Registry.id_of_find? hc
  have hcredited := Registry.credited_eq_insert hc recipient cost
  constructor
  · show (b.pars.credit id recipient cost now).2.RankedOn (b.registry.credited id recipient cost)
    rw [hcredited]
    refine (hb.ranked.insert b.registry.nextId _).credit ?_ recipient cost now
    exact (Registry.contains_insert ..).mpr (.inl (by rw [CourseRecord.id_credit, hid]))
  · intro id' r hr
    rw [course?, Board.credited, hcredited, Registry.record?, Registry.find?_insert,
      CourseRecord.id_credit, hid] at hr
    split at hr
    · cases hr
      exact hid ▸ (hb.of_find? hc).credit recipient cost now hcount
    · next hne =>
      obtain ⟨c', hc', rfl⟩ := Option.map_eq_some_iff.mp hr
      have hne' : id ≠ c'.record.id := fun heq => hne (heq.trans (Registry.id_of_find? hc'))
      exact (hb.of_find? hc').credit_of_ne hne' recipient cost now

variable {now : Time} {action : Action} {reply : Reply}

/-- **One step keeps the tables in agreement**, as long as the counters do not overflow. -/
theorem Effect.agrees (he : b.Effect now action reply) (hb : b.Agrees)
    (hcounts : b.Counts reply) : reply.board.Agrees := by
  cases he with
  | refused => exact hb
  | courseAdded hadmin hname hnext hfree =>
    exact hb.insert _ _ (CourseRecord.agreesWith_fresh (hb.standings_eq_nil hfree) ..)
  | allowListReplaced hadmin hc => exact hb.insert _ _ ((hb.of_find? hc).withAllowed _)
  | validatorReplaced | committed => exact ⟨hb.ranked, hb.record⟩
  | submitted hc hj => exact hb.credited hc _ _ now (hcounts.credited hc rfl)
  | revealed hk he hc hj =>
    have hcredited := hb.credited hc _ _ now (hcounts.credited hc rfl)
    exact ⟨hcredited.ranked, hcredited.record⟩

/-- A step that moves a title creates or improves the par of the recipient. -/
theorem Effect.par_of_titleChanged (he : b.Effect now action reply) (hb : b.Agrees)
    {s : Submission} (hs : reply.answer = .ok (.submission s)) (hmoved : s.titleChanged = true) :
    s.par = .created ∨ ∃ previous, s.par = .improved previous ∧ s.cost < previous := by
  cases he with
  | refused | courseAdded | allowListReplaced | validatorReplaced | committed => cases hs
  | @submitted _ _ _ recipient cost c hc | @revealed _ _ _ _ recipient _ _ cost c _ _ hc =>
    cases hs
    have hpar := (hb.of_find? hc).credit_fst hmoved
    rw [Registry.id_of_find? hc] at hpar
    exact hpar _ now

/-- **A run keeps the tables in agreement**, as long as no counter overflows in any of its steps. -/
theorem Agrees.after (hb : b.Agrees) {actions : List (Time × Action)}
    (hcounts : ∀ first now action, first ++ [(now, action)] <+: actions →
      (b.after first).Counts ((b.after first).step now action)) :
    (b.after actions).Agrees := by
  induction actions using List.reverseRecOn with
  | nil => exact hb
  | append_singleton actions x ih =>
    obtain ⟨now, action⟩ := x
    rw [after_concat]
    refine (effect_step _ now action).agrees (ih fun first now action hfirst => ?_) ?_
    · exact hcounts first now action (hfirst.trans (List.prefix_append ..))
    · exact hcounts actions now action List.prefix_rfl

/-- **Titles and pars agree.** A new board agrees. And whatever board agrees, however it came to be,
stays in agreement when a validator or a deployer is installed, after every operation and after
every run, as long as no counter of solutions starts again at zero; and an operation that moves a
title creates the par of the recipient, or improves it on a higher cost. -/
theorem tables_agree :
    (∀ config admin, (new config admin).Agrees) ∧
    ∀ b : Board, b.Agrees →
      (∀ validator, (b.withValidator validator).Agrees) ∧
      (∀ deployer, (b.withDeployer deployer).Agrees) ∧
      (∀ now action, b.Counts (b.step now action) → (b.step now action).board.Agrees) ∧
      (∀ actions : List (Time × Action),
        (∀ first now action, first ++ [(now, action)] <+: actions →
          (b.after first).Counts ((b.after first).step now action)) →
        (b.after actions).Agrees) ∧
      ∀ now action s, (b.step now action).answer = .ok (.submission s) → s.titleChanged = true →
        s.par = .created ∨ ∃ previous, s.par = .improved previous ∧ s.cost < previous := by
  refine ⟨agrees_new, fun b hb => ⟨fun _ => ⟨hb.ranked, hb.record⟩, fun _ => ⟨hb.ranked, hb.record⟩,
    fun now action hcounts => ?_, fun actions hcounts => hb.after hcounts,
    fun now action s hs hmoved => ?_⟩⟩
  · exact (effect_step b now action).agrees hb hcounts
  · exact (effect_step b now action).par_of_titleChanged hb hs hmoved

/-- A board that was put together from a snapshot, with a title and two pars that no operation of
its own wrote. A cost below the leading one takes the title and improves the higher par. -/
theorem tables_agree_of_restored :
    let record : CourseRecord :=
      { CourseRecord.fresh ⟨1⟩ "shortest" .full 0 with
        leadingCost := 3, titleHolder := some Sample.alice, solutionCount := 5, titleChanges := 2 }
    let b : Board :=
      { new {} (.owner Sample.root) with
        registry := ⟨.ofList [⟨record, Sample.shortest⟩], ⟨2⟩⟩
        pars := ⟨.ofList [⟨⟨1⟩, Sample.alice, 3, 4, 1, 1⟩, ⟨⟨1⟩, Sample.bob, 7, 1, 2, 2⟩]⟩ }
    let action : Action := .submit Sample.bob ⟨1⟩ [1, 2] none
    restore {} (.owner Sample.root) (b.snapshot 9) (fun _ => some Sample.shortest) = .ok b ∧
    b.Agrees ∧ (b.step 10 action).board.Agrees ∧
    ∃ s, (b.step 10 action).answer = .ok (.submission s) ∧ s.titleChanged = true ∧
      (s.par = .created ∨ ∃ previous, s.par = .improved previous ∧ s.cost < previous) := by
  intro record b action
  have hrestored : restore {} (.owner Sample.root) (b.snapshot 9) (fun _ => some Sample.shortest) =
      .ok b := rfl
  have hrows : b.pars.standings record.id =
      [⟨⟨1⟩, Sample.alice, 3, 4, 1, 1⟩, ⟨⟨1⟩, Sample.bob, 7, 1, 2, 2⟩] :=
    Pars.standings_eq_of_pairwise rfl (by decide)
  have hrecord : record.AgreesWith b.pars := by
    refine ⟨by rw [Pars.submissionsOn, hrows]; rfl, ?_, ?_, fun holder hholder => ?_, fun _ => ?_⟩
    · rw [hrows]
      exact iff_of_false (Option.some_ne_none _) (List.cons_ne_nil _ _)
    · rw [hrows]
      exact iff_of_false (List.cons_ne_nil _ _) (by decide)
    · cases hholder
      exact ⟨⟨⟨1⟩, Sample.alice, 3, 4, 1, 1⟩, by decide, rfl⟩
    · rw [hrows]
      decide
  have honly : ∀ id c, b.registry.find? id = some c → c = ⟨record, Sample.shortest⟩ :=
    fun id c hc => Registry.eq_of_find?_of_toList_eq hc rfl
  have hagrees : b.Agrees := by
    refine ⟨(coherent_of_restore hrestored).ranked, fun id r hr => ?_⟩
    obtain ⟨c, hc, rfl⟩ := Option.map_eq_some_iff.mp hr
    rw [honly id c hc]
    exact hrecord
  have hcounts : b.Counts (b.step 10 action) := by
    intro id r r' hr hr'
    obtain ⟨c, hc, rfl⟩ := Option.map_eq_some_iff.mp hr
    have hid := Registry.id_of_find? hc
    rw [honly id c hc] at hid ⊢
    have hcount : ((b.step 10 action).board.course? ⟨1⟩).map CourseRecord.solutionCount = some 6 :=
      by decide +kernel
    rw [show (⟨1⟩ : CourseId) = id from hid, hr', Option.map_some, Option.some.injEq] at hcount
    rw [hcount]
    decide
  obtain ⟨-, -, hstep, -, hpar⟩ := tables_agree.2 b hagrees
  have hj : b.judge Sample.bob ⟨1⟩ [1, 2] 10 = .ok 2 :=
    judge_eq_ok_iff.mpr
      ⟨⟨record, Sample.shortest⟩, _, rfl, rfl, if_pos (by decide +kernel), rfl, rfl⟩
  have hs : (b.step 10 action).answer =
      .ok (.submission (b.submission record Sample.bob Sample.bob ⟨1⟩ 2 10 false)) := by
    rw [step, perform, Play.run_submit_of_cost rfl hj]
    rfl
  exact ⟨hrestored, hagrees, hstep 10 action hcounts, _, hs, rfl, hpar 10 action _ hs rfl⟩

end Board

end CodeGolf
