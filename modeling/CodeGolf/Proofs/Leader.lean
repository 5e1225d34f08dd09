import CodeGolf.Proofs.History
import CodeGolf.Proofs.Standings

/-!
# The first row of the standings

The title of a course goes to the first to reach the lowest cost, in the order in which the
submissions arrive. The standings do not know that order: they go by the time when each par reached
its cost and, if that is the same too, by player. On a clock that does not go back, an earlier
submission has no later time (`History.time_le_of_best`), so the first row is at the leading cost
and of the time when the title was taken (`Board.first_row_of_times`). It is the row of the title
holder unless a player with a lesser key reached the same cost at the same time;
`Board.first_row_of_tie` is a run in which one did.
-/

namespace CodeGolf

/-! ## Times of a history -/

namespace History

variable {h : History} {s e : Score}

/-- In a history whose times do not decrease, no entry of the lowest cost is before the best one. -/
theorem time_le_of_best (htimes : h.Pairwise fun s e => s.time ≤ e.time) (hs : h.best = some s)
    (he : e ∈ h) (hcost : e.cost ≤ s.cost) : s.time ≤ e.time := by
  have hleast : (h.all fun x => e.cost ≤ x.cost) = true := by
    simpa using fun x hx => UInt64.le_trans hcost ((best_spec hs).2 x hx)
  obtain ⟨-, earlier, later, rfl, hearlier⟩ := List.find?_eq_some_iff_append.mp hs
  rcases List.mem_append.mp he with hbefore | hafter
  · -- Such an entry would be the best one itself.
    have hnot := hearlier e hbefore
    rw [hleast] at hnot
    cases hnot
  · rcases List.mem_cons.mp hafter with rfl | hafter
    · exact UInt64.le_refl _
    · exact (List.pairwise_cons.mp (List.pairwise_append.mp htimes).2.1).1 e hafter

end History

/-- An entry is of the time of its operation. -/
theorem time_of_score? {id : CourseId} {now : Time} {action : Action} {reply : Reply} {s : Score}
    (h : score? id ((now, action), reply) = some s) : s.time = now := by
  rw [score?] at h
  split at h
  · obtain ⟨submission, -, rfl⟩ := Option.map_eq_some_iff.mp h
    rfl
  · cases h

/-- The times of a history are among the times of its run, in their order. -/
theorem Board.sublist_times_history (b : Board) (id : CourseId) (actions : List (Time × Action)) :
    List.Sublist ((b.history id actions).map Score.time) (actions.map Prod.fst) := by
  induction actions using List.reverseRecOn with
  | nil => exact .refl _
  | append_singleton actions x ih =>
    obtain ⟨now, action⟩ := x
    rw [history_concat, List.map_append, List.map_append]
    refine ih.append ?_
    cases hscore : score? id ((now, action), (b.after actions).step now action) with
    | none => exact List.nil_sublist _
    | some s =>
      rw [Option.toList_some, List.map_singleton, time_of_score? hscore]
      exact .refl _

/-! ## Rows and entries -/

namespace Board

variable {b : Board} {id : CourseId} {h : History} {player : Player} {p : Par}

/-- The cost and the time of a par are those of an entry of its player. -/
theorem Tallies.exists_entry (hb : b.Tallies id h) (hp : b.pars.find? id player = some p) :
    ∃ e ∈ h, e.recipient = player ∧ e.cost = p.bestCost ∧ e.time = p.bestAt := by
  have hpar := hb.par hp
  obtain ⟨e, hbest, hcost⟩ := Option.map_eq_some_iff.mp hpar.cost
  have hreached := hpar.reached
  rw [hbest] at hreached
  obtain ⟨hmem, hrecipient⟩ := List.mem_filter.mp (History.best_spec hbest).1
  exact ⟨e, hmem, of_decide_eq_true hrecipient, hcost, Option.some.inj hreached⟩

/-- A player who reaches the lowest cost at the time of the best entry has a par of that cost and
that time. -/
theorem Tallies.exists_par (hb : b.Tallies id h) (htimes : h.Pairwise fun s e => s.time ≤ e.time)
    {s e : Score} (hs : h.best = some s) (he : e ∈ h) (hcost : e.cost = s.cost)
    (htime : e.time = s.time) :
    ∃ p, b.pars.find? id e.recipient = some p ∧ p.bestCost = s.cost ∧ p.bestAt = s.time := by
  have hown : e ∈ h.of e.recipient := List.mem_filter.mpr ⟨he, decide_eq_true rfl⟩
  cases hp : b.pars.find? id e.recipient with
  | none =>
    rw [hb.unranked hp] at hown
    cases hown
  | some p =>
    have hpar := hb.par hp
    obtain ⟨x, hx, hxcost⟩ := Option.map_eq_some_iff.mp hpar.cost
    have hreached := hpar.reached
    rw [hx] at hreached
    have hxtime : x.time = p.bestAt := Option.some.inj hreached
    obtain ⟨hxown, hxleast⟩ := History.best_spec hx
    have hxh : x ∈ h := (List.mem_filter.mp hxown).1
    have hle : x.cost ≤ s.cost := hcost ▸ hxleast e hown
    -- The player's own best entry is not after `e`, and the best entry of all is not after it.
    have hbefore := History.time_le_of_best (htimes.filter _) hx hown
      (hcost ▸ (History.best_spec hs).2 x hxh)
    have hafter := History.time_le_of_best htimes hs hxh hle
    refine ⟨p, rfl, ?_, ?_⟩
    · rw [← hxcost]
      exact UInt64.le_antisymm hle ((History.best_spec hs).2 x hxh)
    · rw [← hxtime]
      exact UInt64.le_antisymm (htime ▸ hbefore) hafter

/-- **The first row** is of the lowest cost and of the time of the best entry, and of those who
reached this cost at this time it is the player with the least key. -/
theorem Tallies.first_row (hb : b.Tallies id h) (htimes : h.Pairwise fun s e => s.time ≤ e.time)
    {s : Score} (hs : h.best = some s) :
    ∃ first, (b.standings id).head? = some first ∧ first.bestCost = s.cost ∧
      first.bestAt = s.time ∧
      (∃ e ∈ h, e.recipient = first.holder ∧ e.cost = s.cost ∧ e.time = s.time) ∧
      ∀ e ∈ h, e.cost = s.cost → e.time = s.time → first.holder.key ≤ e.recipient.key := by
  have hmem := (History.best_spec hs).1
  have hleast := (History.best_spec hs).2
  obtain ⟨own, hown, howncost, howntime⟩ := hb.exists_par htimes hs hmem rfl rfl
  cases hfirst : (b.standings id).head? with
  | none =>
    have hrow := Pars.mem_standings_of_find? hown
    rw [← standings, List.head?_eq_none_iff.mp hfirst] at hrow
    cases hrow
  | some first =>
    obtain ⟨hrow, hbefore⟩ := Pars.head?_standings_eq_some_iff.mp hfirst
    obtain ⟨x, hx, hholder, hxcost, hxtime⟩ := hb.exists_entry (Pars.mem_standings.mp hrow).2
    -- The first row is not behind the row of the holder, and no row can be before that.
    have hle := Par.standing_le_iff.mp (hbefore own (Pars.mem_standings_of_find? hown))
    have hcost : first.bestCost = s.cost := by
      rcases hle with hlt | ⟨heq, -⟩
      · refine absurd (hleast x hx) (UInt64.not_le.mpr ?_)
        rwa [hxcost, ← howncost]
      · exact heq.trans howncost
    have htime : first.bestAt = s.time := by
      have hafter := History.time_le_of_best htimes hs hx
        (UInt64.le_of_eq (hxcost.trans hcost))
      rw [hxtime] at hafter
      rcases hle with hlt | ⟨-, hlt | ⟨heq, -⟩⟩
      · exact absurd (hcost.trans howncost.symm) (UInt64.ne_of_lt hlt)
      · exact absurd hafter (UInt64.not_le.mpr (howntime ▸ hlt))
      · exact heq.trans howntime
    refine ⟨first, rfl, hcost, htime, ⟨x, hx, hholder, hxcost.trans hcost, hxtime.trans htime⟩,
      fun e he hecost hetime => ?_⟩
    obtain ⟨p, hp, hpcost, hptime⟩ := hb.exists_par htimes hs he hecost hetime
    have hle := Par.standing_le_iff.mp (hbefore p (Pars.mem_standings_of_find? hp))
    rw [hcost, hpcost, htime, hptime, (Pars.key_of_find? hp).2] at hle
    rcases hle with hlt | ⟨-, hlt | ⟨-, hkey⟩⟩
    · exact absurd hlt (UInt64.lt_irrefl _)
    · exact absurd hlt (UInt64.lt_irrefl _)
    · exact hkey

/-- **The leader and the title holder.** In every run of an opened board whose times do not
decrease, the first row of a course with an accepted submission is at the leading cost, and its time
is that of the entry that took the title. Of the players who reached the leading cost at that time
it shows the one with the least key, so it shows the title holder exactly if nobody with a lesser
key did so. -/
theorem first_row_of_times (config : Config) (admin : AdminPolicy) (validator : Validator)
    (deployer : Deployer) (id : CourseId) (actions : List (Time × Action))
    (htimes : (actions.map Prod.fst).Pairwise (· ≤ ·))
    (hplayed : (opened config admin validator deployer).history id actions ≠ []) :
    let b := (opened config admin validator deployer).after actions
    let h := (opened config admin validator deployer).history id actions
    ∃ r s first, b.course? id = some r ∧ h.best = some s ∧
      b.titleHolder? id = some s.recipient ∧ r.leadingCost = s.cost ∧
      (b.standings id).head? = some first ∧ first.bestCost = r.leadingCost ∧
      first.bestAt = s.time ∧
      (∃ e ∈ h, e.recipient = first.holder ∧ e.cost = s.cost ∧ e.time = s.time) ∧
      (∀ e ∈ h, e.cost = s.cost → e.time = s.time → first.holder.key ≤ e.recipient.key) ∧
      (b.titleHolder? id = some first.holder ↔
        ∀ e ∈ h, e.cost = s.cost → e.time = s.time → s.recipient.key ≤ e.recipient.key) := by
  intro b h
  have htally : b.Tallies id h := tallies_history config admin validator deployer id actions
  have hordered : h.Pairwise fun s e => s.time ≤ e.time :=
    List.pairwise_map.mp (htimes.sublist (sublist_times_history _ id actions))
  obtain ⟨s, hs⟩ := Option.isSome_iff_exists.mp (History.isSome_best hplayed)
  obtain ⟨first, hfirst, hcost, htime, hamong, hleast⟩ := htally.first_row hordered hs
  cases hc : b.registry.find? id with
  | none => exact absurd (htally.absent hc) hplayed
  | some c =>
    have hrecord := htally.record hc
    have hcourse : b.course? id = some c.record := course?_of_find? hc
    have hholder : b.titleHolder? id = some s.recipient := by
      show (b.course? id).bind CourseRecord.titleHolder = _
      rw [hcourse, Option.bind_some, hrecord.holder, hs, Option.map_some]
    have hleading : c.record.leadingCost = s.cost := by
      rw [hrecord.cost, hs]
      rfl
    refine ⟨c.record, s, first, hcourse, hs, hholder, hleading, hfirst, hcost.trans hleading.symm,
      htime, hamong, hleast, ?_⟩
    rw [hholder, Option.some.injEq]
    constructor
    · rintro heq e he hecost hetime
      rw [heq]
      exact hleast e he hecost hetime
    · intro hkeys
      obtain ⟨e, he, hrecipient, hecost, hetime⟩ := hamong
      have hbelow := hkeys e he hecost hetime
      rw [hrecipient] at hbelow
      have hkey := BitVec.le_antisymm hbelow (hleast s (History.best_spec hs).1 rfl rfl)
      exact congrArg Player.mk hkey

/-- The one who reached the leading cost first is the title holder and has the first row, though the
other one has the lesser key. -/
theorem first_row_of_times_of_later :
    let actions : List (Time × Action) :=
      [(0, .addCourse Sample.root Sample.shortest .full), (4, .submit Sample.bob ⟨1⟩ [1, 2] none),
        (5, .submit Sample.alice ⟨1⟩ [7, 8] none)]
    (Sample.board.after actions).titleHolder? ⟨1⟩ = some Sample.bob ∧
    ∃ first, ((Sample.board.after actions).standings ⟨1⟩).head? = some first ∧
      first.holder = Sample.bob ∧ first.bestAt = 4 := by
  intro actions
  have hh : Sample.board.history ⟨1⟩ actions =
      [⟨Sample.bob, 2, 4⟩, ⟨Sample.alice, 2, 5⟩] := by decide
  have hplayed : Sample.board.history ⟨1⟩ actions ≠ [] := by decide
  have hboard : opened {} (.owner Sample.root) ⟨"any", fun _ code => .valid code.length⟩
      .standard = Sample.board := rfl
  obtain ⟨r, s, first, -, hs, hholder, -, hfirst, -, htime, -, -, hsame⟩ :=
    first_row_of_times _ _ _ _ ⟨1⟩ actions (by decide) hplayed
  simp only [hboard, hh] at hs hholder hfirst hsame
  obtain rfl : ⟨Sample.bob, 2, 4⟩ = s := Option.some.inj ((by decide : _ = _).trans hs)
  refine ⟨hholder, first, hfirst, ?_, htime⟩
  have hleader := hsame.mpr (by decide)
  rw [hholder] at hleader
  exact (Option.some.inj hleader).symm

/-- Two players reach the leading cost at the same time. The first to do so is the title holder, and
the first row is that of the other one, whose key is the lesser. -/
theorem first_row_of_tie :
    let actions : List (Time × Action) :=
      [(0, .addCourse Sample.root Sample.shortest .full), (5, .submit Sample.bob ⟨1⟩ [1] none),
        (5, .submit Sample.alice ⟨1⟩ [2] none)]
    (actions.map Prod.fst).Pairwise (· ≤ ·) ∧ Sample.board.history ⟨1⟩ actions ≠ [] ∧
    (Sample.board.after actions).titleHolder? ⟨1⟩ = some Sample.bob ∧
    ((Sample.board.after actions).standings ⟨1⟩).head?.map Par.holder = some Sample.alice ∧
    ((Sample.board.after actions).standings ⟨1⟩).head?.map Par.holder ≠
      (Sample.board.after actions).titleHolder? ⟨1⟩ := by
  intro actions
  have hrows : (Sample.board.after actions).standings ⟨1⟩ =
      [⟨⟨1⟩, Sample.alice, 1, 1, 5, 5⟩, ⟨⟨1⟩, Sample.bob, 1, 1, 5, 5⟩] :=
    Pars.standings_eq_of_pairwise (by decide) (by decide)
  refine ⟨by decide, by decide, by decide, ?_, ?_⟩
  · rw [hrows]
    rfl
  · rw [hrows]
    decide

end Board

end CodeGolf
