import Mathlib.Data.List.Induction
import CodeGolf.Proofs.Run

/-!
# Histories of a course

What was accepted on a course, in order, is its history: who was credited, at which cost, and
when. A history is read off the log of a run (`Board.history`), and what it comes to is said of
it as a whole: the earliest of its cheapest entries (`History.best`), and the number of entries
that are cheaper than everything before them (`History.improvements`).

A board keeps none of this. It updates a record and a par at each accepted submission, in two
tables, with comparisons of their own. `Board.tables_of_history` says that the two agree after
every run: the record of a course and its pars are what its history comes to. The proof carries
`Board.Tallies` along the run. A step adds at most one entry to the history, so all that is left
are the equations for one more entry (`History.best_concat`, `History.improvements_concat`)
beside those for one more credit.
-/

namespace CodeGolf

/-- What an accepted submission is worth: whom it credits, at which cost, and when. -/
structure Score where
  recipient : Player
  cost : Cost
  time : Time
  deriving DecidableEq

/-- The accepted submissions on a course, in order. -/
abbrev History := List Score

/-! ## What a history comes to -/

namespace History

/-- The earliest of the entries that no entry undercuts. -/
def best (h : History) : Option Score := h.find? fun s => h.all fun e => s.cost ≤ e.cost

/-- The number of entries that are strictly cheaper than every earlier one. -/
def improvements (h : History) : Nat :=
  (List.range h.length).countP fun i => ∀ s ∈ h[i]?, ∀ e ∈ h.take i, s.cost < e.cost

/-- The entries that credit a player. -/
def of (h : History) (player : Player) : History := h.filter fun s => s.recipient = player

@[simp] theorem best_nil : best [] = none := rfl

/-- Not more entries improve than there are. -/
theorem improvements_le_length (h : History) : h.improvements ≤ h.length := by
  have := List.countP_le_length (l := List.range h.length)
    (p := fun i => decide (∀ s ∈ h[i]?, ∀ e ∈ h.take i, s.cost < e.cost))
  rwa [List.length_range] at this

/-- An entry that undercuts all others is the best one. -/
theorem best_concat_of_forall_lt {h : History} {s : Score} (hs : ∀ e ∈ h, s.cost < e.cost) :
    best (h ++ [s]) = some s := by
  have hnone : h.find? (fun x => (h ++ [s]).all fun e => x.cost ≤ e.cost) = none := by
    rw [List.find?_eq_none]
    intro x hx hall
    have hxs : x.cost ≤ s.cost := by simpa using List.all_eq_true.mp hall s (by simp)
    exact UInt64.lt_irrefl _ (UInt64.lt_of_lt_of_le (hs x hx) hxs)
  have hself : ((h ++ [s]).all fun e => s.cost ≤ e.cost) = true := by
    rw [List.all_eq_true]
    intro e he
    rcases List.mem_append.mp he with he | he
    · exact decide_eq_true (UInt64.le_of_lt (hs e he))
    · rw [List.mem_singleton.mp he]
      exact decide_eq_true (UInt64.le_refl _)
  rw [best, List.find?_append, hnone, Option.none_or]
  exact List.find?_cons_of_pos hself

/-- An entry that does not undercut some earlier one changes nothing, as long as there is a best
one already. -/
theorem best_concat_of_le {h : History} {s e : Score} (hbest : h.best.isSome) (he : e ∈ h)
    (hle : e.cost ≤ s.cost) : best (h ++ [s]) = h.best := by
  have hsame : h.find? (fun x => (h ++ [s]).all fun y => x.cost ≤ y.cost) = h.best := by
    rw [best]
    congr 1
    funext x
    rw [List.all_append, Bool.eq_iff_iff, Bool.and_eq_true]
    refine ⟨And.left, fun hall => ⟨hall, ?_⟩⟩
    have hxe : x.cost ≤ e.cost := by simpa using List.all_eq_true.mp hall e he
    simpa using UInt64.le_trans hxe hle
  rw [best, List.find?_append, hsame, Option.or_of_isSome hbest]

/-- A history with entries has a best one. -/
theorem isSome_best {h : History} (hne : h ≠ []) : h.best.isSome := by
  induction h using List.reverseRecOn with
  | nil => exact absurd rfl hne
  | append_singleton h s ih =>
    by_cases hs : ∀ e ∈ h, s.cost < e.cost
    · rw [best_concat_of_forall_lt hs]
      rfl
    · obtain ⟨e, he, hle⟩ : ∃ e ∈ h, e.cost ≤ s.cost := by simpa using hs
      have hbest := ih (List.ne_nil_of_mem he)
      rwa [best_concat_of_le hbest he hle]

/-- One more entry is the new best one exactly if it undercuts everything before it. -/
theorem best_concat (h : History) (s : Score) :
    best (h ++ [s]) = if ∀ e ∈ h, s.cost < e.cost then some s else h.best := by
  split
  · next hs => exact best_concat_of_forall_lt hs
  · next hs =>
    obtain ⟨e, he, hle⟩ : ∃ e ∈ h, e.cost ≤ s.cost := by simpa using hs
    exact best_concat_of_le (isSome_best (List.ne_nil_of_mem he)) he hle

/-- Only the history without entries has no best one. -/
theorem best_eq_none_iff {h : History} : h.best = none ↔ h = [] := by
  refine ⟨fun hn => ?_, fun hn => by rw [hn, best_nil]⟩
  by_contra hne
  have := isSome_best hne
  rw [hn] at this
  cases this

/-- The best entry is one of the entries, and no entry undercuts it. -/
theorem best_spec {h : History} {s : Score} (hs : h.best = some s) :
    s ∈ h ∧ ∀ e ∈ h, s.cost ≤ e.cost := by
  refine ⟨List.mem_of_find?_eq_some hs, fun e he => ?_⟩
  have hall := List.find?_some hs
  simpa using List.all_eq_true.mp hall e he

/-- To undercut all entries is to undercut the best one. -/
theorem forall_lt_iff {h : History} {cost : Cost} :
    (∀ e ∈ h, cost < e.cost) ↔ ∀ s ∈ h.best, cost < s.cost := by
  constructor
  · intro hall s hs
    exact hall s (best_spec hs).1
  · intro hbest e he
    obtain ⟨s, hs⟩ := Option.isSome_iff_exists.mp (isSome_best (List.ne_nil_of_mem he))
    exact UInt64.lt_of_lt_of_le (hbest s hs) ((best_spec hs).2 e he)

/-- One more entry is one more improvement exactly if it undercuts everything before it. -/
theorem improvements_concat (h : History) (s : Score) :
    improvements (h ++ [s]) =
      h.improvements + if ∀ e ∈ h, s.cost < e.cost then 1 else 0 := by
  have hearlier : (List.range h.length).countP (fun i =>
      ∀ x ∈ (h ++ [s])[i]?, ∀ e ∈ (h ++ [s]).take i, x.cost < e.cost) = h.improvements := by
    refine List.countP_congr fun i hi => ?_
    have hlt : i < h.length := List.mem_range.mp hi
    rw [List.getElem?_append_left hlt, List.take_append_of_le_length (Nat.le_of_lt hlt)]
  have hlast : (h ++ [s])[h.length]? = some s := by simp
  rw [improvements, List.length_append, List.length_singleton, List.range_succ,
    List.countP_append, hearlier, List.countP_singleton, hlast, List.take_left]
  simp

/-- One more entry is one more for the player it credits. -/
theorem of_concat (h : History) (s : Score) (player : Player) :
    of (h ++ [s]) player = h.of player ++ if s.recipient = player then [s] else [] := by
  rw [of, List.filter_append, of]
  by_cases hs : s.recipient = player <;> simp [hs]

end History

/-! ## Records and pars that a history comes to -/

/-- The title and the counters of a record are what a history comes to. The counters are counted
in 64 bits, as the record counts them. -/
structure CourseRecord.Tallies (r : CourseRecord) (h : History) : Prop where
  count : r.solutionCount = UInt64.ofNat h.length
  holder : r.titleHolder = h.best.map Score.recipient
  cost : r.leadingCost = (h.best.map Score.cost).getD 0
  changes : r.titleChanges = UInt64.ofNat h.improvements

/-- A par is what the entries of its player come to. -/
structure Par.Tallies (p : Par) (own : History) : Prop where
  submissions : p.submissions = UInt64.ofNat own.length
  created : own.head?.map Score.time = some p.createdAt
  cost : own.best.map Score.cost = some p.bestCost
  reached : own.best.map Score.time = some p.bestAt

namespace CourseRecord

variable {r : CourseRecord} {h : History}

/-- The record of a course that was just added tallies the history without entries. -/
theorem tallies_fresh (id : CourseId) (name : String) (allowed : OpcodeSet) (now : Time) :
    (fresh id name allowed now).Tallies [] := ⟨rfl, rfl, rfl, rfl⟩

/-- The allow-list is no part of the tally. -/
theorem Tallies.withAllowed (hr : r.Tallies h) (allowed : OpcodeSet) :
    ({ r with allowed } : CourseRecord).Tallies h := ⟨hr.count, hr.holder, hr.cost, hr.changes⟩

/-- The title yields to a cost exactly if the cost undercuts all entries of the history that gave
the title: this is where the comparison of the record and the one of the history meet. -/
theorem yieldsTo_iff_forall_lt {untitled : Cost}
    (hholder : r.titleHolder = h.best.map Score.recipient)
    (hcost : r.leadingCost = (h.best.map Score.cost).getD untitled) (cost : Cost) :
    r.title.yieldsTo cost = true ↔ ∀ e ∈ h, cost < e.cost := by
  rw [History.forall_lt_iff, title, hholder]
  cases hb : h.best with
  | none => simp [Title.yieldsTo]
  | some s =>
    rw [hb, Option.map_some, Option.getD_some] at hcost
    simp [Title.yieldsTo, hcost]

theorem Tallies.yieldsTo_iff (hr : r.Tallies h) (cost : Cost) :
    r.title.yieldsTo cost = true ↔ ∀ e ∈ h, cost < e.cost :=
  yieldsTo_iff_forall_lt hr.holder hr.cost cost

/-- One more credit is one more entry. -/
theorem Tallies.credit (hr : r.Tallies h) (s : Score) :
    (r.credit s.recipient s.cost).Tallies (h ++ [s]) := by
  rw [CourseRecord.credit]
  by_cases hs : ∀ e ∈ h, s.cost < e.cost
  · rw [if_pos ((hr.yieldsTo_iff s.cost).mpr hs)]
    have hbest : History.best (h ++ [s]) = some s := History.best_concat_of_forall_lt hs
    refine ⟨by rw [ofNat_length_concat, ← hr.count], by rw [hbest]; rfl, by rw [hbest]; rfl, ?_⟩
    rw [History.improvements_concat, if_pos hs, UInt64.ofNat_add, ← hr.changes]
    rfl
  · rw [if_neg fun hy => hs ((hr.yieldsTo_iff s.cost).mp hy)]
    have hbest : History.best (h ++ [s]) = h.best := by rw [History.best_concat, if_neg hs]
    refine ⟨by rw [ofNat_length_concat, ← hr.count], by rw [hbest]; exact hr.holder,
      by rw [hbest]; exact hr.cost, ?_⟩
    rw [History.improvements_concat, if_neg hs, Nat.add_zero]
    exact hr.changes

end CourseRecord

namespace Par

variable {p : Par} {own : History}

/-- The par that a first entry begins. -/
theorem tallies_fresh (course : CourseId) (s : Score) :
    (fresh course s.recipient s.cost s.time).Tallies [s] := by
  have hbest : History.best [s] = some s := History.best_concat_of_forall_lt (h := []) (by simp)
  exact ⟨rfl, rfl, by rw [hbest]; rfl, by rw [hbest]; rfl⟩

/-- One more credit is one more entry of the player. -/
theorem Tallies.credit (hp : p.Tallies own) (s : Score) :
    (p.credit s.cost s.time).Tallies (own ++ [s]) := by
  obtain ⟨first, hbest⟩ : ∃ first, own.best = some first := by
    cases hb : own.best with
    | none =>
      have hcost := hp.cost
      rw [hb] at hcost
      cases hcost
    | some first => exact ⟨first, rfl⟩
  have hcost : first.cost = p.bestCost := by simpa [hbest] using hp.cost
  have hlower : s.cost < p.bestCost ↔ ∀ e ∈ own, s.cost < e.cost := by
    rw [History.forall_lt_iff, hbest, ← hcost]
    simp
  have hcreated : (own ++ [s]).head?.map Score.time = some p.createdAt := by
    obtain ⟨x, hx, htime⟩ := Option.map_eq_some_iff.mp hp.created
    rw [List.head?_append, hx, Option.some_or]
    exact congrArg some htime
  have hcount : p.submissions + 1 = UInt64.ofNat (own ++ [s]).length := by
    rw [ofNat_length_concat, hp.submissions]
  rw [Par.credit]
  split
  · next hlt =>
    have hnew := History.best_concat_of_forall_lt (hlower.mp hlt)
    exact ⟨hcount, hcreated, by rw [hnew]; rfl, by rw [hnew]; rfl⟩
  · next hge =>
    have hold : History.best (own ++ [s]) = own.best := by
      rw [History.best_concat, if_neg fun hall => hge (hlower.mpr hall)]
    exact ⟨hcount, hcreated, by rw [hold]; exact hp.cost, by rw [hold]; exact hp.reached⟩

end Par

/-! ## The history of a run -/

/-- The course that an operation submits a solution to. -/
def Action.submitsTo? : Action → Option CourseId
  | .submit _ id _ _ => some id
  | .reveal _ id _ _ _ => some id
  | _ => none

/-- The submission that a reply accepts. -/
def Reply.submission? (reply : Reply) : Option Submission :=
  match reply.answer with
  | .ok (.submission s) => some s
  | _ => none

/-- The score on a course that an entry of a log accepts. -/
def score? (id : CourseId) : (Time × Action) × Reply → Option Score
  | ((now, action), reply) =>
    if action.submitsTo? = some id then
      reply.submission?.map fun s => ⟨s.recipient, s.cost, now⟩
    else none

/-- What an operation on another course, or on none, is answered is no score. -/
theorem score?_of_ne {id : CourseId} {action : Action} (h : action.submitsTo? ≠ some id)
    (now : Time) (reply : Reply) : score? id ((now, action), reply) = none := if_neg h

/-- A refusal is no score. -/
theorem score?_of_error (id : CourseId) (now : Time) (action : Action) (reason : BoardError)
    (b : Board) (events : List Event) :
    score? id ((now, action), ⟨.error reason, b, events⟩) = none := by
  simp [score?, Reply.submission?]

/-- An accepted submission is a score on its course. -/
theorem score?_of_ok {id : CourseId} {action : Action} {reply : Reply} {s : Submission}
    (hnames : action.submitsTo? = some id) (hanswer : reply.answer = .ok (.submission s))
    (now : Time) : score? id ((now, action), reply) = some ⟨s.recipient, s.cost, now⟩ := by
  rw [score?, if_pos hnames, Reply.submission?, hanswer]
  rfl

namespace Board

/-- The history of a course in a run: its accepted submissions and reveals, in order. -/
def history (b : Board) (id : CourseId) (actions : List (Time × Action)) : History :=
  (b.log actions).filterMap (score? id)

/-- One more entry at most is in the history of a course after one more operation. -/
theorem history_concat (b : Board) (id : CourseId) (actions : List (Time × Action)) (now : Time)
    (action : Action) :
    b.history id (actions ++ [(now, action)]) =
      b.history id actions ++
        (score? id ((now, action), (b.after actions).step now action)).toList :=
  filterMap_log_concat ..

/-- The tables of a board are, for one course, what a history comes to. -/
structure Tallies (b : Board) (id : CourseId) (h : History) : Prop where
  absent : b.registry.find? id = none → h = []
  record : ∀ {c}, b.registry.find? id = some c → c.record.Tallies h
  unranked : ∀ {player}, b.pars.find? id player = none → h.of player = []
  par : ∀ {player p}, b.pars.find? id player = some p → p.Tallies (h.of player)

variable {b : Board} {id : CourseId} {h : History} {now : Time}

/-- Only the courses and the pars matter for a tally. -/
theorem Tallies.congr {b' : Board} (hb : b.Tallies id h) (hr : b'.registry = b.registry)
    (hp : b'.pars = b.pars) : b'.Tallies id h := by
  refine ⟨fun hf => hb.absent (hr ▸ hf), fun hf => hb.record (hr ▸ hf), fun hf => ?_, fun hf => ?_⟩
  · exact hb.unranked (hp ▸ hf)
  · exact hb.par (hp ▸ hf)

/-- Writing a course keeps the tally if the written record tallies the history, should it be the
record of the course that the history is about. -/
theorem Tallies.insert (hb : b.Tallies id h) {registry : Registry} {c : RegisteredCourse}
    (hr : ∀ id', registry.find? id' = b.registry.find? id')
    (hc : c.record.id = id → c.record.Tallies h) :
    Tallies { b with registry := registry.insert c } id h := by
  have hfind : (registry.insert c).find? id =
      if c.record.id = id then some c else b.registry.find? id := by
    rw [Registry.find?_insert, hr]
  refine ⟨fun hf => ?_, fun {c'} hf => ?_, hb.unranked, hb.par⟩
  · rw [hfind] at hf
    split at hf
    · cases hf
    · exact hb.absent hf
  · rw [hfind] at hf
    split at hf
    · next heq =>
      cases hf
      exact hc heq
    · exact hb.record hf

/-- An accepted submission on the course itself is one more entry. -/
theorem Tallies.credited (hb : b.Tallies id h) {c : RegisteredCourse}
    (hc : b.registry.find? id = some c) (recipient : Player) (cost : Cost) :
    (b.credited id recipient cost now).Tallies id (h ++ [⟨recipient, cost, now⟩]) := by
  have hreg : (b.credited id recipient cost now).registry.find? id =
      some { c with record := c.record.credit recipient cost } := by
    simp only [Board.credited, Registry.find?_credited, if_pos, hc, Option.map_some]
  have hpars : ∀ player, (b.credited id recipient cost now).pars.find? id player =
      if recipient = player then some (b.pars.next id recipient cost now)
      else b.pars.find? id player := by
    intro player
    simp only [Board.credited, Pars.find?_credit, true_and]
  have hnext : (b.pars.next id recipient cost now).Tallies
      (h.of recipient ++ [⟨recipient, cost, now⟩]) := by
    rw [Pars.next]
    cases hp : b.pars.find? id recipient with
    | none =>
      rw [hb.unranked hp]
      exact Par.tallies_fresh id ⟨recipient, cost, now⟩
    | some p => exact (hb.par hp).credit ⟨recipient, cost, now⟩
  refine ⟨fun hf => ?_, fun {c'} hf => ?_, fun {player} hf => ?_, fun {player p} hf => ?_⟩
  · rw [hreg] at hf
    cases hf
  · rw [hreg] at hf
    cases hf
    exact (hb.record hc).credit ⟨recipient, cost, now⟩
  · rw [hpars] at hf
    split at hf
    · cases hf
    · next hne => rw [History.of_concat, if_neg hne, List.append_nil, hb.unranked hf]
  · rw [hpars] at hf
    split at hf
    · next heq =>
      cases hf
      rw [History.of_concat, if_pos heq, ← heq]
      exact hnext
    · next hne =>
      rw [History.of_concat, if_neg hne, List.append_nil]
      exact hb.par hf

/-- An accepted submission on another course is no entry. -/
theorem Tallies.credited_of_ne (hb : b.Tallies id h) {other : CourseId} (hne : other ≠ id)
    (recipient : Player) (cost : Cost) : (b.credited other recipient cost now).Tallies id h := by
  have hreg : (b.credited other recipient cost now).registry.find? id = b.registry.find? id := by
    simp only [Board.credited, Registry.find?_credited, if_neg hne]
  have hpars : ∀ player, (b.credited other recipient cost now).pars.find? id player =
      b.pars.find? id player := by
    intro player
    simp only [Board.credited, Pars.find?_credit, hne, false_and, if_false]
  refine ⟨fun hf => ?_, fun hf => ?_, fun hf => ?_, fun hf => ?_⟩
  · exact hb.absent (hreg ▸ hf)
  · exact hb.record (hreg ▸ hf)
  · exact hb.unranked (hpars _ ▸ hf)
  · exact hb.par (hpars _ ▸ hf)

/-- An accepted submission is an entry of the history of its own course only. -/
theorem Tallies.accepted (hb : b.Tallies id h) {course : CourseId} {c : RegisteredCourse}
    (hc : b.registry.find? course = some c) (recipient : Player) (cost : Cost) (now : Time) :
    (b.credited course recipient cost now).Tallies id
      (h ++ (if course = id then some (⟨recipient, cost, now⟩ : Score) else none).toList) := by
  by_cases heq : course = id
  · subst heq
    rw [if_pos rfl]
    exact hb.credited hc recipient cost
  · rw [if_neg heq, Option.toList_none, List.append_nil]
    exact hb.credited_of_ne heq recipient cost

/-- **One step keeps the tally.** The tables after a step are what the history comes to once the
step's entry, if it has one, is added. -/
theorem Effect.tallies {action : Action} {reply : Reply} (he : b.Effect now action reply)
    (hb : b.Tallies id h) :
    reply.board.Tallies id (h ++ (score? id ((now, action), reply)).toList) := by
  -- Every effect but the last two has no entry; those two have one if they name the course.
  cases he with
  | @refused action reason =>
    rw [score?_of_error, Option.toList_none, List.append_nil]
    exact hb
  | @courseAdded caller course allowed next hadmin hname hnext hfree =>
    simp only [score?, Action.submitsTo?, reduceCtorEq, if_false, Option.toList_none,
      List.append_nil]
    refine hb.insert (fun _ => rfl) fun heq => ?_
    -- The id was free, so the history of the course it names has no entries yet.
    have hnil : h = [] := hb.absent (heq ▸ hfree)
    rw [hnil]
    exact CourseRecord.tallies_fresh ..
  | @allowListReplaced caller course allowed c hadmin hc =>
    simp only [score?, Action.submitsTo?, reduceCtorEq, if_false, Option.toList_none,
      List.append_nil]
    refine hb.insert (fun _ => rfl) fun heq => ?_
    have hcourse : course = id := (Registry.id_of_find? hc).symm.trans heq
    exact (hb.record (hcourse ▸ hc)).withAllowed allowed
  | validatorReplaced | committed =>
    simp only [score?, Action.submitsTo?, reduceCtorEq, if_false, Option.toList_none,
      List.append_nil]
    exact hb.congr rfl rfl
  | submitted hc hj =>
    simpa [score?, Action.submitsTo?, Reply.submission?, submission] using hb.accepted hc _ _ now
  | @revealed caller course solution salt recipient committer commitment cost c hk he hc hj =>
    have hacc := hb.accepted hc (recipient.getD committer) cost now
    -- Consuming the commitment touches neither the courses nor the pars.
    have hcons : ((b.credited course (recipient.getD committer) cost now).consumed
        (commitmentKey caller solution salt) commitment now).Tallies id _ :=
      hacc.congr (registry_consumed ..) (pars_consumed ..)
    simpa [score?, Action.submitsTo?, Reply.submission?, submission] using hcons

/-- **The tables follow the history.** After every run of an opened board, the record of a course
and its pars are what the history of the course comes to. -/
theorem tallies_history (config : Config) (admin : AdminPolicy) (validator : Validator)
    (deployer : Deployer) (id : CourseId) (actions : List (Time × Action)) :
    ((opened config admin validator deployer).after actions).Tallies id
      ((opened config admin validator deployer).history id actions) := by
  induction actions using List.reverseRecOn with
  | nil => exact ⟨fun _ => rfl, nofun, fun _ => rfl, nofun⟩
  | append_singleton actions x ih =>
    obtain ⟨now, action⟩ := x
    rw [after_concat, history_concat]
    exact (effect_step _ now action).tallies ih

/-- **History refinement.** After every run of an opened board, with any courses, validators and
times, the record of a course and its pars are what the accepted submissions on the course come
to, read off the whole history: the number of entries, the earliest of the cheapest ones, and the
number of entries cheaper than everything before them; and for each player the same of the entries
that credit the player. The counters do not overflow as long as the history has fewer entries than
there are words of 64 bits. -/
theorem tables_of_history (config : Config) (admin : AdminPolicy) (validator : Validator)
    (deployer : Deployer) (id : CourseId) (actions : List (Time × Action))
    (hlength : ((opened config admin validator deployer).history id actions).length < UInt64.size) :
    let b := (opened config admin validator deployer).after actions
    let h := (opened config admin validator deployer).history id actions
    (∀ r, b.course? id = some r →
      r.solutionCount.toNat = h.length ∧
      (r.titleHolder = none ↔ h = []) ∧
      r.titleHolder = h.best.map Score.recipient ∧
      r.leadingCost = (h.best.map Score.cost).getD 0 ∧
      r.titleChanges.toNat = h.improvements) ∧
    ∀ player,
      ((b.personalBest? id player).isSome ↔ ∃ s ∈ h, s.recipient = player) ∧
      ∀ p, b.personalBest? id player = some p →
        p.submissions.toNat = (h.of player).length ∧
        some p.bestCost = (h.of player).best.map Score.cost ∧
        some p.createdAt = (h.of player).head?.map Score.time ∧
        some p.bestAt = (h.of player).best.map Score.time := by
  intro b h
  have htally : b.Tallies id h := tallies_history config admin validator deployer id actions
  -- All three counters are bounded by the length of the history.
  have hword : ∀ n ≤ h.length, (UInt64.ofNat n).toNat = n := fun n hn =>
    UInt64.toNat_ofNat_of_lt' (Nat.lt_of_le_of_lt hn hlength)
  refine ⟨fun r hr => ?_, fun player => ⟨?_, fun p hp => ?_⟩⟩
  · obtain ⟨c, hc, rfl⟩ := Option.map_eq_some_iff.mp hr
    have hrec := htally.record hc
    refine ⟨?_, ?_, hrec.holder, hrec.cost, ?_⟩
    · rw [hrec.count, hword _ (Nat.le_refl _)]
    · rw [hrec.holder, Option.map_eq_none_iff, History.best_eq_none_iff]
    · rw [hrec.changes, hword _ h.improvements_le_length]
  · have hown : h.of player ≠ [] ↔ ∃ s ∈ h, s.recipient = player := by
      simp [History.of, List.filter_eq_nil_iff]
    rw [← hown, personalBest?]
    cases hp : b.pars.find? id player with
    | none => simp [htally.unranked hp]
    | some p =>
      have hcreated := (htally.par hp).created
      refine iff_of_true rfl fun hnil => ?_
      rw [hnil] at hcreated
      cases hcreated
  · have hpar := htally.par hp
    refine ⟨?_, hpar.cost.symm, hpar.created.symm, hpar.reached.symm⟩
    have hle : (h.of player).length ≤ h.length := List.length_filter_le ..
    rw [hpar.submissions, hword _ hle]

/-- A run with a third party credited, a clock that goes back, a tie and a refusal: the title goes
to the earlier of the two cheapest solutions. -/
theorem tables_of_history_of_tie :
    let actions : List (Time × Action) :=
      [(0, .addCourse Sample.root Sample.shortest .full),
        (9, .submit Sample.alice ⟨1⟩ [1, 2, 3] (some Sample.bob)),
        (4, .submit Sample.alice ⟨1⟩ [1, 2] none), (5, .submit Sample.bob ⟨1⟩ [7, 8] none),
        (6, .submit Sample.bob ⟨2⟩ [1] none)]
    Sample.board.history ⟨1⟩ actions =
      [⟨Sample.bob, 3, 9⟩, ⟨Sample.alice, 2, 4⟩, ⟨Sample.bob, 2, 5⟩] ∧
    ((Sample.board.after actions).course? ⟨1⟩).isSome ∧
    ((Sample.board.after actions).personalBest? ⟨1⟩ Sample.bob).isSome ∧
    (∀ r, (Sample.board.after actions).course? ⟨1⟩ = some r →
      r.titleHolder = some Sample.alice ∧ r.leadingCost = 2 ∧ r.titleChanges.toNat = 2) ∧
    ∀ p, (Sample.board.after actions).personalBest? ⟨1⟩ Sample.bob = some p →
      p.submissions.toNat = 2 ∧ p.createdAt = 9 ∧ p.bestAt = 5 := by
  intro actions
  have hh : Sample.board.history ⟨1⟩ actions =
      [⟨Sample.bob, 3, 9⟩, ⟨Sample.alice, 2, 4⟩, ⟨Sample.bob, 2, 5⟩] := by decide
  have hlength : (Sample.board.history ⟨1⟩ actions).length < UInt64.size := by rw [hh]; decide
  have hboard : opened {} (.owner Sample.root) ⟨"any", fun _ code => .valid code.length⟩
      .standard = Sample.board := rfl
  obtain ⟨hrecord, hpars⟩ := tables_of_history _ _ _ _ ⟨1⟩ actions hlength
  simp only [hboard, hh] at hrecord hpars
  refine ⟨hh, by decide, by decide, fun r hr => ?_, fun p hp => ?_⟩
  · obtain ⟨-, -, hholder, hcost, hchanges⟩ := hrecord r hr
    exact ⟨hholder.trans (by decide), hcost.trans (by decide), hchanges.trans (by decide)⟩
  · obtain ⟨hsubmissions, -, hcreated, hreached⟩ := (hpars Sample.bob).2 p hp
    exact ⟨hsubmissions.trans (by decide), Option.some.inj (hcreated.trans (by decide)),
      Option.some.inj (hreached.trans (by decide))⟩

end Board

end CodeGolf
