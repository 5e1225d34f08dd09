import Mathlib.Data.List.Chain
import CodeGolf.Proofs.Listener

/-!
# The events of a run as a log

What is told in a run from an opened board says, of each course, how its title went from one player
to the next. The transfers of a course are a chain (`Chained`): the first takes the title from
nobody, each later one takes it from the holder before it and at a lower cost. The last one names
the holder and the leading cost, and the numbers of transfers and of submissions are the counters of
the record (`LoggedBy`). Each transfer stands right before its submission (`Paired`), the courses
are added under the ids one, two, three and so on (`Registry.NumberedBy`), and each key of the
ledger is committed once (`Ledger.KeyedBy`).

Each of these is kept by a step whose events are added, so each holds after every run by
`Board.told_keeps`; `Board.events_determine_scores` puts them together with the scorebook.
-/

namespace CodeGolf

/-! ## Reading a log -/

/-- A title that moved, as it is told. -/
structure Transfer where
  previous : Option Player
  holder : Player
  cost : Cost
  deriving DecidableEq

namespace Event

/-- The transfer of the title of a course that an event tells. -/
def transfer? (id : CourseId) : Event → Option Transfer
  | .titleTransferred course previous holder cost =>
    if course = id then some ⟨previous, holder, cost⟩ else none
  | _ => none

/-- The submission on a course that an event tells. -/
def submission? (id : CourseId) : Event → Option Submission
  | .submitted s => if s.course = id then some s else none
  | _ => none

/-- The id of the course that an event tells was added. -/
def added? : Event → Option CourseId
  | .courseAdded id _ => some id
  | _ => none

/-- The key that an event tells was committed. -/
def committed? : Event → Option Digest
  | .committed key _ => some key
  | _ => none

end Event

/-! ## Transfers of one course -/

/-- The first transfer takes the title from nobody, and each later one takes it from the one before
it, at a lower cost. -/
structure Chained (ts : List Transfer) : Prop where
  first : ∀ t, ts.head? = some t → t.previous = none
  next : ts.IsChain fun t u => u.previous = some t.holder ∧ u.cost < t.cost

/-- A transfer from the last holder at a lower cost goes on with the chain. -/
theorem Chained.concat {ts : List Transfer} (h : Chained ts) {u : Transfer}
    (hprevious : u.previous = ts.getLast?.map Transfer.holder)
    (hcost : ∀ t, ts.getLast? = some t → u.cost < t.cost) : Chained (ts ++ [u]) where
  first t ht := by
    cases ts with
    | nil =>
      cases ht
      exact hprevious
    | cons t' rest => exact h.first t ht
  next := by
    refine List.isChain_append.mpr ⟨h.next, List.isChain_singleton _, fun t ht u' hu' => ?_⟩
    have hlast : ts.getLast? = some t := ht
    cases hu'
    exact ⟨by rw [hprevious, hlast, Option.map_some], hcost t hlast⟩

/-- What is told of a course says what its record has: the last transfer names the holder and the
leading cost, and the counters are the numbers of transfers and of submissions, counted in 64 bits
as the record counts them. No transfer and no submission is told of a course that was not added. -/
structure LoggedBy (record : Option CourseRecord) (ts : List Transfer) (ss : List Submission) :
    Prop where
  chained : Chained ts
  absent : record = none → ts = [] ∧ ss = []
  score : ∀ r, record = some r →
    r.score = ⟨(ts.getLast?.map Transfer.cost).getD 0, ts.getLast?.map Transfer.holder,
      UInt64.ofNat ss.length, UInt64.ofNat ts.length⟩

section
variable {id : CourseId} {events : List Event} {s : Submission}

/-- Events about other courses tell no transfer and no submission of a course. -/
theorem filterMap_of_quiet (hquiet : ∀ e ∈ events, e.course? ≠ some id) :
    events.filterMap (Event.transfer? id) = [] ∧ events.filterMap (Event.submission? id) = [] := by
  rw [List.filterMap_eq_nil_iff, List.filterMap_eq_nil_iff]
  refine ⟨fun e he => ?_, fun e he => ?_⟩
  · cases e with
    | titleTransferred => exact if_neg fun heq => hquiet _ he (congrArg some heq)
    | _ => rfl
  · cases e with
    | submitted s => exact if_neg fun heq => hquiet _ he (congrArg some heq)
    | _ => rfl

/-- What is told of a submission is a transfer of its course if the title moved. -/
theorem filterMap_transfer?_events (hcourse : s.course = id) :
    s.events.filterMap (Event.transfer? id) =
      if s.titleChanged then [⟨s.previousHolder, s.recipient, s.cost⟩] else [] := by
  rw [Submission.events]
  split <;> simp [Event.transfer?, hcourse]

/-- What is told of a submission is one submission on its course. -/
theorem filterMap_submission?_events (hcourse : s.course = id) :
    s.events.filterMap (Event.submission? id) = [s] := by
  have hself : Event.submission? id (.submitted s) = some s := if_pos hcourse
  rw [Submission.events]
  split
  · rw [List.filterMap_cons_none rfl, List.filterMap_cons_some hself, List.filterMap_nil]
  · rw [List.filterMap_cons_some hself, List.filterMap_nil]

end

/-- **A step keeps the log of a course**, once its events are added. -/
theorem Board.CourseEffect.logged {id : CourseId} {before after : Option CourseRecord}
    {events : List Event} (he : CourseEffect id before after events) {ts : List Transfer}
    {ss : List Submission} (hlog : LoggedBy before ts ss) :
    LoggedBy after (ts ++ events.filterMap (Event.transfer? id))
      (ss ++ events.filterMap (Event.submission? id)) := by
  cases he with
  | untouched hquiet =>
    obtain ⟨htransfers, hsubmissions⟩ := filterMap_of_quiet hquiet
    rw [htransfers, hsubmissions, List.append_nil, List.append_nil]
    exact hlog
  | added name allowed now =>
    obtain ⟨rfl, rfl⟩ := hlog.absent rfl
    exact ⟨hlog.chained, nofun, fun r hr => by cases hr; rfl⟩
  | replaced r allowed =>
    show LoggedBy _ (ts ++ []) (ss ++ [])
    rw [List.append_nil, List.append_nil]
    refine ⟨hlog.chained, nofun, fun r' hr' => ?_⟩
    cases hr'
    exact hlog.score r rfl
  | @credited r s hcourse hchanged hprevious =>
    rw [filterMap_transfer?_events hcourse, filterMap_submission?_events hcourse, hchanged]
    have hscore := hlog.score r rfl
    have hholder : r.titleHolder = ts.getLast?.map Transfer.holder :=
      congrArg CourseScore.titleHolder hscore
    have hcost : r.leadingCost = (ts.getLast?.map Transfer.cost).getD 0 :=
      congrArg CourseScore.leadingCost hscore
    by_cases htakes : r.title.yieldsTo s.cost = true
    · rw [if_pos htakes]
      have hlower : ∀ t, ts.getLast? = some t → s.cost < t.cost := by
        intro t ht
        rw [ht] at hholder hcost
        rcases CourseRecord.yieldsTo_iff.mp htakes with hnone | hlt
        · rw [hholder] at hnone
          cases hnone
        · rwa [hcost] at hlt
      refine ⟨hlog.chained.concat (hprevious.trans hholder) hlower, nofun, fun r' hr' => ?_⟩
      cases hr'
      rw [CourseRecord.score_credit, if_pos htakes, hscore, List.getLast?_concat,
        ofNat_length_concat, ofNat_length_concat]
      rfl
    · rw [if_neg htakes, List.append_nil]
      refine ⟨hlog.chained, nofun, fun r' hr' => ?_⟩
      cases hr'
      rw [CourseRecord.score_credit, if_neg htakes, hscore, ofNat_length_concat]

/-! ## A transfer and its submission -/

/-- Each transfer is told right before a submission that moved the title, and each such submission
right after its transfer. -/
structure Paired (events : List Event) : Prop where
  followed : ∀ i id previous holder cost,
    events[i]? = some (.titleTransferred id previous holder cost) →
    ∃ s, events[i + 1]? = some (.submitted s) ∧ s.titleChanged = true ∧ s.course = id ∧
      s.previousHolder = previous ∧ s.recipient = holder ∧ s.cost = cost
  preceded : ∀ i s, events[i]? = some (.submitted s) → s.titleChanged = true →
    ∃ j, j + 1 = i ∧
      events[j]? = some (.titleTransferred s.course s.previousHolder s.recipient s.cost)

/-- Pairs stay pairs if more is told. -/
theorem Paired.append {events more : List Event} (h : Paired events) (hmore : Paired more) :
    Paired (events ++ more) where
  followed i id previous holder cost hi := by
    by_cases hlt : i < events.length
    · rw [List.getElem?_append_left hlt] at hi
      obtain ⟨s, hs, hpair⟩ := h.followed i id previous holder cost hi
      have hlt' : i + 1 < events.length := (List.getElem?_eq_some_iff.mp hs).1
      exact ⟨s, (List.getElem?_append_left hlt').trans hs, hpair⟩
    · have hge := Nat.le_of_not_lt hlt
      rw [List.getElem?_append_right hge] at hi
      obtain ⟨s, hs, hpair⟩ := hmore.followed _ id previous holder cost hi
      refine ⟨s, ?_, hpair⟩
      rwa [List.getElem?_append_right (Nat.le_succ_of_le hge), Nat.succ_sub hge]
  preceded i s hi hmoved := by
    by_cases hlt : i < events.length
    · rw [List.getElem?_append_left hlt] at hi
      obtain ⟨j, rfl, hj⟩ := h.preceded i s hi hmoved
      exact ⟨j, rfl, (List.getElem?_append_left (Nat.lt_of_succ_lt hlt)).trans hj⟩
    · have hge := Nat.le_of_not_lt hlt
      rw [List.getElem?_append_right hge] at hi
      obtain ⟨j, hj, hpair⟩ := hmore.preceded _ s hi hmoved
      refine ⟨events.length + j, by omega, ?_⟩
      rwa [List.getElem?_append_right (Nat.le_add_right ..), Nat.add_sub_cancel_left]

/-- A single event that is no transfer and no submission that moved a title makes no pair. -/
theorem paired_singleton {e : Event} (htransfer : ∀ id previous holder cost,
      e ≠ .titleTransferred id previous holder cost)
    (hsubmitted : ∀ s, e = .submitted s → s.titleChanged = false) : Paired [e] where
  followed i id previous holder cost hi := by
    have he : e = _ := List.mem_singleton.mp (List.mem_of_getElem? hi) |>.symm
    exact absurd he (htransfer id previous holder cost)
  preceded i s hi hmoved := by
    have he : e = _ := List.mem_singleton.mp (List.mem_of_getElem? hi) |>.symm
    rw [hsubmitted s he] at hmoved
    cases hmoved

theorem paired_events (s : Submission) : Paired s.events := by
  rw [Submission.events]
  split
  · next hmoved =>
    constructor
    · intro i id previous holder cost hi
      rcases i with _ | _ | i
      · cases hi
        exact ⟨s, rfl, hmoved, rfl, rfl, rfl, rfl⟩
      · cases hi
      · cases hi
    · intro i s' hi _
      rcases i with _ | _ | i
      · cases hi
      · cases hi
        exact ⟨0, rfl, rfl⟩
      · cases hi
  · next hkept =>
    refine paired_singleton (fun _ _ _ _ heq => by cases heq) fun s' hs' => ?_
    cases hs'
    exact Bool.eq_false_iff.mpr hkept

/-- What is told of one step is paired. -/
theorem Board.Effect.paired {b : Board} {now : Time} {action : Action} {reply : Reply}
    (he : b.Effect now action reply) : Paired reply.events := by
  cases he with
  | refused => exact ⟨nofun, nofun⟩
  | courseAdded | allowListReplaced | validatorReplaced | committed =>
    exact paired_singleton nofun nofun
  | submitted | revealed => exact paired_events _

/-! ## Ids and keys -/

/-- The ids that were given are one, two, three and so on, and the next one goes on with them. -/
structure Registry.NumberedBy (r : Registry) (ids : List CourseId) : Prop where
  next : r.nextId.number.toNat = ids.length + 1
  given : ids.map (fun id => id.number.toNat) = List.range' 1 ids.length

/-- A course that is added under the next id goes on with the ids. -/
theorem Registry.NumberedBy.concat {r r' : Registry} {ids : List CourseId} (h : r.NumberedBy ids)
    (hnext : r.nextId.succ? = some r'.nextId) : r'.NumberedBy (ids ++ [r.nextId]) where
  next := by
    rw [CourseId.toNat_of_succ? hnext, h.next, List.length_append, List.length_singleton]
  given := by
    rw [List.map_append, h.given, List.length_append, List.length_singleton, List.range'_1_concat,
      List.map_singleton, h.next, Nat.add_comm 1]

/-- The keys that were committed are the keys of the ledger, each of them once. -/
structure Ledger.KeyedBy (l : Ledger) (keys : List Digest) : Prop where
  nodup : keys.Nodup
  known : ∀ key, key ∈ keys ↔ (l.find? key).isSome

/-- A key that was free is one more key. -/
theorem Ledger.KeyedBy.concat {l : Ledger} {keys : List Digest} (h : l.KeyedBy keys) {key : Digest}
    (hfree : l.find? key = none) (c : Commitment) : (l.insert key c).KeyedBy (keys ++ [key]) where
  nodup := by
    have hnew : key ∉ keys := fun hmem => by
      have hknown := (h.known key).mp hmem
      rw [hfree] at hknown
      cases hknown
    refine List.nodup_append.mpr ⟨h.nodup, List.pairwise_singleton .., fun k hk k' hk' heq => ?_⟩
    rw [heq, List.mem_singleton.mp hk'] at hk
    exact hnew hk
  known key' := by
    rw [List.mem_append, List.mem_singleton, h.known, find?_insert]
    by_cases heq : key = key'
    · simp [heq]
    · simp [heq, Ne.symm heq]

/-- Marking a commitment adds no key. -/
theorem Ledger.KeyedBy.mark {l : Ledger} {keys : List Digest} (h : l.KeyedBy keys) {key : Digest}
    {c : Commitment} (hfound : l.find? key = some c) (c' : Commitment) :
    (l.insert key c').KeyedBy keys where
  nodup := h.nodup
  known key' := by
    rw [h.known, find?_insert]
    by_cases heq : key = key'
    · simp [← heq, hfound]
    · simp [heq]

/-- What is told of a submission tells nothing else. -/
theorem Submission.filterMap_events {α : Type} {f : Event → Option α} (s : Submission)
    (htransfer : f (.titleTransferred s.course s.previousHolder s.recipient s.cost) = none)
    (hsubmitted : f (.submitted s) = none) : s.events.filterMap f = [] := by
  rw [events]
  split
  · rw [List.filterMap_cons_none htransfer, List.filterMap_cons_none hsubmitted, List.filterMap_nil]
  · rw [List.filterMap_cons_none hsubmitted, List.filterMap_nil]

namespace Board

variable {b : Board} {now : Time} {action : Action} {reply : Reply}

/-- A step gives at most one id, and it is the next one. -/
theorem Effect.numberedBy (he : b.Effect now action reply) {ids : List CourseId}
    (h : b.registry.NumberedBy ids) :
    reply.board.registry.NumberedBy (ids ++ reply.events.filterMap Event.added?) := by
  cases he with
  | courseAdded hadmin hname hnext hfree => exact h.concat hnext
  | refused | allowListReplaced | validatorReplaced | committed =>
    exact (List.append_nil ids).symm ▸ ⟨h.next, h.given⟩
  | submitted | revealed =>
    rw [Submission.filterMap_events _ rfl rfl, List.append_nil]
    refine ⟨?_, h.given⟩
    show (b.registry.credited ..).nextId.number.toNat = _
    rw [Registry.nextId_credited, h.next]

/-- A step commits at most one key, and it was free. -/
theorem Effect.keyedBy (he : b.Effect now action reply) {keys : List Digest}
    (h : b.ledger.KeyedBy keys) :
    reply.board.ledger.KeyedBy (keys ++ reply.events.filterMap Event.committed?) := by
  cases he with
  | committed hfree => exact h.concat hfree _
  | refused | courseAdded | allowListReplaced | validatorReplaced =>
    exact (List.append_nil keys).symm ▸ ⟨h.nodup, h.known⟩
  | submitted =>
    rw [Submission.filterMap_events _ rfl rfl, List.append_nil]
    exact ⟨h.nodup, h.known⟩
  | revealed hk =>
    rw [Submission.filterMap_events _ rfl rfl, List.append_nil]
    exact h.mark hk _

/-! ## The log of a run -/

section
variable (config : Config) (admin : AdminPolicy) (validator : Validator) (deployer : Deployer)
  (actions : List (Time × Action))

/-- After every run of an opened board, each course is as its part of the log says. -/
theorem loggedBy_told (id : CourseId) :
    LoggedBy (((opened config admin validator deployer).after actions).course? id)
      (((opened config admin validator deployer).told actions).filterMap (Event.transfer? id))
      (((opened config admin validator deployer).told actions).filterMap
        (Event.submission? id)) := by
  refine told_keeps (P := fun b events => LoggedBy (b.course? id)
    (events.filterMap (Event.transfer? id)) (events.filterMap (Event.submission? id)))
    (fun he hlog => ?_) ?_ actions
  · rw [List.filterMap_append, List.filterMap_append]
    exact (he.course id).logged hlog
  · exact ⟨⟨nofun, .nil⟩, fun _ => ⟨rfl, rfl⟩, nofun⟩

/-- What is told in a run of any board is paired. -/
theorem paired_told (b : Board) : Paired (b.told actions) :=
  told_keeps (P := fun _ events => Paired events) (fun he h => h.append he.paired) ⟨nofun, nofun⟩
    actions

/-- After every run of an opened board, the ids are those that were told. -/
theorem numberedBy_told :
    ((opened config admin validator deployer).after actions).registry.NumberedBy
      (((opened config admin validator deployer).told actions).filterMap Event.added?) := by
  refine told_keeps (P := fun b events => b.registry.NumberedBy (events.filterMap Event.added?))
    (fun he h => ?_) ⟨rfl, rfl⟩ actions
  rw [List.filterMap_append]
  exact he.numberedBy h

/-- After every run of an opened board, the keys are those that were told. -/
theorem keyedBy_told :
    ((opened config admin validator deployer).after actions).ledger.KeyedBy
      (((opened config admin validator deployer).told actions).filterMap Event.committed?) := by
  refine told_keeps (P := fun b events => b.ledger.KeyedBy (events.filterMap Event.committed?))
    (fun he h => ?_) ⟨.nil, fun key => ?_⟩ actions
  · rw [List.filterMap_append]
    exact he.keyedBy h
  · exact iff_of_false List.not_mem_nil Bool.false_ne_true

end

/-- **The events of a run are a faithful log.** In every run of an opened board, what is told alone
determines the scores: entered into a blank scorebook it gives the scorebook of the board. The
transfers of each course are a chain from nobody to the title holder, at lower and lower costs, and
they and the submissions number what the record counts, in 64 bits as it counts. Each transfer is
told right before the submission that moved the title. The courses are added under the ids one, two,
three and so on. The committed keys are distinct and are those of the ledger. -/
theorem events_determine_scores (config : Config) (admin : AdminPolicy) (validator : Validator)
    (deployer : Deployer) (actions : List (Time × Action)) :
    let b := (opened config admin validator deployer).after actions
    let events := (opened config admin validator deployer).told actions
    events.foldl Scorebook.hear .blank = b.scorebook ∧
    (∀ id,
      let ts := events.filterMap (Event.transfer? id)
      let ss := events.filterMap (Event.submission? id)
      Chained ts ∧ (b.course? id = none → ts = [] ∧ ss = []) ∧
      ∀ r, b.course? id = some r →
        r.titleHolder = ts.getLast?.map Transfer.holder ∧
        r.leadingCost = (ts.getLast?.map Transfer.cost).getD 0 ∧
        r.titleChanges = UInt64.ofNat ts.length ∧
        r.solutionCount = UInt64.ofNat ss.length ∧
        (events.length < UInt64.size →
          r.titleChanges.toNat = ts.length ∧ r.solutionCount.toNat = ss.length)) ∧
    Paired events ∧
    ((events.filterMap Event.added?).map fun id => id.number.toNat) =
      List.range' 1 (events.filterMap Event.added?).length ∧
    (events.filterMap Event.committed?).Nodup ∧
    ∀ key, key ∈ events.filterMap Event.committed? ↔ (b.commitment? key).isSome := by
  intro b events
  have hblank : (opened config admin validator deployer).scorebook = .blank := rfl
  have hids := numberedBy_told config admin validator deployer actions
  have hkeys := keyedBy_told config admin validator deployer actions
  refine ⟨hblank ▸ hear_told _ actions, fun id => ?_, paired_told actions _, hids.given,
    hkeys.nodup, hkeys.known⟩
  intro ts ss
  have hlog : LoggedBy (b.course? id) ts ss :=
    loggedBy_told config admin validator deployer actions id
  refine ⟨hlog.chained, hlog.absent, fun r hr => ?_⟩
  have hscore := hlog.score r hr
  have hchanges : r.titleChanges = UInt64.ofNat ts.length :=
    congrArg CourseScore.titleChanges hscore
  have hcount : r.solutionCount = UInt64.ofNat ss.length :=
    congrArg CourseScore.solutionCount hscore
  refine ⟨congrArg CourseScore.titleHolder hscore, congrArg CourseScore.leadingCost hscore,
    hchanges, hcount, fun hlength => ?_⟩
  rw [hchanges, hcount, UInt64.toNat_ofNat_of_lt', UInt64.toNat_ofNat_of_lt']
  · exact ⟨rfl, rfl⟩
  · exact Nat.lt_of_le_of_lt (List.length_filterMap_le ..) hlength
  · exact Nat.lt_of_le_of_lt (List.length_filterMap_le ..) hlength

/-- A run in which somebody is credited by a third party and then takes the title from themselves,
with a tie and a refusal after that. -/
theorem events_determine_scores_of_self_improvement :
    let actions : List (Time × Action) :=
      [(0, .addCourse Sample.root Sample.shortest .full),
        (1, .submit Sample.alice ⟨1⟩ [1, 2, 3] (some Sample.bob)),
        (2, .submit Sample.bob ⟨1⟩ [1, 2] none), (3, .submit Sample.alice ⟨1⟩ [7, 8] none),
        (4, .submit Sample.alice ⟨2⟩ [1] none), (5, .commit Sample.alice 7)]
    (Sample.board.told actions).filterMap (Event.transfer? ⟨1⟩) =
      [⟨none, Sample.bob, 3⟩, ⟨some Sample.bob, Sample.bob, 2⟩] ∧
    (Sample.board.told actions).length < UInt64.size ∧
    ∃ r, (Sample.board.after actions).course? ⟨1⟩ = some r ∧ r.titleHolder = some Sample.bob ∧
      r.leadingCost = 2 ∧ r.titleChanges.toNat = 2 ∧ r.solutionCount.toNat = 3 := by
  intro actions
  have htransfers : (Sample.board.told actions).filterMap (Event.transfer? ⟨1⟩) =
      [⟨none, Sample.bob, 3⟩, ⟨some Sample.bob, Sample.bob, 2⟩] := by decide
  have hsubmissions :
      ((Sample.board.told actions).filterMap (Event.submission? ⟨1⟩)).length = 3 := by decide
  have hlength : (Sample.board.told actions).length < UInt64.size := by decide
  have hboard : opened {} (.owner Sample.root) ⟨"any", fun _ code => .valid code.length⟩
      .standard = Sample.board := rfl
  obtain ⟨r, hr⟩ := Option.isSome_iff_exists.mp
    (by decide : ((Sample.board.after actions).course? ⟨1⟩).isSome)
  obtain ⟨-, htitles, -⟩ := events_determine_scores {} (.owner Sample.root)
    ⟨"any", fun _ code => .valid code.length⟩ .standard actions
  simp only [hboard] at htitles
  obtain ⟨-, -, hrecord⟩ := htitles ⟨1⟩
  obtain ⟨hholder, hcost, -, -, hcounts⟩ := hrecord r hr
  obtain ⟨hchanges, hcount⟩ := hcounts hlength
  rw [htransfers] at hholder hcost hchanges
  exact ⟨htransfers, hlength, r, hr, hholder, hcost, hchanges, hcount.trans hsubmissions⟩

end Board

end CodeGolf
