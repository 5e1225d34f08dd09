import CodeGolf.Proofs.Acceptance
import CodeGolf.Proofs.Frame
import CodeGolf.Proofs.Loading

/-!
# No seed is drawn from the same bytes twice

An accepted solution was run on a seed, the first bytes of the digest of who submits, to which
course, how many solutions the course had counted, and when. These bytes are a tag and four fields
of fixed widths, so they determine the fields (`Draw.bytes_injective`), and equal seeds of different
draws are digests that begin with the same eight bytes (`Draw.seed_eq_iff`).

That no two draws of a run are equal is a matter of the counts alone, whoever submits and whenever.
The draws on one course are made at the counts 0, 1, 2, and so on up to the count that its record
has: `Board.Numbers` says so, and it is kept by each step (`Board.Effect.numbers`), by installing
another validator or deployer, and by putting the board together from a snapshot of itself, because
a snapshot lists the counts (`Board.course?_of_restore`). A solution that is refused draws nothing
and is not counted either.
-/

namespace CodeGolf

/-! ## Draws -/

/-- What the seed of a run is drawn from. -/
structure Draw where
  submitter : Player
  course : CourseId
  /-- How many solutions of the course were counted before. -/
  solutionCount : UInt64
  time : Time
  deriving DecidableEq

namespace Draw

/-- The bytes that are digested for the seed. -/
def bytes (d : Draw) : Bytes := seedPreimage d.submitter d.course d.solutionCount d.time

/-- The seed that is drawn. -/
def seed (d : Draw) : UInt64 := runSeed d.submitter d.course d.solutionCount d.time

/-- **The digested bytes determine the draw**: all fields have their own width. -/
theorem bytes_injective {d d' : Draw} (h : d.bytes = d'.bytes) : d = d' := by
  obtain ⟨h, htime⟩ := List.append_inj' h (by simp)
  obtain ⟨h, hcount⟩ := List.append_inj' h (by simp)
  obtain ⟨h, hcourse⟩ := List.append_inj' h (by simp)
  obtain ⟨-, hsubmitter⟩ := List.append_inj' h (by simp)
  have hword : ∀ n : UInt64, n.toNat < Nat.pow 256 8 := UInt64.toNat_lt
  have hid : ∀ n : UInt32, n.toNat < Nat.pow 256 4 := UInt32.toNat_lt
  have htime := UInt64.toNat_inj.mp (Bytes.bigEndian_injective (hword _) (hword _) htime)
  have hcount := UInt64.toNat_inj.mp (Bytes.bigEndian_injective (hword _) (hword _) hcount)
  have hcourse := CourseId.rank_injective (Bytes.bigEndian_injective (hid _) (hid _) hcourse)
  have hkey : d.submitter.key = d'.submitter.key := Word.toBytes_injective hsubmitter
  obtain ⟨⟨key⟩, course, count, time⟩ := d
  obtain ⟨⟨key'⟩, course', count', time'⟩ := d'
  cases hkey
  cases hcourse
  cases hcount
  cases htime
  rfl

/-- **Seeds are equal** exactly if the digests begin with the same eight bytes. -/
theorem seed_eq_iff {d d' : Draw} :
    d.seed = d'.seed ↔ (sha256 d.bytes).toBytes.take 8 = (sha256 d'.bytes).toBytes.take 8 := by
  have hlength : ∀ w : Word, (w.toBytes.take 8).length = 8 := by simp
  have hlt : ∀ w : Word, Bytes.ofBigEndian (w.toBytes.take 8) < UInt64.size := fun w => by
    have := Bytes.ofLittleEndian_lt (w.toBytes.take 8).reverse
    rwa [List.length_reverse, hlength] at this
  constructor
  · intro h
    have hnat : Bytes.ofBigEndian ((sha256 d.bytes).toBytes.take 8) =
        Bytes.ofBigEndian ((sha256 d'.bytes).toBytes.take 8) := by
      have := congrArg UInt64.toNat h
      rwa [seed, seed, runSeed, runSeed, UInt64.toNat_ofNat_of_lt' (hlt _),
        UInt64.toNat_ofNat_of_lt' (hlt _)] at this
    have hspelled := fun w : Word => Bytes.bigEndian_ofBigEndian (w.toBytes.take 8)
    simp only [hlength] at hspelled
    rw [← hspelled, hnat, hspelled]
  · intro h
    show UInt64.ofNat (Bytes.ofBigEndian _) = UInt64.ofNat (Bytes.ofBigEndian _)
    exact congrArg (fun bytes => UInt64.ofNat (Bytes.ofBigEndian bytes)) h

end Draw

/-! ## Counts -/

/-- Entries with one key have different values if those of each key have. -/
theorem pairwise_of_nodup_filter {α κ ν : Type} [DecidableEq κ] {key : α → κ} {value : α → ν}
    {l : List α} (h : ∀ k, ((l.filter fun a => key a = k).map value).Nodup) :
    l.Pairwise fun a b => key a = key b → value a ≠ value b := by
  induction l with
  | nil => exact .nil
  | cons a rest ih =>
    refine List.pairwise_cons.mpr ⟨fun b hb heq hvalue => ?_, ih fun k => ?_⟩
    · have hmem : value b ∈ (rest.filter fun x => key x = key a).map value :=
        List.mem_map_of_mem (List.mem_filter.mpr ⟨hb, by simpa using heq.symm⟩)
      have hnodup := h (key a)
      rw [List.filter_cons_of_pos (by simp), List.map_cons, List.nodup_cons, hvalue] at hnodup
      exact hnodup.1 hmem
    · exact (((List.sublist_cons_self a rest).filter _).map value).nodup (h k)

/-- A record is found under its id if it is listed. -/
theorem Registry.record?_eq_some_iff {r : Registry} {id : CourseId} {x : CourseRecord} :
    r.record? id = some x ↔ x ∈ r.records ∧ x.id = id := by
  rw [record?, Option.map_eq_some_iff, records, List.mem_map]
  constructor
  · rintro ⟨c, hc, rfl⟩
    exact ⟨⟨c, List.mem_of_find?_eq_some hc, rfl⟩, id_of_find? hc⟩
  · rintro ⟨⟨c, hc, rfl⟩, rfl⟩
    exact ⟨c, Table.mem_toList_iff.mp hc, rfl⟩

/-- A reply that accepts a submission answers with it. -/
theorem Reply.answer_of_submission? {reply : Reply} {s : Submission}
    (h : reply.submission? = some s) : reply.answer = .ok (.submission s) := by
  rw [submission?] at h
  split at h
  · next hanswer =>
    cases h
    exact hanswer
  · cases h

/-- The solution that an operation submits. -/
def Action.solution? : Action → Option Bytes
  | .submit _ _ solution _ => some solution
  | .reveal _ _ solution _ _ => some solution
  | _ => none

namespace Board

/-- The number of solutions that a course has counted; there are none of a course that the board
does not have. -/
def solutions (b : Board) (id : CourseId) : Nat :=
  ((b.course? id).map fun r => r.solutionCount.toNat).getD 0

theorem solutions_of_find? {b : Board} {id : CourseId} {c : RegisteredCourse}
    (hc : b.registry.find? id = some c) : b.solutions id = c.record.solutionCount.toNat := by
  rw [solutions, course?_of_find? hc]
  rfl

/-- Courses that are found as before have counted as many solutions as before. -/
theorem solutions_congr {b b' : Board} {id : CourseId}
    (h : b'.registry.find? id = b.registry.find? id) : b'.solutions id = b.solutions id := by
  rw [solutions, solutions, course?, course?, Registry.record?, Registry.record?, h]

/-- The records of a board that is put together from a snapshot of another one are the records of
that one. -/
theorem course?_of_restore {b b' : Board} {config : Config} {admin : AdminPolicy} {now : Time}
    {resolve : CourseRecord → Option Course}
    (h : restore config admin (b.snapshot now) resolve = .ok b') (id : CourseId) :
    b'.course? id = b.course? id := by
  have hperm : b'.registry.records.Perm b.registry.records := (perm_of_restore h).1
  refine Option.ext fun x => ?_
  rw [course?, course?, Registry.record?_eq_some_iff, Registry.record?_eq_some_iff,
    hperm.mem_iff]

/-! ## The draws of a run -/

/-- What the seed of a reply's submission was drawn from, if the reply accepts one: the count is the
one of the board before the operation. -/
def draw? (b : Board) (now : Time) (reply : Reply) : Option Draw :=
  reply.submission?.bind fun s =>
    (b.course? s.course).map fun r => ⟨s.submitter, s.course, r.solutionCount, now⟩

variable {b : Board} {now : Time} {action : Action} {reply : Reply}

/-- The draw of an accepted submission is made at the count of its course. -/
theorem draw?_of_submission {s : Submission} {c : RegisteredCourse}
    (hanswer : reply.answer = .ok (.submission s)) (hc : b.registry.find? s.course = some c) :
    b.draw? now reply = some ⟨s.submitter, s.course, c.record.solutionCount, now⟩ := by
  rw [draw?, Reply.submission?, hanswer]
  show (b.course? s.course).map _ = _
  rw [course?_of_find? hc, Option.map_some]

/-- **An accepted solution was run on the seed of its draw.** -/
theorem Effect.run_of_submission (he : b.Effect now action reply) {s : Submission}
    (hanswer : reply.answer = .ok (.submission s)) :
    ∃ d solution c target, b.draw? now reply = some d ∧ action.solution? = some solution ∧
      b.Deployed s.course solution c target ∧ c.course.run target d.seed = .ok s.cost := by
  cases he with
  | refused | courseAdded | allowListReplaced | validatorReplaced | committed => cases hanswer
  | submitted hc hj | revealed _ _ hc hj =>
    obtain ⟨c', target, hdeployed, hrun⟩ := judge_eq_ok_iff_deployed.mp hj
    cases hc.symm.trans hdeployed.found
    cases hanswer
    exact ⟨_, _, _, target, draw?_of_submission rfl hc, rfl, hdeployed, hrun⟩

/-- The course of an accepted submission is the one that the operation names. -/
theorem Effect.submitsTo?_of_submission (he : b.Effect now action reply) {s : Submission}
    (hanswer : reply.answer = .ok (.submission s)) : action.submitsTo? = some s.course := by
  cases he with
  | refused | courseAdded | allowListReplaced | validatorReplaced | committed => cases hanswer
  | submitted | revealed =>
    cases hanswer
    rfl

/-- What is no score on a course draws nothing for it. -/
theorem Effect.filter_draw?_of_score? (he : b.Effect now action reply) {id : CourseId}
    (hscore : score? id ((now, action), reply) = none) :
    (b.draw? now reply).toList.filter (fun d => d.course = id) = [] := by
  refine List.filter_eq_nil_iff.mpr fun d hd hcourse => ?_
  rw [Option.mem_toList, draw?, Option.bind_eq_some_iff] at hd
  obtain ⟨s, hs, hd⟩ := hd
  obtain ⟨r, -, rfl⟩ := Option.map_eq_some_iff.mp hd
  have hid : s.course = id := by simpa using hcourse
  have hanswer := Reply.answer_of_submission? hs
  rw [score?_of_ok (hid ▸ he.submitsTo?_of_submission hanswer) hanswer] at hscore
  cases hscore

/-- The draws on each course were made at the counts 0, 1, 2, and so on up to the count that the
course has now. -/
def Numbers (b : Board) (draws : List Draw) : Prop :=
  ∀ id, (draws.filter fun d => d.course = id).map (fun d => d.solutionCount.toNat) =
    List.range (b.solutions id)

/-- **One step keeps the draws numbered**, as long as the counters do not overflow. -/
theorem Effect.numbers (he : b.Effect now action reply) {draws : List Draw}
    (hb : b.Numbers draws) (hcounts : b.Counts reply) :
    reply.board.Numbers (draws ++ (b.draw? now reply).toList) := by
  intro id
  rw [List.filter_append, List.map_append, hb id]
  cases he.courseStep id with
  | kept hscore hfind =>
    rw [he.filter_draw?_of_score? hscore, solutions_congr hfind, List.map_nil, List.append_nil]
  | added haction hadmin hanswer hfree hfind =>
    have hnone : b.draw? now reply = none := by rw [draw?, Reply.submission?, hanswer]; rfl
    have hzero : b.solutions id = 0 := by
      rw [solutions, course?, Registry.record?, hfree]
      rfl
    rw [hnone, hzero, solutions_of_find? hfind]
    rfl
  | replaced haction hadmin hanswer hc hfind =>
    have hnone : b.draw? now reply = none := by rw [draw?, Reply.submission?, hanswer]; rfl
    rw [hnone, solutions_of_find? hc, solutions_of_find? hfind]
    exact List.append_nil _
  | @credited s c hnames hanswer hc hfind =>
    have hcourse : s.course = id :=
      Option.some.inj ((he.submitsTo?_of_submission hanswer).symm.trans hnames)
    have hcount := hcounts id _ _ (course?_of_find? hc) (course?_of_find? hfind)
    rw [CourseRecord.solutionCount_credit] at hcount
    rw [draw?_of_submission hanswer (hcourse ▸ hc), solutions_of_find? hc,
      solutions_of_find? hfind, CourseRecord.solutionCount_credit, toNat_succ_of_le hcount,
      List.range_succ]
    simp [hcourse]

/-- A course has counted no more solutions than were drawn for. -/
theorem Numbers.solutions_le {draws : List Draw} (h : b.Numbers draws) (id : CourseId) :
    b.solutions id ≤ draws.length := by
  have hlength := congrArg List.length (h id)
  rw [List.length_map, List.length_range] at hlength
  exact hlength ▸ List.length_filter_le ..

/-- A step counts as long as no course has counted all that can be counted. -/
theorem Effect.counts (he : b.Effect now action reply)
    (hroom : ∀ id, b.solutions id + 1 < UInt64.size) : b.Counts reply := by
  intro id r r' hr hr'
  obtain ⟨c, hc, rfl⟩ := exists_find?_of_course? hr
  obtain ⟨c', hc', rfl⟩ := exists_find?_of_course? hr'
  cases he.courseStep id with
  | kept _ hfind =>
    cases (hfind.symm.trans hc').symm.trans hc
    exact UInt64.le_refl _
  | added _ _ _ hfree =>
    cases hfree.symm.trans hc
  | replaced _ _ _ hc₁ hfind =>
    cases hfind.symm.trans hc'
    cases hc₁.symm.trans hc
    exact UInt64.le_refl _
  | credited _ _ hc₁ hfind =>
    cases hfind.symm.trans hc'
    cases hc₁.symm.trans hc
    have hlt := hroom id
    rw [solutions_of_find? hc] at hlt
    rw [CourseRecord.solutionCount_credit, UInt64.le_iff_toNat_le, toNat_succ_of_lt hlt]
    exact Nat.le_succ _

/-- The draws of a run: a board is opened and performs operations that do not overflow; validators
and deployers are installed; and the board is put together again from a snapshot of itself, with
whatever settings, administrators and courses. -/
inductive HasDrawn : Board → List Draw → Prop where
  | new (config : Config) (admin : AdminPolicy) : HasDrawn (new config admin) []
  | withValidator {b : Board} {draws : List Draw} (h : b.HasDrawn draws) (validator : Validator) :
      HasDrawn (b.withValidator validator) draws
  | withDeployer {b : Board} {draws : List Draw} (h : b.HasDrawn draws) (deployer : Deployer) :
      HasDrawn (b.withDeployer deployer) draws
  | step {b : Board} {draws : List Draw} (h : b.HasDrawn draws) (now : Time) (action : Action)
      (hcounts : b.Counts (b.step now action)) :
      HasDrawn (b.step now action).board (draws ++ (b.draw? now (b.step now action)).toList)
  | restored {b b' : Board} {draws : List Draw} (h : b.HasDrawn draws) {config : Config}
      {admin : AdminPolicy} {now : Time} {resolve : CourseRecord → Option Course}
      (hrestore : restore config admin (b.snapshot now) resolve = .ok b') : HasDrawn b' draws

/-- The draws of a run are numbered. -/
theorem HasDrawn.numbers {draws : List Draw} (h : b.HasDrawn draws) : b.Numbers draws := by
  induction h with
  | new => exact fun _ => rfl
  | withValidator _ _ ih | withDeployer _ _ ih => exact ih
  | step _ now action hcounts ih => exact (effect_step _ now action).numbers ih hcounts
  | restored _ hrestore ih =>
    intro id
    rw [ih id, solutions, solutions, course?_of_restore hrestore]

/-- The draws of operations performed one after the other. -/
def draws (b : Board) : List (Time × Action) → List Draw
  | [] => []
  | (now, action) :: rest =>
    (b.draw? now (b.step now action)).toList ++ (b.step now action).board.draws rest

/-- A run goes on with fewer operations than there are words of 64 bits, and all are counted. -/
theorem HasDrawn.after {draws : List Draw} (h : b.HasDrawn draws)
    (actions : List (Time × Action)) (hlength : draws.length + actions.length < UInt64.size) :
    (b.after actions).HasDrawn (draws ++ b.draws actions) := by
  induction actions generalizing b draws with
  | nil => rwa [Board.draws, List.append_nil]
  | cons x rest ih =>
    obtain ⟨now, action⟩ := x
    have hroom : ∀ id, b.solutions id + 1 < UInt64.size := fun id => by
      have := h.numbers.solutions_le id
      rw [List.length_cons] at hlength
      omega
    have hstep := h.step now action ((effect_step b now action).counts hroom)
    rw [after_cons, Board.draws, ← List.append_assoc]
    refine ih hstep ?_
    have hone : (b.draw? now (b.step now action)).toList.length ≤ 1 := by
      cases b.draw? now (b.step now action) <;> simp
    rw [List.length_append]
    rw [List.length_cons] at hlength
    omega

/-- **Accepted solutions run on seeds that are drawn from different bytes.** Over every run, also
one that goes on from a snapshot of its board, with any players, courses and times: any two draws
digest different bytes, so equal seeds are different byte strings whose digests begin with the same
eight bytes. The draws are those of the accepted submissions and reveals: each of them was deployed,
and its target was run on the seed of its draw at the cost that is reported. -/
theorem seed_inputs_differ {draws : List Draw} (h : b.HasDrawn draws) :
    (draws.Pairwise fun d d' => d.bytes ≠ d'.bytes ∧
      (d.seed = d'.seed →
        (sha256 d.bytes).toBytes.take 8 = (sha256 d'.bytes).toBytes.take 8)) ∧
    ∀ now action s, (b.step now action).answer = .ok (.submission s) →
      ∃ d solution c target, b.draw? now (b.step now action) = some d ∧
        action.solution? = some solution ∧ b.Deployed s.course solution c target ∧
        c.course.run target d.seed = .ok s.cost := by
  refine ⟨?_, fun now action s hanswer => (effect_step b now action).run_of_submission hanswer⟩
  have hnumbers : draws.Pairwise fun d d' =>
      d.course = d'.course → d.solutionCount.toNat ≠ d'.solutionCount.toNat :=
    pairwise_of_nodup_filter fun id => h.numbers id ▸ List.nodup_range
  refine hnumbers.imp fun {d d'} hne => ⟨fun hbytes => ?_, Draw.seed_eq_iff.mp⟩
  cases Draw.bytes_injective hbytes
  exact hne rfl rfl

/-- Alice submits twice at one time, the board is put together from its snapshot, and she submits
once more at the same time: three draws, at the counts 0, 1 and 2. -/
theorem seed_inputs_differ_of_restart :
    let submit : Time × Action := (5, .submit Sample.alice ⟨1⟩ [1, 2] none)
    let b := Sample.board.after [(0, .addCourse Sample.root Sample.shortest .full), submit, submit]
    let draw (n : UInt64) : Draw := ⟨Sample.alice, ⟨1⟩, n, 5⟩
    ∃ kept, restore b.config b.admin (b.snapshot 6) (fun _ => some Sample.shortest) = .ok kept ∧
      ((kept.withValidator b.validator).after [submit]).HasDrawn [draw 0, draw 1, draw 2] ∧
      (draw 0).bytes ≠ (draw 1).bytes ∧ (draw 1).bytes ≠ (draw 2).bytes := by
  intro submit b draw
  have hnew : Sample.board.HasDrawn [] := .withDeployer (.withValidator (.new ..) _) _
  have hfirst : b.HasDrawn [draw 0, draw 1] := hnew.after _ (by decide)
  let kept := (b.withValidator .pushAware).withDeployer .standard
  have hrestore : restore b.config b.admin (b.snapshot 6) (fun _ => some Sample.shortest) =
      .ok kept := rfl
  have hlast : ((kept.withValidator b.validator).after [submit]).HasDrawn
      [draw 0, draw 1, draw 2] :=
    ((hfirst.restored hrestore).withValidator b.validator).after [submit] (by decide)
  obtain ⟨hfirst, hrest⟩ := List.pairwise_cons.mp (seed_inputs_differ hlast).1
  refine ⟨kept, hrestore, hlast, (hfirst (draw 1) (by decide)).1, ?_⟩
  exact ((List.pairwise_cons.mp hrest).1 (draw 2) (by decide)).1

end Board

end CodeGolf
