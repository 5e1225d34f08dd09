import CodeGolf.Board.Play
import CodeGolf.Proofs.Lookup

/-!
# What a step can do

An operation is a program that reads and writes tables one after the other. The equations of
this module say what each of them comes to as a whole, and `Board.effect_step` collects them:
a step either refuses, and then the board is the one from before and nobody is told anything, or
it is one of six effects, each with the checks that it passed and all that it wrote. What a run
keeps is proved from this case distinction alone.

The reason why no refusal leaves a trace is in the order of the parts: every operation asks before
it writes. The one part that could still refuse then is `Registry.recordSolution`, which looks the
course up again, and `Board.judge` has just found it.
-/

namespace CodeGolf

/-! ## What may fail -/

section
variable {ε ε' α β : Type}

/-- Two parts in a row succeed exactly if the first does, and the second on what it gives. -/
theorem bind_eq_ok_iff {x : Except ε α} {f : α → Except ε β} {b : β} :
    x >>= f = .ok b ↔ ∃ a, x = .ok a ∧ f a = .ok b := by
  cases x with
  | error e => exact ⟨nofun, fun ⟨_, h, _⟩ => nomatch h⟩
  | ok a => exact ⟨fun h => ⟨a, rfl, h⟩, fun ⟨_, rfl, h⟩ => h⟩

/-- A reason put in other words is a failure all the same. -/
theorem mapError_eq_ok_iff {x : Except ε α} {f : ε → ε'} {a : α} :
    x.mapError f = .ok a ↔ x = .ok a := by
  cases x with
  | error e => exact ⟨nofun, nofun⟩
  | ok a' => exact ⟨fun h => by cases h; rfl, fun h => by cases h; rfl⟩

/-- Two parts in a row fail exactly if the first does, or the second on what the first gives. -/
theorem bind_eq_error_iff {x : Except ε α} {f : α → Except ε β} {e : ε} :
    x >>= f = .error e ↔ x = .error e ∨ ∃ a, x = .ok a ∧ f a = .error e := by
  cases x with
  | error e' =>
    refine ⟨fun h => .inl (by cases h; rfl), fun h => ?_⟩
    rcases h with h | ⟨_, h, _⟩ <;> cases h
    rfl
  | ok a =>
    refine ⟨fun h => .inr ⟨a, rfl, h⟩, fun h => ?_⟩
    rcases h with h | ⟨_, h, hf⟩ <;> cases h
    exact hf

/-- A failure in other words is the failure that was put so. -/
theorem mapError_eq_error_iff {x : Except ε α} {f : ε → ε'} {e : ε'} :
    x.mapError f = .error e ↔ ∃ e', x = .error e' ∧ f e' = e := by
  cases x with
  | error e' =>
    exact ⟨fun h => ⟨e', rfl, by cases h; rfl⟩, fun ⟨_, h, heq⟩ => by cases h; cases heq; rfl⟩
  | ok a => exact ⟨nofun, fun ⟨_, h, _⟩ => nomatch h⟩

end

/-- The state that a program leaves, whether it ends with a result or with a reason. -/
def stateAfter {ε σ α : Type} (program : EStateM ε σ α) (s : σ) : σ :=
  match program.run s with
  | .ok _ s' => s'
  | .error _ s' => s'

/-! ## An accepted submission -/

/-- The submission that an accepted solution makes of the record of its course and of the pars. -/
def Board.submission (b : Board) (record : CourseRecord) (submitter recipient : Player)
    (id : CourseId) (cost : Cost) (now : Time) (revealed : Bool) : Submission where
  course := id
  submitter := submitter
  recipient := recipient
  cost := cost
  titleChanged := record.title.yieldsTo cost
  previousHolder := record.titleHolder
  leadingCost := (record.credit recipient cost).leadingCost
  par := (b.pars.credit id recipient cost now).1
  revealed := revealed

/-- The board with an accepted submission counted: for the course, and for the recipient's
par. -/
def Board.credited (b : Board) (id : CourseId) (recipient : Player) (cost : Cost) (now : Time) :
    Board :=
  { b with
    registry := b.registry.credited id recipient cost
    pars := (b.pars.credit id recipient cost now).2 }

/-- The board with the commitment of a key marked as revealed. -/
def Board.consumed (b : Board) (key : Digest) (c : Commitment) (now : Time) : Board :=
  { b with ledger := b.ledger.insert key (c.revealed now) }

/-- A registration refuses and keeps the registry, or it adds a course with a name of its own under
an id that was free. -/
theorem Registry.register_cases (r : Registry) (course : Course) (allowed : OpcodeSet)
    (now : Time) :
    (∃ reason, (register course allowed now).run r = .error reason r) ∨
    ∃ next, (Text.trim course.name.toList).isEmpty = false ∧ r.nextId.succ? = some next ∧
      r.find? r.nextId = none ∧
      (register course allowed now).run r = .ok r.nextId
        ({ r with nextId := next }.insert ⟨.fresh r.nextId course.name allowed now, course⟩) := by
  rw [run_register]
  cases hname : (Text.trim course.name.toList).isEmpty with
  | true => exact .inl ⟨_, rfl⟩
  | false =>
    cases hnext : r.nextId.succ? with
    | none => exact .inl ⟨_, rfl⟩
    | some next =>
      cases hfree : r.contains r.nextId with
      | true => exact .inl ⟨_, rfl⟩
      | false =>
        rw [contains_eq_isSome] at hfree
        exact .inr ⟨next, rfl, rfl, by simpa using hfree, rfl⟩

/-- Who may be credited with a reveal is who committed the key, if the commitment is old enough and
was not consumed. -/
theorem Ledger.eligible_eq_ok_iff {l : Ledger} {key : Digest} {now : Time} {player : Player} :
    l.eligible key now = .ok player ↔
      ∃ c, l.find? key = some c ∧ l.minAge ≤ c.age now ∧
        (l.singleUse = true → c.revealedAt = none) ∧ c.player = player := by
  rw [eligible]
  cases l.find? key with
  | none => simp
  | some c =>
    simp only [Option.some.injEq, exists_eq_left']
    by_cases hage : c.age now < l.minAge
    · simp [hage, UInt64.not_le.mpr hage]
    · by_cases hused : l.singleUse = true ∧ c.isRevealed = true
      · have hsome : c.revealedAt ≠ none := Option.isSome_iff_ne_none.mp hused.2
        simp [hage, hused, hsome]
      · have hnone : l.singleUse = true → c.revealedAt = none := fun hs => by
          simpa [Commitment.isRevealed] using fun hr => hused ⟨hs, hr⟩
        rw [if_neg hage, if_neg (mt Bool.and_eq_true_iff.mp hused)]
        simpa [UInt64.not_lt.mp hage] using fun _ => hnone

namespace Board

@[simp] theorem ledger_credited (b : Board) (id : CourseId) (recipient : Player) (cost : Cost)
    (now : Time) : (b.credited id recipient cost now).ledger = b.ledger := rfl

@[simp] theorem ledger_consumed (b : Board) (key : Digest) (c : Commitment) (now : Time) :
    (b.consumed key c now).ledger = b.ledger.insert key (c.revealed now) := rfl

@[simp] theorem registry_consumed (b : Board) (key : Digest) (c : Commitment) (now : Time) :
    (b.consumed key c now).registry = b.registry := rfl

@[simp] theorem pars_consumed (b : Board) (key : Digest) (c : Commitment) (now : Time) :
    (b.consumed key c now).pars = b.pars := rfl

variable {b : Board} {id : CourseId} {now : Time}

/-- A board finds the course of an id exactly if its registry does. -/
theorem lookup_eq_ok_iff {c : RegisteredCourse} :
    b.lookup id = .ok c ↔ b.registry.find? id = some c := by
  rw [lookup]
  cases b.registry.find? id with
  | none => simp
  | some c' => simp

/-- A solution has a cost exactly if each stage lets it pass, from the lookup of the course to its
run on the seed of the submission. -/
theorem judge_eq_ok_iff {submitter : Player} {solution : Bytes} {cost : Cost} :
    b.judge submitter id solution now = .ok cost ↔
      ∃ c target, b.registry.find? id = some c ∧ b.checkSize solution = .ok () ∧
        b.checkCode id c.record.allowed solution = .ok () ∧
        b.deployer.deploy solution = .ok target ∧
        c.course.run target (runSeed submitter id c.record.solutionCount now) = .ok cost := by
  simp only [judge, bind_eq_ok_iff, mapError_eq_ok_iff, lookup_eq_ok_iff]
  constructor
  · rintro ⟨c, hc, ⟨⟩, hs, ⟨⟩, hv, target, hd, hr⟩
    exact ⟨c, target, hc, hs, hv, hd, hr⟩
  · rintro ⟨c, target, hc, hs, hv, hd, hr⟩
    exact ⟨c, hc, (), hs, (), hv, target, hd, hr⟩

/-- A solution with a cost is a solution of a course that the board has. -/
theorem exists_find?_of_judge {submitter : Player} {solution : Bytes} {cost : Cost}
    (h : b.judge submitter id solution now = .ok cost) :
    ∃ c, b.registry.find? id = some c := by
  obtain ⟨c, -, hc, -⟩ := judge_eq_ok_iff.mp h
  exact ⟨c, hc⟩

end Board

/-! ## The operations as equations -/

namespace Play

variable {id : CourseId} {now : Time}

/-- What comes after asking for an administrator is done if the caller is one; everybody else is
refused, and nothing changes. -/
theorem run_requireAdmin_bind {α : Type} (caller : Player) (rest : Unit → Play α) (t : Turn) :
    (requireAdmin caller >>= rest).run t =
      if t.board.admin.accepts caller then (rest ()).run t
      else .error (.registry (.unauthorized caller)) t := by
  rw [EStateM.run_bind, requireAdmin, run_ask, AdminPolicy.check]
  cases t.board.admin.accepts caller <;> rfl

/-- Adding a course refuses, or writes one new course and tells of it. -/
theorem run_addCourse (caller : Player) (course : Course) (allowed : OpcodeSet) (now : Time)
    (t : Turn) :
    (addCourse caller course allowed now).run t =
      if t.board.admin.accepts caller then
        match (Registry.register course allowed now).run t.board.registry with
        | .ok id registry =>
          .ok id ⟨{ t.board with registry }, t.told ++ [.courseAdded id course.name]⟩
        | .error reason registry =>
          .error (.registry reason) { t with board := { t.board with registry } }
      else .error (.registry (.unauthorized caller)) t := by
  rw [addCourse, run_requireAdmin_bind]
  simp only [EStateM.run_bind, run_onRegistry]
  cases (Registry.register course allowed now).run t.board.registry <;> rfl

/-- Replacing an allow-list refuses, or writes one record and tells of it. -/
theorem run_setAllowed (caller : Player) (id : CourseId) (allowed : OpcodeSet) (t : Turn) :
    (setAllowed caller id allowed).run t =
      if t.board.admin.accepts caller then
        match (Registry.setAllowed id allowed).run t.board.registry with
        | .ok _ registry =>
          .ok () ⟨{ t.board with registry }, t.told ++ [.allowListUpdated id allowed]⟩
        | .error reason registry =>
          .error (.registry reason) { t with board := { t.board with registry } }
      else .error (.registry (.unauthorized caller)) t := by
  rw [setAllowed, run_requireAdmin_bind]
  simp only [EStateM.run_bind, run_onRegistry]
  cases (Registry.setAllowed id allowed).run t.board.registry <;> rfl

/-- Replacing the validator refuses, or installs it and tells of it. -/
theorem run_setValidator (caller : Player) (validator : Validator) (t : Turn) :
    (setValidator caller validator).run t =
      if t.board.admin.accepts caller then
        .ok () ⟨{ t.board with validator }, t.told ++ [.validatorReplaced validator.name]⟩
      else .error (.registry (.unauthorized caller)) t := by
  rw [setValidator, run_requireAdmin_bind]
  rfl

/-- Committing a key refuses, or writes one commitment and tells of it. -/
theorem run_commit (caller : Player) (key : Digest) (now : Time) (t : Turn) :
    (commit caller key now).run t =
      if (t.board.ledger.find? key).isSome then .error (.commitment (.alreadyCommitted key)) t
      else
        .ok () ⟨{ t.board with ledger := t.board.ledger.insert key ⟨caller, now, none⟩ },
          t.told ++ [.committed key caller]⟩ := by
  simp only [commit, EStateM.run_bind, run_onLedger, Ledger.run_commit]
  cases (t.board.ledger.find? key).isSome <;> rfl

/-- Counting a solution of a course that the board has writes the course and the par, and
answers with the submission. -/
theorem run_award {t : Turn} {c : RegisteredCourse}
    (hc : t.board.registry.find? id = some c) (submitter recipient : Player) (cost : Cost)
    (now : Time) (revealed : Bool) :
    (award submitter recipient id cost now revealed).run t =
      .ok (t.board.submission c.record submitter recipient id cost now revealed)
        { t with board := t.board.credited id recipient cost now } := by
  simp only [award, EStateM.run_bind, run_onRegistry, Registry.run_recordSolution, hc, run_onPars,
    Board.credited, Registry.credited]
  rfl

section
variable {t : Turn} {caller : Player} {solution : Bytes} {recipient : Option Player} {cost : Cost}
  {c : RegisteredCourse} {reason : BoardError}

/-- A solution that is refused a cost is not submitted. -/
theorem run_submit_of_refused (hj : t.board.judge caller id solution now = .error reason) :
    (submit caller id solution recipient now).run t = .error reason t := by
  simp only [submit, EStateM.run_bind, run_ask, hj]

/-- A solution that has a cost is counted and told. -/
theorem run_submit_of_cost (hc : t.board.registry.find? id = some c)
    (hj : t.board.judge caller id solution now = .ok cost) :
    (submit caller id solution recipient now).run t =
      .ok (t.board.submission c.record caller (recipient.getD caller) id cost now false)
        ⟨t.board.credited id (recipient.getD caller) cost now,
          t.told ++ (t.board.submission c.record caller (recipient.getD caller) id cost now
            false).events⟩ := by
  simp only [submit, EStateM.run_bind, run_ask, hj, run_award hc]
  rfl

variable {salt : Salt} {key : Digest} {committer : Player} {commitment : Commitment}

/-- A reveal that the commitments do not allow is refused for their reason. -/
theorem run_reveal_of_ineligible {fault : CommitError}
    (he : t.board.ledger.eligible (commitmentKey caller solution salt) now = .error fault) :
    (reveal caller id solution salt recipient now).run t = .error (.commitment fault) t := by
  simp only [reveal, EStateM.run_bind, run_ask, he]
  rfl

/-- A reveal of a solution that is refused a cost leaves the commitment as it is. -/
theorem run_reveal_of_refused
    (he : t.board.ledger.eligible (commitmentKey caller solution salt) now = .ok committer)
    (hj : t.board.judge committer id solution now = .error reason) :
    (reveal caller id solution salt recipient now).run t = .error reason t := by
  simp only [reveal, EStateM.run_bind, run_ask, mapError_eq_ok_iff.mpr he, hj]

/-- A reveal that the commitments allow, of a solution that has a cost, is counted for the
committer; the commitment is then consumed, and the submission told. -/
theorem run_reveal_of_cost
    (hk : t.board.ledger.find? (commitmentKey caller solution salt) = some commitment)
    (he : t.board.ledger.eligible (commitmentKey caller solution salt) now = .ok committer)
    (hc : t.board.registry.find? id = some c)
    (hj : t.board.judge committer id solution now = .ok cost) :
    (reveal caller id solution salt recipient now).run t =
      .ok (t.board.submission c.record committer (recipient.getD committer) id cost now true)
        ⟨(t.board.credited id (recipient.getD committer) cost now).consumed
            (commitmentKey caller solution salt) commitment now,
          t.told ++ (t.board.submission c.record committer (recipient.getD committer) id cost now
            true).events⟩ := by
  have hmark : (Ledger.markRevealed (commitmentKey caller solution salt) now).run
      t.board.ledger =
        .ok true (t.board.ledger.insert (commitmentKey caller solution salt)
          (commitment.revealed now)) := by
    rw [Ledger.run_markRevealed, hk]
  simp only [reveal, EStateM.run_bind, run_ask, mapError_eq_ok_iff.mpr he, hj, run_award hc,
    run_onLedger]
  simp only [Board.credited, hmark]
  rfl

end

end Play

/-! ## The effects of a step -/

/-- What a step does to a board, together with the reply that it gives: it refuses and leaves
everything as it is, or it is one of six effects, each with the checks it passed. -/
inductive Board.Effect (b : Board) (now : Time) : Action → Reply → Prop where
  | refused {action : Action} {reason : BoardError} : Effect b now action ⟨.error reason, b, []⟩
  | courseAdded {caller : Player} {course : Course} {allowed : OpcodeSet} {next : CourseId}
      (hadmin : b.admin.accepts caller = true)
      (hname : (Text.trim course.name.toList).isEmpty = false)
      (hnext : b.registry.nextId.succ? = some next)
      (hfree : b.registry.find? b.registry.nextId = none) :
      Effect b now (.addCourse caller course allowed)
        ⟨.ok (.course b.registry.nextId),
          { b with
            registry := { b.registry with nextId := next }.insert
              ⟨.fresh b.registry.nextId course.name allowed now, course⟩ },
          [.courseAdded b.registry.nextId course.name]⟩
  | allowListReplaced {caller : Player} {id : CourseId} {allowed : OpcodeSet}
      {c : RegisteredCourse} (hadmin : b.admin.accepts caller = true)
      (hc : b.registry.find? id = some c) :
      Effect b now (.setAllowed caller id allowed)
        ⟨.ok .done,
          { b with registry := b.registry.insert { c with record := { c.record with allowed } } },
          [.allowListUpdated id allowed]⟩
  | validatorReplaced {caller : Player} {validator : Validator}
      (hadmin : b.admin.accepts caller = true) :
      Effect b now (.setValidator caller validator)
        ⟨.ok .done, { b with validator }, [.validatorReplaced validator.name]⟩
  | committed {caller : Player} {key : Digest} (hfree : b.ledger.find? key = none) :
      Effect b now (.commit caller key)
        ⟨.ok .done, { b with ledger := b.ledger.insert key ⟨caller, now, none⟩ },
          [.committed key caller]⟩
  | submitted {caller : Player} {id : CourseId} {solution : Bytes} {recipient : Option Player}
      {cost : Cost} {c : RegisteredCourse} (hc : b.registry.find? id = some c)
      (hj : b.judge caller id solution now = .ok cost) :
      Effect b now (.submit caller id solution recipient)
        ⟨.ok (.submission (b.submission c.record caller (recipient.getD caller) id cost now false)),
          b.credited id (recipient.getD caller) cost now,
          (b.submission c.record caller (recipient.getD caller) id cost now false).events⟩
  | revealed {caller : Player} {id : CourseId} {solution : Bytes} {salt : Salt}
      {recipient : Option Player} {committer : Player} {commitment : Commitment} {cost : Cost}
      {c : RegisteredCourse}
      (hk : b.ledger.find? (commitmentKey caller solution salt) = some commitment)
      (he : b.ledger.eligible (commitmentKey caller solution salt) now = .ok committer)
      (hc : b.registry.find? id = some c)
      (hj : b.judge committer id solution now = .ok cost) :
      Effect b now (.reveal caller id solution salt recipient)
        ⟨.ok (.submission
            (b.submission c.record committer (recipient.getD committer) id cost now true)),
          (b.credited id (recipient.getD committer) cost now).consumed
            (commitmentKey caller solution salt) commitment now,
          (b.submission c.record committer (recipient.getD committer) id cost now true).events⟩

namespace Board

/-- Every step is one of these effects. -/
theorem effect_step (b : Board) (now : Time) (action : Action) :
    b.Effect now action (b.step now action) := by
  cases action with
  | addCourse caller course allowed =>
    simp only [step, perform, Play.run_addCourse]
    cases hadmin : b.admin.accepts caller with
    | false => exact .refused
    | true =>
      rcases b.registry.register_cases course allowed now with
        ⟨reason, hrun⟩ | ⟨next, hname, hnext, hfree, hrun⟩
      · rw [if_pos rfl, hrun]
        exact .refused
      · rw [if_pos rfl, hrun]
        exact .courseAdded hadmin hname hnext hfree
  | setAllowed caller id allowed =>
    simp only [step, perform, Play.run_setAllowed, Registry.run_setAllowed]
    split
    · next hadmin =>
      cases hc : b.registry.find? id with
      | none => exact .refused
      | some c => exact .allowListReplaced hadmin hc
    · exact .refused
  | setValidator caller validator =>
    simp only [step, perform, Play.run_setValidator]
    split
    · next hadmin => exact .validatorReplaced hadmin
    · exact .refused
  | commit caller key =>
    simp only [step, perform, Play.run_commit]
    split
    · exact .refused
    · next hfree => exact .committed (by simpa using hfree)
  | submit caller id solution recipient =>
    rw [step, perform]
    cases hj : b.judge caller id solution now with
    | error reason =>
      rw [Play.run_submit_of_refused hj]
      exact .refused
    | ok cost =>
      obtain ⟨c, hc⟩ := exists_find?_of_judge hj
      rw [Play.run_submit_of_cost hc hj]
      exact .submitted hc hj
  | reveal caller id solution salt recipient =>
    rw [step, perform]
    cases he : b.ledger.eligible (commitmentKey caller solution salt) now with
    | error fault =>
      rw [Play.run_reveal_of_ineligible he]
      exact .refused
    | ok committer =>
      cases hj : b.judge committer id solution now with
      | error reason =>
        rw [Play.run_reveal_of_refused he hj]
        exact .refused
      | ok cost =>
        obtain ⟨c, hc⟩ := exists_find?_of_judge hj
        obtain ⟨commitment, hk, -⟩ := Ledger.eligible_eq_ok_iff.mp he
        rw [Play.run_reveal_of_cost hk he hc hj]
        exact .revealed hk he hc hj

end Board

end CodeGolf
