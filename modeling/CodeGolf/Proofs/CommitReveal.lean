import Mathlib.Data.List.Induction
import CodeGolf.Proofs.Run

/-!
# Commit and reveal over whole runs

The protocol keeps one commitment per key. What became of a key in a run is read off the log: the
commits of it that were accepted (`Board.commits`) and the times of its accepted reveals
(`Board.reveals`). The ledger of a board follows them (`Ledger.Follows`): there is at most one
accepted commit, the commitment that is found is the one it made, marked with the first reveal,
and commitments for a single use have at most one reveal. Two steps of the ledger change this,
committing a key that is free and consuming an eligible one, and each adds one entry to one of
the two lists; a run keeps it by induction from the end.

Who is credited with a reveal is the player whose commit was accepted, and a commit says nothing
about who made the key. `Board.reveal_credits_committer` states what holds, and
`Board.copied_key_takes_credit` is a run in which the credit goes to somebody who only copied the
key.
-/

namespace CodeGolf

/-! ## Commits and reveals of a key -/

/-- The key that an operation reveals. -/
def Action.revealedKey? : Action → Option Digest
  | .reveal caller _ solution salt _ => some (commitmentKey caller solution salt)
  | _ => none

/-- The key that an operation commits, with the player who commits it. -/
def Action.committedKey? : Action → Option (Digest × Player)
  | .commit caller key => some (key, caller)
  | _ => none

/-- The accepted commit of a key in an entry of a log: who committed, and when. -/
def commitOf? (key : Digest) : (Time × Action) × Reply → Option (Player × Time)
  | ((now, action), reply) =>
    match action.committedKey? with
    | some (key', caller) => if key' = key ∧ reply.answer.isOk then some (caller, now) else none
    | none => none

/-- The time of the accepted reveal of a key in an entry of a log. -/
def revealOf? (key : Digest) : (Time × Action) × Reply → Option Time
  | ((now, action), reply) =>
    if action.revealedKey? = some key ∧ reply.answer.isOk then some now else none

namespace Board

/-- The accepted commits of a key in a run, in order. -/
def commits (b : Board) (key : Digest) (actions : List (Time × Action)) : List (Player × Time) :=
  (b.log actions).filterMap (commitOf? key)

/-- The times of the accepted reveals of a key in a run, in order. -/
def reveals (b : Board) (key : Digest) (actions : List (Time × Action)) : List Time :=
  (b.log actions).filterMap (revealOf? key)

end Board

/-! ## Ages -/

/-- The age of a commitment is the time since it was made, and none if the clock is behind it: no
subtraction wraps. -/
theorem Commitment.toNat_age (c : Commitment) (now : Time) :
    (c.age now).toNat = now.toNat - c.committedAt.toNat := by
  rw [age]
  split
  · next hle => exact UInt64.toNat_sub_of_le _ _ hle
  · next hgt =>
    have hlt : now.toNat < c.committedAt.toNat :=
      UInt64.lt_iff_toNat_lt.mp (UInt64.not_le.mp hgt)
    rw [Nat.sub_eq_zero_of_le (Nat.le_of_lt hlt)]
    rfl

/-! ## The ledger follows the run -/

namespace Ledger

/-- What a ledger knows of a key is what a run did to the key: the accepted commits and the times
of the accepted reveals. -/
structure Follows (l : Ledger) (key : Digest) (commits : List (Player × Time))
    (reveals : List Time) : Prop where
  once : commits.length ≤ 1
  found : l.find? key =
    commits.head?.map fun (player, made) => ⟨player, made, reveals.head?⟩
  committed : commits = [] → reveals = []
  consumed : l.singleUse = true → reveals.length ≤ 1

variable {l : Ledger} {key : Digest} {commits : List (Player × Time)} {reveals : List Time}

/-- A key that is found was committed, by the player and at the time of its commitment. -/
theorem Follows.commits_eq (hl : l.Follows key commits reveals) {c : Commitment}
    (hc : l.find? key = some c) :
    commits = [(c.player, c.committedAt)] ∧ c.revealedAt = reveals.head? := by
  have hfound := hl.found
  rw [hc] at hfound
  obtain ⟨⟨player, made⟩, hhead, rfl⟩ := Option.map_eq_some_iff.mp hfound.symm
  obtain ⟨rest, rfl⟩ := List.head?_eq_some_iff.mp hhead
  have hrest : rest = [] := by
    have := hl.once
    rw [List.length_cons] at this
    exact List.eq_nil_of_length_eq_zero (by omega)
  exact ⟨by rw [hrest], rfl⟩

/-- A free key was neither committed nor revealed. -/
theorem Follows.eq_nil (hl : l.Follows key commits reveals) (hfree : l.find? key = none) :
    commits = [] ∧ reveals = [] := by
  have hfound := hl.found
  rw [hfree, eq_comm, Option.map_eq_none_iff, List.head?_eq_none_iff] at hfound
  exact ⟨hfound, hl.committed hfound⟩

/-- Committing a free key is one more commit of it. -/
theorem Follows.commit (hl : l.Follows key commits reveals) {key' : Digest}
    (hfree : l.find? key' = none) (player : Player) (now : Time) :
    (l.insert key' ⟨player, now, none⟩).Follows key
      (commits ++ if key' = key then [(player, now)] else []) reveals := by
  by_cases heq : key' = key
  · subst heq
    obtain ⟨rfl, rfl⟩ := hl.eq_nil hfree
    refine ⟨by simp, ?_, fun _ => rfl, fun _ => Nat.zero_le _⟩
    rw [find?_insert, if_pos rfl, if_pos rfl]
    rfl
  · rw [if_neg heq, List.append_nil]
    refine ⟨hl.once, ?_, hl.committed, hl.consumed⟩
    rw [find?_insert, if_neg heq, hl.found]

/-- Consuming an eligible commitment is one more reveal of its key. -/
theorem Follows.reveal (hl : l.Follows key commits reveals) {key' : Digest} {c : Commitment}
    {now : Time} {player : Player} (hc : l.find? key' = some c)
    (he : l.eligible key' now = .ok player) :
    (l.insert key' (c.revealed now)).Follows key commits
      (reveals ++ if key' = key then [now] else []) := by
  by_cases heq : key' = key
  · subst heq
    obtain ⟨hcommits, hrevealed⟩ := hl.commits_eq hc
    obtain ⟨c', hc', -, hused, -⟩ := eligible_eq_ok_iff.mp he
    cases hc.symm.trans hc'
    rw [if_pos rfl]
    refine ⟨hl.once, ?_, fun hnil => by simp [hcommits] at hnil, fun hsingle => ?_⟩
    · rw [find?_insert, if_pos rfl, hcommits, List.head?_append, ← hrevealed]
      cases hr : c.revealedAt <;> simp [Commitment.revealed, hr]
    · -- Nothing was revealed so far: a commitment for a single use is eligible only then.
      have hnil : reveals = [] := by
        rw [← List.head?_eq_none_iff, ← hrevealed]
        exact hused hsingle
      simp [hnil]
  · rw [if_neg heq, List.append_nil]
    refine ⟨hl.once, ?_, hl.committed, hl.consumed⟩
    rw [find?_insert, if_neg heq, hl.found]

end Ledger

namespace Board

variable {b : Board} {key : Digest} {now : Time} {action : Action} {reply : Reply}
  {cs : List (Player × Time)} {rs : List Time}

/-- **One step keeps the ledger in step with the log.** -/
theorem Effect.follows (he : b.Effect now action reply) (hb : b.ledger.Follows key cs rs) :
    reply.board.ledger.Follows key
      (cs ++ (commitOf? key ((now, action), reply)).toList)
      (rs ++ (revealOf? key ((now, action), reply)).toList) := by
  -- Only a commit adds to the first list, and only a reveal to the second.
  cases he with
  | @refused action reason =>
    have hc : commitOf? key ((now, action), ⟨.error reason, b, []⟩) = none := by
      rw [commitOf?]
      split <;> simp [Except.isOk, Except.toBool]
    have hr : revealOf? key ((now, action), ⟨.error reason, b, []⟩) = none := by
      simp [revealOf?, Except.isOk, Except.toBool]
    simpa [hc, hr] using hb
  | courseAdded | allowListReplaced | validatorReplaced | submitted =>
    simpa [commitOf?, revealOf?, Action.committedKey?, Action.revealedKey?] using hb
  | @committed caller key' hfree =>
    have hcommit := hb.commit hfree caller now
    have hc : (commitOf? key ((now, .commit caller key'),
        ⟨.ok .done, { b with ledger := b.ledger.insert key' ⟨caller, now, none⟩ },
          [.committed key' caller]⟩)).toList = if key' = key then [(caller, now)] else [] := by
      by_cases heq : key' = key <;>
        simp [commitOf?, Action.committedKey?, Except.isOk, Except.toBool, heq]
    rw [hc]
    simpa [revealOf?, Action.revealedKey?] using hcommit
  | @revealed caller id solution salt recipient committer commitment cost c hk he hc hj =>
    have hreveal := hb.reveal hk he
    simp only [commitOf?, Action.committedKey?, revealOf?, Action.revealedKey?,
      Option.some.injEq, Except.isOk, Except.toBool, and_true, Option.toList_none,
      List.append_nil]
    by_cases heq : commitmentKey caller solution salt = key <;> simpa [heq] using hreveal

/-- The rules of the ledger are those of the board's settings, whatever happens. -/
theorem Effect.ledgerRules (he : b.Effect now action reply) :
    reply.board.ledger.minAge = b.ledger.minAge ∧
      reply.board.ledger.singleUse = b.ledger.singleUse := by
  cases he <;> exact ⟨rfl, rfl⟩

section
variable (config : Config) (admin : AdminPolicy) (validator : Validator) (deployer : Deployer)
  (actions : List (Time × Action))

/-- **The ledger follows the run.** -/
theorem ledger_follows (key : Digest) :
    ((opened config admin validator deployer).after actions).ledger.Follows key
      ((opened config admin validator deployer).commits key actions)
      ((opened config admin validator deployer).reveals key actions) := by
  induction actions using List.reverseRecOn with
  | nil => exact ⟨Nat.zero_le _, rfl, fun _ => rfl, fun _ => Nat.zero_le _⟩
  | append_singleton actions x ih =>
    obtain ⟨now, action⟩ := x
    rw [after_concat, commits, reveals, filterMap_log_concat, filterMap_log_concat]
    exact (effect_step _ now action).follows ih

/-- A run leaves the rules of the ledger as the settings give them. -/
theorem ledgerRules_after :
    ((opened config admin validator deployer).after actions).ledger.minAge =
        config.minCommitAge ∧
      ((opened config admin validator deployer).after actions).ledger.singleUse =
        config.singleUseCommitments := by
  induction actions using List.reverseRecOn with
  | nil => exact ⟨rfl, rfl⟩
  | append_singleton actions x ih =>
    obtain ⟨now, action⟩ := x
    obtain ⟨hage, hsingle⟩ := (effect_step _ now action).ledgerRules
    rw [after_concat, hage, hsingle]
    exact ih

end

/-- An accepted reveal found a commitment that was old enough, and is a submission by whoever made
it: the whole reply is known. -/
theorem exists_commitment_of_reveal {caller : Player} {id : CourseId} {solution : Bytes}
    {salt : Salt} {recipient : Option Player} {answer : Answer}
    (h : (b.step now (.reveal caller id solution salt recipient)).answer = .ok answer) :
    ∃ commitment c cost,
      b.ledger.find? (commitmentKey caller solution salt) = some commitment ∧
      b.ledger.minAge ≤ commitment.age now ∧
      b.registry.find? id = some c ∧
      answer = .submission (b.submission c.record commitment.player
        (recipient.getD commitment.player) id cost now true) ∧
      (b.step now (.reveal caller id solution salt recipient)).board =
        (b.credited id (recipient.getD commitment.player) cost now).consumed
          (commitmentKey caller solution salt) commitment now := by
  have heff := b.effect_step now (.reveal caller id solution salt recipient)
  generalize b.step now (.reveal caller id solution salt recipient) = reply at heff h ⊢
  cases heff with
  | refused => cases h
  | @revealed _ _ _ _ _ committer commitment cost c hk he hc hj =>
    obtain ⟨commitment', hfound, hage, -, hplayer⟩ := Ledger.eligible_eq_ok_iff.mp he
    cases hk.symm.trans hfound
    subst hplayer
    cases h
    exact ⟨commitment, c, cost, hk, hage, hc, rfl, rfl⟩

/-- Counting a submission does not touch the commitments, also when it is refused. -/
theorem ledger_award {submitter recipient : Player} {id : CourseId} {cost : Cost}
    {revealed : Bool} {t t' : Turn} {s : Submission}
    (h : (Play.award submitter recipient id cost now revealed).run t = .ok s t') :
    t'.board.ledger = t.board.ledger := by
  cases hc : t.board.registry.find? id with
  | none =>
    simp only [Play.award, EStateM.run_bind, Play.run_onRegistry, Registry.run_recordSolution,
      hc] at h
    cases h
  | some c =>
    rw [Play.run_award hc] at h
    cases h
    rfl

/-- **Commit and reveal are safe over whole runs.** For every opened board and every key, in all
runs:

* at most one commit of the key is accepted;
* an accepted reveal of the key comes after that commit and is at least the minimum age later, as
  integers;
* if commitments are for a single use, at most one reveal of the key is accepted, whatever course
  and recipient it names;
* the commitment that is found is the one that the accepted commit made, with the time of the
  first accepted reveal;
* consuming a commitment after the submission was counted always finds it. -/
theorem commit_reveal_safety (config : Config) (admin : AdminPolicy) (validator : Validator)
    (deployer : Deployer) (key : Digest) :
    let start := opened config admin validator deployer
    (∀ actions, (start.commits key actions).length ≤ 1) ∧
    (∀ before now caller id solution salt recipient answer,
      commitmentKey caller solution salt = key →
      ((start.after before).step now (.reveal caller id solution salt recipient)).answer =
        .ok answer →
      ∃ player made, start.commits key before = [(player, made)] ∧
        (config.minCommitAge.toNat : Int) ≤ max 0 ((now.toNat : Int) - made.toNat)) ∧
    (config.singleUseCommitments = true → ∀ actions, (start.reveals key actions).length ≤ 1) ∧
    (∀ actions, (start.after actions).commitment? key =
      (start.commits key actions).head?.map fun (player, made) =>
        ⟨player, made, (start.reveals key actions).head?⟩) ∧
    (∀ before now committer recipient id cost s t,
      (start.after before).ledger.eligible key now = .ok committer →
      (Play.award committer recipient id cost now true).run ⟨start.after before, []⟩ = .ok s t →
      ∃ l, (Ledger.markRevealed key now).run t.board.ledger = .ok true l) := by
  intro start
  have hfollows : ∀ actions, (start.after actions).ledger.Follows key
      (start.commits key actions) (start.reveals key actions) := fun actions =>
    ledger_follows config admin validator deployer actions key
  have hrules := ledgerRules_after config admin validator deployer
  refine ⟨fun actions => (hfollows actions).once, ?_, fun hsingle actions => ?_,
    fun actions => (hfollows actions).found, ?_⟩
  · rintro before now caller id solution salt recipient answer rfl hr
    obtain ⟨c, -, -, hc, hage, -⟩ := exists_commitment_of_reveal hr
    refine ⟨c.player, c.committedAt, ((hfollows before).commits_eq hc).1, ?_⟩
    rw [(hrules before).1, UInt64.le_iff_toNat_le, c.toNat_age now] at hage
    omega
  · exact (hfollows actions).consumed ((hrules actions).2.trans hsingle)
  · intro before now committer recipient id cost s t he haward
    obtain ⟨c, hc, -⟩ := Ledger.eligible_eq_ok_iff.mp he
    rw [ledger_award haward, Ledger.run_markRevealed, hc]
    exact ⟨_, rfl⟩

/-! ## Who is credited with a reveal -/

/-- An accepted submission gives the title of its course to the recipient if the title yields. -/
theorem titleHolder?_credited {id : CourseId} {c : RegisteredCourse}
    (hc : b.registry.find? id = some c) (recipient : Player) (cost : Cost) (now : Time) :
    (b.credited id recipient cost now).titleHolder? id =
      if c.record.title.yieldsTo cost then some recipient else b.titleHolder? id := by
  have hnew : (b.registry.credited id recipient cost).find? id =
      some { c with record := c.record.credit recipient cost } := by
    rw [Registry.find?_credited, if_pos rfl, hc]
    rfl
  simp only [titleHolder?, Registry.titleHolder?, Registry.record?, credited, hnew, hc,
    Option.map_some, Option.bind_some, CourseRecord.titleHolder_credit]

/-- An accepted submission changes the recipient's par on its course and no other. -/
theorem personalBest?_credited (b : Board) (id : CourseId) (recipient : Player) (cost : Cost)
    (now : Time) (course : CourseId) (player : Player) :
    (b.credited id recipient cost now).personalBest? course player =
      if id = course ∧ recipient = player then some (b.pars.next id recipient cost now)
      else b.personalBest? course player := Pars.find?_credit ..

/-- An accepted reveal is a submission by the player of the commitment; title and par go to the
recipient, who is the submitter unless somebody else is named. -/
theorem submission_of_reveal {caller : Player} {id : CourseId} {solution : Bytes} {salt : Salt}
    {recipient : Option Player} {s : Submission}
    (h : (b.step now (.reveal caller id solution salt recipient)).answer = .ok (.submission s)) :
    let b' := (b.step now (.reveal caller id solution salt recipient)).board
    (∃ c, b.ledger.find? (commitmentKey caller solution salt) = some c ∧
      s.submitter = c.player) ∧
    s.recipient = recipient.getD s.submitter ∧
    b'.titleHolder? id = (if s.titleChanged then some s.recipient else b.titleHolder? id) ∧
    ∀ course player, b'.personalBest? course player =
      if id = course ∧ s.recipient = player then some (b.pars.next id s.recipient s.cost now)
      else b.personalBest? course player := by
  obtain ⟨commitment, c, cost, hk, -, hc, hanswer, hboard⟩ := exists_commitment_of_reveal h
  cases hanswer
  rw [hboard]
  exact ⟨⟨commitment, hk, rfl⟩, rfl, titleHolder?_credited hc _ cost now,
    personalBest?_credited b id _ cost now⟩

/-- **A reveal credits the committer.** On every board that a run reaches, an accepted reveal is a
submission by the player whose commit of the key was accepted in the run, and there is one such
commit. So the caller is the submitter exactly if that commit was the caller's own. Title and par
go to the recipient, who is the submitter if none is named: the title if it moved, and one more
submission on the par, and on no other. -/
theorem reveal_credits_committer (config : Config) (admin : AdminPolicy) (validator : Validator)
    (deployer : Deployer) (before : List (Time × Action)) (now : Time) (caller : Player)
    (id : CourseId) (solution : Bytes) (salt : Salt) (recipient : Option Player) (s : Submission)
    (hr : (((opened config admin validator deployer).after before).step now
      (.reveal caller id solution salt recipient)).answer = .ok (.submission s)) :
    let start := opened config admin validator deployer
    let key := commitmentKey caller solution salt
    let b := start.after before
    let b' := (b.step now (.reveal caller id solution salt recipient)).board
    (s.submitter = caller ↔ ∃ made, start.commits key before = [(caller, made)]) ∧
    (∃ made, start.commits key before = [(s.submitter, made)]) ∧
    s.recipient = recipient.getD s.submitter ∧
    b'.titleHolder? id = (if s.titleChanged then some s.recipient else b.titleHolder? id) ∧
    ∀ course player, b'.personalBest? course player =
      if id = course ∧ s.recipient = player then some (b.pars.next id s.recipient s.cost now)
      else b.personalBest? course player := by
  intro start key b b'
  obtain ⟨⟨c, hc, hsubmitter⟩, hcredit⟩ := submission_of_reveal hr
  have hcommits : start.commits key before = [(c.player, c.committedAt)] :=
    ((ledger_follows config admin validator deployer before key).commits_eq hc).1
  refine ⟨?_, ⟨c.committedAt, by rw [hcommits, hsubmitter]⟩, hcredit⟩
  rw [hcommits, hsubmitter]
  simp

end Board

/-! ## A copied key -/

namespace Sample

/-- A run in which a player commits a key. -/
def committing (player : Player) (key : Digest) : List (Time × Action) :=
  [(0, .addCourse root shortest .full), (1, .commit player key)]

/-- The commitment of such a run, for any key: digests are compared here and never computed. -/
theorem ledger_after_committing (player : Player) (key : Digest) :
    (board.after (committing player key)).ledger =
      (Ledger.empty 60 true).insert key ⟨player, 1, none⟩ := rfl

/-- The course of such a run. -/
theorem find?_after_committing (player : Player) (key : Digest) :
    (board.after (committing player key)).registry.find? ⟨1⟩ =
      some ⟨.fresh ⟨1⟩ "shortest" .full 0, shortest⟩ := rfl

/-- The cost of a solution of one byte after such a run. -/
theorem judge_after_committing (player submitter : Player) (key : Digest) :
    (board.after (committing player key)).judge submitter ⟨1⟩ [1] 61 = .ok 1 :=
  Board.judge_eq_ok_iff.mpr
    ⟨_, Target.ofCode [1], find?_after_committing player key, rfl, rfl, rfl, rfl⟩

/-- A minute after such a run the commitment may be revealed. -/
theorem eligible_after_committing (player : Player) (key : Digest) :
    (board.after (committing player key)).ledger.eligible key 61 = .ok player := by
  have hk : (board.after (committing player key)).ledger.find? key =
      some ⟨player, 1, none⟩ := by
    rw [ledger_after_committing, Ledger.find?_insert, if_pos rfl]
  have hage : (⟨player, 1, none⟩ : Commitment).age 61 = 60 := by
    show (if (1 : UInt64) ≤ 61 then (61 : UInt64) - 1 else 0) = 60
    decide
  refine Ledger.eligible_eq_ok_iff.mpr ⟨_, hk, ?_, fun _ => rfl, rfl⟩
  rw [hage, ledger_after_committing]
  exact UInt64.le_refl _

/-- Whoever committed the key of Alice's solution is credited with her reveal of it. -/
theorem answer_reveal (player : Player) :
    ((board.after (committing player (commitmentKey alice [1] 5))).step 61
      (.reveal alice ⟨1⟩ [1] 5 none)).answer =
      .ok (.submission
        { course := ⟨1⟩, submitter := player, recipient := player, cost := 1, titleChanged := true
          previousHolder := none, leadingCost := 1, par := .created, revealed := true }) := by
  have hk : (board.after (committing player (commitmentKey alice [1] 5))).ledger.find?
      (commitmentKey alice [1] 5) = some ⟨player, 1, none⟩ := by
    rw [ledger_after_committing, Ledger.find?_insert, if_pos rfl]
  have he := eligible_after_committing player (commitmentKey alice [1] 5)
  have hc := find?_after_committing player (commitmentKey alice [1] 5)
  have hj := judge_after_committing player player (commitmentKey alice [1] 5)
  have hrun : (Play.reveal alice ⟨1⟩ [1] 5 none 61).run
      ⟨board.after (committing player (commitmentKey alice [1] 5)), []⟩ = _ :=
    Play.run_reveal_of_cost hk he hc hj
  rw [Board.step, Board.perform, hrun]
  rfl

end Sample

namespace Board

/-- Alice's reveal a minute after her commit is accepted, so it has that commit before it. -/
theorem commit_reveal_safety_of_accepted :
    let key := commitmentKey Sample.alice [1] 5
    let before := Sample.committing Sample.alice key
    (∃ answer, ((Sample.board.after before).step 61
      (.reveal Sample.alice ⟨1⟩ [1] 5 none)).answer = .ok answer) ∧
    ∃ player made, Sample.board.commits key before = [(player, made)] ∧
      (60 : Int) ≤ max 0 ((61 : Int) - made.toNat) := by
  intro key before
  have hr := Sample.answer_reveal Sample.alice
  exact ⟨⟨_, hr⟩, (commit_reveal_safety _ _ _ _ key).2.1 _ _ _ _ _ _ _ _ rfl hr⟩

/-- A copied key is credited to the copier: Bob commits the key of Alice's solution before she
does, her commit is refused, and her reveal is Bob's submission. -/
theorem reveal_credits_committer_of_copied_key :
    let key := commitmentKey Sample.alice [1] 5
    let reveal : Action := .reveal Sample.alice ⟨1⟩ [1] 5 none
    let b := Sample.board.after (Sample.committing Sample.bob key)
    (b.step 2 (.commit Sample.alice key)).answer = .error (.commitment (.alreadyCommitted key)) ∧
    ∃ s, (b.step 61 reveal).answer = .ok (.submission s) ∧ s.submitter = Sample.bob ∧
      (∃ made, Sample.board.commits key (Sample.committing Sample.bob key) =
        [(Sample.bob, made)]) ∧
      (b.step 61 reveal).board.titleHolder? ⟨1⟩ = some Sample.bob := by
  intro key reveal b
  have hagain : (b.step 2 (.commit Sample.alice key)).answer =
      .error (.commitment (.alreadyCommitted key)) := by
    rw [step, perform, Play.run_commit, Sample.ledger_after_committing, Ledger.find?_insert,
      if_pos rfl]
    rfl
  have hr := Sample.answer_reveal Sample.bob
  obtain ⟨-, hcommits, -, htitle, -⟩ := reveal_credits_committer _ _ _ _ _ _ _ _ _ _ _ _ hr
  exact ⟨hagain, _, hr, rfl, hcommits, htitle⟩

/-- **A reveal need not credit the revealer.** Somebody who copies a key and commits it first is
credited with the reveal of the player whose solution it is. -/
theorem copied_key_takes_credit :
    ¬ ∀ (config : Config) (admin : AdminPolicy) (validator : Validator) (deployer : Deployer)
      (before : List (Time × Action)) (now : Time) (caller : Player) (id : CourseId)
      (solution : Bytes) (salt : Salt) (recipient : Option Player) (s : Submission),
      (((opened config admin validator deployer).after before).step now
        (.reveal caller id solution salt recipient)).answer = .ok (.submission s) →
      s.submitter = caller := by
  intro hclaim
  have hr := Sample.answer_reveal Sample.bob
  have halice : Sample.bob = Sample.alice := hclaim _ _ _ _ _ _ _ _ _ _ _ _ hr
  exact absurd halice (by decide)

end Board

end CodeGolf
