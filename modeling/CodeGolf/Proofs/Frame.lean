import CodeGolf.Proofs.CommitReveal
import CodeGolf.Proofs.History
import CodeGolf.Proofs.Listener

/-!
# What a step leaves alone

A board has three kinds of authority: administrators add courses, replace allow-lists and install
the validator; accepted submissions move scores; commits and reveals write commitments. This module
says for each entry of each table which steps can change it. `Board.CourseStep` is what a step can
do to a course, `Board.CommitmentStep` what it can do to a commitment, and a par has only the two
cases of `Board.Effect.personalBest?_cases`. Each is read off `Board.Effect` once.

`Board.Separated` states the separation entry by entry: if the entry differs after a step, then the
step was one that may change it, it was accepted, and an administrator asked for it where one has
to. `Board.authority_is_separated` proves it of every step of every board. From one step to the next
the policy stays the same, so a run in which no administrator asks for anything leaves the courses,
their allow-lists and the validator as they are, and no run takes the name, the id or the time of
its registration from a course.
-/

namespace CodeGolf

/-- The player who asks for an operation. -/
def Action.caller : Action → Player
  | .addCourse caller _ _ => caller
  | .setAllowed caller _ _ => caller
  | .setValidator caller _ => caller
  | .commit caller _ => caller
  | .reveal caller _ _ _ _ => caller
  | .submit caller _ _ _ => caller

/-- Whether an operation is kept for administrators. -/
def Action.isAdministration : Action → Bool
  | .addCourse _ _ _ => true
  | .setAllowed _ _ _ => true
  | .setValidator _ _ => true
  | .commit _ _ => false
  | .reveal _ _ _ _ _ => false
  | .submit _ _ _ _ => false

/-- What stays with a course as long as it is on a board. -/
structure RegisteredCourse.Identity where
  id : CourseId
  name : String
  registeredAt : Time
  course : Course

/-- The identity of a course. -/
def RegisteredCourse.identity (c : RegisteredCourse) : Identity :=
  ⟨c.record.id, c.record.name, c.record.registeredAt, c.course⟩

/-- A credit touches neither the identity of a course nor its allow-list. -/
theorem RegisteredCourse.identity_credit (c : RegisteredCourse) (player : Player) (cost : Cost) :
    identity { c with record := c.record.credit player cost } = c.identity ∧
      (c.record.credit player cost).allowed = c.record.allowed := by
  rw [CourseRecord.credit]
  split <;> exact ⟨rfl, rfl⟩

namespace Board

/-! ## One course -/

/-- What a step does to a course: nothing, and then it is no score on it; or an administrator adds
it or replaces its allow-list; or it is credited with an accepted submission that names it. -/
inductive CourseStep (b : Board) (now : Time) (action : Action) (reply : Reply) (id : CourseId) :
    Prop where
  | kept (hscore : score? id ((now, action), reply) = none)
      (hfind : reply.board.registry.find? id = b.registry.find? id)
  | added {caller : Player} {course : Course} {allowed : OpcodeSet}
      (haction : action = .addCourse caller course allowed)
      (hadmin : b.admin.accepts caller = true) (hanswer : reply.answer = .ok (.course id))
      (hfree : b.registry.find? id = none)
      (hfind : reply.board.registry.find? id =
        some ⟨.fresh id course.name allowed now, course⟩)
  | replaced {caller : Player} {allowed : OpcodeSet} {c : RegisteredCourse}
      (haction : action = .setAllowed caller id allowed)
      (hadmin : b.admin.accepts caller = true) (hanswer : reply.answer = .ok .done)
      (hc : b.registry.find? id = some c)
      (hfind : reply.board.registry.find? id =
        some { c with record := { c.record with allowed } })
  | credited {s : Submission} {c : RegisteredCourse} (hnames : action.submitsTo? = some id)
      (hanswer : reply.answer = .ok (.submission s)) (hc : b.registry.find? id = some c)
      (hfind : reply.board.registry.find? id =
        some { c with record := c.record.credit s.recipient s.cost })

variable {b : Board} {now : Time} {action : Action} {reply : Reply} {id : CourseId}

/-- The course of an accepted submission is credited, and no other course changes. -/
theorem find?_credited_cases {named : CourseId} {c : RegisteredCourse}
    (hc : b.registry.find? named = some c) (recipient : Player) (cost : Cost) (id : CourseId) :
    (named ≠ id ∧ (b.registry.credited named recipient cost).find? id = b.registry.find? id) ∨
      named = id ∧ (b.registry.credited named recipient cost).find? id =
        some { c with record := c.record.credit recipient cost } := by
  rw [Registry.find?_credited]
  by_cases h : named = id
  · subst h
    exact .inr ⟨rfl, by rw [if_pos rfl, hc, Option.map_some]⟩
  · exact .inl ⟨h, if_neg h⟩

/-- Every step has one of these effects on a course. -/
theorem Effect.courseStep (he : b.Effect now action reply) (id : CourseId) :
    b.CourseStep now action reply id := by
  have hquiet : action.submitsTo? ≠ some id → score? id ((now, action), reply) = none :=
    fun hne => score?_of_ne hne now reply
  cases he with
  | refused => exact .kept (score?_of_error ..) rfl
  | validatorReplaced | committed => exact .kept (hquiet nofun) rfl
  | @courseAdded caller course allowed next hadmin hname hnext hfree =>
    have hfind := Registry.find?_insert { b.registry with nextId := next }
      ⟨.fresh b.registry.nextId course.name allowed now, course⟩ id
    by_cases h : b.registry.nextId = id
    · subst h
      exact .added rfl hadmin rfl hfree (hfind.trans (if_pos rfl))
    · exact .kept (hquiet nofun) (hfind.trans (if_neg h))
  | @allowListReplaced caller named allowed c hadmin hc =>
    have hfind := Registry.find?_insert b.registry { c with record := { c.record with allowed } } id
    have hid : c.record.id = named := Registry.id_of_find? hc
    by_cases h : named = id
    · subst h
      exact .replaced rfl hadmin rfl hc (hfind.trans (if_pos hid))
    · have hne : c.record.id ≠ id := fun heq => h (hid.symm.trans heq)
      exact .kept (hquiet nofun) (hfind.trans (if_neg hne))
  | submitted hc hj | revealed hk he hc hj =>
    rcases find?_credited_cases hc _ _ id with ⟨hne, hkept⟩ | ⟨rfl, hfind⟩
    · exact .kept (hquiet fun h => hne (Option.some.inj h)) hkept
    · exact .credited rfl rfl hc hfind

/-- A course that is there stays there as the course it is. -/
theorem CourseStep.identity (h : b.CourseStep now action reply id) {c : RegisteredCourse}
    (hc : b.registry.find? id = some c) :
    ∃ c', reply.board.registry.find? id = some c' ∧ c'.identity = c.identity := by
  cases h with
  | kept _ hfind => exact ⟨c, hfind.trans hc, rfl⟩
  | added _ _ _ hfree _ =>
    rw [hfree] at hc
    cases hc
  | replaced _ _ _ hc' hfind =>
    cases hc'.symm.trans hc
    exact ⟨_, hfind, rfl⟩
  | credited _ _ hc' hfind =>
    cases hc'.symm.trans hc
    exact ⟨_, hfind, (RegisteredCourse.identity_credit ..).1⟩

/-! ## One par -/

/-- A step changes a par only if it is an accepted submission on its course that credits its
holder. -/
theorem Effect.personalBest?_cases (he : b.Effect now action reply) (id : CourseId)
    (player : Player) :
    reply.board.personalBest? id player = b.personalBest? id player ∨
      ∃ s, action.submitsTo? = some id ∧ reply.answer = .ok (.submission s) ∧
        s.recipient = player ∧
        reply.board.personalBest? id player = some (b.pars.next id player s.cost now) := by
  cases he with
  | refused | courseAdded | allowListReplaced | validatorReplaced | committed => exact .inl rfl
  | @submitted caller named solution recipient cost c hc hj =>
    have hfind := personalBest?_credited b named (recipient.getD caller) cost now id player
    by_cases h : named = id ∧ recipient.getD caller = player
    · obtain ⟨rfl, rfl⟩ := h
      exact .inr ⟨_, rfl, rfl, rfl, hfind.trans (if_pos ⟨rfl, rfl⟩)⟩
    · exact .inl (hfind.trans (if_neg h))
  | @revealed caller named solution salt recipient committer commitment cost c hk he hc hj =>
    have hfind := personalBest?_credited b named (recipient.getD committer) cost now id player
    by_cases h : named = id ∧ recipient.getD committer = player
    · obtain ⟨rfl, rfl⟩ := h
      exact .inr ⟨_, rfl, rfl, rfl, hfind.trans (if_pos ⟨rfl, rfl⟩)⟩
    · exact .inl (hfind.trans (if_neg h))

/-! ## One commitment -/

/-- What a step does to a commitment: nothing; or it is made; or it is marked with the time of an
accepted reveal of its key. -/
inductive CommitmentStep (b : Board) (now : Time) (action : Action) (reply : Reply) (key : Digest) :
    Prop where
  | kept (hfind : reply.board.commitment? key = b.commitment? key)
  | made {caller : Player} (haction : action = .commit caller key)
      (hanswer : reply.answer = .ok .done) (hfree : b.commitment? key = none)
      (hfind : reply.board.commitment? key = some ⟨caller, now, none⟩)
  | marked {s : Submission} {c : Commitment} (hkey : action.revealedKey? = some key)
      (hanswer : reply.answer = .ok (.submission s)) (hc : b.commitment? key = some c)
      (hfind : reply.board.commitment? key = some (c.revealed now))

/-- Every step has one of these effects on a commitment. -/
theorem Effect.commitmentStep (he : b.Effect now action reply) (key : Digest) :
    b.CommitmentStep now action reply key := by
  cases he with
  | refused | courseAdded | allowListReplaced | validatorReplaced | submitted => exact .kept rfl
  | @committed caller made hfree =>
    have hfind := Ledger.find?_insert b.ledger made ⟨caller, now, none⟩ key
    by_cases h : made = key
    · subst h
      exact .made rfl rfl hfree (hfind.trans (if_pos rfl))
    · exact .kept (hfind.trans (if_neg h))
  | @revealed caller named solution salt recipient committer commitment cost c hk he hc hj =>
    have hfind := Ledger.find?_insert b.ledger (commitmentKey caller solution salt)
      (commitment.revealed now) key
    by_cases h : commitmentKey caller solution salt = key
    · subst h
      exact .marked rfl rfl hk (hfind.trans (if_pos rfl))
    · exact .kept (hfind.trans (if_neg h))

/-! ## Authority -/

/-- A step changes an entry of a board only with the authority to do so. Each field but the last
three takes an entry that differs after the step and says what the step was. -/
structure Separated (b : Board) (now : Time) (action : Action) (reply : Reply) : Prop where
  courses : ∀ id, reply.board.registry.contains id ≠ b.registry.contains id →
    b.admin.accepts action.caller = true ∧ reply.answer = .ok (.course id) ∧
      ∃ course allowed, action = .addCourse action.caller course allowed
  allowed : ∀ id r r', b.course? id = some r → reply.board.course? id = some r' →
    r'.allowed ≠ r.allowed →
      b.admin.accepts action.caller = true ∧ reply.answer = .ok .done ∧
        action = .setAllowed action.caller id r'.allowed
  validator : reply.board.validator ≠ b.validator →
    b.admin.accepts action.caller = true ∧ reply.answer = .ok .done ∧
      action = .setValidator action.caller reply.board.validator
  score : ∀ id r r', b.course? id = some r → reply.board.course? id = some r' →
    r'.score ≠ r.score →
      action.submitsTo? = some id ∧ ∃ s, reply.answer = .ok (.submission s)
  par : ∀ id player, reply.board.personalBest? id player ≠ b.personalBest? id player →
    action.submitsTo? = some id ∧ ∃ s, reply.answer = .ok (.submission s) ∧ s.recipient = player
  commitment : ∀ key, reply.board.commitment? key ≠ b.commitment? key →
    (action = .commit action.caller key ∧ reply.answer = .ok .done ∧ b.commitment? key = none ∧
      reply.board.commitment? key = some ⟨action.caller, now, none⟩) ∨
    (action.revealedKey? = some key ∧ (∃ s, reply.answer = .ok (.submission s)) ∧
      ∃ c, b.commitment? key = some c ∧ c.revealedAt = none ∧
        reply.board.commitment? key = some { c with revealedAt := some now })
  identity : ∀ id c, b.registry.find? id = some c →
    ∃ c', reply.board.registry.find? id = some c' ∧ c'.identity = c.identity
  administration : action.isAdministration = true →
    reply.board.pars = b.pars ∧ reply.board.ledger = b.ledger ∧
      ∀ id r, b.course? id = some r → ∃ r', reply.board.course? id = some r' ∧ r'.score = r.score
  settings : reply.board.config = b.config ∧ reply.board.admin = b.admin ∧
    reply.board.deployer = b.deployer

/-- A course that appears or disappears was added by an administrator. -/
theorem CourseStep.added_of_contains_ne (h : b.CourseStep now action reply id)
    (hne : reply.board.registry.contains id ≠ b.registry.contains id) :
    b.admin.accepts action.caller = true ∧ reply.answer = .ok (.course id) ∧
      ∃ course allowed, action = .addCourse action.caller course allowed := by
  simp only [Registry.contains_eq_isSome] at hne
  cases h with
  | kept _ hfind => exact absurd (congrArg Option.isSome hfind) hne
  | @added caller course allowed haction hadmin hanswer hfree hfind =>
    subst haction
    exact ⟨hadmin, hanswer, course, allowed, rfl⟩
  | replaced _ _ _ hc hfind | credited _ _ hc hfind =>
    rw [hc, hfind] at hne
    exact absurd rfl hne

/-- The record of a course before and after a step. -/
theorem exists_find?_of_course? {b : Board} {r : CourseRecord} (h : b.course? id = some r) :
    ∃ c, b.registry.find? id = some c ∧ c.record = r :=
  Option.map_eq_some_iff.mp h

/-- An allow-list that differs after a step was replaced by an administrator. -/
theorem CourseStep.replaced_of_allowed_ne (h : b.CourseStep now action reply id)
    {r r' : CourseRecord} (hr : b.course? id = some r) (hr' : reply.board.course? id = some r')
    (hne : r'.allowed ≠ r.allowed) :
    b.admin.accepts action.caller = true ∧ reply.answer = .ok .done ∧
      action = .setAllowed action.caller id r'.allowed := by
  obtain ⟨c, hc, rfl⟩ := exists_find?_of_course? hr
  obtain ⟨c', hc', rfl⟩ := exists_find?_of_course? hr'
  cases h with
  | kept _ hfind =>
    cases hc'.symm.trans (hfind.trans hc)
    exact absurd rfl hne
  | added _ _ _ hfree _ =>
    rw [hfree] at hc
    cases hc
  | replaced haction hadmin hanswer _ hfind =>
    cases hc'.symm.trans hfind
    subst haction
    exact ⟨hadmin, hanswer, rfl⟩
  | credited _ _ hcold hfind =>
    cases hc'.symm.trans hfind
    cases hcold.symm.trans hc
    exact absurd (RegisteredCourse.identity_credit ..).2 hne

/-- A score that differs after a step was moved by an accepted submission on its course. -/
theorem CourseStep.credited_of_score_ne (h : b.CourseStep now action reply id)
    {r r' : CourseRecord} (hr : b.course? id = some r) (hr' : reply.board.course? id = some r')
    (hne : r'.score ≠ r.score) :
    action.submitsTo? = some id ∧ ∃ s, reply.answer = .ok (.submission s) := by
  obtain ⟨c, hc, rfl⟩ := exists_find?_of_course? hr
  obtain ⟨c', hc', rfl⟩ := exists_find?_of_course? hr'
  cases h with
  | kept _ hfind =>
    cases hc'.symm.trans (hfind.trans hc)
    exact absurd rfl hne
  | added _ _ _ hfree _ =>
    rw [hfree] at hc
    cases hc
  | replaced _ _ _ hcold hfind =>
    cases hc'.symm.trans hfind
    cases hcold.symm.trans hc
    exact absurd rfl hne
  | credited hnames hanswer _ _ => exact ⟨hnames, _, hanswer⟩

/-- A commitment that differs after a step was made by it, or was revealed by it for the first
time. -/
theorem CommitmentStep.of_ne {key : Digest} (h : b.CommitmentStep now action reply key)
    (hne : reply.board.commitment? key ≠ b.commitment? key) :
    (action = .commit action.caller key ∧ reply.answer = .ok .done ∧ b.commitment? key = none ∧
      reply.board.commitment? key = some ⟨action.caller, now, none⟩) ∨
    (action.revealedKey? = some key ∧ (∃ s, reply.answer = .ok (.submission s)) ∧
      ∃ c, b.commitment? key = some c ∧ c.revealedAt = none ∧
        reply.board.commitment? key = some { c with revealedAt := some now }) := by
  cases h with
  | kept hfind => exact absurd hfind hne
  | made haction hanswer hfree hfind =>
    subst haction
    exact .inl ⟨rfl, hanswer, hfree, hfind⟩
  | @marked s c hkey hanswer hc hfind =>
    refine .inr ⟨hkey, ⟨s, hanswer⟩, c, hc, ?_⟩
    cases hrevealed : c.revealedAt with
    | none => exact ⟨rfl, by rw [hfind, Commitment.revealed, hrevealed, Option.getD_none]⟩
    | some first =>
      -- The first reveal is the one that is kept, so nothing would differ.
      have hsame : c.revealed now = c := by
        rw [Commitment.revealed, hrevealed, Option.getD_some, ← hrevealed]
      rw [hfind, hc, hsame] at hne
      exact absurd rfl hne

/-- An administrator's operation writes no par and no commitment. -/
theorem Effect.tables_of_administration (he : b.Effect now action reply)
    (hadmin : action.isAdministration = true) :
    reply.board.pars = b.pars ∧ reply.board.ledger = b.ledger := by
  cases he with
  | refused | courseAdded | allowListReplaced | validatorReplaced => exact ⟨rfl, rfl⟩
  | committed | submitted | revealed => cases hadmin

/-- No step replaces the settings, the policy or the deployer, and only an administrator replaces
the validator. -/
theorem Effect.settings (he : b.Effect now action reply) :
    (reply.board.config = b.config ∧ reply.board.admin = b.admin ∧
      reply.board.deployer = b.deployer) ∧
    (reply.board.validator ≠ b.validator →
      b.admin.accepts action.caller = true ∧ reply.answer = .ok .done ∧
        action = .setValidator action.caller reply.board.validator) := by
  cases he with
  | validatorReplaced hadmin => exact ⟨⟨rfl, rfl, rfl⟩, fun _ => ⟨hadmin, rfl, rfl⟩⟩
  | refused | courseAdded | allowListReplaced | committed | submitted | revealed =>
    exact ⟨⟨rfl, rfl, rfl⟩, fun hne => absurd rfl hne⟩

/-- An operation of an administrator is no submission. -/
theorem submitsTo?_of_administration (hadmin : action.isAdministration = true) :
    action.submitsTo? = none := by
  cases action with
  | addCourse | setAllowed | setValidator => rfl
  | commit | reveal | submit => cases hadmin

/-- **Every step has the authority for what it changes.** -/
theorem Effect.separated (he : b.Effect now action reply) : b.Separated now action reply where
  courses id := (he.courseStep id).added_of_contains_ne
  allowed id r r' hr hr' := (he.courseStep id).replaced_of_allowed_ne hr hr'
  validator := he.settings.2
  score id r r' hr hr' := (he.courseStep id).credited_of_score_ne hr hr'
  par id player hne := by
    rcases he.personalBest?_cases id player with hkept | ⟨s, hnames, hanswer, hrecipient, -⟩
    · exact absurd hkept hne
    · exact ⟨hnames, s, hanswer, hrecipient⟩
  commitment key := (he.commitmentStep key).of_ne
  identity id c := (he.courseStep id).identity
  administration hadmin := by
    obtain ⟨hpars, hledger⟩ := he.tables_of_administration hadmin
    refine ⟨hpars, hledger, fun id r hr => ?_⟩
    obtain ⟨c, hc, rfl⟩ := exists_find?_of_course? hr
    obtain ⟨c', hc', -⟩ := (he.courseStep id).identity hc
    have hr' := course?_of_find? hc'
    refine ⟨c'.record, hr', by_contra fun hne => ?_⟩
    -- A score that differs names a submission, and this is none.
    obtain ⟨hnames, -⟩ := (he.courseStep id).credited_of_score_ne hr hr' hne
    rw [submitsTo?_of_administration hadmin] at hnames
    cases hnames
  settings := he.settings.1

/-! ## Runs -/

/-- The rules of a board stay the same: its policy, its validator, its courses and their
allow-lists. -/
structure SameRules (b b' : Board) : Prop where
  admin : b'.admin = b.admin
  validator : b'.validator = b.validator
  allowed : ∀ id, (b'.course? id).map CourseRecord.allowed = (b.course? id).map CourseRecord.allowed

theorem SameRules.refl (b : Board) : b.SameRules b := ⟨rfl, rfl, fun _ => rfl⟩

theorem SameRules.trans {b b' b'' : Board} (h : b.SameRules b') (h' : b'.SameRules b'') :
    b.SameRules b'' where
  admin := h'.admin.trans h.admin
  validator := h'.validator.trans h.validator
  allowed id := (h'.allowed id).trans (h.allowed id)

/-- A step that no administrator asks for keeps the rules. -/
theorem Separated.sameRules (h : b.Separated now action reply)
    (hadmin : b.admin.accepts action.caller = false) : b.SameRules reply.board where
  admin := h.settings.2.1
  validator := by
    by_contra hne
    obtain ⟨haccepts, -⟩ := h.validator hne
    exact Bool.false_ne_true (hadmin.symm.trans haccepts)
  allowed id := by
    have hcontains : reply.board.registry.contains id = b.registry.contains id := by
      by_contra hne
      obtain ⟨haccepts, -⟩ := h.courses id hne
      exact Bool.false_ne_true (hadmin.symm.trans haccepts)
    simp only [Registry.contains_eq_isSome] at hcontains
    cases hc : b.registry.find? id with
    | none =>
      rw [hc, Option.isSome_none, Option.isSome_eq_false_iff, Option.isNone_iff_eq_none]
        at hcontains
      simp only [course?, Registry.record?, hc, hcontains, Option.map_none]
    | some c =>
      obtain ⟨c', hc', -⟩ := h.identity id c hc
      have hr := course?_of_find? hc
      have hr' := course?_of_find? hc'
      rw [hr, hr', Option.map_some, Option.map_some, Option.some.injEq]
      by_contra hne
      obtain ⟨haccepts, -⟩ := h.allowed id _ _ hr hr' hne
      exact Bool.false_ne_true (hadmin.symm.trans haccepts)

/-- A run in which no administrator asks for anything keeps the rules. -/
theorem sameRules_after {actions : List (Time × Action)}
    (hadmin : ∀ x ∈ actions, b.admin.accepts x.2.caller = false) :
    b.SameRules (b.after actions) := by
  induction actions using List.reverseRecOn with
  | nil => exact .refl b
  | append_singleton actions x ih =>
    obtain ⟨now, action⟩ := x
    have hsame := ih fun x hx => hadmin x (List.mem_append_left _ hx)
    have hcaller : (b.after actions).admin.accepts action.caller = false := by
      rw [hsame.admin]
      exact hadmin _ (List.mem_append_right _ (List.mem_singleton_self _))
    rw [after_concat]
    exact hsame.trans ((effect_step _ now action).separated.sameRules hcaller)

/-- A course stays on a board as the course it is, whatever is done. -/
theorem identity_after {c : RegisteredCourse} (hc : b.registry.find? id = some c)
    (actions : List (Time × Action)) :
    ∃ c', (b.after actions).registry.find? id = some c' ∧ c'.identity = c.identity := by
  induction actions using List.reverseRecOn with
  | nil => exact ⟨c, hc, rfl⟩
  | append_singleton actions x ih =>
    obtain ⟨now, action⟩ := x
    obtain ⟨c₁, hc₁, hid₁⟩ := ih
    have hstep := (effect_step (b.after actions) now action).courseStep id
    obtain ⟨c₂, hc₂, hid₂⟩ := hstep.identity hc₁
    rw [after_concat]
    exact ⟨c₂, hc₂, hid₂.trans hid₁⟩

/-- **Authority is separated.** On every board, however it came to be:

* every step has the authority for what it changes: courses, allow-lists and the validator change
  only in accepted operations of administrators, which change no score, no par and no commitment;
  scores and pars change only in accepted submissions, on the course they name and for the player
  they credit; a commitment is only made, by an accepted commit of a new key, and marked, by the
  first accepted reveal of its key; and a course keeps its id, its name and the time of its
  registration;
* a run in which no administrator asks for anything leaves the courses, their allow-lists and the
  validator as they are;
* no run takes a course away, or its id, its name or the time of its registration. -/
theorem authority_is_separated (b : Board) :
    (∀ now action, b.Separated now action (b.step now action)) ∧
    (∀ actions : List (Time × Action), (∀ x ∈ actions, b.admin.accepts x.2.caller = false) →
      (b.after actions).validator = b.validator ∧
      ∀ id, ((b.after actions).course? id).map CourseRecord.allowed =
        (b.course? id).map CourseRecord.allowed) ∧
    ∀ actions id c, b.registry.find? id = some c →
      ∃ c', (b.after actions).registry.find? id = some c' ∧ c'.identity = c.identity := by
  refine ⟨fun now action => (effect_step b now action).separated, fun actions hadmin => ?_,
    fun actions id c hc => identity_after hc actions⟩
  have hsame := sameRules_after hadmin
  exact ⟨hsame.validator, hsame.allowed⟩

/-- Two players try what only the administrator may do, between submissions that are accepted. The
title moves; the course, its allow-list and the validator are as the administrator left them. -/
theorem authority_is_separated_of_refused :
    let b := Sample.board.after [(0, .addCourse Sample.root Sample.shortest .full)]
    let actions : List (Time × Action) :=
      [(1, .setValidator Sample.bob .pushAware), (2, .submit Sample.alice ⟨1⟩ [1, 2] none),
        (3, .setAllowed Sample.alice ⟨1⟩ .empty), (4, .submit Sample.bob ⟨1⟩ [3] none)]
    (∀ x ∈ actions, b.admin.accepts x.2.caller = false) ∧
    (b.after actions).titleHolder? ⟨1⟩ = some Sample.bob ∧
    (b.after actions).validator = b.validator ∧
    ((b.after actions).course? ⟨1⟩).map CourseRecord.allowed = some .full ∧
    ∃ c', (b.after actions).registry.find? ⟨1⟩ = some c' ∧ c'.record.name = "shortest" := by
  intro b actions
  have hadmin : ∀ x ∈ actions, b.admin.accepts x.2.caller = false := by decide
  obtain ⟨-, hrules, hidentity⟩ := authority_is_separated b
  obtain ⟨hvalidator, hallowed⟩ := hrules actions hadmin
  obtain ⟨c', hc', hsame⟩ := hidentity actions ⟨1⟩
    ⟨.fresh ⟨1⟩ "shortest" .full 0, Sample.shortest⟩ rfl
  exact ⟨hadmin, by decide, hvalidator, (hallowed ⟨1⟩).trans rfl, c', hc',
    congrArg RegisteredCourse.Identity.name hsame⟩

end Board

end CodeGolf
