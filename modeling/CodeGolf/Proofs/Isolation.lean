import CodeGolf.Proofs.Frame
import CodeGolf.Proofs.Reveal
import CodeGolf.Proofs.Standings

/-!
# Courses do not interfere

All courses of a board share one registry, one table of pars, one ledger and one validator. Still,
what is done on one course is nothing to another: the operations that name other courses can be
deleted from a run, and the operations that remain are answered and told as before
(`Board.courses_are_isolated`). The seed of a run of a course depends on the time, on the submitter
and on the number of solutions of this course alone, so courses may depend on the seed.

The one thing that courses do share is the marks on commitments. A deleted reveal no longer consumes
its commitment, so the keys of the deleted reveals must not be revealed on the course. They may be
committed all the same, since a commit asks whether a key is taken and not whether it was revealed.

The proof is a simulation between the board of the run and the board of the shorter run. They agree
on a course (`Board.AgreeOn`) if they have the same settings, take the same ids, find the same
course under the id and the same pars on it, and have the same commitments up to the marks of spent
keys. A deleted step keeps this on one side (`Board.Effect.agreeOn`), by what `Board.CourseStep` and
`Board.CommitmentStep` say it can change; a step that remains keeps it when it is taken on both
sides, and gives the same reply there (`Board.AgreeOn.step`).
-/

namespace CodeGolf

/-- The course that an operation names, if it works on one course alone. -/
def Action.named? : Action → Option CourseId
  | .setAllowed _ id _ => some id
  | .reveal _ id _ _ _ => some id
  | .submit _ id _ _ => some id
  | .addCourse _ _ _ => none
  | .setValidator _ _ => none
  | .commit _ _ => none

/-- Whether an operation concerns a course: it names this course or none. -/
def Action.concerns (action : Action) (id : CourseId) : Bool := action.named?.all (· = id)

/-- An operation concerns the course that it submits a solution to. -/
theorem Action.concerns_of_submitsTo? {action : Action} {id : CourseId}
    (h : action.submitsTo? = some id) : action.concerns id = true := by
  cases action with
  | submit | reveal =>
    cases h
    exact decide_eq_true rfl
  | addCourse | setAllowed | setValidator | commit => cases h

/-! ## Courses that agree -/

/-- Two registries take the same ids, and have the same course under one of them. -/
structure Registry.AgreeOn (id : CourseId) (r r' : Registry) : Prop where
  nextId : r.nextId = r'.nextId
  contains : ∀ taken, r.contains taken = r'.contains taken
  course : r.find? id = r'.find? id

namespace Registry.AgreeOn

variable {id : CourseId} {r r' : Registry}

/-- Registries that agree still do once a course is added to both or replaced in both. -/
theorem insert (h : AgreeOn id r r') (next : CourseId) (c : RegisteredCourse) :
    AgreeOn id ({ r with nextId := next }.insert c) ({ r' with nextId := next }.insert c) where
  nextId := rfl
  contains taken := by
    have hcontains := h.contains taken
    simp only [contains_eq_isSome, find?_insert] at hcontains ⊢
    split
    · rfl
    · exact hcontains
  course := by
    rw [find?_insert, find?_insert]
    split
    · rfl
    · exact h.course

/-- A course that is replaced in both keeps the next id of each. -/
theorem replace (h : AgreeOn id r r') (c : RegisteredCourse) :
    AgreeOn id (r.insert c) (r'.insert c) := by
  have hr : r' = { r' with nextId := r.nextId } := by rw [h.nextId]
  rw [hr]
  exact h.insert r.nextId c

/-- A solution of the course may be counted on both sides. -/
theorem credited (h : AgreeOn id r r') (player : Player) (cost : Cost) :
    AgreeOn id (r.credited id player cost) (r'.credited id player cost) := by
  rw [Registry.credited, Registry.credited, h.course]
  cases r'.find? id with
  | none => exact h
  | some c => exact h.replace _

end Registry.AgreeOn

/-! ## Commitments that agree -/

/-- Two ledgers have the same commitments, up to the marks on spent keys. -/
structure Ledger.AgreeUpTo (spent : Digest → Prop) (l l' : Ledger) : Prop where
  minAge : l.minAge = l'.minAge
  singleUse : l.singleUse = l'.singleUse
  taken : ∀ key, (l.find? key).isSome = (l'.find? key).isSome
  commitment : ∀ key, ¬spent key → l.find? key = l'.find? key

namespace Ledger.AgreeUpTo

variable {spent : Digest → Prop} {l l' : Ledger}

/-- Ledgers that agree still do once a commitment is written into both. -/
theorem insert (h : AgreeUpTo spent l l') (key : Digest) (c : Commitment) :
    AgreeUpTo spent (l.insert key c) (l'.insert key c) where
  minAge := h.minAge
  singleUse := h.singleUse
  taken key' := by
    rw [find?_insert, find?_insert]
    split
    · rfl
    · exact h.taken key'
  commitment key' hfree := by
    rw [find?_insert, find?_insert]
    split
    · rfl
    · exact h.commitment key' hfree

/-- A key that is not spent may be marked on both sides. -/
theorem marked (h : AgreeUpTo spent l l') {key : Digest} (hkey : ¬spent key) (now : Time) :
    AgreeUpTo spent (l.marked key now) (l'.marked key now) := by
  rw [Ledger.marked, Ledger.marked, h.commitment key hkey]
  cases l'.find? key with
  | none => exact h
  | some c => exact h.insert key _

/-- A key that is not spent may be revealed on both sides or on none. -/
theorem eligible (h : AgreeUpTo spent l l') {key : Digest} (hkey : ¬spent key) (now : Time) :
    l.eligible key now = l'.eligible key now := by
  rw [Ledger.eligible, Ledger.eligible, h.commitment key hkey, h.minAge, h.singleUse]

end Ledger.AgreeUpTo

/-! ## Boards that agree -/

/-- Two boards agree on a course: they have the same settings, the same course with the same pars,
and the same commitments up to the marks on spent keys. Other courses may differ, but not in their
ids. -/
structure Board.AgreeOn (id : CourseId) (spent : Digest → Prop) (b b' : Board) : Prop where
  config : b.config = b'.config
  admin : b.admin = b'.admin
  validator : b.validator = b'.validator
  deployer : b.deployer = b'.deployer
  registry : b.registry.AgreeOn id b'.registry
  pars : ∀ player, b.pars.find? id player = b'.pars.find? id player
  ledger : b.ledger.AgreeUpTo spent b'.ledger

/-- Two replies agree on a course: they answer and tell the same, and their boards agree. -/
structure Reply.AgreeOn (id : CourseId) (spent : Digest → Prop) (reply reply' : Reply) : Prop where
  answer : reply.answer = reply'.answer
  events : reply.events = reply'.events
  board : reply.board.AgreeOn id spent reply'.board

namespace Board

variable {id : CourseId} {spent : Digest → Prop} {b b' b'' : Board} {now : Time} {action : Action}
  {reply : Reply}

theorem AgreeOn.refl (id : CourseId) (spent : Digest → Prop) (b : Board) : b.AgreeOn id spent b :=
  ⟨rfl, rfl, rfl, rfl, ⟨rfl, fun _ => rfl, rfl⟩, fun _ => rfl,
    ⟨rfl, rfl, fun _ => rfl, fun _ _ => rfl⟩⟩

theorem AgreeOn.trans (h : b.AgreeOn id spent b') (h' : b'.AgreeOn id spent b'') :
    b.AgreeOn id spent b'' where
  config := h.config.trans h'.config
  admin := h.admin.trans h'.admin
  validator := h.validator.trans h'.validator
  deployer := h.deployer.trans h'.deployer
  registry :=
    { nextId := h.registry.nextId.trans h'.registry.nextId
      contains := fun taken => (h.registry.contains taken).trans (h'.registry.contains taken)
      course := h.registry.course.trans h'.registry.course }
  pars player := (h.pars player).trans (h'.pars player)
  ledger :=
    { minAge := h.ledger.minAge.trans h'.ledger.minAge
      singleUse := h.ledger.singleUse.trans h'.ledger.singleUse
      taken := fun key => (h.ledger.taken key).trans (h'.ledger.taken key)
      commitment := fun key hkey =>
        (h.ledger.commitment key hkey).trans (h'.ledger.commitment key hkey) }

/-! ## A step on another course -/

/-- A step on another course keeps the ids that are taken and the course itself. -/
theorem Effect.registry_agreeOn (he : b.Effect now action reply)
    (hother : action.concerns id = false) :
    reply.board.registry.AgreeOn id b.registry where
  nextId := by
    cases he with
    | refused | allowListReplaced => rfl
    | submitted | revealed => exact Registry.nextId_credited ..
    | courseAdded | validatorReplaced | committed => cases hother
  contains taken := by
    by_contra hne
    obtain ⟨-, -, course, allowed, haction⟩ := (he.courseStep taken).added_of_contains_ne hne
    rw [haction] at hother
    cases hother
  course := by
    cases he.courseStep id with
    | kept _ hfind => exact hfind
    | added haction =>
      subst haction
      cases hother
    | replaced haction =>
      subst haction
      exact absurd rfl (of_decide_eq_false hother)
    | credited hnames => exact absurd (Action.concerns_of_submitsTo? hnames) (by simp [hother])

/-- A step on another course keeps the commitments, up to a mark on the key that it reveals. -/
theorem Effect.ledger_agreeUpTo (he : b.Effect now action reply)
    (hother : action.concerns id = false)
    (hspent : ∀ key, action.revealedKey? = some key → spent key) :
    reply.board.ledger.AgreeUpTo spent b.ledger where
  minAge := by
    cases he <;> rfl
  singleUse := by
    cases he <;> rfl
  taken key := by
    cases he.commitmentStep key with
    | kept hfind => exact congrArg Option.isSome hfind
    | made haction =>
      subst haction
      cases hother
    | marked _ _ hc hfind =>
      have hafter := congrArg Option.isSome hfind
      exact hafter.trans (congrArg Option.isSome hc).symm
  commitment key hfree := by
    cases he.commitmentStep key with
    | kept hfind => exact hfind
    | made haction =>
      subst haction
      cases hother
    | marked hkey => exact absurd (hspent key hkey) hfree

/-- **A step on another course changes nothing for the course**, but it may spend the key that it
reveals. -/
theorem Effect.agreeOn (he : b.Effect now action reply) (hother : action.concerns id = false)
    (hspent : ∀ key, action.revealedKey? = some key → spent key) :
    reply.board.AgreeOn id spent b where
  config := he.settings.1.1
  admin := he.settings.1.2.1
  validator := by
    by_contra hne
    obtain ⟨-, -, haction⟩ := he.settings.2 hne
    rw [haction] at hother
    cases hother
  deployer := he.settings.1.2.2
  registry := he.registry_agreeOn hother
  pars player := by
    rcases he.personalBest?_cases id player with hkept | ⟨s, hnames, -⟩
    · exact hkept
    · exact absurd (Action.concerns_of_submitsTo? hnames) (by simp [hother])
  ledger := he.ledger_agreeUpTo hother hspent

/-! ## A step on the course -/

/-- Boards that agree on a course judge its solutions alike: the seed is made of what they agree
on. -/
theorem AgreeOn.judge (h : b.AgreeOn id spent b') (submitter : Player) (solution : Bytes)
    (now : Time) : b.judge submitter id solution now = b'.judge submitter id solution now := by
  simp only [Board.judge, lookup, checkSize, checkCode, h.registry.course, h.config, h.validator,
    h.deployer]

/-- Boards that agree on a course report a submission alike. -/
theorem AgreeOn.submission (h : b.AgreeOn id spent b') (record : CourseRecord)
    (submitter recipient : Player) (cost : Cost) (now : Time) (revealed : Bool) :
    b.submission record submitter recipient id cost now revealed =
      b'.submission record submitter recipient id cost now revealed := by
  have hpar : (b.pars.credit id recipient cost now).1 =
      (b'.pars.credit id recipient cost now).1 := by
    rw [Pars.credit, Pars.credit, h.pars]
    cases b'.pars.find? id recipient <;> rfl
  rw [Board.submission, Board.submission, hpar]

/-- Boards that agree on a course still do once a submission on it is counted. -/
theorem AgreeOn.credited (h : b.AgreeOn id spent b') (recipient : Player) (cost : Cost)
    (now : Time) :
    (b.credited id recipient cost now).AgreeOn id spent (b'.credited id recipient cost now) where
  config := h.config
  admin := h.admin
  validator := h.validator
  deployer := h.deployer
  registry := h.registry.credited recipient cost
  pars player := by
    have hnext : b.pars.next id recipient cost now = b'.pars.next id recipient cost now := by
      rw [Pars.next, Pars.next, h.pars]
    simp only [Board.credited, Pars.find?_credit, hnext, h.pars]
  ledger := h.ledger

/-- Boards that agree on a course reply alike to a submission to it. -/
theorem AgreeOn.step_submit (h : b.AgreeOn id spent b') (now : Time) (caller : Player)
    (solution : Bytes) (recipient : Option Player) :
    (b.step now (.submit caller id solution recipient)).AgreeOn id spent
      (b'.step now (.submit caller id solution recipient)) := by
  have hjudge := h.judge caller solution now
  cases hj : b'.judge caller id solution now with
  | error reason =>
    rw [step_submit_of_refused (hjudge.trans hj), step_submit_of_refused hj]
    exact ⟨rfl, rfl, h⟩
  | ok cost =>
    obtain ⟨c, hc⟩ := exists_find?_of_judge hj
    rw [step_submit_of_cost (h.registry.course.trans hc) (hjudge.trans hj),
      step_submit_of_cost hc hj, h.submission]
    exact ⟨rfl, rfl, h.credited _ _ _⟩

/-- Boards that agree on a course reply alike to a reveal on it, unless its key is spent. -/
theorem AgreeOn.step_reveal (h : b.AgreeOn id spent b') (now : Time) {caller : Player}
    {solution : Bytes} {salt : Salt} (hkey : ¬spent (commitmentKey caller solution salt))
    (recipient : Option Player) :
    (b.step now (.reveal caller id solution salt recipient)).AgreeOn id spent
      (b'.step now (.reveal caller id solution salt recipient)) := by
  have heligible := h.ledger.eligible hkey now
  cases he : b'.ledger.eligible (commitmentKey caller solution salt) now with
  | error fault =>
    rw [step_reveal_of_ineligible (heligible.trans he), step_reveal_of_ineligible he]
    exact ⟨rfl, rfl, h⟩
  | ok committer =>
    have hjudge := h.judge committer solution now
    cases hj : b'.judge committer id solution now with
    | error reason =>
      rw [step_reveal_of_refused (heligible.trans he) (hjudge.trans hj),
        step_reveal_of_refused he hj]
      exact ⟨rfl, rfl, h⟩
    | ok cost =>
      obtain ⟨c, hc⟩ := exists_find?_of_judge hj
      rw [step_reveal_of_cost (heligible.trans he) (h.registry.course.trans hc) (hjudge.trans hj),
        step_reveal_of_cost he hc hj, h.submission]
      exact ⟨rfl, rfl, { h.credited _ _ _ with ledger := h.ledger.marked hkey now }⟩

/-- Boards that agree on a course accept the same administrators. -/
theorem AgreeOn.accepts (h : b.AgreeOn id spent b') (caller : Player) :
    b.admin.accepts caller = b'.admin.accepts caller := by rw [h.admin]

/-- Boards that agree on a course reply alike to an operation of an administrator on it or on all
courses. -/
theorem AgreeOn.step_administration (h : b.AgreeOn id spent b') (now : Time)
    (hconcerns : action.concerns id = true) (hadmin : action.isAdministration = true) :
    (b.step now action).AgreeOn id spent (b'.step now action) := by
  cases action with
  | addCourse caller course allowed =>
    simp only [Board.step, perform, Play.run_addCourse, Registry.run_register, h.accepts,
      h.registry.nextId, h.registry.contains]
    cases b'.admin.accepts caller with
    | false => exact ⟨rfl, rfl, h⟩
    | true =>
      cases (Text.trim course.name.toList).isEmpty with
      | true => exact ⟨rfl, rfl, h⟩
      | false =>
        cases b'.registry.nextId.succ? with
        | none => exact ⟨rfl, rfl, h⟩
        | some next =>
          cases b'.registry.contains b'.registry.nextId with
          | true => exact ⟨rfl, rfl, h⟩
          | false => exact ⟨rfl, rfl, { h with registry := h.registry.insert next _ }⟩
  | setAllowed caller named allowed =>
    cases of_decide_eq_true hconcerns
    simp only [Board.step, perform, Play.run_setAllowed, Registry.run_setAllowed, h.accepts,
      h.registry.course]
    cases b'.admin.accepts caller with
    | false => exact ⟨rfl, rfl, h⟩
    | true =>
      cases b'.registry.find? id with
      | none => exact ⟨rfl, rfl, h⟩
      | some c => exact ⟨rfl, rfl, { h with registry := h.registry.replace _ }⟩
  | setValidator caller validator =>
    simp only [Board.step, perform, Play.run_setValidator, h.accepts]
    cases b'.admin.accepts caller with
    | false => exact ⟨rfl, rfl, h⟩
    | true => exact ⟨rfl, rfl, { h with validator := rfl }⟩
  | commit | reveal | submit => cases hadmin

/-- Boards that agree on a course reply alike to a commit. -/
theorem AgreeOn.step_commit (h : b.AgreeOn id spent b') (now : Time) (caller : Player)
    (key : Digest) :
    (b.step now (.commit caller key)).AgreeOn id spent (b'.step now (.commit caller key)) := by
  simp only [Board.step, perform, Play.run_commit, h.ledger.taken]
  cases (b'.ledger.find? key).isSome with
  | true => exact ⟨rfl, rfl, h⟩
  | false => exact ⟨rfl, rfl, { h with ledger := h.ledger.insert key _ }⟩

/-- **Boards that agree on a course reply alike** to every operation that concerns it, unless it
reveals a spent key. -/
theorem AgreeOn.step (h : b.AgreeOn id spent b') (now : Time)
    (hconcerns : action.concerns id = true)
    (hkey : ∀ key, action.revealedKey? = some key → ¬spent key) :
    (b.step now action).AgreeOn id spent (b'.step now action) := by
  cases action with
  | addCourse | setAllowed | setValidator => exact h.step_administration now hconcerns rfl
  | commit caller key => exact h.step_commit now caller key
  | reveal caller named solution salt recipient =>
    cases of_decide_eq_true hconcerns
    exact h.step_reveal now (hkey _ rfl) recipient
  | submit caller named solution recipient =>
    cases of_decide_eq_true hconcerns
    exact h.step_submit now caller solution recipient

/-! ## Runs -/

/-- The operations of a run that concern a course. -/
def concerning (id : CourseId) (actions : List (Time × Action)) : List (Time × Action) :=
  actions.filter fun x => x.2.concerns id

/-- What is seen of an operation: when it was asked for, the answer and what listeners were told. -/
def seen (entry : (Time × Action) × Reply) :
    (Time × Action) × Except BoardError Answer × List Event :=
  (entry.1, entry.2.answer, entry.2.events)

/-- **Runs of boards that agree on a course** agree on it too, if the operations on other courses
are deleted from one of them and only spend keys that the course does not reveal. -/
theorem AgreeOn.run {actions : List (Time × Action)} (h : b.AgreeOn id spent b')
    (hkept : ∀ x ∈ concerning id actions, ∀ key, x.2.revealedKey? = some key → ¬spent key)
    (hdeleted : ∀ x ∈ actions, x.2.concerns id = false → ∀ key, x.2.revealedKey? = some key →
      spent key) :
    ((b.log actions).filter fun entry => entry.1.2.concerns id).map seen =
        (b'.log (concerning id actions)).map seen ∧
      (b.after actions).AgreeOn id spent (b'.after (concerning id actions)) := by
  induction actions generalizing b b' with
  | nil => exact ⟨rfl, h⟩
  | cons x rest ih =>
    obtain ⟨now, action⟩ := x
    have hrest := fun x hx => hdeleted x (List.mem_cons_of_mem _ hx)
    cases hconcerns : action.concerns id with
    | false =>
      have hrun : concerning id ((now, action) :: rest) = concerning id rest :=
        List.filter_cons_of_neg (by simp [hconcerns])
      rw [hrun] at hkept ⊢
      have hstep := (effect_step b now action).agreeOn hconcerns
        (hdeleted (now, action) (List.mem_cons_self ..) hconcerns)
      rw [log_cons, List.filter_cons_of_neg (by simp [hconcerns]), after_cons]
      exact ih (hstep.trans h) hkept hrest
    | true =>
      have hrun : concerning id ((now, action) :: rest) = (now, action) :: concerning id rest :=
        List.filter_cons_of_pos hconcerns
      rw [hrun] at hkept ⊢
      have hstep := h.step now hconcerns (hkept (now, action) (List.mem_cons_self ..))
      obtain ⟨hlog, hafter⟩ :=
        ih hstep.board (fun x hx => hkept x (List.mem_cons_of_mem _ hx)) hrest
      rw [log_cons, log_cons, List.filter_cons, if_pos hconcerns, List.map_cons, List.map_cons,
        hlog, after_cons, after_cons]
      exact ⟨by rw [seen, seen, hstep.answer, hstep.events], hafter⟩

/-- **Courses are isolated from each other.** From any board and for every run, delete all
submissions, reveals and replacements of allow-lists that name another course, provided that the
course reveals no key that a deleted operation reveals. Then the remaining operations get the same
answers and the same events, and in the end the record of the course, its title, its pars and its
standings are the same, with all their times. -/
theorem courses_are_isolated (b : Board) (id : CourseId) (actions : List (Time × Action))
    (hkeys : ∀ x ∈ actions, ∀ y ∈ actions, x.2.concerns id = true → y.2.concerns id = false →
      ∀ key, x.2.revealedKey? = some key → y.2.revealedKey? ≠ some key) :
    let kept := concerning id actions
    ((b.log actions).filter fun entry => entry.1.2.concerns id).map seen =
        (b.log kept).map seen ∧
      (b.after actions).course? id = (b.after kept).course? id ∧
      (b.after actions).titleHolder? id = (b.after kept).titleHolder? id ∧
      (∀ player, (b.after actions).personalBest? id player =
        (b.after kept).personalBest? id player) ∧
      (b.after actions).standings id = (b.after kept).standings id := by
  intro kept
  let spent : Digest → Prop := fun key =>
    ∃ y ∈ actions, y.2.concerns id = false ∧ y.2.revealedKey? = some key
  have hkept : ∀ x ∈ kept, ∀ key, x.2.revealedKey? = some key → ¬spent key := by
    rintro x hx key hkey ⟨y, hy, hother, hspent⟩
    obtain ⟨hmem, hconcerns⟩ := List.mem_filter.mp hx
    exact hkeys x hmem y hy hconcerns hother key hkey hspent
  have hdeleted : ∀ x ∈ actions, x.2.concerns id = false → ∀ key, x.2.revealedKey? = some key →
      spent key := fun x hx hother key hkey => ⟨x, hx, hother, hkey⟩
  obtain ⟨hlog, hafter⟩ := (AgreeOn.refl id spent b).run hkept hdeleted
  have hcourse : (b.after actions).course? id = (b.after kept).course? id :=
    congrArg (Option.map RegisteredCourse.record) hafter.registry.course
  have hholder : (b.after actions).titleHolder? id = (b.after kept).titleHolder? id := by
    rw [titleHolder?_eq_bind, titleHolder?_eq_bind, hcourse]
  exact ⟨hlog, hcourse, hholder, hafter.pars, Pars.standings_congr hafter.pars⟩

/-- Between two submissions to the first course, the allow-list of the second one is replaced and a
commitment is revealed there. The first course is as if that had not been. -/
theorem courses_are_isolated_of_reveal :
    let actions : List (Time × Action) :=
      [(0, .addCourse Sample.root Sample.shortest .full),
        (0, .addCourse Sample.root Sample.shortest .full),
        (1, .commit Sample.bob (commitmentKey Sample.bob [1] 5)),
        (2, .submit Sample.alice ⟨1⟩ [1, 2] none), (3, .setAllowed Sample.root ⟨2⟩ .empty),
        (70, .reveal Sample.bob ⟨2⟩ [1] 5 none), (71, .submit Sample.bob ⟨1⟩ [7, 8] none)]
    let kept : List (Time × Action) :=
      [(0, .addCourse Sample.root Sample.shortest .full),
        (0, .addCourse Sample.root Sample.shortest .full),
        (1, .commit Sample.bob (commitmentKey Sample.bob [1] 5)),
        (2, .submit Sample.alice ⟨1⟩ [1, 2] none), (71, .submit Sample.bob ⟨1⟩ [7, 8] none)]
    (∀ x ∈ actions, ∀ y ∈ actions, x.2.concerns ⟨1⟩ = true → y.2.concerns ⟨1⟩ = false →
      ∀ key, x.2.revealedKey? = some key → y.2.revealedKey? ≠ some key) ∧
    concerning ⟨1⟩ actions = kept ∧
    ((Sample.board.log actions).filter fun entry => entry.1.2.concerns ⟨1⟩).map seen =
      (Sample.board.log kept).map seen ∧
    (Sample.board.after actions).titleHolder? ⟨1⟩ = some Sample.alice ∧
    ((Sample.board.after actions).personalBest? ⟨1⟩ Sample.bob).map Par.bestAt = some 71 := by
  intro actions kept
  have hrun : concerning ⟨1⟩ actions = kept := rfl
  have hnone : ∀ x ∈ kept, x.2.revealedKey? = none := by decide
  have hkeys : ∀ x ∈ actions, ∀ y ∈ actions, x.2.concerns ⟨1⟩ = true →
      y.2.concerns ⟨1⟩ = false → ∀ key, x.2.revealedKey? = some key →
        y.2.revealedKey? ≠ some key := by
    intro x hx y _ hconcerns _ key hkey
    have hx' : x ∈ concerning ⟨1⟩ actions := List.mem_filter.mpr ⟨hx, hconcerns⟩
    rw [hnone x (hrun ▸ hx')] at hkey
    cases hkey
  obtain ⟨hlog, -, hholder, hpars, -⟩ := courses_are_isolated Sample.board ⟨1⟩ actions hkeys
  exact ⟨hkeys, hrun, hlog, hholder.trans (by decide),
    (congrArg (Option.map Par.bestAt) (hpars Sample.bob)).trans (by decide)⟩

end Board

end CodeGolf
