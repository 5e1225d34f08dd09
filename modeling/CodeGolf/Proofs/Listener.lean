import Mathlib.Data.List.Induction
import Mathlib.Logic.Function.Basic
import CodeGolf.Proofs.Run
import CodeGolf.Proofs.Standings

/-!
# What a listener can know

A listener sees no board. It is told events, one operation after the other (`Board.told`), and
nothing of an operation that is refused. What it can keep of them is a scorebook: the title and the
counters of each course, and the best cost and the number of submissions of each player. An event is
entered without looking at a board (`Scorebook.hear`).

`Board.CourseEffect` says what a step does to one course together with what is told of it. From it
and from the effect of a submission on the pars it follows that whoever has the scorebook of a board
has the scorebook of the board after a step, once the events of the step are entered
(`Board.Effect.hear`), and so it is for a whole run (`Board.hear_told`).
-/

namespace CodeGolf

/-! ## What is told in a run -/

namespace Board

/-- What listeners are told in a run, in order. -/
def told (b : Board) (actions : List (Time × Action)) : List Event :=
  (b.replies actions).flatMap Reply.events

/-- One more operation adds what is told of it. -/
theorem told_concat (b : Board) (actions : List (Time × Action)) (now : Time) (action : Action) :
    b.told (actions ++ [(now, action)]) =
      b.told actions ++ ((b.after actions).step now action).events := by
  rw [told, replies_append, List.flatMap_append]
  exact congrArg (b.told actions ++ ·) (List.append_nil _)

/-- What ties a board to the events that were told, and what each effect keeps if its events are
added, holds after every run. -/
theorem told_keeps {P : Board → List Event → Prop}
    (hstep : ∀ {b events now action reply}, Effect b now action reply → P b events →
      P reply.board (events ++ reply.events))
    {b : Board} (hb : P b []) (actions : List (Time × Action)) :
    P (b.after actions) (b.told actions) := by
  induction actions using List.reverseRecOn with
  | nil => exact hb
  | append_singleton actions x ih =>
    obtain ⟨now, action⟩ := x
    rw [after_concat, told_concat]
    exact hstep (effect_step _ now action) ih

end Board

/-! ## What a step does to one course -/

/-- The course that an event is about. -/
def Event.course? : Event → Option CourseId
  | .courseAdded id _ => some id
  | .allowListUpdated id _ => some id
  | .titleTransferred id _ _ _ => some id
  | .submitted s => some s.course
  | .validatorReplaced _ | .committed _ _ => none

/-- What is told of a submission is about its course. -/
theorem Submission.course?_of_mem_events {s : Submission} {e : Event} (he : e ∈ s.events) :
    e.course? = some s.course := by
  rw [events] at he
  split at he
  · rcases List.mem_cons.mp he with rfl | he
    · rfl
    · rw [List.mem_singleton.mp he]
      rfl
  · rw [List.mem_singleton.mp he]
    rfl

namespace Board

/-- What a step does to the record of one course, with the events of the step: nothing, and then
no event is about the course, or the course is added, or its allow-list is replaced, or it is
credited with a submission. -/
inductive CourseEffect (id : CourseId) :
    Option CourseRecord → Option CourseRecord → List Event → Prop where
  | untouched {record : Option CourseRecord} {events : List Event}
      (hquiet : ∀ e ∈ events, e.course? ≠ some id) : CourseEffect id record record events
  | added (name : String) (allowed : OpcodeSet) (now : Time) :
      CourseEffect id none (some (.fresh id name allowed now)) [.courseAdded id name]
  | replaced (r : CourseRecord) (allowed : OpcodeSet) :
      CourseEffect id (some r) (some { r with allowed }) [.allowListUpdated id allowed]
  | credited {r : CourseRecord} {s : Submission} (hcourse : s.course = id)
      (hchanged : s.titleChanged = r.title.yieldsTo s.cost)
      (hprevious : s.previousHolder = r.titleHolder) :
      CourseEffect id (some r) (some (r.credit s.recipient s.cost)) s.events

variable {b : Board} {now : Time} {action : Action} {reply : Reply}

/-- The record of a course after a write of this or of another course. -/
theorem course?_insert {c : RegisteredCourse} {written : CourseId} (hid : c.record.id = written)
    (b : Board) (next id : CourseId) :
    course? { b with registry := { b.registry with nextId := next }.insert c } id =
      if written = id then some c.record else b.course? id := by
  rw [course?, Registry.record?, Registry.find?_insert, hid]
  split <;> rfl

/-- An accepted submission credits its course and touches no other one. -/
theorem courseEffect_submission {id' : CourseId} {c : RegisteredCourse}
    (hc : b.registry.find? id' = some c) (submitter recipient : Player) (cost : Cost)
    (revealed : Bool) (id : CourseId) :
    CourseEffect id (b.course? id) ((b.credited id' recipient cost now).course? id)
      (b.submission c.record submitter recipient id' cost now revealed).events := by
  by_cases h : id' = id
  · subst h
    have hafter : (b.credited id' recipient cost now).course? id' =
        some (c.record.credit recipient cost) := by
      rw [course?, Board.credited, Registry.record?, Registry.find?_credited, if_pos rfl, hc]
      rfl
    rw [course?_of_find? hc, hafter]
    exact .credited (s := b.submission c.record submitter recipient id' cost now revealed)
      rfl rfl rfl
  · have hafter : (b.credited id' recipient cost now).course? id = b.course? id := by
      rw [course?, Board.credited, Registry.record?, Registry.find?_credited, if_neg h]
      rfl
    rw [hafter]
    refine .untouched fun e he hcourse => h ?_
    rw [Submission.course?_of_mem_events he] at hcourse
    exact Option.some.inj hcourse

/-- Every step has one of these effects on a course. -/
theorem Effect.course (he : b.Effect now action reply) (id : CourseId) :
    CourseEffect id (b.course? id) (reply.board.course? id) reply.events := by
  cases he with
  | refused => exact .untouched nofun
  | @courseAdded _ course allowed next _ _ _ hfree =>
    have hid : (CourseRecord.fresh b.registry.nextId course.name allowed now).id =
      b.registry.nextId := rfl
    rw [course?_insert hid]
    by_cases h : b.registry.nextId = id
    · subst h
      have hbefore : b.course? b.registry.nextId = none :=
        congrArg (Option.map RegisteredCourse.record) hfree
      rw [hbefore, if_pos rfl]
      exact .added course.name allowed now
    · rw [if_neg h]
      exact .untouched (by simpa [Event.course?] using h)
  | @allowListReplaced _ id' allowed c _ hc =>
    have hid : ({ c.record with allowed } : CourseRecord).id = id' := Registry.id_of_find? hc
    rw [course?_insert (c := { c with record := { c.record with allowed } }) hid b
      b.registry.nextId id]
    by_cases h : id' = id
    · subst h
      rw [course?_of_find? hc, if_pos rfl]
      exact .replaced c.record allowed
    · rw [if_neg h]
      exact .untouched (by simpa [Event.course?] using h)
  | validatorReplaced | committed => exact .untouched (by simp [Event.course?])
  | submitted hc hj => exact courseEffect_submission hc _ _ _ _ id
  | revealed hk he hc hj => exact courseEffect_submission hc _ _ _ _ id

end Board

/-! ## Scorebooks -/

/-- The title and the counters of a course in a scorebook. -/
structure CourseScore where
  leadingCost : Cost
  titleHolder : Option Player
  solutionCount : UInt64
  titleChanges : UInt64
  deriving DecidableEq

/-- What a scorebook has of a player on a course. -/
structure PlayerScore where
  bestCost : Cost
  submissions : UInt64
  deriving DecidableEq

/-- What a listener keeps of the events that it was told. -/
@[ext]
structure Scorebook where
  course : CourseId → Option CourseScore
  player : CourseId × Player → Option PlayerScore

namespace Scorebook

/-- A scorebook without entries. -/
def blank : Scorebook := ⟨fun _ => none, fun _ => none⟩

/-- The score of a player after one more submission. -/
def nextPlayerScore (score : Option PlayerScore) (cost : Cost) : PlayerScore :=
  match score with
  | none => ⟨cost, 1⟩
  | some p => ⟨if cost < p.bestCost then cost else p.bestCost, p.submissions + 1⟩

/-- The scorebook with one event entered. -/
def hear (book : Scorebook) : Event → Scorebook
  | .courseAdded id _ =>
    { book with course := Function.update book.course id (some ⟨0, none, 0, 0⟩) }
  | .titleTransferred id _ holder cost =>
    { book with
      course := Function.update book.course id <| (book.course id).map fun score =>
        { score with
          leadingCost := cost
          titleHolder := some holder
          titleChanges := score.titleChanges + 1 } }
  | .submitted s =>
    { course := Function.update book.course s.course <| (book.course s.course).map fun score =>
        { score with solutionCount := score.solutionCount + 1 }
      player := Function.update book.player (s.course, s.recipient) <|
        some (nextPlayerScore (book.player (s.course, s.recipient)) s.cost) }
  | .allowListUpdated _ _ | .validatorReplaced _ | .committed _ _ => book

end Scorebook

/-- The part of a record that a scorebook has. -/
def CourseRecord.score (r : CourseRecord) : CourseScore :=
  ⟨r.leadingCost, r.titleHolder, r.solutionCount, r.titleChanges⟩

/-- The scores of a course after one more solution. -/
theorem CourseRecord.score_credit (r : CourseRecord) (player : Player) (cost : Cost) :
    (r.credit player cost).score =
      if r.title.yieldsTo cost then
        ⟨cost, some player, r.score.solutionCount + 1, r.score.titleChanges + 1⟩
      else { r.score with solutionCount := r.score.solutionCount + 1 } := by
  rw [credit]
  split <;> rfl

/-- The part of a par that a scorebook has. -/
def Par.score (p : Par) : PlayerScore := ⟨p.bestCost, p.submissions⟩

/-- The scorebook of a board. -/
def Board.scorebook (b : Board) : Scorebook where
  course id := (b.course? id).map CourseRecord.score
  player := fun (id, player) => (b.personalBest? id player).map Par.score

/-! ## Entering what is told -/

namespace Scorebook

variable {book : Scorebook} {id : CourseId}

/-- An event about another course, or about none, enters nothing for a course. -/
theorem course_hear_of_ne {e : Event} (h : e.course? ≠ some id) :
    (book.hear e).course id = book.course id := by
  cases e with
  | courseAdded | titleTransferred | submitted =>
    exact Function.update_of_ne (fun heq => h (congrArg some heq.symm)) ..
  | allowListUpdated | validatorReplaced | committed => rfl

/-- Events about other courses enter nothing for a course. -/
theorem course_foldl_hear_of_quiet {events : List Event}
    (hquiet : ∀ e ∈ events, e.course? ≠ some id) :
    (events.foldl hear book).course id = book.course id := by
  induction events generalizing book with
  | nil => rfl
  | cons e rest ih =>
    rw [List.foldl_cons, ih fun e he => hquiet e (List.mem_cons_of_mem _ he)]
    exact course_hear_of_ne (hquiet e (List.mem_cons_self ..))

/-- What is told of a submission enters one more submission of the recipient. -/
theorem player_foldl_hear_events (s : Submission) :
    (s.events.foldl hear book).player =
      Function.update book.player (s.course, s.recipient)
        (some (nextPlayerScore (book.player (s.course, s.recipient)) s.cost)) := by
  rw [Submission.events]
  split <;> rfl

/-- What is told of a submission enters one more solution of the course, and the title if it
moved. -/
theorem course_foldl_hear_events {s : Submission} {r : CourseRecord}
    (hbook : book.course s.course = some r.score)
    (hchanged : s.titleChanged = r.title.yieldsTo s.cost) :
    (s.events.foldl hear book).course s.course = some (r.credit s.recipient s.cost).score := by
  rw [CourseRecord.score_credit, Submission.events, hchanged]
  split <;> simp [hear, hbook]

end Scorebook

/-- The score of a par after one more submission. -/
theorem Pars.score_next (pars : Pars) (id : CourseId) (holder : Player) (cost : Cost) (now : Time) :
    (pars.next id holder cost now).score =
      Scorebook.nextPlayerScore ((pars.find? id holder).map Par.score) cost := by
  rw [Par.score, bestCost_next, submissions_next]
  cases pars.find? id holder <;> rfl

namespace Board

variable {b : Board} {now : Time} {action : Action} {reply : Reply}

/-- Entering the events of a step gives the scores of a course after the step. -/
theorem CourseEffect.hear {id : CourseId} {before after : Option CourseRecord}
    {events : List Event} (he : CourseEffect id before after events) {book : Scorebook}
    (hbook : book.course id = before.map CourseRecord.score) :
    (events.foldl Scorebook.hear book).course id = after.map CourseRecord.score := by
  cases he with
  | untouched hquiet => rw [Scorebook.course_foldl_hear_of_quiet hquiet, hbook]
  | added name allowed now => exact Function.update_self ..
  | replaced r allowed => exact hbook
  | credited hcourse hchanged =>
    subst hcourse
    exact Scorebook.course_foldl_hear_events hbook hchanged

/-- An accepted submission is one more submission of the recipient and of no one else. -/
theorem player_scorebook_credited (b : Board) (id : CourseId) (recipient : Player) (cost : Cost)
    (now : Time) :
    (b.credited id recipient cost now).scorebook.player =
      Function.update b.scorebook.player (id, recipient)
        (some (Scorebook.nextPlayerScore (b.scorebook.player (id, recipient)) cost)) := by
  funext ⟨id', player⟩
  have hfind := b.pars.find?_credit id recipient cost now id' player
  show ((b.pars.credit id recipient cost now).2.find? id' player).map Par.score = _
  rw [hfind]
  by_cases h : id = id' ∧ recipient = player
  · obtain ⟨rfl, rfl⟩ := h
    rw [if_pos ⟨rfl, rfl⟩, Function.update_self, Option.map_some, Pars.score_next]
    rfl
  · have hne : (id', player) ≠ (id, recipient) := fun heq =>
      h ⟨(congrArg Prod.fst heq).symm, (congrArg Prod.snd heq).symm⟩
    rw [if_neg h, Function.update_of_ne hne]
    rfl

/-- **One step.** Whoever has the scorebook of a board has that of the board after a step by
entering what is told of the step. -/
theorem Effect.hear (he : b.Effect now action reply) :
    reply.events.foldl Scorebook.hear b.scorebook = reply.board.scorebook := by
  refine Scorebook.ext (funext fun id => (he.course id).hear rfl) ?_
  cases he with
  | refused | courseAdded | allowListReplaced | validatorReplaced | committed => rfl
  | submitted | revealed =>
    rw [Scorebook.player_foldl_hear_events]
    exact (player_scorebook_credited ..).symm

/-- **A run.** Entering all that is told in a run into the scorebook of the board before it gives
the scorebook of the board after it. -/
theorem hear_told (b : Board) (actions : List (Time × Action)) :
    (b.told actions).foldl Scorebook.hear b.scorebook = (b.after actions).scorebook := by
  refine told_keeps (P := fun b' events => events.foldl Scorebook.hear b.scorebook = b'.scorebook)
    (fun he hevents => ?_) rfl actions
  rw [List.foldl_append, hevents]
  exact he.hear

end Board

end CodeGolf
