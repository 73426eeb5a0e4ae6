import AppBuilder.Message.Subscription
import AppBuilder.Proofs.Message.Hub
import AppBuilder.Trace

/-!
What subscriptions keep along a run.

Every id belongs to one subscription or to one other listener (`Staffed`), so the inbox of a
task loses messages to the task only, and the task empties it before it ends (`Served`). A
call that cancels subscriptions has one task at a time that has stopped listening and not
ended (`Ordered`).

Main statement: `Subscriptions.sound_of_trace`.
-/

namespace AppBuilder.Subscriptions

open MessageHub (Use Attended opened posted taken listens heard)
open Registry (allOrigins dataFrom)

/-! ### What a history tells -/

/-- What an event does to the hub. -/
def Event.use? : Event → Option Use
  | .subscribed _ id | .listened id => some (.opened id)
  | .closed id | .unlistened id => some (.closed id)
  | .posted m => some (.posted m)
  | .handled id m _ | .received id m => some (.taken id m)
  | .ended id | .dropped id => some (.dropped id)
  | .refused _ | .called _ | .returned _ => none

/-- The uses of the hub, oldest first. -/
def uses (h : List Event) : List Use := h.filterMap Event.use?

/-- The messages posted, oldest first. -/
def posts (h : List Event) : List Message := posted (uses h)

/-- What an event gives the executor of a task. -/
def Event.given (id : Nat) : Event → List Json
  | .handled id' _ data => if id' = id then data else []
  | _ => []

/-- What the executor of a task was given, oldest first. -/
def executed (id : Nat) (h : List Event) : List Json := h.flatMap (Event.given id)

/-- A task was started for an origin and has not ended. -/
def Running (h : List Event) (origin : String) (id : Nat) : Prop :=
  .subscribed origin id ∈ h ∧ .ended id ∉ h

/-- The id of a listener that someone other than the registry uses. -/
def Event.owned? : Event → Option Nat
  | .unlistened id | .received id _ | .dropped id => some id
  | _ => none

/-- Who uses a listener was given it. -/
def Rightful (h : List Event) : Prop :=
  ∀ before e after id, h = before ++ e :: after → e.owned? = some id → .listened id ∈ before

section Views

variable (h h' : List Event) (e : Event) (id : Nat)

@[simp] theorem uses_append : uses (h ++ h') = uses h ++ uses h' := List.filterMap_append

@[simp] theorem uses_cons : uses (e :: h) = e.use?.toList ++ uses h := by
  cases use : e.use? <;> simp [uses, use]

@[simp] theorem uses_nil : uses [] = [] := rfl

@[simp] theorem executed_append : executed id (h ++ h') = executed id h ++ executed id h' :=
  List.flatMap_append

@[simp] theorem executed_one : executed id [e] = e.given id := by simp [executed]

@[simp] theorem dataFrom_append (origin : String) (messages messages' : List Message) :
    dataFrom origin (messages ++ messages') =
      dataFrom origin messages ++ dataFrom origin messages' := by
  simp [dataFrom]

end Views

section Histories

variable {h : List Event} {e e' : Event} {o : String} {id : Nat}

theorem mem_uses_iff {use : Use} : use ∈ uses h ↔ ∃ e ∈ h, e.use? = some use :=
  List.mem_filterMap

theorem use?_eq_opened_iff :
    e.use? = some (.opened id) ↔ (∃ o, e = .subscribed o id) ∨ e = .listened id := by
  cases e <;> simp [Event.use?]

theorem use?_eq_closed_iff :
    e.use? = some (.closed id) ↔ e = .closed id ∨ e = .unlistened id := by
  cases e <;> simp [Event.use?]

theorem use?_eq_dropped_iff :
    e.use? = some (.dropped id) ↔ e = .ended id ∨ e = .dropped id := by
  cases e <;> simp [Event.use?]

theorem mem_closed_iff : Use.closed id ∈ uses h ↔ .closed id ∈ h ∨ .unlistened id ∈ h := by
  simp only [mem_uses_iff, use?_eq_closed_iff, and_or_left, exists_or, exists_eq_right]

theorem mem_dropped_iff : Use.dropped id ∈ uses h ↔ .ended id ∈ h ∨ .dropped id ∈ h := by
  simp only [mem_uses_iff, use?_eq_dropped_iff, and_or_left, exists_or, exists_eq_right]

theorem mem_opened_iff : id ∈ opened (uses h) ↔ (∃ o, .subscribed o id ∈ h) ∨ .listened id ∈ h := by
  have opens : id ∈ opened (uses h) ↔ Use.opened id ∈ uses h := by
    rw [opened, List.mem_filterMap]
    constructor
    · rintro ⟨use, mem, same⟩
      cases use with
      | opened id' =>
        obtain rfl : id' = id := by simpa [Use.opened?] using same
        exact mem
      | _ => simp [Use.opened?] at same
    · exact fun mem => ⟨_, mem, rfl⟩
  rw [opens, mem_uses_iff]
  simp only [use?_eq_opened_iff]
  constructor
  · rintro ⟨e, mem, ⟨o, rfl⟩ | rfl⟩
    · exact .inl ⟨o, mem⟩
    · exact .inr mem
  · rintro (⟨o, mem⟩ | mem)
    · exact ⟨_, mem, .inl ⟨o, rfl⟩⟩
    · exact ⟨_, mem, .inr rfl⟩

/-- No two events give out one id. -/
theorem eq_of_opens (once : (opened (uses h)).Nodup) (mem : e ∈ h) (mem' : e' ∈ h)
    (use : e.use? = some (.opened id)) (use' : e'.use? = some (.opened id)) : e = e' := by
  induction h with
  | nil => cases mem
  | cons first h ih =>
    have rest : (opened (uses h)).Nodup := by
      rw [uses_cons, MessageHub.opened_append] at once
      exact (List.nodup_append.mp once).2.1
    have apart {e : Event} (mem : e ∈ h) (use : e.use? = some (.opened id)) :
        first.use? ≠ some (.opened id) := by
      intro same
      have late : id ∈ opened (uses h) :=
        List.mem_filterMap.mpr ⟨_, mem_uses_iff.mpr ⟨e, mem, use⟩, rfl⟩
      rw [uses_cons, same, MessageHub.opened_append, List.nodup_append] at once
      exact once.2.2 id (by simp [Use.opened?]) id late rfl
    cases mem with
    | head =>
      cases mem' with
      | head => rfl
      | tail _ mem' => exact absurd use (apart mem' use')
    | tail _ mem =>
      cases mem' with
      | head => exact absurd use' (apart mem use)
      | tail _ mem' => exact ih rest mem mem'

theorem Rightful.init (rightful : Rightful (h ++ [e])) : Rightful h :=
  fun before e' after id split => rightful before e' (after ++ [e]) id (by simp [split])

theorem Rightful.last (rightful : Rightful (h ++ [e])) (owned : e.owned? = some id) :
    .listened id ∈ h :=
  rightful h e [] id rfl owned

theorem Rightful.listened (rightful : Rightful h) (mem : e ∈ h) (owned : e.owned? = some id) :
    .listened id ∈ h := by
  obtain ⟨before, after, rfl⟩ := List.append_of_mem mem
  exact List.mem_append_left _ (rightful before e after id rfl owned)

theorem Rightful.snoc (rightful : Rightful h) (mine : ∀ id, e.owned? = some id → .listened id ∈ h) :
    Rightful (h ++ [e]) := by
  intro before e' after id split owned
  rcases List.eq_nil_or_concat after with rfl | ⟨after, last, rfl⟩
  · obtain ⟨rfl, same⟩ := List.append_inj' split rfl
    obtain rfl := (List.cons.inj same).1
    exact mine id owned
  · rw [List.concat_eq_append, ← List.cons_append, ← List.append_assoc] at split
    exact rightful before e' after id (List.append_inj' split rfl).1 owned

theorem Rightful.of_append {h' : List Event} (rightful : Rightful (h ++ h')) : Rightful h :=
  fun before e after id split => rightful before e (after ++ h') id (by simp [split])

end Histories

/-! ### What a step does -/

section Steps

variable {r r' : Registry} {s s' : Subscriptions} {e : Event} {origin : String} {task : Task}
  {m : Message} {rest : List Message}

theorem subscribe?_eq_some_iff : r.subscribe? origin = some r' ↔
    r.tasks.get? origin = none ∧
      ⟨r.hub.listen.2, r.tasks.insert origin ⟨r.hub.listen.1, []⟩⟩ = r' := by
  unfold Registry.subscribe? Registry.isListening Dict.contains
  cases r.tasks.get? origin <;> simp

theorem subscribe?_eq_none_iff :
    r.subscribe? origin = none ↔ ∃ task, r.tasks.get? origin = some task := by
  unfold Registry.subscribe? Registry.isListening Dict.contains
  cases r.tasks.get? origin <;> simp

theorem forward_eq (found : r.tasks.get? origin = some task)
    (next : r.hub.inbox? task.listener = some (m :: rest)) :
    r.forward origin = some ⟨r.hub.setInbox task.listener rest,
      r.tasks.insert origin { task with forwarded := task.forwarded ++ dataFrom origin [m] }⟩ := by
  simp [Registry.forward, found, next]

theorem eq_of_forward (found : r.tasks.get? origin = some task)
    (next : r.hub.inbox? task.listener = some (m :: rest)) (done : r.forward origin = some r') :
    ⟨r.hub.setInbox task.listener rest, r.tasks.insert origin
      { task with forwarded := task.forwarded ++ dataFrom origin [m] }⟩ = r' :=
  Option.some.inj ((forward_eq found next).symm.trans done)

/-- A step leaves the hub alone or uses it as its event tells. -/
theorem hub_of_step (step : Step s e s') :
    (e.use? = none ∧ s'.registry.hub = s.registry.hub) ∨
      ∃ use, e.use? = some use ∧ MessageHub.Step s.registry.hub use s'.registry.hub := by
  cases step with
  | subscribe done =>
    obtain ⟨-, rfl⟩ := subscribe?_eq_some_iff.mp done
    exact .inr ⟨_, rfl, .listen _⟩
  | refuse | call | giveBack => exact .inl ⟨rfl, rfl⟩
  | handle found next done =>
    obtain rfl := eq_of_forward found next done
    exact .inr ⟨_, rfl, .take next⟩
  | close => exact .inr ⟨_, rfl, .unlisten _ _⟩
  | finish => exact .inr ⟨_, rfl, .drop _ _⟩
  | post _ m => exact .inr ⟨_, rfl, .post _ m⟩
  | listen => exact .inr ⟨_, rfl, .listen _⟩
  | unlisten _ id => exact .inr ⟨_, rfl, .unlisten _ id⟩
  | receive next => exact .inr ⟨_, rfl, .take next⟩
  | drop _ id => exact .inr ⟨_, rfl, .drop _ id⟩

end Steps

/-! ### Tasks and ids -/

/-- The tasks are those that are running, and the ids used by calls are those of tasks. -/
structure Staffed (h : List Event) (s : Subscriptions) : Prop where
  attended : Attended (uses h) s.registry.hub
  task : ∀ o task, s.registry.tasks.get? o = some task → Running h o task.listener
  running : ∀ o id, Running h o id →
    ∃ task, s.registry.tasks.get? o = some task ∧ task.listener = id
  own : ∀ id, .closed id ∈ h ∨ .ended id ∈ h → ∃ o, .subscribed o id ∈ h

namespace Staffed

variable {h : List Event} {s s' : Subscriptions} {e : Event} {o o' : String} {id id' : Nat}

theorem start : Staffed [] start where
  attended := .empty
  task := by simp [Subscriptions.start, Registry.onHub]
  running := by simp [Running]
  own := by simp

theorem unique (staffed : Staffed h s) (mem : .subscribed o id ∈ h)
    (mem' : .subscribed o' id ∈ h) : o = o' := by
  have same := eq_of_opens staffed.attended.nodup_opened mem mem' rfl rfl
  exact (Event.subscribed.inj same).1

theorem not_listened (staffed : Staffed h s) (mem : .subscribed o id ∈ h) : .listened id ∉ h :=
  fun mem' => nomatch eq_of_opens staffed.attended.nodup_opened mem mem' rfl rfl

/-- No one but its task uses the listener of a subscription. -/
theorem owned_ne (staffed : Staffed h s) (rightful : Rightful (h ++ [e]))
    (mem : .subscribed o id ∈ h) : e.owned? ≠ some id :=
  fun owned => staffed.not_listened mem (rightful.last owned)

theorem one_task (staffed : Staffed h s) (run : Running h o id) (run' : Running h o id') :
    id = id' := by
  obtain ⟨task, found, rfl⟩ := staffed.running o id run
  obtain ⟨task', found', rfl⟩ := staffed.running o id' run'
  rw [Option.some.inj (found.symm.trans found')]

theorem attended_step (staffed : Staffed h s) (step : Step s e s') :
    Attended (uses (h ++ [e])) s'.registry.hub := by
  rcases hub_of_step step with ⟨use, same⟩ | ⟨use, used, hub⟩
  · simpa [use, same] using staffed.attended
  · simpa [used] using staffed.attended.step hub

/-- A step that starts and ends no task and keeps the listeners of the tasks. -/
theorem keep (staffed : Staffed h s) (step : Step s e s')
    (kept : ∀ o, (s'.registry.tasks.get? o).map Task.listener =
      (s.registry.tasks.get? o).map Task.listener)
    (starts : ∀ o id, e ≠ .subscribed o id) (ends : ∀ id, e ≠ .ended id)
    (closes : ∀ id, e = .closed id → ∃ o, .subscribed o id ∈ h) : Staffed (h ++ [e]) s' := by
  have same (o : String) (id : Nat) : Running (h ++ [e]) o id ↔ Running h o id := by
    simp [Running, (starts o id).symm, (ends id).symm]
  constructor
  case attended => exact staffed.attended_step step
  case task =>
    intro o task found
    have old := kept o
    rw [found, Option.map_some, eq_comm, Option.map_eq_some_iff] at old
    obtain ⟨before, found, listener⟩ := old
    exact (same o _).mpr (listener ▸ staffed.task o before found)
  case running =>
    intro o id run
    obtain ⟨task, found, rfl⟩ := staffed.running o id ((same o id).mp run)
    have new := kept o
    rwa [found, Option.map_some, Option.map_eq_some_iff] at new
  case own =>
    intro id mem
    rcases mem with mem | mem <;> rcases List.mem_append.mp mem with mem | mem
    · exact (staffed.own id (.inl mem)).imp fun _ => List.mem_append_left _
    · exact (closes id (List.mem_singleton.mp mem).symm).imp fun _ => List.mem_append_left _
    · exact (staffed.own id (.inr mem)).imp fun _ => List.mem_append_left _
    · exact absurd (List.mem_singleton.mp mem).symm (ends id)

theorem step (staffed : Staffed h s) (step : Step s e s') : Staffed (h ++ [e]) s' := by
  have attended := staffed.attended_step step
  have whole := step
  -- only a new subscription and the end of a task change which tasks there are
  cases step with
  | @subscribe r r' origin done =>
    obtain ⟨free, rfl⟩ := subscribe?_eq_some_iff.mp done
    have new (o : String) (mem : .subscribed o r.hub.listen.1 ∈ h) : False :=
      absurd (staffed.attended.le_last (mem_opened_iff.mpr (.inl ⟨o, mem⟩)))
        (Nat.not_succ_le_self _)
    have notEnded : .ended r.hub.listen.1 ∉ h := fun mem =>
      (staffed.own _ (.inr mem)).elim new
    constructor
    case attended => exact attended
    case task =>
      intro o task found
      rcases Dict.get?_insert_eq_some_iff.mp found with ⟨rfl, rfl⟩ | ⟨-, before⟩
      · exact ⟨by simp, by simpa using notEnded⟩
      · have run := staffed.task o task before
        exact ⟨List.mem_append_left _ run.1, by simpa using run.2⟩
    case running =>
      rintro o id ⟨mem, notEnded⟩
      rcases List.mem_append.mp mem with mem | mem
      · obtain ⟨task, found, listener⟩ := staffed.running o id ⟨mem, by simpa using notEnded⟩
        have other : origin ≠ o := by
          rintro rfl
          exact nomatch free.symm.trans found
        exact ⟨task, by simpa [Dict.get?_insert, other] using found, listener⟩
      · obtain ⟨rfl, rfl⟩ : o = origin ∧ id = r.hub.listen.1 := by simpa using mem
        exact ⟨_, Dict.get?_insert_self _ _ _, rfl⟩
    case own =>
      intro id mem
      exact (staffed.own id (by simpa using mem)).imp fun _ => List.mem_append_left _
  | @finish r origin left passed task found =>
    have run := staffed.task origin task found
    constructor
    case attended => exact attended
    case task =>
      intro o task' found'
      obtain ⟨ne, before⟩ := Dict.get?_erase_eq_some_iff.mp found'
      have run' := staffed.task o task' before
      have other : task.listener ≠ task'.listener := fun eq =>
        ne (staffed.unique run.1 (eq ▸ run'.1))
      exact ⟨List.mem_append_left _ run'.1, by simpa [Ne.symm other] using run'.2⟩
    case running =>
      rintro o id ⟨mem, notEnded⟩
      obtain ⟨notBefore, notNow⟩ : .ended id ∉ h ∧ id ≠ task.listener := by simpa using notEnded
      obtain ⟨task', found', rfl⟩ := staffed.running o id ⟨by simpa using mem, notBefore⟩
      have other : origin ≠ o := by
        rintro rfl
        obtain rfl := Option.some.inj (found.symm.trans found')
        exact notNow rfl
      exact ⟨task', by simpa [Dict.get?_erase, other] using found', rfl⟩
    case own =>
      intro id mem
      rcases mem with mem | mem
      · exact (staffed.own id (.inl (by simpa using mem))).imp fun _ => List.mem_append_left _
      · rcases List.mem_append.mp mem with mem | mem
        · exact (staffed.own id (.inr mem)).imp fun _ => List.mem_append_left _
        · obtain rfl : id = task.listener := by simpa using mem
          exact ⟨origin, List.mem_append_left _ run.1⟩
  | @handle r r' call origin task m rest found next done =>
    refine staffed.keep whole ?_ (by simp) (by simp) (by simp)
    intro o
    obtain rfl := eq_of_forward found next done
    by_cases same : origin = o
    · subst same
      simp [found]
    · simp [Dict.get?_insert, same]
  | @close r origin left passed task found listening =>
    refine staffed.keep whole (fun _ => rfl) (by simp) (by simp) ?_
    intro id closed
    obtain rfl := Event.closed.inj closed
    exact ⟨origin, (staffed.task origin task found).1⟩
  | refuse | call | giveBack | post | listen | unlisten | receive | drop =>
    exact staffed.keep whole (fun _ => rfl) (by simp) (by simp) (by simp)

end Staffed

/-! ### Inboxes of tasks -/

section Inboxes

variable {h : List Event} {s s' : Subscriptions} {e : Event} {o : String} {id : Nat}

theorem Staffed.exists_inbox (staffed : Staffed h s) (rightful : Rightful h)
    (run : Running h o id) : ∃ box, s.registry.hub.inbox? id = some box := by
  refine staffed.attended.present id (mem_opened_iff.mpr (.inl ⟨o, run.1⟩)) fun dropped => ?_
  rcases mem_dropped_iff.mp dropped with ended | dropped
  · exact run.2 ended
  · exact staffed.not_listened run.1 (rightful.listened dropped rfl)

/-- Only a call that cancels it makes a task stop listening. -/
theorem Staffed.listening_step (staffed : Staffed h s) (rightful : Rightful (h ++ [e]))
    (step : Step s e s') (run : Running h o id) (listening : id ∈ s.registry.hub.listeners)
    (notClosed : e ≠ .closed id) : id ∈ s'.registry.hub.listeners := by
  rcases hub_of_step step with ⟨-, same⟩ | ⟨use, used, hub⟩
  · exact same ▸ listening
  · obtain ⟨box, found⟩ := staffed.exists_inbox rightful.init run
    refine MessageHub.mem_listeners_of_step listening found hub ?_
    rintro rfl
    rcases use?_eq_closed_iff.mp used with rfl | rfl
    · exact notClosed rfl
    · exact staffed.owned_ne rightful run.1 rfl

theorem executed_eq_nil (untouched : taken id (uses h) = []) : executed id h = [] := by
  rw [executed, List.flatMap_eq_nil_iff]
  intro e mem
  cases e with
  | handled id' m data =>
    by_cases same : id' = id
    · have use : .taken id' m ∈ uses h := mem_uses_iff.mpr ⟨_, mem, rfl⟩
      have took : m ∈ taken id (uses h) :=
        List.mem_filterMap.mpr ⟨_, use, by simp [Use.taken?, same]⟩
      simp [untouched] at took
    · simp [Event.given, same]
  | _ => rfl

/-- An event that is not of the task of an id. -/
theorem taken_eq_nil (other : ∀ m data, e ≠ .handled id m data) (notOwned : e.owned? ≠ some id) :
    taken id e.use?.toList = [] := by
  cases e with
  | handled id' m data =>
    have ne : id' ≠ id := fun same => other m data (same ▸ rfl)
    simp [Event.use?, Use.taken?, ne]
  | received id' m =>
    have ne : id' ≠ id := fun same => notOwned (same ▸ rfl)
    simp [Event.use?, Use.taken?, ne]
  | _ => rfl

theorem given_eq_nil (other : ∀ m data, e ≠ .handled id m data) : e.given id = [] := by
  cases e with
  | handled id' m data =>
    have ne : id' ≠ id := fun same => other m data (same ▸ rfl)
    simp [Event.given, ne]
  | _ => rfl

end Inboxes

/-! ### What executors were given -/

/-- An executor was given what its task took, and a task that has ended took all it heard. -/
structure Served (h : List Event) (s : Subscriptions) : Prop where
  executed : ∀ o id, .subscribed o id ∈ h → executed id h = dataFrom o (taken id (uses h))
  forwarded : ∀ o task, s.registry.tasks.get? o = some task →
    task.forwarded = Subscriptions.executed task.listener h
  emptied : ∀ id, .ended id ∈ h → MessageHub.Emptied (uses h) s.registry.hub id

namespace Served

variable {h : List Event} {s s' : Subscriptions} {e : Event} {o : String} {id : Nat}

theorem start : Served [] start where
  executed := by simp
  forwarded := by simp [Subscriptions.start, Registry.onHub]
  emptied := by simp

theorem executed_step (served : Served h s) (staffed : Staffed h s)
    (rightful : Rightful (h ++ [e])) (step : Step s e s') (mem : .subscribed o id ∈ h) :
    Subscriptions.executed id (h ++ [e]) = dataFrom o (taken id (uses (h ++ [e]))) := by
  -- the inbox and the log of a task change together, in its own steps only
  by_cases own : ∃ m data, e = .handled id m data
  · obtain ⟨m, data, rfl⟩ := own
    cases step with
    | handle found next done =>
      obtain rfl := staffed.unique mem (staffed.task _ _ found).1
      simp [served.executed o _ mem, Event.given, Event.use?, Use.taken?]
  · have other (m : Message) (data : List Json) : e ≠ .handled id m data :=
      fun same => own ⟨m, data, same⟩
    simp [served.executed o id mem, given_eq_nil other,
      taken_eq_nil other (staffed.owned_ne rightful mem)]

/-- A step that is not of a task keeps what the tasks forwarded. -/
theorem forwarded_keep (served : Served h s) (other : ∀ id m data, e ≠ .handled id m data)
    {task : Task} (found : s.registry.tasks.get? o = some task) :
    task.forwarded = Subscriptions.executed task.listener (h ++ [e]) := by
  simp [served.forwarded o task found, given_eq_nil (other task.listener)]

theorem forwarded_step (served : Served h s) (staffed : Staffed h s) (step : Step s e s')
    {task : Task} (found : s'.registry.tasks.get? o = some task) :
    task.forwarded = Subscriptions.executed task.listener (h ++ [e]) := by
  cases step with
  | @subscribe r r' origin done =>
    obtain ⟨-, rfl⟩ := subscribe?_eq_some_iff.mp done
    rcases Dict.get?_insert_eq_some_iff.mp found with ⟨rfl, rfl⟩ | ⟨-, before⟩
    · have new := staffed.attended.fresh r.hub.listen.1 (Nat.lt_succ_self _)
      simp [executed_eq_nil new.2.2, Event.given]
    · exact served.forwarded_keep (by simp) before
  | @handle r r' call origin task' m rest found' next done =>
    obtain rfl := eq_of_forward found' next done
    rcases Dict.get?_insert_eq_some_iff.mp found with ⟨rfl, rfl⟩ | ⟨other, before⟩
    · simp [served.forwarded origin task' found', Event.given]
    · have ne : task'.listener ≠ task.listener := fun eq =>
        other (staffed.unique (staffed.task _ _ found').1 (eq ▸ (staffed.task _ _ before).1))
      simp [served.forwarded o task before, Event.given, ne]
  | @finish r origin =>
    exact served.forwarded_keep (by simp) (Dict.get?_erase_eq_some_iff.mp found).2
  | _ => exact served.forwarded_keep (by simp) found

theorem emptied_step (served : Served h s) (staffed : Staffed h s) (step : Step s e s')
    (mem : .ended id ∈ h ++ [e]) :
    MessageHub.Emptied (uses (h ++ [e])) s'.registry.hub id := by
  rcases List.mem_append.mp mem with mem | mem
  · have before := served.emptied id mem
    rcases hub_of_step step with ⟨use, same⟩ | ⟨use, used, hub⟩
    · simpa [use, same] using before
    · simpa [used] using before.step hub
  · obtain rfl := List.mem_singleton.mp mem
    cases step with
    | finish found closed next =>
      have notListening := (MessageHub.isListener_eq_false_iff _ _).mp closed
      simpa [Event.use?] using MessageHub.Emptied.drop staffed.attended next notListening

theorem step (served : Served h s) (staffed : Staffed h s) (rightful : Rightful (h ++ [e]))
    (step : Step s e s') : Served (h ++ [e]) s' where
  executed := by
    intro o id mem
    rcases List.mem_append.mp mem with mem | mem
    · exact served.executed_step staffed rightful step mem
    · obtain rfl := List.mem_singleton.mp mem
      cases step with
      | @subscribe r =>
        have new := (staffed.attended.fresh r.hub.listen.1 (Nat.lt_succ_self _)).2.2
        simp [executed_eq_nil new, new, Event.given, Event.use?, Use.taken?, dataFrom]
  forwarded := fun _ _ found => served.forwarded_step staffed step found
  emptied := fun _ mem => served.emptied_step staffed step mem

end Served

/-! ### Calls that cancel -/

section Matching

variable (r : Registry) (name o : String)

theorem mem_matching_iff : o ∈ r.matching name ↔
    (∃ task, r.tasks.get? o = some task) ∧ (name = o ∨ name = allOrigins) := by
  have origins : o ∈ r.origins ↔ ∃ task, r.tasks.get? o = some task := by
    rw [Registry.origins, Dict.mem_keys_iff, Dict.contains, Option.isSome_iff_exists]
  unfold Registry.matching
  split
  · rename_i all
    simp [origins, all]
  · rename_i one
    simp [origins, one, eq_comm]

theorem nodup_matching : (r.matching name).Nodup := by
  have origins : r.origins.Nodup := by
    refine List.Pairwise.imp ?_ r.tasks.pairwise_keys
    rintro o _ less rfl
    exact String.lt_irrefl o less
  unfold Registry.matching
  split
  · exact origins
  · exact origins.filter _

end Matching

/-- Only the next task of the call that goes on may have stopped listening. -/
structure Ordered (s : Subscriptions) : Prop where
  waiting : ∀ o task, s.registry.tasks.get? o = some task →
    task.listener ∈ s.registry.hub.listeners ∨
      ∃ left passed, s.cancelling = some ⟨o :: left, passed⟩
  todo : ∀ left passed, s.cancelling = some ⟨left, passed⟩ →
    left.Nodup ∧ ∀ o ∈ left, ∃ task, s.registry.tasks.get? o = some task

namespace Ordered

variable {h : List Event} {s s' : Subscriptions} {e : Event}

theorem start : Ordered start where
  waiting := by simp [Subscriptions.start, Registry.onHub]
  todo := by simp [Subscriptions.start]

theorem waiting_step (ordered : Ordered s) (staffed : Staffed h s)
    (rightful : Rightful (h ++ [e])) (step : Step s e s') {o : String} {task : Task}
    (found : s'.registry.tasks.get? o = some task) :
    task.listener ∈ s'.registry.hub.listeners ∨
      ∃ left passed, s'.cancelling = some ⟨o :: left, passed⟩ := by
  -- the step is either the closing of this very task or leaves it listening
  have goesOn (task : Task) (found : s.registry.tasks.get? o = some task)
      (notClosed : e ≠ .closed task.listener)
      (listening : task.listener ∈ s.registry.hub.listeners) :=
    staffed.listening_step rightful step (staffed.task o task found) listening notClosed
  cases step with
  | @subscribe r r' origin done =>
    obtain ⟨-, rfl⟩ := subscribe?_eq_some_iff.mp done
    rcases Dict.get?_insert_eq_some_iff.mp found with ⟨rfl, rfl⟩ | ⟨-, before⟩
    · exact .inl (List.mem_append_right _ (List.mem_singleton_self _))
    · rcases ordered.waiting o task before with listening | ⟨_, _, call⟩
      · exact .inl (goesOn _ before (by simp) listening)
      · cases call
  | @handle r r' call origin task' m rest found' next done =>
    obtain rfl := eq_of_forward found' next done
    rcases Dict.get?_insert_eq_some_iff.mp found with ⟨rfl, rfl⟩ | ⟨-, before⟩
    · refine (ordered.waiting origin task' found').imp_left fun on => ?_
      exact goesOn task' found' (by simp) on
    · exact (ordered.waiting o task before).imp_left (goesOn _ before (by simp))
  | call r name =>
    rcases ordered.waiting o task found with listening | ⟨_, _, call⟩
    · exact .inl (goesOn _ found (by simp) listening)
    · cases call
  | @close r origin left passed task' found' listening =>
    by_cases same : origin = o
    · exact .inr ⟨left, passed, by rw [same]⟩
    · have ne : task'.listener ≠ task.listener := fun eq =>
        same (staffed.unique (staffed.task _ _ found').1 (eq ▸ (staffed.task _ _ found).1))
      rcases ordered.waiting o task found with listening | ⟨_, _, call⟩
      · exact .inl (goesOn _ found (by simp [ne]) listening)
      · obtain rfl : origin = o := by simp_all
        exact absurd rfl same
  | @finish r origin left passed task' =>
    obtain ⟨other, before⟩ := Dict.get?_erase_eq_some_iff.mp found
    rcases ordered.waiting o task before with listening | ⟨_, _, call⟩
    · exact .inl (goesOn _ before (by simp) listening)
    · exact absurd (List.cons.inj (Cancelling.mk.inj (Option.some.inj call)).1).1 other
  | giveBack r passed =>
    rcases ordered.waiting o task found with listening | ⟨_, _, call⟩
    · exact .inl (goesOn _ found (by simp) listening)
    · cases call
  | _ => exact (ordered.waiting o task found).imp_left (goesOn _ found (by simp))

theorem todo_step (ordered : Ordered s) (step : Step s e s') {left : List String}
    {passed : Dict (List Json)} (call : s'.cancelling = some ⟨left, passed⟩) :
    left.Nodup ∧ ∀ o ∈ left, ∃ task, s'.registry.tasks.get? o = some task := by
  cases step with
  | subscribe | refuse | giveBack => cases call
  | @handle r r' _ origin task m rest found next done =>
    obtain rfl := eq_of_forward found next done
    refine (ordered.todo left passed call).imp_right fun all o mem => ?_
    by_cases same : origin = o
    · subst same
      exact ⟨_, Dict.get?_insert_self _ _ _⟩
    · simpa [Dict.get?_insert, same] using all o mem
  | call r name =>
    cases call
    exact ⟨nodup_matching r name, fun o mem => ((mem_matching_iff r name o).mp mem).1⟩
  | @finish r origin left passed task =>
    cases call
    obtain ⟨once, all⟩ := ordered.todo _ _ rfl
    obtain ⟨notLeft, once⟩ := List.nodup_cons.mp once
    refine ⟨once, fun o mem => ?_⟩
    have other : origin ≠ o := fun same => notLeft (same ▸ mem)
    simpa [Dict.get?_erase, other] using all o (List.mem_cons_of_mem _ mem)
  | _ => exact ordered.todo left passed call

theorem step (ordered : Ordered s) (staffed : Staffed h s) (rightful : Rightful (h ++ [e]))
    (step : Step s e s') : Ordered s' where
  waiting := fun _ _ found => ordered.waiting_step staffed rightful step found
  todo := fun _ _ call => ordered.todo_step step call

end Ordered

/-! ### Runs -/

/-- The three invariants after every run. -/
theorem sound_of_trace {h : List Event} {s : Subscriptions} (trace : Trace Step start h s)
    (rightful : Rightful h) : Staffed h s ∧ Served h s ∧ Ordered s := by
  induction trace with
  | nil => exact ⟨.start, .start, .start⟩
  | snoc _ step ih =>
    obtain ⟨staffed, served, ordered⟩ := ih rightful.init
    exact ⟨staffed.step step, served.step staffed rightful step,
      ordered.step staffed rightful step⟩

end AppBuilder.Subscriptions
