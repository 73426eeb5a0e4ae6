import AppBuilder.Proofs.Message.Subscription

/-!
Calls that cancel subscriptions.

When such a call returns, every task that it was for has ended, and its result is what those
tasks gave their executors (`During`). It comes to its return whenever the tasks go on, and
what `Registry.unsubscribe` computes is the outcome of such a run.

Main statements: `Subscriptions.cancelled_of_return`, `Subscriptions.unsubscribe_trace`.
-/

namespace AppBuilder.Subscriptions

open Registry (allOrigins dataFrom cancelNext)

/-! ### While a call goes on -/

/-- A call goes on: the tasks it was called for that have not ended are left to it, and what
the ended ones gave their executors is in its result. -/
structure During (before : List Event) (name : String) (during : List Event)
    (s : Subscriptions) (call : Cancelling) : Prop where
  going : s.cancelling = some call
  left : ∀ o task, s.registry.tasks.get? o = some task → name = o ∨ name = allOrigins →
    o ∈ call.left
  passed : ∀ o id, .subscribed o id ∈ before → .ended id ∈ during →
    s.registry.tasks.get? o = none ∧
      call.passed.get? o = some (executed id (before ++ .called name :: during))

section During

variable {before during : List Event} {name : String} {s s' : Subscriptions} {call : Cancelling}
  {e : Event}

theorem executed_during (id : Nat) : executed id (before ++ .called name :: (during ++ [e])) =
    executed id (before ++ .called name :: during) ++ e.given id := by
  simp [executed]

theorem During.start (r : Registry) :
    During before name [] ⟨r, some ⟨r.matching name, .empty⟩⟩ ⟨r.matching name, .empty⟩ where
  going := rfl
  left := fun o task found named => (mem_matching_iff r name o).mpr ⟨⟨task, found⟩, named⟩
  passed := by simp

/-- A step that ends no task and starts none. -/
theorem During.keep (now : During before name during s call)
    (staffed : Staffed (before ++ .called name :: during) s) (step : Step s e s')
    (going : s'.cancelling = some call)
    (kept : ∀ o, (s'.registry.tasks.get? o).isSome = (s.registry.tasks.get? o).isSome)
    (ends : ∀ id, e ≠ .ended id) : During before name (during ++ [e]) s' call where
  going := going
  left := by
    intro o task found named
    have running := kept o
    rw [found, Option.isSome_some, eq_comm, Option.isSome_iff_exists] at running
    obtain ⟨task', found'⟩ := running
    exact now.left o task' found' named
  passed := by
    intro o id mem ended
    have past : .ended id ∈ during := by simpa [(ends id).symm] using ended
    obtain ⟨gone, passed⟩ := now.passed o id mem past
    have quiet : e.given id = [] := by
      refine given_eq_nil fun m data => ?_
      rintro rfl
      cases step with
      | handle found => exact (staffed.task _ _ found).2 (by simp [past])
    have finished : (s'.registry.tasks.get? o).isSome = false := by
      rw [kept o, gone, Option.isSome_none]
    refine ⟨by simpa using finished, ?_⟩
    rw [executed_during, quiet, List.append_nil, passed]

theorem During.finish {r : Registry} {o : String} {left : List String}
    {passed : Dict (List Json)} {task : Task}
    (now : During before name during ⟨r, some ⟨o :: left, passed⟩⟩ ⟨o :: left, passed⟩)
    (staffed : Staffed (before ++ .called name :: during) ⟨r, some ⟨o :: left, passed⟩⟩)
    (served : Served (before ++ .called name :: during) ⟨r, some ⟨o :: left, passed⟩⟩)
    (found : r.tasks.get? o = some task) :
    During before name (during ++ [.ended task.listener])
      ⟨⟨r.hub.dropInbox task.listener, r.tasks.erase o⟩,
        some ⟨left, passed.insert o task.forwarded⟩⟩ ⟨left, passed.insert o task.forwarded⟩ where
  going := rfl
  left := by
    intro o' task' found' named
    obtain ⟨other, found'⟩ := Dict.get?_erase_eq_some_iff.mp found'
    exact (List.mem_cons.mp (now.left o' task' found' named)).resolve_left (Ne.symm other)
  passed := by
    intro o' id mem ended
    rw [executed_during, show Event.given id (.ended task.listener) = [] from rfl, List.append_nil]
    rcases List.mem_append.mp ended with past | last
    · obtain ⟨gone, passed⟩ := now.passed o' id mem past
      have other : o ≠ o' := by
        rintro rfl
        exact nomatch gone.symm.trans found
      exact ⟨by simp [Dict.get?_erase, other, gone], by rw [Dict.get?_insert, if_neg other, passed]⟩
    · obtain rfl : id = task.listener := by simpa using last
      obtain rfl := staffed.unique (staffed.task o task found).1 (List.mem_append_left _ mem)
      refine ⟨by simp [Dict.get?_erase], ?_⟩
      rw [Dict.get?_insert_self, served.forwarded o task found]

theorem During.step (now : During before name during s call)
    (staffed : Staffed (before ++ .called name :: during) s)
    (served : Served (before ++ .called name :: during) s) (step : Step s e s')
    (goesOn : ∀ passed, e ≠ .returned passed) :
    ∃ call', During before name (during ++ [e]) s' call' := by
  have going := now.going
  have whole := step
  cases step with
  | subscribe | refuse | call => cases going
  | giveBack r passed => exact absurd rfl (goesOn passed)
  | @handle r r' call' origin task m rest found next done =>
    refine ⟨call, now.keep staffed whole going ?_ (by simp)⟩
    intro o
    obtain rfl := eq_of_forward found next done
    by_cases same : origin = o
    · subst same
      simp [found]
    · simp [Dict.get?_insert, same]
  | finish found closed next =>
    cases going
    exact ⟨_, now.finish staffed served found⟩
  | close | post | listen | unlisten | receive | drop =>
    exact ⟨call, now.keep staffed whole going (fun _ => rfl) (by simp)⟩

theorem during_of_trace (trace : Trace Step start (before ++ .called name :: during) s)
    (rightful : Rightful (before ++ .called name :: during))
    (goesOn : ∀ passed, .returned passed ∉ during) : ∃ call, During before name during s call := by
  -- by induction on what happened since the call, the last event first
  induction during using List.reverseRecOn generalizing s with
  | nil =>
    obtain ⟨_, -, step⟩ := trace.snoc_inv
    cases step with
    | call r => exact ⟨_, .start r⟩
  | append_singleton during e ih =>
    have whole : before ++ .called name :: (during ++ [e]) =
        before ++ .called name :: during ++ [e] := by simp
    rw [whole] at trace rightful
    obtain ⟨s₀, run, step⟩ := trace.snoc_inv
    obtain ⟨staffed, served, -⟩ := sound_of_trace run rightful.init
    obtain ⟨call, now⟩ := ih run rightful.init fun passed mem =>
      goesOn passed (List.mem_append_left _ mem)
    refine now.step staffed served step fun passed same => goesOn passed ?_
    exact List.mem_append_right _ (same ▸ List.mem_singleton_self _)

end During

/-! ### When a call returns -/

section Return

variable {before during after : List Event} {name o : String} {id : Nat}
  {passed : Dict (List Json)} {s : Subscriptions}

/-- Every task that the call was for has ended, and the call has what it passed on. -/
theorem cancelled_of_return
    (trace : Trace Step start (before ++ .called name :: during ++ [.returned passed]) s)
    (rightful : Rightful (before ++ .called name :: during))
    (goesOn : ∀ passed, .returned passed ∉ during) :
    (∀ o, name = o ∨ name = allOrigins → s.registry.tasks.get? o = none) ∧
      ∀ o id, .subscribed o id ∈ before → .ended id ∈ during →
        passed.get? o = some (executed id (before ++ .called name :: during)) := by
  obtain ⟨s₀, run, step⟩ := trace.snoc_inv
  obtain ⟨call, now⟩ := during_of_trace run rightful goesOn
  cases step with
  | giveBack r passed =>
    obtain rfl : ⟨[], passed⟩ = call := Option.some.inj now.going
    refine ⟨fun o named => ?_, fun o id mem ended => (now.passed o id mem ended).2⟩
    cases found : r.tasks.get? o with
    | none => rfl
    | some task => exact absurd (now.left o task found named) List.not_mem_nil

/-- A task has ended when a call returns that was for it and found it running. -/
theorem ended_of_return
    (trace : Trace Step start (before ++ .called name :: during ++ [.returned passed]) s)
    (rightful : Rightful (before ++ .called name :: during ++ [.returned passed]))
    (run : Running before o id) (goesOn : ∀ passed, .returned passed ∉ during)
    (named : name = o ∨ name = allOrigins) : .ended id ∈ during := by
  obtain ⟨staffed, -, -⟩ := sound_of_trace trace rightful
  obtain ⟨gone, -⟩ := cancelled_of_return trace rightful.init goesOn
  by_contra notDuring
  have notEnded : .ended id ∉ before ++ .called name :: during ++ [.returned passed] := by
    simp [run.2, notDuring]
  obtain ⟨task, found, -⟩ := staffed.running o id ⟨by simp [run.1], notEnded⟩
  exact nomatch (gone o named).symm.trans found

/-- A call begins when no other one goes on. -/
theorem idle_of_call (trace : Trace Step start (before ++ .called name :: during ++ after) s) :
    ∃ s₁, Trace Step start before s₁ ∧ s₁.cancelling = none := by
  obtain ⟨s₂, run, -⟩ := trace.split
  rw [← List.singleton_append, ← List.append_assoc] at run
  obtain ⟨_, upTo, -⟩ := run.split
  obtain ⟨s₁, first, call⟩ := upTo.snoc_inv
  cases call
  exact ⟨_, first, rfl⟩

end Return

/-! ### Calls return -/

/-- Whether an event is of a task, or of a call that ends it. -/
def Event.working : Event → Bool
  | .handled _ _ _ | .closed _ | .ended _ => true
  | _ => false

section Returns

variable {r : Registry} {o : String} {task : Task} {m : Message} {rest : List Message}
  (left : List String) (passed : Dict (List Json))

theorem unlisten_eq_self {hub : MessageHub} {id : Nat} (off : id ∉ hub.listeners) :
    hub.unlisten id = hub := by
  have same : hub.listeners.filter (· ≠ id) = hub.listeners :=
    List.filter_eq_self.mpr fun i mem => by simpa using fun eq : i = id => off (eq ▸ mem)
  rw [MessageHub.unlisten, same]

theorem dropInbox_setInbox (hub : MessageHub) (id : Nat) (messages : List Message) :
    (hub.setInbox id messages).dropInbox id = hub.dropInbox id := by
  unfold MessageHub.dropInbox MessageHub.setInbox
  congr 1
  induction hub.inboxes with
  | nil => rfl
  | cons b boxes ih =>
    by_cases same : b.1 = id <;> simp [same] at ih ⊢ <;> exact ih

theorem erase_insert (d : Dict Task) (o : String) (task : Task) :
    (d.insert o task).erase o = d.erase o := by
  refine Dict.ext_get? fun o' => ?_
  by_cases same : o = o' <;> simp [Dict.get?_erase, Dict.get?_insert, same]

/-- Cancelling a task after it stopped listening. -/
theorem cancel_unlisten :
    (r.onHubDo (·.unlisten task.listener)).cancel o task = r.cancel o task := by
  have again : (r.hub.unlisten task.listener).unlisten task.listener =
      r.hub.unlisten task.listener := unlisten_eq_self (by simp)
  simp [Registry.cancel, Registry.onHubDo, again]

/-- Cancelling a task after it handled a message. -/
theorem cancel_forward (next : r.hub.inbox? task.listener = some (m :: rest)) :
    Registry.cancel ⟨r.hub.setInbox task.listener rest,
      r.tasks.insert o { task with forwarded := task.forwarded ++ dataFrom o [m] }⟩ o
        { task with forwarded := task.forwarded ++ dataFrom o [m] } = r.cancel o task := by
  have hub : ((r.hub.setInbox task.listener rest).unlisten task.listener).dropInbox task.listener =
      (r.hub.unlisten task.listener).dropInbox task.listener :=
    dropInbox_setInbox (r.hub.unlisten task.listener) task.listener rest
  have whole : dataFrom o (m :: rest) = dataFrom o [m] ++ dataFrom o rest :=
    dataFrom_append o [m] rest
  simp [Registry.cancel, MessageHub.inbox?_setInbox, next, hub, erase_insert, whole]

/-- A task that has stopped listening goes through its inbox and ends. -/
theorem drain {box : List Message} (found : r.tasks.get? o = some task)
    (off : r.hub.isListener task.listener = false) (inbox : r.hub.inbox? task.listener = some box) :
    ∃ more, (∀ e ∈ more, e.working = true) ∧
      Trace Step ⟨r, some ⟨o :: left, passed⟩⟩ more
        ⟨(r.cancel o task).2, some ⟨left, passed.insert o (r.cancel o task).1⟩⟩ := by
  induction box generalizing r task with
  | nil =>
    have notListening := (MessageHub.isListener_eq_false_iff _ _).mp off
    have cancel : r.cancel o task =
        (task.forwarded, ⟨r.hub.dropInbox task.listener, r.tasks.erase o⟩) := by
      simp [Registry.cancel, inbox, unlisten_eq_self notListening, dataFrom]
    refine ⟨[.ended task.listener], by simp [Event.working], ?_⟩
    rw [cancel]
    exact Trace.nil.snoc (.finish found off inbox)
  | cons m rest ih =>
    obtain ⟨more, working, run⟩ := ih
      (r := ⟨r.hub.setInbox task.listener rest,
        r.tasks.insert o { task with forwarded := task.forwarded ++ dataFrom o [m] }⟩)
      (Dict.get?_insert_self _ _ _) off (by simp [MessageHub.inbox?_setInbox, inbox])
    rw [cancel_forward inbox] at run
    refine ⟨.handled task.listener m (dataFrom o [m]) :: more, ?_, ?_⟩
    · simpa [Event.working] using working
    · exact .cons (.handle found inbox (forward_eq found inbox)) run

/-- The call ends the task of the next origin. -/
theorem end_next {box : List Message} (found : r.tasks.get? o = some task)
    (inbox : r.hub.inbox? task.listener = some box) :
    ∃ more, (∀ e ∈ more, e.working = true) ∧
      Trace Step ⟨r, some ⟨o :: left, passed⟩⟩ more
        ⟨(cancelNext (passed, r) o).2, some ⟨left, (cancelNext (passed, r) o).1⟩⟩ := by
  have next : cancelNext (passed, r) o =
      (passed.insert o (r.cancel o task).1, (r.cancel o task).2) := by
    simp [cancelNext, found]
  rw [next]
  cases on : r.hub.isListener task.listener with
  | false => exact drain left passed found on inbox
  | true =>
    have off : (r.hub.unlisten task.listener).isListener task.listener = false := by
      simp [MessageHub.isListener, MessageHub.unlisten]
    obtain ⟨more, working, run⟩ :=
      drain (r := r.onHubDo (·.unlisten task.listener)) left passed found off inbox
    rw [cancel_unlisten] at run
    refine ⟨.closed task.listener :: more, by simpa [Event.working] using working, ?_⟩
    exact .cons (.close found on) run

end Returns

theorem Rightful.append {h more : List Event} (rightful : Rightful h)
    (working : ∀ e ∈ more, e.working = true) : Rightful (h ++ more) := by
  induction more using List.reverseRecOn with
  | nil => simpa using rightful
  | append_singleton more e ih =>
    have busy := working e (by simp)
    rw [← List.append_assoc]
    refine (ih fun e mem => working e (List.mem_append_left _ mem)).snoc ?_
    cases e <;> simp_all [Event.owned?, Event.working]

/-- A call that goes on returns when its tasks go on, with what it would give alone. -/
theorem return_of_trace {h : List Event} {r : Registry} {left : List String}
    {passed : Dict (List Json)} (trace : Trace Step start h ⟨r, some ⟨left, passed⟩⟩)
    (rightful : Rightful h) :
    ∃ more, (∀ e ∈ more, e.working = true) ∧
      Trace Step start (h ++ more ++ [.returned (left.foldl cancelNext (passed, r)).1])
        ⟨(left.foldl cancelNext (passed, r)).2, none⟩ := by
  induction left generalizing h r passed with
  | nil => exact ⟨[], by simp, by simpa using trace.snoc (.giveBack r passed)⟩
  | cons o left ih =>
    obtain ⟨staffed, -, ordered⟩ := sound_of_trace trace rightful
    obtain ⟨task, found⟩ := (ordered.todo _ _ rfl).2 o (List.mem_cons_self)
    obtain ⟨box, inbox⟩ := staffed.exists_inbox rightful (staffed.task o task found)
    obtain ⟨more, working, run⟩ := end_next left passed found inbox
    obtain ⟨more', working', run'⟩ := ih (trace.append run) (rightful.append working)
    refine ⟨more ++ more', fun e mem => ?_, by simpa using run'⟩
    exact (List.mem_append.mp mem).elim (working e) (working' e)

/-- What `Registry.unsubscribe` gives is the outcome of a call that goes on alone. -/
theorem unsubscribe_trace {h : List Event} {r : Registry} (trace : Trace Step start h ⟨r, none⟩)
    (rightful : Rightful h) (name : String) :
    ∃ more, (∀ e ∈ more, e.working = true) ∧
      Trace Step start (h ++ .called name :: more ++ [.returned (r.unsubscribe name).1])
        ⟨(r.unsubscribe name).2, none⟩ := by
  have goesOn : Rightful (h ++ [.called name]) := rightful.snoc (by simp [Event.owned?])
  obtain ⟨more, working, run⟩ := return_of_trace (trace.snoc (.call r name)) goesOn
  exact ⟨more, working, by simpa [Registry.unsubscribe] using run⟩

end AppBuilder.Subscriptions
