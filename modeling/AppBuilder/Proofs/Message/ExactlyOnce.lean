import AppBuilder.Proofs.Message.Cancelling

/-!
Messages reach the executor of their origin exactly once.

Between its subscription and the call that closes it, the listener of a task hears all that
is posted (`heard_window`). The task has ended when the call returns, and a task that has
ended took all that its listener heard, so its executor was given just what came from its
origin (`delivered_of_return`).

Main statement: `Subscriptions.exactly_once`.
-/

namespace AppBuilder.Subscriptions

open MessageHub (Use opened taken listens heard)
open Registry (allOrigins dataFrom)

/-! ### When the call returns -/

section Return

variable {before during between first window rest after : List Event} {name o : String} {id : Nat}
  {passed : Dict (List Json)} {s : Subscriptions} {e : Event}

/-- An id is given out at one place. -/
theorem not_opened_of_split (once : (opened (uses (before ++ e :: after))).Nodup)
    (opens : e.use? = some (.opened id)) :
    id ∉ opened (uses before) ∧ id ∉ opened (uses after) := by
  simp only [uses_append, uses_cons, opens, Option.toList_some, MessageHub.opened_append,
    MessageHub.opened_one, Use.opened?] at once
  obtain ⟨-, later, apart⟩ := List.nodup_append.mp once
  refine ⟨fun mem => apart id mem id (by simp) rfl, fun mem => ?_⟩
  exact (List.nodup_append.mp later).2.2 id (by simp) id mem rfl

/-- An id that is not closed hears what is posted from the event that gives it out. -/
theorem heard_since (once : (opened (uses (before ++ e :: window))).Nodup)
    (opens : e.use? = some (.opened id)) (notClosed : Use.closed id ∉ uses window) :
    heard id false (uses (before ++ e :: window)) = posts window ∧
      listens id false (uses (before ++ e :: window)) = true := by
  obtain ⟨notBefore, notAfter⟩ := not_opened_of_split once opens
  have closed := MessageHub.listens_of_not_opened notBefore
  constructor
  · simp [opens, MessageHub.heard_append, MessageHub.heard_of_not_opened notBefore, closed, heard,
      Use.listens, MessageHub.heard_of_not_closed notClosed, posts]
  · simpa [opens, closed, Use.listens] using
      (MessageHub.listens_iff_not_closed notAfter).mpr notClosed

/-- The listener of a subscription hears what is posted until the subscription's call closes
it. -/
theorem heard_window
    (once : (opened (uses (before ++ e :: (window ++ .closed id :: rest)))).Nodup)
    (opens : e.use? = some (.opened id)) (notClosed : Use.closed id ∉ uses window) :
    heard id false (uses (before ++ e :: (window ++ .closed id :: rest))) = posts window := by
  have notAfter := (not_opened_of_split once opens).2
  have notRest : id ∉ opened (uses rest) := fun mem => notAfter (by simp [mem])
  rw [← List.cons_append, ← List.append_assoc] at once ⊢
  have firstOnce : (opened (uses (before ++ e :: window))).Nodup := by
    rw [uses_append, MessageHub.opened_append] at once
    exact (List.nodup_append.mp once).1
  obtain ⟨all, listening⟩ := heard_since firstOnce opens notClosed
  rw [uses_append, MessageHub.heard_append, all, listening]
  simp [Event.use?, heard, Use.posted?, Use.listens, MessageHub.heard_of_not_opened notRest]

/-- What the executor of a task that has ended was given in all. -/
theorem executed_of_ended
    (trace : Trace Step start (before ++ .subscribed o id :: (window ++ .closed id :: rest)) s)
    (rightful : Rightful (before ++ .subscribed o id :: (window ++ .closed id :: rest)))
    (notClosed : Use.closed id ∉ uses window)
    (ended : .ended id ∈ before ++ .subscribed o id :: (window ++ .closed id :: rest)) :
    executed id (before ++ .subscribed o id :: (window ++ .closed id :: rest)) =
      dataFrom o (posts window) := by
  obtain ⟨staffed, served, -⟩ := sound_of_trace trace rightful
  rw [served.executed o id (by simp), (served.emptied id ended).took,
    heard_window staffed.attended.nodup_opened rfl notClosed]

/-- No one but the call that cancels it closes the listener of a subscription. -/
theorem closed_of_mem_uses {h : List Event} (staffed : Staffed h s) (rightful : Rightful h)
    (mem : .subscribed o id ∈ h) (sub : during ⊆ h) (closes : Use.closed id ∈ uses during) :
    .closed id ∈ during := by
  rcases mem_closed_iff.mp closes with closed | stopped
  · exact closed
  · exact absurd (rightful.listened (sub stopped) rfl) (staffed.not_listened mem)

/-- Between calls, a task that runs listens. -/
theorem not_closed_of_running
    (trace : Trace Step start (before ++ .subscribed o id :: between) s)
    (rightful : Rightful (before ++ .subscribed o id :: between)) (idle : s.cancelling = none)
    (running : .ended id ∉ before ++ .subscribed o id :: between) :
    Use.closed id ∉ uses between := by
  obtain ⟨staffed, -, ordered⟩ := sound_of_trace trace rightful
  have run : Running (before ++ .subscribed o id :: between) o id := ⟨by simp, running⟩
  obtain ⟨task, found, rfl⟩ := staffed.running o id run
  obtain ⟨box, inbox⟩ := staffed.exists_inbox rightful run
  have listening : task.listener ∈ s.registry.hub.listeners := by
    refine (ordered.waiting o task found).resolve_right ?_
    rintro ⟨left, passed, call⟩
    exact nomatch idle.symm.trans call
  obtain ⟨notBefore, notAfter⟩ :=
    not_opened_of_split (e := .subscribed o task.listener) staffed.attended.nodup_opened rfl
  rw [← MessageHub.listens_iff_not_closed notAfter]
  simpa [Event.use?, MessageHub.listens_of_not_opened notBefore, Use.listens] using
    (staffed.attended.listener task.listener box inbox).mp listening

/-- A task that has not ended since it began to listen has not ended before. -/
theorem running_of_split (trace : Trace Step start (before ++ .subscribed o id :: between) s)
    (rightful : Rightful (before ++ .subscribed o id :: between))
    (running : .ended id ∉ between) : Running (before ++ .subscribed o id :: between) o id := by
  refine ⟨by simp, fun mem => ?_⟩
  rcases List.mem_append.mp mem with mem | mem
  · obtain ⟨s₀, run, -⟩ := trace.split
    have mine := (sound_of_trace run rightful.of_append).1.own id (.inr mem)
    have once := (sound_of_trace trace rightful).1.attended.nodup_opened
    exact (not_opened_of_split once rfl).1 (mem_opened_iff.mpr (.inl mine))
  · exact running (by simpa using mem)

/-- The call closes the listener of a task that it was for, and no one did before. -/
theorem closed_of_return
    (trace : Trace Step start (before ++ .subscribed o id :: between ++ .called name :: during ++
      [.returned passed]) s)
    (rightful : Rightful (before ++ .subscribed o id :: between ++ .called name :: during ++
      [.returned passed]))
    (notClosed : Use.closed id ∉ uses between) (ended : .ended id ∈ during) :
    ∃ first rest, during = first ++ .closed id :: rest ∧
      Use.closed id ∉ uses (between ++ .called name :: first) := by
  obtain ⟨staffed, served, -⟩ := sound_of_trace trace rightful
  have closer {part : List Event} (inside : ∀ e ∈ part, e ∈ during)
      (closes : Use.closed id ∈ uses part) : .closed id ∈ part :=
    closed_of_mem_uses staffed rightful (o := o) (by simp) (fun e mem => by simp [inside e mem])
      closes
  -- an id that is never closed still listens, and then its task cannot have ended
  have closes : Use.closed id ∈ uses during := by
    by_contra notDuring
    have never : Use.closed id ∉
        uses (between ++ (.called name :: during ++ [.returned passed])) := by
      simp [notClosed, notDuring, Event.use?]
    have once := staffed.attended.nodup_opened
    have off := (served.emptied id (by simp [ended])).closed
    rw [List.append_assoc, List.append_assoc, List.cons_append] at once off
    rw [(heard_since once rfl never).2] at off
    cases off
  obtain ⟨first, rest, rfl, notFirst⟩ :=
    List.eq_append_cons_of_mem (closer (fun _ mem => mem) closes)
  refine ⟨first, rest, rfl, fun closes => ?_⟩
  rw [uses_append, List.mem_append] at closes
  refine notFirst (closer (fun e mem => List.mem_append_left _ mem) ?_)
  simpa [Event.use?] using closes.resolve_left notClosed

/-- What the executor of a task was given in all, when a call closed its listener and it has
ended. -/
theorem executed_of_call (after : List Event)
    (trace : Trace Step start (before ++ .subscribed o id :: between ++
      .called name :: (first ++ .closed id :: rest) ++ after) s)
    (rightful : Rightful (before ++ .subscribed o id :: between ++
      .called name :: (first ++ .closed id :: rest) ++ after))
    (notClosed : Use.closed id ∉ uses (between ++ .called name :: first))
    (ended : .ended id ∈ first ++ .closed id :: rest) :
    executed id (before ++ .subscribed o id :: between ++
      .called name :: (first ++ .closed id :: rest) ++ after) =
      dataFrom o (posts (between ++ first)) := by
  have shape : before ++ .subscribed o id :: between ++
      .called name :: (first ++ .closed id :: rest) ++ after =
      before ++ .subscribed o id :: (between ++ .called name :: first ++
        .closed id :: (rest ++ after)) := by simp
  have ended : .ended id ∈ before ++ .subscribed o id :: between ++
      .called name :: (first ++ .closed id :: rest) ++ after :=
    List.mem_append_left _ (List.mem_append_right _ (.tail _ ended))
  rw [shape] at trace rightful ended ⊢
  rw [executed_of_ended trace rightful notClosed ended]
  simp [posts, Event.use?]

/-- When a call returns, the executor of a task that it was for has been given just what came
from its origin until the call closed the listener, and is given nothing more. -/
theorem delivered_of_return
    (trace : Trace Step start (before ++ .subscribed o id :: between ++ .called name :: during ++
      [.returned passed] ++ after) s)
    (rightful : Rightful (before ++ .subscribed o id :: between ++ .called name :: during ++
      [.returned passed] ++ after))
    (running : .ended id ∉ between) (goesOn : ∀ passed, .returned passed ∉ during)
    (named : name = o ∨ name = allOrigins) :
    ∃ first rest, during = first ++ .closed id :: rest ∧
      executed id (before ++ .subscribed o id :: between ++ .called name :: during ++
        [.returned passed] ++ after) = dataFrom o (posts (between ++ first)) ∧
      passed.get? o = some (dataFrom o (posts (between ++ first))) ∧ executed id after = [] := by
  obtain ⟨s₂, returned, -⟩ := trace.split
  have rightful₂ := rightful.of_append
  obtain ⟨s₁, called, idle⟩ := idle_of_call returned
  have rightful₁ := rightful₂.init.of_append
  have run := running_of_split called rightful₁ running
  have ended := ended_of_return returned rightful₂ run goesOn named
  have notClosed := not_closed_of_running called rightful₁ idle run.2
  obtain ⟨first, rest, rfl, notClosed⟩ := closed_of_return returned rightful₂ notClosed ended
  -- the window ends within the call, so it is the same at the return and ever after
  have upToReturn := executed_of_call [.returned passed] returned rightful₂ notClosed ended
  have result := (cancelled_of_return returned rightful₂.init goesOn).2 o id run.1 ended
  rw [List.append_assoc] at trace rightful ⊢
  have inAll := executed_of_call _ trace rightful notClosed ended
  refine ⟨first, rest, rfl, inAll, ?_, ?_⟩
  · rw [result, ← upToReturn, executed_append _ [.returned passed], executed_one]
    exact congrArg some (List.append_nil _).symm
  · rw [← List.append_assoc, executed_append, upToReturn] at inAll
    simpa using inAll

end Return

/-! ### Other listeners -/

/-- A listener that no subscription made is still there, and has every message posted since,
until whoever uses it takes its messages, stops it or gives up its inbox. -/
theorem kept_of_listened {before during : List Event} {id : Nat} {s : Subscriptions}
    (trace : Trace Step start (before ++ .listened id :: during) s)
    (rightful : Rightful (before ++ .listened id :: during))
    (notStopped : .unlistened id ∉ during) (held : .dropped id ∉ during) :
    id ∈ s.registry.hub.listeners ∧
      ∃ box, s.registry.hub.inbox? id = some box ∧
        taken id (uses during) ++ box = posts during := by
  obtain ⟨staffed, -, -⟩ := sound_of_trace trace rightful
  have once := staffed.attended.nodup_opened
  have notMine (o : String) : .subscribed o id ∉ before ++ .listened id :: during :=
    fun mem => staffed.not_listened mem (by simp)
  have notClosed : Use.closed id ∉ uses during := by
    intro closes
    rcases mem_closed_iff.mp closes with closed | stopped
    · exact (staffed.own id (.inl (by simp [closed]))).elim notMine
    · exact notStopped stopped
  have notDropped : Use.dropped id ∉ uses (before ++ .listened id :: during) := by
    intro drops
    rcases mem_dropped_iff.mp drops with ended | dropped
    · exact (staffed.own id (.inr ended)).elim notMine
    · have mem : .dropped id ∈ before := by simpa [held] using dropped
      have mine := rightful.of_append.listened mem rfl
      exact (not_opened_of_split once rfl).1 (mem_opened_iff.mpr (.inr mine))
  obtain ⟨box, found⟩ :=
    staffed.attended.present id (mem_opened_iff.mpr (.inr (by simp))) notDropped
  obtain ⟨all, listening⟩ := heard_since once rfl notClosed
  have new : taken id (uses before) = [] := by
    rw [← List.singleton_append, ← List.append_assoc] at trace
    obtain ⟨_, run, -⟩ := trace.split
    obtain ⟨s₀, run, step⟩ := run.snoc_inv
    have attended := (sound_of_trace run rightful.of_append).1.attended
    cases step with
    | listen => exact (attended.fresh _ (Nat.lt_succ_self _)).2.2
  have kept := staffed.attended.kept id box found
  rw [all, uses_append, uses_cons, MessageHub.taken_append, MessageHub.taken_append, new] at kept
  exact ⟨(staffed.attended.listener id box found).mpr listening, box, found,
    by simpa [Event.use?, Use.taken?] using kept⟩

/-! ### Every run -/

/-- In every interleaving of the tasks, the owner of the registry and others who use the hub:
an origin has at most one task; a subscription is refused just when there is one, and changes
nothing; when a call to cancel subscriptions returns, the executor of each task that it was
for was given just what came from its origin since the subscription until the call closed
the listener, in order, and is given nothing more; when all were cancelled, no task and no
listener of a subscription is left; another listener stays and misses nothing; the call
returns when its tasks go on; and what `Registry.unsubscribe` gives at once is how such a
call can return. -/
theorem exactly_once {h : List Event} {s : Subscriptions} (trace : Trace Step start h s)
    (rightful : Rightful h) :
    (∀ o id id', Running h o id → Running h o id' → id = id') ∧
    (∀ o, s.registry.subscribe? o = none ↔ ∃ id, Running h o id) ∧
    (∀ o s', Step s (.refused o) s' → s' = s ∧ ∃ id, Running h o id) ∧
    (∀ before o id between name during passed after,
      h = before ++ .subscribed o id :: between ++ .called name :: during ++ [.returned passed] ++
        after →
      .ended id ∉ between → (∀ passed, .returned passed ∉ during) →
      name = o ∨ name = allOrigins →
      ∃ first rest, during = first ++ .closed id :: rest ∧
        executed id h = dataFrom o (posts (between ++ first)) ∧
        passed.get? o = some (dataFrom o (posts (between ++ first))) ∧ executed id after = []) ∧
    (∀ before during passed, h = before ++ .called allOrigins :: during ++ [.returned passed] →
      (∀ passed, .returned passed ∉ during) →
      (∀ o id, ¬ Running h o id) ∧
      ∀ o id, .subscribed o id ∈ h → id ∉ s.registry.hub.listeners) ∧
    (∀ before id during, h = before ++ .listened id :: during → .unlistened id ∉ during →
      .dropped id ∉ during → id ∈ s.registry.hub.listeners ∧
        ∃ box, s.registry.hub.inbox? id = some box ∧
          taken id (uses during) ++ box = posts during) ∧
    (∀ call, s.cancelling = some call → ∃ more passed s', (∀ e ∈ more, e.working = true) ∧
      Trace Step start (h ++ more ++ [.returned passed]) s') ∧
    (s.cancelling = none → ∀ name, ∃ more, (∀ e ∈ more, e.working = true) ∧
      Trace Step start
        (h ++ .called name :: more ++ [.returned (s.registry.unsubscribe name).1])
        ⟨(s.registry.unsubscribe name).2, none⟩) := by
  obtain ⟨staffed, served, -⟩ := sound_of_trace trace rightful
  have refused_iff (o : String) : s.registry.subscribe? o = none ↔ ∃ id, Running h o id := by
    rw [subscribe?_eq_none_iff]
    constructor
    · rintro ⟨task, found⟩
      exact ⟨_, staffed.task o task found⟩
    · rintro ⟨id, run⟩
      exact (staffed.running o id run).imp fun _ => And.left
  refine ⟨fun o id id' => staffed.one_task, refused_iff, ?_, ?_, ?_, ?_, ?_, ?_⟩
  · intro o s' step
    cases step with
    | refuse busy => exact ⟨rfl, (refused_iff o).mp busy⟩
  · rintro before o id between name during passed after rfl running goesOn named
    exact delivered_of_return trace rightful running goesOn named
  · rintro before during passed rfl goesOn
    have gone := (cancelled_of_return trace rightful.init goesOn).1
    have idle (o : String) (id : Nat) : ¬ Running _ o id := fun run => by
      obtain ⟨task, found, -⟩ := staffed.running o id run
      exact nomatch (gone o (.inr rfl)).symm.trans found
    refine ⟨idle, fun o id mem => ?_⟩
    have ended : .ended id ∈ before ++ .called allOrigins :: during ++ [.returned passed] := by
      by_contra notEnded
      exact idle o id ⟨mem, notEnded⟩
    exact (served.emptied id ended).notListening
  · rintro before id during rfl notStopped held
    exact kept_of_listened trace rightful notStopped held
  · rintro ⟨left, passed⟩ going
    obtain ⟨r, _⟩ := s
    obtain rfl : _ = some (⟨left, passed⟩ : Cancelling) := going
    obtain ⟨more, working, run⟩ := return_of_trace trace rightful
    exact ⟨more, _, _, working, run⟩
  · intro free name
    obtain ⟨r, _⟩ := s
    obtain rfl : _ = none := free
    exact unsubscribe_trace trace rightful name

/-- Two messages from one origin. -/
def early : Message := ⟨"a", .string "early"⟩

def late : Message := ⟨"a", .string "late"⟩

/-- What happens while a call cancels the only subscription: a message comes before the
listening stops, and the task handles the two that it heard. -/
def lastCall : List Event :=
  [.posted late, .closed 1, .handled 1 early [early.data], .handled 1 late [late.data], .ended 1]

/-- A run that ends when the call returns. -/
def lastRun : List Event :=
  .subscribed "a" 1 :: [.listened 2, .posted early] ++ .called allOrigins :: lastCall ++
    [.returned (Dict.empty.insert "a" [early.data, late.data])]

theorem exactly_once_last_call :
    ∃ s, Trace Step start lastRun s ∧ Rightful lastRun ∧ s.cancelling = none ∧
      (∃ first rest, lastCall = first ++ .closed 1 :: rest ∧
        executed 1 lastRun = dataFrom "a" (posts ([.listened 2, .posted early] ++ first))) ∧
      1 ∉ s.registry.hub.listeners ∧ 2 ∈ s.registry.hub.listeners := by
  have closed : Trace Step start
      [.subscribed "a" 1, .listened 2, .posted early, .called allOrigins, .posted late, .closed 1]
      ⟨⟨⟨2, [2], [(1, [early, late]), (2, [early, late])]⟩, Dict.empty.insert "a" ⟨1, []⟩⟩,
        some ⟨["a"], .empty⟩⟩ :=
    (((((Trace.nil.snoc (.subscribe rfl)).snoc (.listen _)).snoc (.post _ early)).snoc
      (.call _ _)).snoc (.post _ late)).snoc (@Step.close _ "a" [] _ ⟨1, []⟩ rfl rfl)
  have trace : Trace Step start lastRun ⟨⟨⟨2, [2], [(2, [early, late])]⟩, .empty⟩, none⟩ :=
    (((closed.snoc (@Step.handle _ _ _ "a" ⟨1, []⟩ early [late] rfl rfl rfl)).snoc
      (@Step.handle _ _ _ "a" ⟨1, [early.data]⟩ late [] rfl rfl rfl)).snoc
      (@Step.finish _ "a" [] _ ⟨1, [early.data, late.data]⟩ rfl rfl rfl)).snoc (.giveBack _ _)
  have rightful : Rightful lastRun := by
    intro before e after id split owned
    have free : ∀ e ∈ lastRun, e.owned? = none := by simp [lastRun, lastCall, Event.owned?]
    rw [free e (by simp [split])] at owned
    cases owned
  obtain ⟨-, -, -, delivered, cancelled, others, -⟩ := exactly_once trace rightful
  have noReturn : ∀ passed, .returned passed ∉ lastCall := by simp [lastCall]
  obtain ⟨first, rest, split, executed, -⟩ :=
    delivered [] "a" 1 [.listened 2, .posted early] allOrigins lastCall _ [] rfl
      (by simp) noReturn (.inr rfl)
  refine ⟨_, trace, rightful, rfl, ⟨first, rest, split, executed⟩, ?_, ?_⟩
  · exact (cancelled _ lastCall _ rfl noReturn).2 "a" 1 (by simp [lastRun])
  · exact (others [.subscribed "a" 1] 2 _ rfl (by simp [lastCall]) (by simp [lastCall])).1

end AppBuilder.Subscriptions
