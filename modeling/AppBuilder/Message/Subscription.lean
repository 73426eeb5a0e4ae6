import AppBuilder.Dict
import AppBuilder.Message.Hub

/-!
Subscriptions to the messages of an origin.

A registry has at most one task per origin. The task listens to a hub and passes on what
comes from its origin, in order; other messages it drops. Cancelling a task stops its
listening, lets it go through the rest of its inbox and ends it. `Subscriptions.Step` has
every interleaving of the tasks, a call that cancels some of them, and others who use the
hub; `Registry.unsubscribe` is the call when no one else does anything while it goes on.
-/

namespace AppBuilder

/-- A task that passes messages on. -/
structure Task where
  listener : Nat
  /-- What was passed on so far. -/
  forwarded : List Json

/-- The subscriptions on a hub. -/
structure Registry where
  hub : MessageHub
  tasks : Dict Task

namespace Registry

/-- The name that stands for all origins when subscriptions are cancelled. -/
def allOrigins : String := "*"

/-- A registry without subscriptions on a hub. -/
def onHub (hub : MessageHub) : Registry := ⟨hub, .empty⟩

/-- Whether there is a subscription to an origin. -/
def isListening (r : Registry) (origin : String) : Bool := r.tasks.contains origin

/-- The origins that are subscribed to, sorted. -/
def origins (r : Registry) : List String := r.tasks.keys

/-- Change the hub. -/
def onHubDo (r : Registry) (f : MessageHub → MessageHub) : Registry := { r with hub := f r.hub }

/-! ### Subscribing -/

/-- Subscribe to an origin; refused when there is a subscription to it. -/
def subscribe? (r : Registry) (origin : String) : Option Registry :=
  if r.isListening origin then none
  else
    let (id, hub) := r.hub.listen
    some ⟨hub, r.tasks.insert origin ⟨id, []⟩⟩

/-- The reason why a subscription is refused. -/
def refusal (origin : String) : String := "already listening to origin " ++ origin

/-! ### Passing messages on -/

/-- What comes from an origin. -/
def dataFrom (origin : String) (messages : List Message) : List Json :=
  (messages.filter fun m => m.origin = origin).map (·.data)

/-- Let the task of an origin go through the next message in its inbox, if there is
one. -/
def forward (r : Registry) (origin : String) : Option Registry :=
  match r.tasks.get? origin with
  | none => none
  | some task =>
    match r.hub.inbox? task.listener with
    | some (m :: rest) =>
      some ⟨r.hub.setInbox task.listener rest,
        r.tasks.insert origin { task with forwarded := task.forwarded ++ dataFrom origin [m] }⟩
    | _ => none

/-! ### Cancelling -/

/-- Cancel a task; the first part is all that it passed on. -/
def cancel (r : Registry) (origin : String) (task : Task) : List Json × Registry :=
  let rest := (r.hub.inbox? task.listener).getD []
  (task.forwarded ++ dataFrom origin rest,
    ⟨(r.hub.unlisten task.listener).dropInbox task.listener, r.tasks.erase origin⟩)

/-- The origins whose subscriptions a name stands for. -/
def matching (r : Registry) (origin : String) : List String :=
  if origin = allOrigins then r.origins else r.origins.filter (· = origin)

/-- Cancel the subscription to the next origin; the first part has what each cancelled task
passed on. -/
def cancelNext (cancelled : Dict (List Json) × Registry) (origin : String) :
    Dict (List Json) × Registry :=
  match cancelled.2.tasks.get? origin with
  | none => cancelled
  | some task =>
    let (data, r) := cancelled.2.cancel origin task
    (cancelled.1.insert origin data, r)

/-- Cancel the subscription to an origin, or all of them; the first part has what each
cancelled task passed on. -/
def unsubscribe (r : Registry) (origin : String) : Dict (List Json) × Registry :=
  (r.matching origin).foldl cancelNext (.empty, r)

end Registry

/-! ### Interleavings -/

/-- A call that cancels subscriptions, while it goes on. -/
structure Cancelling where
  /-- The origins whose tasks have not ended, the next one first. -/
  left : List String
  /-- What the ended tasks passed on. -/
  passed : Dict (List Json)

/-- A registry and the call that cancels subscriptions, if one goes on. The call has the
registry for itself, so nothing else sees which of its tasks have ended. -/
structure Subscriptions where
  registry : Registry
  cancelling : Option Cancelling

namespace Subscriptions

/-- No subscriptions, on a hub without listeners. -/
def start : Subscriptions := ⟨.onHub .empty, none⟩

/-- Change the hub. -/
def onHubDo (s : Subscriptions) (f : MessageHub → MessageHub) : Subscriptions :=
  { s with registry := s.registry.onHubDo f }

/-- What happens in a step. Tasks go by the ids of their listeners. -/
inductive Event where
  | subscribed (origin : String) (id : Nat)
  | refused (origin : String)
  /-- A task took a message and gave its executor some data. -/
  | handled (id : Nat) (m : Message) (data : List Json)
  /-- A call to cancel subscriptions began. -/
  | called (name : String)
  /-- The call stopped the listening of a task. -/
  | closed (id : Nat)
  /-- A task came to the end of its inbox, and the call has seen it. -/
  | ended (id : Nat)
  | returned (passed : Dict (List Json))
  | posted (m : Message)
  | listened (id : Nat)
  | unlistened (id : Nat)
  /-- Who listens took a message. -/
  | received (id : Nat) (m : Message)
  /-- Who listens gave up the inbox. -/
  | dropped (id : Nat)

/-- A step of a task, of the owner of the registry, or of others who use the hub. While a
call to cancel subscriptions goes on, the owner does nothing else. -/
inductive Step : Subscriptions → Event → Subscriptions → Prop where
  | subscribe {r r' : Registry} {origin : String} : r.subscribe? origin = some r' →
    Step ⟨r, none⟩ (.subscribed origin r.hub.listen.1) ⟨r', none⟩
  | refuse {r : Registry} {origin : String} : r.subscribe? origin = none →
    Step ⟨r, none⟩ (.refused origin) ⟨r, none⟩
  | handle {r r' : Registry} {call : Option Cancelling} {origin : String} {task : Task}
      {m : Message} {rest : List Message} :
    r.tasks.get? origin = some task → r.hub.inbox? task.listener = some (m :: rest) →
    r.forward origin = some r' →
    Step ⟨r, call⟩ (.handled task.listener m (Registry.dataFrom origin [m])) ⟨r', call⟩
  | call (r : Registry) (name : String) :
    Step ⟨r, none⟩ (.called name) ⟨r, some ⟨r.matching name, .empty⟩⟩
  | close {r : Registry} {origin : String} {left : List String} {passed : Dict (List Json)}
      {task : Task} :
    r.tasks.get? origin = some task → r.hub.isListener task.listener = true →
    Step ⟨r, some ⟨origin :: left, passed⟩⟩ (.closed task.listener)
      ⟨r.onHubDo (·.unlisten task.listener), some ⟨origin :: left, passed⟩⟩
  | finish {r : Registry} {origin : String} {left : List String} {passed : Dict (List Json)}
      {task : Task} :
    r.tasks.get? origin = some task → r.hub.isListener task.listener = false →
    r.hub.inbox? task.listener = some [] →
    Step ⟨r, some ⟨origin :: left, passed⟩⟩ (.ended task.listener)
      ⟨⟨r.hub.dropInbox task.listener, r.tasks.erase origin⟩,
        some ⟨left, passed.insert origin task.forwarded⟩⟩
  | giveBack (r : Registry) (passed : Dict (List Json)) :
    Step ⟨r, some ⟨[], passed⟩⟩ (.returned passed) ⟨r, none⟩
  | post (s : Subscriptions) (m : Message) : Step s (.posted m) (s.onHubDo (·.post m))
  | listen (s : Subscriptions) :
    Step s (.listened s.registry.hub.listen.1) (s.onHubDo fun h => h.listen.2)
  | unlisten (s : Subscriptions) (id : Nat) : Step s (.unlistened id) (s.onHubDo (·.unlisten id))
  | receive {s : Subscriptions} {id : Nat} {m : Message} {rest : List Message} :
    s.registry.hub.inbox? id = some (m :: rest) →
    Step s (.received id m) (s.onHubDo (·.setInbox id rest))
  | drop (s : Subscriptions) (id : Nat) : Step s (.dropped id) (s.onHubDo (·.dropInbox id))

end Subscriptions

end AppBuilder
