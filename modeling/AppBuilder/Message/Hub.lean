import AppBuilder.Json.Basic

/-!
Messages between windows.

A `MessageHub` passes every message that is posted on to all its listeners. A listener has
an inbox, from which its messages are taken in the order they were posted. When it stops
listening, what is in its inbox can still be taken. Once an inbox is gone its listener
stays until the next message. `MessageHub.Step` has every use of a hub.
-/

namespace AppBuilder

/-- A message from a window. -/
structure Message where
  origin : String
  data : Json

def Message.toJson (m : Message) : Json := .object [("data", m.data), ("origin", .string m.origin)]

/-- Listeners and their inboxes. -/
structure MessageHub where
  /-- The id given last. -/
  last : Nat
  /-- The ids of the listeners. -/
  listeners : List Nat
  /-- The messages not yet taken, by the id of the listener. -/
  inboxes : List (Nat × List Message)

namespace MessageHub

/-- A hub without listeners. -/
def empty : MessageHub := ⟨0, [], []⟩

/-- Add a listener; the first part is its id. -/
def listen (h : MessageHub) : Nat × MessageHub :=
  let id := h.last + 1
  (id, ⟨id, h.listeners ++ [id], h.inboxes ++ [(id, [])]⟩)

/-- Whether an id belongs to a listener. -/
def isListener (h : MessageHub) (id : Nat) : Bool := h.listeners.contains id

/-- Remove a listener; its inbox stays. -/
def unlisten (h : MessageHub) (id : Nat) : MessageHub :=
  { h with listeners := h.listeners.filter (· ≠ id) }

/-- The inbox of an id, if it is there. -/
def inbox? (h : MessageHub) (id : Nat) : Option (List Message) := h.inboxes.lookup id

/-- Replace the contents of an inbox. -/
def setInbox (h : MessageHub) (id : Nat) (messages : List Message) : MessageHub :=
  { h with inboxes := h.inboxes.map fun b => if b.1 = id then (b.1, messages) else b }

/-- Remove an inbox. -/
def dropInbox (h : MessageHub) (id : Nat) : MessageHub :=
  { h with inboxes := h.inboxes.filter (·.1 ≠ id) }

/-- Post a message; listeners without an inbox are removed. -/
def post (h : MessageHub) (m : Message) : MessageHub :=
  { h with
    listeners := h.listeners.filter fun id => (h.inbox? id).isSome
    inboxes := h.inboxes.map fun b => if h.isListener b.1 then (b.1, b.2 ++ [m]) else b }

/-! ### Uses -/

/-- Something done with a hub. -/
inductive Use where
  | opened (id : Nat)
  | closed (id : Nat)
  | posted (m : Message)
  /-- The next message was taken from an inbox. -/
  | taken (id : Nat) (m : Message)
  /-- An inbox was given up. -/
  | dropped (id : Nat)

/-- A use of a hub, by anyone who shares it. -/
inductive Step : MessageHub → Use → MessageHub → Prop where
  | listen (h : MessageHub) : Step h (.opened h.listen.1) h.listen.2
  | unlisten (h : MessageHub) (id : Nat) : Step h (.closed id) (h.unlisten id)
  | post (h : MessageHub) (m : Message) : Step h (.posted m) (h.post m)
  | take {h : MessageHub} {id : Nat} {m : Message} {rest : List Message} :
    h.inbox? id = some (m :: rest) → Step h (.taken id m) (h.setInbox id rest)
  | drop (h : MessageHub) (id : Nat) : Step h (.dropped id) (h.dropInbox id)

end MessageHub

end AppBuilder
