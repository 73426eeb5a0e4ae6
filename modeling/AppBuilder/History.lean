import AppBuilder.Json.Basic

/-!
Undo and redo.

A `History` is a list of snapshots of one entity, the oldest first, with a cursor at the
current one. Recording drops what could be redone and, beyond the limit, what is oldest;
a snapshot equal to the current one is not recorded. A step moves the cursor and tells
which fields of the snapshot changed.
-/

namespace AppBuilder

/-- A step through a history. -/
inductive HistoryStep where
  | undo
  | redo
deriving DecidableEq, Repr

def HistoryStep.name : HistoryStep → String
  | undo => "UNDO"
  | redo => "REDO"

/-- Snapshots of an entity. -/
structure History where
  /-- What kind of entity it is. -/
  kind : String
  snapshots : List Json
  cursor : Nat
  /-- The largest number of snapshots. -/
  limit : Nat

/-- A step that was taken. -/
structure Replayed where
  snapshot : Json
  kind : String
  step : HistoryStep
  /-- The fields that changed. -/
  updates : List String

def Replayed.toJson (r : Replayed) : Json :=
  .object [("event", .string r.step.name), ("replayEntity", r.snapshot),
    ("replayEntityType", .string r.kind), ("updates", .strings r.updates)]

namespace History

/-- The names of the fields in which two snapshots differ, sorted; the empty name stands
for the whole when one of them is not an object. -/
def changedFields (a b : Json) : List String :=
  match a.toDict?, b.toDict? with
  | some a, some b =>
    ((NameSet.ofList (a.keys ++ b.keys)).filter fun k => a.get? k != b.get? k).toList
  | _, _ => if a == b then [] else [""]

/-- The history of an entity with its first snapshot. It can hold at least that one. -/
def start (kind : String) (first : Json) (limit : Nat) : History := ⟨kind, [first], 0, max limit 1⟩

/-- The snapshot at the cursor. -/
def current (h : History) : Json := (h.snapshots[h.cursor]?).getD .null

def canUndo (h : History) : Bool := 0 < h.cursor

def canRedo (h : History) : Bool := h.cursor + 1 < h.snapshots.length

/-- The last items of a list, as many as given. -/
def lastItems {α : Type} (count : Nat) (xs : List α) : List α := xs.drop (xs.length - count)

/-- Record a snapshot, unless it equals the current one; the first part tells whether it
was recorded. -/
def record (h : History) (snapshot : Json) : Bool × History :=
  if h.current == snapshot then (false, h)
  else
    let snapshots := lastItems h.limit (h.snapshots.take (h.cursor + 1) ++ [snapshot])
    (true, { h with snapshots, cursor := snapshots.length - 1 })

/-- The place of the cursor after a step, if it can be taken. -/
def target? (h : History) : HistoryStep → Option Nat
  | .undo => if h.canUndo then some (h.cursor - 1) else none
  | .redo => if h.canRedo then some (h.cursor + 1) else none

/-- Take a step; nothing happens at the end of the history. -/
def replay (h : History) (step : HistoryStep) : Option Replayed × History :=
  match h.target? step with
  | none => (none, h)
  | some cursor =>
    let after := { h with cursor }
    (some ⟨after.current, h.kind, step, changedFields h.current after.current⟩, after)

end History

end AppBuilder
