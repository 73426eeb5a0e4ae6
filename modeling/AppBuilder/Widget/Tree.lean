import AppBuilder.Search
import AppBuilder.Widget.Basic

/-!
Trees of widgets.

A `WidgetTree` holds widgets by name. Every write of an entry gives it a new identity, so
that two trees of one history can be compared without looking at the widgets: an entry
with the same identity in both was not written in between (`changedSince`).
-/

namespace AppBuilder

/-- A stored widget and the identity of its last write. -/
structure WidgetEntry where
  identity : Nat
  widget : Widget

/-- Widgets by name. -/
structure WidgetTree where
  entries : Dict WidgetEntry
  /-- The identity that the next write gives. -/
  nextIdentity : Nat

namespace WidgetTree

/-! ### Entries -/

/-- The tree without widgets. -/
def empty : WidgetTree := ⟨.empty, 0⟩

instance : Inhabited WidgetTree := ⟨empty⟩

/-- The widget of a name. -/
def get? (t : WidgetTree) (id : WidgetId) : Option Widget := (t.entries.get? id).map (·.widget)

/-- Whether there is a widget of a name. -/
def contains (t : WidgetTree) (id : WidgetId) : Bool := t.entries.contains id

/-- Number of widgets. -/
def size (t : WidgetTree) : Nat := t.entries.size

/-- The widgets by name, their identities left aside. -/
def widgets (t : WidgetTree) : Dict Widget := t.entries.map fun _ e => e.widget

/-- Write a widget under a name. -/
def write (t : WidgetTree) (key : WidgetId) (w : Widget) : WidgetTree :=
  ⟨t.entries.insert key ⟨t.nextIdentity, w⟩, t.nextIdentity + 1⟩

/-- Store a widget under its own name. -/
def insert (t : WidgetTree) (w : Widget) : WidgetTree := t.write w.id w

/-- Remove the widget of a name; links to it stay. -/
def remove (t : WidgetTree) (id : WidgetId) : WidgetTree := { t with entries := t.entries.erase id }

/-- Change the widget of a name, if there is one. This is a write even when nothing
changes. -/
def modify (t : WidgetTree) (id : WidgetId) (f : Widget → Widget) : WidgetTree :=
  match t.get? id with
  | some w => t.write id (f w)
  | none => t

/-- The tree of a list of widgets; of two with one name the later counts. -/
def ofList (ws : List Widget) : WidgetTree := ws.foldl insert empty

/-- The tree of widgets by name. -/
def ofDict (d : Dict Widget) : WidgetTree := d.entries.foldl (fun t e => t.write e.1 e.2) empty

/-- The tree of an earlier moment, with identities that later writes have not given. -/
def restore (t earlier : WidgetTree) : WidgetTree :=
  ⟨earlier.entries, max t.nextIdentity earlier.nextIdentity⟩

theorem get?_write (t : WidgetTree) (key id : WidgetId) (w : Widget) :
    (t.write key w).get? id = if key = id then some w else t.get? id := by
  simp only [get?, write, Dict.get?_insert]
  split <;> rfl

theorem get?_modify (t : WidgetTree) (key id : WidgetId) (f : Widget → Widget) :
    (t.modify key f).get? id = if key = id then (t.get? id).map f else t.get? id := by
  unfold modify
  split
  · rename_i w hw
    rw [get?_write]
    by_cases h : key = id
    · subst h; simp [hw]
    · simp [h]
  · rename_i hw
    by_cases h : key = id
    · subst h; simp [hw]
    · simp [h]

theorem get?_remove (t : WidgetTree) (key id : WidgetId) :
    (t.remove key).get? id = if key = id then none else t.get? id := by
  simp only [get?, remove, Dict.get?_erase]
  split <;> rfl

/-! ### Links -/

/-- The parent that a widget records. -/
def parentOf? (t : WidgetTree) (id : WidgetId) : Option WidgetId := (t.get? id).bind (·.parent)

/-- The children that a widget lists. -/
def childrenOf (t : WidgetTree) (id : WidgetId) : List WidgetId :=
  match t.get? id with
  | some w => w.children
  | none => []

/-- The layers of a widget. -/
def layersOf (t : WidgetTree) (id : WidgetId) : List FlexLayer :=
  match t.get? id with
  | some w => w.layers
  | none => []

/-- Whether a widget fills its row. -/
def isFill (t : WidgetTree) (id : WidgetId) : Bool :=
  match t.get? id with
  | some w => w.isFill
  | none => false

/-- The canvas that owns the layers of a container: a canvas itself, or else the first
child. -/
def canvasOf? (t : WidgetTree) (id : WidgetId) : Option WidgetId :=
  match t.get? id with
  | none => none
  | some w =>
    if w.isCanvas then some w.id
    else match w.children with
      | [] => none
      | c :: _ => (t.get? c).map (·.id)

/-- The tree as a network from each widget to its children. -/
def toChildren (t : WidgetTree) : Network WidgetId := ⟨t.entries.keys, t.childrenOf⟩

/-- The widgets below a widget, each once, a widget before those below it. A name that a
children list has without a widget is among them. -/
def descendants (t : WidgetTree) (id : WidgetId) : List WidgetId :=
  t.toChildren.preorder (t.childrenOf id)

/-- Whether a widget is another one or above it: it is met on the way up within as many
steps as there are widgets. -/
def isAncestorOrSelf (t : WidgetTree) (candidate of : WidgetId) : Bool :=
  climb (t.size + 1) of
where
  climb : Nat → WidgetId → Bool
    | 0, _ => false
    | steps + 1, id =>
      if id = candidate then true
      else match t.parentOf? id with
        | some parent => climb steps parent
        | none => false

/-! ### Comparison -/

/-- The names of the widgets that came, went or were written since an earlier moment. -/
def changedSince (t earlier : WidgetTree) : NameSet :=
  (NameSet.ofList (t.entries.keys ++ earlier.entries.keys)).filter fun id =>
    match t.entries.get? id, earlier.entries.get? id with
    | some a, some b => a.identity ≠ b.identity
    | _, _ => true

/-! ### Text -/

/-- The widgets by name as JSON. -/
def toJson (t : WidgetTree) : Json := .ofDict (t.widgets.map fun _ w => w.toJson)

/-- Read widgets by name. -/
def ofJson? : Decoder WidgetTree := fun j => (Decode.dict Widget.ofJson? j).map ofDict

end WidgetTree

end AppBuilder
