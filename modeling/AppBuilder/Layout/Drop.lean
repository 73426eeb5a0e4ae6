import AppBuilder.Layout.Move

/-!
What the end of a drag does to a widget tree.

A drag from the palette creates a widget in the container of its target and then moves it
to the target (`DropEvent.create`); any other drag moves the widgets that it holds
(`DropEvent.move`). How a widget is created is up to a `WidgetFactory` (`DropEvent.run`), or
it is made from its description alone (`DropEvent.place`).
-/

namespace AppBuilder

/-! ### Events -/

/-- A widget to be created. -/
structure NewWidget where
  id : WidgetId
  type : String
  rows : Int
  columns : Int
  sizing : Sizing
deriving DecidableEq, Repr

namespace NewWidget

/-- The widget as a child of a container, at the top left. -/
def toWidget (n : NewWidget) (parent : WidgetId) : Widget :=
  { Widget.ofType n.id n.type with
    parent := some parent
    position := ⟨0, n.rows, 0, n.columns⟩
    sizing := n.sizing }

def toJson (n : NewWidget) : Json :=
  .object [("newWidgetId", .string n.id), ("type", .string n.type), ("rows", .int n.rows),
    ("columns", .int n.columns), ("responsiveBehavior", .string n.sizing.name)]

def ofJson? : Decoder NewWidget := Decode.record do
  let id ← Decode.required "newWidgetId" Decode.string
  let type ← Decode.required "type" Decode.string
  let rows ← Decode.required "rows" Decode.int32
  let columns ← Decode.required "columns" Decode.int32
  let sizing ← Decode.defaulted "responsiveBehavior" .hug Sizing.ofJson?
  return ⟨id, type, rows, columns, sizing⟩

end NewWidget

/-- The end of a drag. -/
inductive DropEvent where
  | create (widget : NewWidget) (target : DropTarget)
  | move (moved : List WidgetId) (target : DropTarget)
deriving DecidableEq, Repr

namespace DropEvent

def target : DropEvent → DropTarget
  | create _ d => d
  | move _ d => d

def toJson : DropEvent → Json
  | create widget d =>
    .object [("type", .string "ADD_NEW_WIDGET"), ("new_widget", widget.toJson),
      ("drop", d.toJson)]
  | move moved d =>
    .object [("type", .string "REORDER"), ("moved", .strings moved), ("drop", d.toJson)]

def ofJson? : Decoder DropEvent := Decode.record do
  match ← Decode.required "type" Decode.string with
  | "ADD_NEW_WIDGET" =>
    let widget ← Decode.required "new_widget" NewWidget.ofJson?
    let d ← Decode.required "drop" DropTarget.ofJson?
    return create widget d
  | "REORDER" =>
    let moved ← Decode.required "moved" (Decode.list Decode.string)
    let d ← Decode.required "drop" DropTarget.ofJson?
    return move moved d
  | _ => failure

end DropEvent

/-! ### Factories -/

/-- Why an event has no effect. -/
inductive DropError where
  | widgetNotFound (id : WidgetId)
  | notCreated (id : WidgetId)
  | nothingMoved
deriving DecidableEq, Repr

def DropError.message : DropError → String
  | widgetNotFound id => "widget not found: " ++ id
  | notCreated id => "layout: factory did not create " ++ id
  | nothingMoved => "invalid: empty drag selection"

/-- A way to create a widget in a container. -/
abbrev WidgetFactory := WidgetTree → WidgetId → NewWidget → Except DropError WidgetTree

namespace WidgetFactory

/-- Create a widget as the last child of its container. -/
def lastChild : WidgetFactory := fun t parent n =>
  let t := t.insert (n.toWidget parent)
  if t.contains parent then
    .ok (t.modify parent fun w => { w with children := w.children ++ [n.id] })
  else .error (.widgetNotFound parent)

/-- Create nothing. -/
def idle : WidgetFactory := fun t _ _ => .ok t

/-- Refuse every widget. -/
def refusing : WidgetFactory := fun _ parent _ => .error (.widgetNotFound parent)

end WidgetFactory

/-! ### Effects -/

namespace DropEvent

/-- The tree after an event. A widget created in a layer of a vertical container, and all
layers after a move, get their columns shared once more. -/
def run (c : LayoutConfig) (factory : WidgetFactory) (t : WidgetTree) :
    DropEvent → Except DropError WidgetTree
  | create widget d => do
    let t ← factory t d.parent widget
    if t.contains widget.id then
      let t := t.moveTo c [widget.id] d
      return if !d.newLayer && d.direction = .vertical then t.shareLayer c d.parent d.layer else t
    else throw (.notCreated widget.id)
  | move [] _ => .error .nothingMoved
  | move moved d =>
    let t := t.moveTo c moved d
    .ok (if d.direction = .vertical then t.shareAll c d.parent else t)

/-- The tree after an event, with new widgets made from their description: the move makes
them children of their container. The columns of all layers are shared once more. -/
def place (c : LayoutConfig) (t : WidgetTree) : DropEvent → Except DropError WidgetTree
  | create widget d =>
    .ok (((t.insert (widget.toWidget d.parent)).moveTo c [widget.id] d).shareAll c d.parent)
  | move [] _ => .error .nothingMoved
  | move moved d => .ok ((t.moveTo c moved d).shareAll c d.parent)

end DropEvent

end AppBuilder
