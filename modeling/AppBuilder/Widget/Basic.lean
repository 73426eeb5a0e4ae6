import AppBuilder.Json.Decode

/-!
Widgets.

A widget has a place on the grid, a parent and children. A canvas arranges its children
in layers, one row of widgets each; a layer lists its children with their alignment and
notes whether one of them fills the row.
-/

namespace AppBuilder

/-- The name that identifies a widget. -/
abbrev WidgetId := String

/-- The root canvas. -/
def mainContainerId : WidgetId := "0"

/-- The type of canvases, which own layers. -/
def canvasType : String := "CANVAS_WIDGET"

/-- The type of bordered containers around a canvas. -/
def containerType : String := "CONTAINER_WIDGET"

/-! ### Words -/

/-- How wide a widget wants to be: as wide as its row allows, or as wide as it is. -/
inductive Sizing where
  | fill
  | hug
deriving DecidableEq, Repr

namespace Sizing

def name : Sizing → String
  | fill => "Fill"
  | hug => "Hug"

def ofJson? : Decoder Sizing := Decode.word [("Fill", fill), ("Hug", hug)]

end Sizing

/-- How a container arranges its children: in layers or in a single row. -/
inductive LayoutDirection where
  | vertical
  | horizontal
deriving DecidableEq, Repr

namespace LayoutDirection

def name : LayoutDirection → String
  | vertical => "Vertical"
  | horizontal => "Horizontal"

def ofJson? : Decoder LayoutDirection :=
  Decode.word [("Vertical", vertical), ("Horizontal", horizontal)]

end LayoutDirection

/-- Where in its row a widget is packed. -/
inductive Alignment where
  | start
  | center
  | finish
deriving DecidableEq, Repr

namespace Alignment

def name : Alignment → String
  | start => "start"
  | center => "center"
  | finish => "end"

/-- The name with a capital. -/
def title : Alignment → String
  | start => "Start"
  | center => "Center"
  | finish => "End"

def ofJson? : Decoder Alignment :=
  Decode.word [("start", start), ("center", center), ("end", finish)]

end Alignment

/-! ### Layers -/

/-- A child of a layer. -/
structure LayerChild where
  id : WidgetId
  align : Alignment
deriving DecidableEq, Repr

/-- A row of widgets, the start-aligned first, then the centered, then the end-aligned
ones. -/
structure FlexLayer where
  children : List LayerChild
  /-- Whether one of the children fills the row. -/
  hasFill : Bool
deriving DecidableEq, Repr

def LayerChild.toJson (c : LayerChild) : Json :=
  .object [("id", .string c.id), ("align", .string c.align.name)]

def LayerChild.ofJson? : Decoder LayerChild := Decode.record do
  let id ← Decode.required "id" Decode.string
  let align ← Decode.required "align" Alignment.ofJson?
  return ⟨id, align⟩

def FlexLayer.toJson (l : FlexLayer) : Json :=
  .object [("children", .array (l.children.map (·.toJson))), ("hasFillChild", .bool l.hasFill)]

def FlexLayer.ofJson? : Decoder FlexLayer := Decode.record do
  let children ← Decode.required "children" (Decode.list LayerChild.ofJson?)
  let hasFill ← Decode.defaulted "hasFillChild" false Decode.bool
  return ⟨children, hasFill⟩

/-! ### Widgets -/

/-- A place on the grid: first row and column, and those just past the last. -/
structure GridPosition where
  topRow : Int
  bottomRow : Int
  leftColumn : Int
  rightColumn : Int
deriving DecidableEq, Repr

namespace GridPosition

def zero : GridPosition := ⟨0, 0, 0, 0⟩

/-- Height in rows. -/
def rows (p : GridPosition) : Int := p.bottomRow - p.topRow

/-- Width in columns. -/
def columns (p : GridPosition) : Int := p.rightColumn - p.leftColumn

/-- How far it is from a first row or column to just past the last, in 32 bits. A distance
too long for them wraps around and is not reported. -/
def extent (first past : Int) : Int32 := .ofInt past - .ofInt first

/-- Height in rows, as 32 bits hold it. -/
def rowCount (p : GridPosition) : Int32 := extent p.topRow p.bottomRow

/-- Width in columns, as 32 bits hold it. -/
def columnCount (p : GridPosition) : Int32 := extent p.leftColumn p.rightColumn

end GridPosition

/-- A node of the widget tree. -/
structure Widget where
  id : WidgetId
  name : String
  type : String
  parent : Option WidgetId
  children : List WidgetId
  position : GridPosition
  sizing : Sizing
  direction : Option LayoutDirection
  layers : List FlexLayer
deriving DecidableEq, Repr

namespace Widget

/-- A widget of a type, without children, at no place in particular. -/
def ofType (id : WidgetId) (type : String) : Widget :=
  ⟨id, id, type, none, [], .zero, .hug, none, []⟩

def isCanvas (w : Widget) : Bool := w.type = canvasType

def isFill (w : Widget) : Bool := w.sizing = .fill

/-- Whether a widget arranges its children in layers: all do but those expressly
horizontal, and the root always does. -/
def isVerticalStack (w : Widget) : Bool :=
  w.id = mainContainerId || w.direction ≠ some .horizontal

/-- The widget as JSON, its fields in a fixed order. -/
def toJson (w : Widget) : Json :=
  .object ([("widgetId", .string w.id), ("widgetName", .string w.name),
    ("type", .string w.type), ("parentId", .orNull (w.parent.map .string)),
    ("children", .strings w.children), ("topRow", .int w.position.topRow),
    ("bottomRow", .int w.position.bottomRow), ("leftColumn", .int w.position.leftColumn),
    ("rightColumn", .int w.position.rightColumn),
    ("responsiveBehavior", .string w.sizing.name)] ++
    (w.direction.map fun d => ("direction", Json.string d.name)).toList ++
    if w.layers.isEmpty then [] else [("flexLayers", .array (w.layers.map (·.toJson)))])

def ofJson? : Decoder Widget := Decode.fields do
  let id ← Decode.required "widgetId" Decode.string
  let name ← Decode.defaulted "widgetName" "" Decode.string
  let type ← Decode.required "type" Decode.string
  let parent ← Decode.omittable "parentId" Decode.string
  let children ← Decode.defaulted "children" [] (Decode.list Decode.string)
  let topRow ← Decode.required "topRow" Decode.int32
  let bottomRow ← Decode.required "bottomRow" Decode.int32
  let leftColumn ← Decode.required "leftColumn" Decode.int32
  let rightColumn ← Decode.required "rightColumn" Decode.int32
  let sizing ← Decode.defaulted "responsiveBehavior" .hug Sizing.ofJson?
  let direction ← Decode.omittable "direction" LayoutDirection.ofJson?
  let layers ← Decode.defaulted "flexLayers" [] (Decode.list FlexLayer.ofJson?)
  return ⟨id, name, type, parent, children, ⟨topRow, bottomRow, leftColumn, rightColumn⟩, sizing,
    direction, layers⟩

end Widget

end AppBuilder
