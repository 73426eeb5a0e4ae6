import AppBuilder.Config
import AppBuilder.Layout.Grid
import AppBuilder.Layout.Move

/-!
The bars that show where dragged widgets can be dropped.

A row of widgets has a vertical bar before each of them and one behind the last; an empty
bucket has a single bar. In a container with layers there are horizontal bars besides,
above each layer and below the last, which stand for a new layer. All positions count
without the dragged widgets. Bars are placed relative to their container.
-/

namespace AppBuilder

/-! ### Bars -/

inductive Orientation where
  | horizontal
  | vertical
deriving DecidableEq, Repr

namespace Orientation

def name : Orientation → String
  | horizontal => "horizontal"
  | vertical => "vertical"

/-- The name with a capital. -/
def title : Orientation → String
  | horizontal => "Horizontal"
  | vertical => "Vertical"

def ofJson? : Decoder Orientation :=
  Decode.word [("horizontal", horizontal), ("vertical", vertical)]

end Orientation

/-- A place to drop widgets, and the bar that shows it. -/
structure Highlight where
  newLayer : Bool
  index : Nat
  layer : Nat
  row : Nat
  align : Alignment
  rect : Rect
  orientation : Orientation
  canvas : WidgetId
deriving DecidableEq

namespace Highlight

def isVertical (h : Highlight) : Bool := h.orientation = .vertical

/-- The target of a drop at a bar. -/
def target (h : Highlight) (direction : LayoutDirection) : DropTarget :=
  ⟨h.canvas, h.index, h.layer, h.row, h.align, h.newLayer, direction⟩

def toJson (h : Highlight) : Json :=
  .object ([("isNewLayer", .bool h.newLayer), ("index", .nat h.index), ("layerIndex", .nat h.layer),
    ("rowIndex", .nat h.row), ("alignment", .string h.align.name)] ++ h.rect.toFields ++
    [("orientation", .string h.orientation.name), ("canvasId", .string h.canvas)])

def ofJson? : Decoder Highlight := Decode.fields do
  let newLayer ← Decode.required "isNewLayer" Decode.bool
  let index ← Decode.required "index" Decode.nat64
  let layer ← Decode.required "layerIndex" Decode.nat64
  let row ← Decode.required "rowIndex" Decode.nat64
  let align ← Decode.required "alignment" Alignment.ofJson?
  let rect ← Rect.reader
  let orientation ← Decode.required "orientation" Orientation.ofJson?
  let canvas ← Decode.required "canvasId" Decode.string
  return ⟨newLayer, index, layer, row, align, rect, orientation, canvas⟩

end Highlight

/-! ### Measuring -/

/-- What the bars of a container are drawn from. -/
structure BarContext where
  measure : Measure
  config : HighlightConfig
  /-- The container on the screen. -/
  container : Rect
  canvas : WidgetId

namespace BarContext

/-- The container as seen from itself. -/
def localContainer (b : BarContext) : Rect := ⟨0, 0, b.container.width, b.container.height⟩

/-- The rectangle of a widget as seen from the container. -/
def localRect? (b : BarContext) (id : WidgetId) : Option Rect :=
  (b.measure id).map fun r => r.relativeTo b.container.topLeft

/-- The rows that the visible widgets of a layer span, across the whole container. -/
def layerRect? (b : BarContext) (l : FlexLayer) : Option Rect :=
  match l.ids.filterMap b.localRect? with
  | [] => none
  | r :: rs =>
    let span := rs.foldl Rect.union r
    some ⟨0, span.y, b.container.width, span.height⟩

/-- How wide the visible widgets of a layer are together. -/
def occupied (b : BarContext) (l : FlexLayer) : Float :=
  (l.ids.filterMap b.localRect?).foldl (fun sum r => sum + r.width) 0

/-! ### Bars of a row -/

/-- The only bar of an empty container or bucket. -/
def initialBar (b : BarContext) (index : Nat) (align : Alignment) (layer : Nat) (rect : Rect)
    (stacked newLayer : Bool) : Highlight :=
  let c := b.config
  let x := match align with
    | .start => 0
    | .center => b.container.width / 2
    | .finish => b.container.width - c.dragMargin * 2
  if stacked then
    ⟨newLayer, index, layer, 0, align, ⟨x, rect.y, rect.width, c.barThickness⟩, .horizontal,
      b.canvas⟩
  else
    ⟨newLayer, index, layer, 0, align,
      ⟨x, rect.y + c.dragMargin, c.barThickness, greater (rect.height - c.dragMargin * 2) 0⟩,
      .vertical, b.canvas⟩

/-- A bar inside a row. -/
def rowBar (b : BarContext) (first layer row : Nat) (align : Alignment) (x : Float) (r : Rect) :
    Highlight :=
  ⟨false, first + row, layer, row, align, ⟨x, r.y, b.config.barThickness, r.height⟩, .vertical,
    b.canvas⟩

/-- The bars before the visible widgets of a row and behind the last of them. -/
def rowBars (b : BarContext) (ids : List WidgetId) (first layer : Nat) (align : Alignment) :
    List Highlight :=
  let visible := ids.zipIdx.filterMap fun p => (b.localRect? p.1).map fun r => (r, p.2)
  let before := visible.map fun p =>
    b.rowBar first layer p.2 align (greater (p.1.x - b.config.childGap) 0) p.1
  match visible.getLast? with
  | none => before
  | some (r, _) => before ++ [b.rowBar first layer ids.length align r.right r]

/-- The bars of a bucket. An empty one has a single bar, unless the row it is in has
widgets and is full. -/
def bucketBars (b : BarContext) (ids : List WidgetId) (first layer : Nat) (align : Alignment)
    (rect : Rect) (rowEmpty : Bool) (occupied : Float) : List Highlight :=
  match b.rowBars ids first layer align with
  | [] =>
    if !rowEmpty && occupied > b.config.rowOverflowThreshold * b.container.width then []
    else [b.initialBar first align layer rect false rowEmpty]
  | bars => bars

/-- The vertical bars of a layer without the dragged widgets: those of the start bucket,
then those of the end bucket and those of the center bucket that do not stand on the
wrong side of another bucket. -/
def layerBars (b : BarContext) (l : FlexLayer) (layer : Nat) (rect : Rect) (first : Nat) :
    List Highlight :=
  let buckets := l.spread
  let bars := fun align first =>
    b.bucketBars (buckets.get align) first layer align rect buckets.isEmpty (b.occupied l)
  let start := bars .start first
  if l.hasFill then start
  else
    let centerFirst := first + buckets.start.length
    let center := bars .center centerFirst
    let finish := bars .finish (centerFirst + buckets.center.length)
    let beforeStart := fun h : Highlight => start.any fun s => s.rect.x > h.rect.x
    let behindFinish := fun h : Highlight => finish.any fun e => e.rect.x < h.rect.x
    start ++ finish.filter (fun e => !beforeStart e) ++
      center.filter fun c =>
        start.isEmpty || finish.isEmpty || !(beforeStart c || behindFinish c)

/-! ### Bars of a container -/

/-- The bar for a new layer. -/
def newLayerBar (b : BarContext) (index layer : Nat) (y : Float) : Highlight :=
  ⟨true, index, layer, 0, .start, ⟨0, y, b.container.width, b.config.barThickness⟩, .horizontal,
    b.canvas⟩

/-- Where the bars of a stack stand after some of its layers. -/
structure Stacking where
  bars : List Highlight
  /-- Widgets in the layers so far that are not dragged. -/
  count : Nat
  /-- Layers so far that keep a widget and are visible. -/
  kept : Nat
  /-- The lower edge of the last of these. -/
  bottom : Float

/-- Go on to the next layer, given with and without the dragged widgets. A layer that is
not visible has no bars. -/
def stackLayer (b : BarContext) (s : Stacking) (l rest : FlexLayer) : Stacking :=
  match b.layerRect? l with
  | none => s
  | some rect =>
    let above := if rest.isEmpty then []
      else [b.newLayerBar s.count s.kept (greater (rect.y - b.config.barThickness) 0)]
    let bars := s.bars ++ above ++ b.layerBars rest s.kept rect s.count
    if rest.isEmpty then { s with bars }
    else ⟨bars, s.count + rest.children.length, s.kept + 1, rect.bottom⟩

/-- The bars of a container with layers. -/
def stackBars (b : BarContext) (t : WidgetTree) (layers : List FlexLayer)
    (dragged : List WidgetId) : List Highlight :=
  let s := layers.foldl (fun s l => b.stackLayer s l (FlexLayer.without t dragged l)) ⟨[], 0, 0, 0⟩
  s.bars ++ [b.newLayerBar s.count s.kept s.bottom]

/-- The children of a container as a single row. -/
def singleRow (t : WidgetTree) (w : Widget) : FlexLayer :=
  if w.layers.isEmpty then .ofChildren t (w.children.map (⟨·, .start⟩))
  else Layers.singleRow t w.layers

/-- All bars of a container. -/
def bars (b : BarContext) (t : WidgetTree) (w : Widget) (dragged : List WidgetId) :
    List Highlight :=
  let stacked := w.isVerticalStack
  if w.children.isEmpty || (stacked && w.layers.isEmpty) then
    [b.initialBar 0 .start 0 b.localContainer stacked true]
  else if stacked then b.stackBars t w.layers dragged
  else b.layerBars (FlexLayer.without t dragged (singleRow t w)) 0 b.localContainer 0

end BarContext

end AppBuilder
