import AppBuilder.Layout.Highlight

/-!
Dragging widgets over a canvas.

A `DropSurface` offers bars for the widgets that are dragged; it measures its canvas once
and keeps the rectangle until it is told to forget it. Of the bars on offer those that suit
the direction of the movement are ranked by their distance from the pointer, bars at equal
distance in the order they are offered. When no bar is on offer the whole canvas counts as
one. A `Drag` remembers the bar that was nearest last, and that is where the widgets drop.
-/

namespace AppBuilder

/-! ### Distance -/

namespace Highlight

/-- How far a bar is from the pointer. Along a movement the bars that are crossed count
by the axis of the movement only, and bars that lie behind it beyond the threshold are
put further off by the penalty. -/
def distance (c : HighlightConfig) (h : Highlight) (p : Point) (d : Option Direction) : Float :=
  let upright := (d.map (·.isVertical)).getD false
  let dx := if h.isVertical && upright then 0 else h.rect.x - p.x
  let dy := if !h.isVertical && !upright then 0 else h.rect.y - p.y
  let limit := c.proximityThreshold
  match d with
  | some .left => hypot (if dx > limit then dx + c.directionPenalty else dx) dy
  | some .right => hypot (if dx < -limit then dx - c.directionPenalty else dx) dy
  | some .up => hypot dx (if dy > limit then dy + c.directionPenalty else dy)
  | some .down => hypot dx (if dy < -limit then dy - c.directionPenalty else dy)
  | none => hypot dx dy

/-- Some bars, or when there are none the last one of a list. -/
def orLast (hits others : List Highlight) : List Highlight :=
  if hits.isEmpty then others.getLast?.toList else hits

/-- The bars that suit a movement. Along a row these are the vertical bars beside the
pointer; failing that the last bar of the row, or the last horizontal bar of a stack. -/
def viable (bars : List Highlight) (p : Point) (d : Option Direction) (stacked : Bool) :
    List Highlight :=
  let beside := fun h : Highlight => h.rect.spansY p.y
  match d with
  | none => bars
  | some d =>
    if !stacked then orLast (bars.filter beside) bars
    else if d.isVertical then bars.filter fun h => !h.isVertical
    else orLast (bars.filter fun h => h.isVertical && beside h) (bars.filter fun h => !h.isVertical)

/-- The bars that suit a movement, the nearest first. -/
def rank (c : HighlightConfig) (bars : List Highlight) (p : Point) (d : Option Direction)
    (stacked : Bool) : List Highlight :=
  (viable bars p d stacked).mergeSort fun g h => totalLe (distance c g p d) (distance c h p d)

end Highlight

/-! ### Surfaces -/

/-- A canvas that widgets are dragged over. -/
structure DropSurface where
  canvas : WidgetId
  config : HighlightConfig
  /-- The rectangle of the canvas, once it has been measured. -/
  known : Option Rect

namespace DropSurface

/-- A surface that has not been measured. -/
def ofCanvas (canvas : WidgetId) (config : HighlightConfig) : DropSurface := ⟨canvas, config, none⟩

/-- Forget the rectangle of the canvas. -/
def forget (s : DropSurface) : DropSurface := { s with known := none }

/-- Measure the canvas, unless its rectangle is known. -/
def measured (s : DropSurface) (m : Measure) : DropSurface :=
  match s.known with
  | some _ => s
  | none => { s with known := m s.canvas }

/-- What bars on a canvas at a rectangle are drawn from. -/
def context (s : DropSurface) (m : Measure) (container : Rect) : BarContext :=
  ⟨m, s.config, container, s.canvas⟩

/-- The bars for dragged widgets. There are none while the canvas is being resized, and
none on a canvas that is missing or not visible. -/
def offer (s : DropSurface) (t : WidgetTree) (dragged : List WidgetId) (m : Measure)
    (resizing : Bool) : List Highlight × DropSurface :=
  if resizing || dragged.isEmpty then ([], s)
  else
    let s := s.measured m
    match s.known, t.get? s.canvas with
    | some container, some w => ((s.context m container).bars t w dragged, s)
    | _, _ => ([], s)

/-- The bar that stands for the whole canvas. -/
def wholeCanvas (s : DropSurface) (stacked : Bool) : Option Highlight :=
  s.known.map fun container =>
    let b := s.context .nothing container
    b.initialBar 0 .start 0 b.localContainer stacked true

/-- The bars that suit a movement, the nearest first; the whole canvas when none is on
offer. -/
def rank (s : DropSurface) (bars : List Highlight) (p : Point) (d : Option Direction)
    (stacked : Bool) : List Highlight :=
  Highlight.rank s.config (if bars.isEmpty then (s.wholeCanvas stacked).toList else bars) p d
    stacked

end DropSurface

/-! ### Drags -/

/-- Widgets being dragged over a surface. -/
structure Drag where
  surface : DropSurface
  dragged : List WidgetId
  /-- The bars on offer. -/
  bars : List Highlight
  /-- The bar that was nearest last. -/
  active : Option Highlight
  /-- Whether the canvas arranges its children in layers. -/
  stacked : Bool

namespace Drag

/-- A drag that begins. -/
def start (surface : DropSurface) (dragged : List WidgetId) : Drag :=
  ⟨surface, dragged, [], none, true⟩

/-- Offer bars anew. -/
def refresh (g : Drag) (t : WidgetTree) (m : Measure) (resizing : Bool) : Drag :=
  let (bars, surface) := g.surface.offer t g.dragged m resizing
  let stacked := match t.get? g.surface.canvas with
    | some w => w.isVerticalStack
    | none => true
  { g with surface, bars, stacked, active := none }

/-- Move the pointer; the first part has the bars that suit the movement, the nearest
first. -/
def hover (g : Drag) (p : Point) (d : Option Direction) : List Highlight × Drag :=
  match g.surface.rank g.bars p d g.stacked with
  | [] => ([], g)
  | h :: hs => (h :: hs, { g with active := some h })

/-- The bar where the widgets drop: the one that was nearest last, or else the nearest. -/
def dropBar (g : Drag) (p : Point) : Option Highlight × Drag :=
  match g.active with
  | some h => (some h, g)
  | none =>
    let (bars, g) := g.hover p none
    (bars.head?, g)

/-- End the drag; the measured canvas stays known. -/
def finish (g : Drag) : Drag := { g with bars := [], active := none }

/-- Change the surface. -/
def onSurface (g : Drag) (f : DropSurface → DropSurface) : Drag :=
  { g with surface := f g.surface }

end Drag

end AppBuilder
