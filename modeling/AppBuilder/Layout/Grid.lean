import AppBuilder.Geometry
import AppBuilder.Widget.Tree

/-!
Where widgets are on the screen.

A `Measure` tells the rectangle of a widget, if it is visible. `gridRects` works out the
rectangles from the grid: a widget is placed relative to its parent, and one without rows
is as high as its content.
-/

namespace AppBuilder

/-- The rectangles of the visible widgets. -/
abbrev Measure := WidgetId → Option Rect

/-- Where no widget is visible. -/
def Measure.nothing : Measure := fun _ => none

/-- Pixels per column and per row. -/
structure GridScale where
  column : Float
  row : Float

namespace WidgetTree

/-- The last row that a child of a widget takes, zero without children. -/
def contentRows (t : WidgetTree) (w : Widget) : Int :=
  match w.children.filterMap fun c => (t.get? c).map (·.position.bottomRow) with
  | [] => 0
  | r :: rs => rs.foldl max r

/-- The rectangle of a widget whose parent is at a point. -/
def gridRect (t : WidgetTree) (s : GridScale) (w : Widget) (at_ : Point) : Rect :=
  let rows := if 0 < w.position.rowCount then w.position.rowCount.toInt else t.contentRows w
  ⟨at_.x + Float.ofInt w.position.leftColumn * s.column,
    at_.y + Float.ofInt w.position.topRow * s.row,
    Float.ofInt w.position.columnCount.toInt * s.column, Float.ofInt rows * s.row⟩

/-- Add the rectangles of a widget and of everything below it, down to a depth. Of two
rectangles for one widget the later counts; the children are visited from the last. -/
def addGridRects (t : WidgetTree) (s : GridScale) :
    Nat → Dict Rect → WidgetId → Point → Dict Rect
  | 0, rects, _, _ => rects
  | depth + 1, rects, id, at_ =>
    match t.get? id with
    | none => rects
    | some w =>
      let r := t.gridRect s w at_
      w.children.reverse.foldl (fun rects c => addGridRects t s depth rects c r.topLeft)
        (rects.insert id r)

/-- The widgets without a parent in the tree. -/
def roots (t : WidgetTree) : List WidgetId :=
  (t.entries.values.filter fun e =>
    match e.widget.parent with
    | some p => !t.contains p
    | none => true).map (·.widget.id)

/-- The rectangles of all widgets below the roots. No way down is longer than there are
widgets. -/
def gridRects (t : WidgetTree) (s : GridScale) : Dict Rect :=
  t.roots.reverse.foldl (fun rects id => t.addGridRects s (t.size + 1) rects id .origin) .empty

end WidgetTree

end AppBuilder
