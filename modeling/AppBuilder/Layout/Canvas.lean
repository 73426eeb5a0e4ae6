import AppBuilder.Layout.Reflow

/-!
Root canvases built from a plan of their rows.

A `CanvasPlan` lists the rows of the root canvas, each with its children and their sizes.
The canvas built from it has one layer for each row that has children, and is laid out.
-/

namespace AppBuilder

/-- A child in a plan. -/
structure PlannedChild where
  id : WidgetId
  align : Alignment
  sizing : Sizing
  columns : Int
  rows : Int
deriving DecidableEq, Repr

namespace PlannedChild

/-- The child as a widget in the root canvas. -/
def toWidget (c : PlannedChild) : Widget :=
  { Widget.ofType c.id "TEXT_WIDGET" with
    parent := some mainContainerId
    position := ⟨0, c.rows, 0, c.columns⟩
    sizing := c.sizing }

end PlannedChild

/-- The rows of a canvas, from the top. -/
abbrev CanvasPlan := List (List PlannedChild)

namespace CanvasPlan

/-- The tree of the children alone. -/
def childTree (plan : CanvasPlan) : WidgetTree := .ofList (plan.flatten.map (·.toWidget))

/-- The root canvas. -/
def root (c : LayoutConfig) (plan : CanvasPlan) : Widget :=
  { Widget.ofType mainContainerId canvasType with
    position := ⟨0, 0, 0, c.gridColumns⟩
    children := plan.flatten.map (·.id)
    layers := (plan.map fun row =>
      FlexLayer.ofChildren plan.childTree (row.map fun p => ⟨p.id, p.align⟩)).filter
        fun l => !l.isEmpty }

/-- The tree of a plan, laid out. -/
def build (c : LayoutConfig) (plan : CanvasPlan) : WidgetTree :=
  let t := plan.childTree.insert (plan.root c)
  ((t.shareAll c mainContainerId).placeChildren c mainContainerId).1

end CanvasPlan

end AppBuilder
