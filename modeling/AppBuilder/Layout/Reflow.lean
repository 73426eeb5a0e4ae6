import AppBuilder.Config
import AppBuilder.Layout.Layer

/-!
Sizes and places of the children of a container.

The widgets of a layer that fill the row share the columns that the others leave
(`shareColumns`); the share is whole and a remainder stays unused. Layers are stacked
from the top, each as high as its highest widget, and the buckets of a layer are packed
to the left, in the middle and to the right (`placeChildren`). A widget is written only
if its place changes.
-/

namespace AppBuilder.WidgetTree

/-- Change the place of a widget; no write when it stays the same. -/
def reposition (t : WidgetTree) (id : WidgetId) (f : GridPosition → GridPosition) : WidgetTree :=
  match t.get? id with
  | some w => if f w.position = w.position then t
    else t.modify id fun w => { w with position := f w.position }
  | none => t

/-! ### Columns of filling widgets -/

/-- The columns that a widget takes, at least none. -/
def columnsOf (t : WidgetTree) (id : WidgetId) : Int :=
  match t.get? id with
  | some w => max w.position.columns 0
  | none => 0

/-- The rows that a widget takes, at least none. -/
def rowsOf (t : WidgetTree) (id : WidgetId) : Int :=
  match t.get? id with
  | some w => max w.position.rows 0
  | none => 0

/-- The columns that widgets take together. -/
def columnSum (t : WidgetTree) (ids : List WidgetId) : Int :=
  ids.foldr (fun id sum => t.columnsOf id + sum) 0

/-- The columns of each filling widget among some names. -/
def fillShare (c : LayoutConfig) (t : WidgetTree) (ids : List WidgetId) : Int :=
  let hugging := t.columnSum (ids.filter fun id => !t.isFill id)
  max (c.gridColumns - hugging) 0 / ((ids.filter t.isFill).length : Int)

/-- Give the filling widgets of a layer their share of the columns. -/
def shareColumns (c : LayoutConfig) (t : WidgetTree) (l : FlexLayer) : WidgetTree :=
  if l.hasFill then
    let share := fillShare c t l.ids
    (l.ids.filter t.isFill).foldl (fun t id =>
      t.reposition id fun p => { p with rightColumn := p.leftColumn + share }) t
  else t

/-- Share the columns of the layer of a container at an index. -/
def shareLayer (c : LayoutConfig) (t : WidgetTree) (parent : WidgetId) (index : Nat) : WidgetTree :=
  match (t.layersOf parent)[index]? with
  | some l => t.shareColumns c l
  | none => t

/-- Share the columns of every layer of a container. -/
def shareAll (c : LayoutConfig) (t : WidgetTree) (parent : WidgetId) : WidgetTree :=
  (List.range (t.layersOf parent).length).foldl (fun t i => t.shareLayer c parent i) t

/-- Share the columns of the layer of a container that holds a widget. -/
def shareAround (c : LayoutConfig) (t : WidgetTree) (parent id : WidgetId) : WidgetTree :=
  match Layers.indexOf? (t.layersOf parent) id with
  | some i => t.shareLayer c parent i
  | none => t

/-! ### Places -/

/-- Set the rows of widgets that share a row which starts at a place; the second part is
the height of the highest. -/
def placeRows (t : WidgetTree) (ids : List WidgetId) (top : Int) : WidgetTree × Int :=
  (ids.filter t.contains).foldl (fun (t, height) id =>
    let rows := t.rowsOf id
    (t.reposition id fun p => { p with topRow := top, bottomRow := top + rows },
      max height rows)) (t, 0)

/-- Set widgets side by side from a column on; their widths stay. -/
def packColumns (t : WidgetTree) (ids : List WidgetId) (left : Int) : WidgetTree :=
  ((ids.filter t.contains).foldl (fun (t, left) id =>
    let columns := t.columnsOf id
    (t.reposition id fun p => { p with leftColumn := left, rightColumn := left + columns },
      left + columns)) (t, left)).1

/-- Pack the buckets of a layer: to the left edge, to the middle and to the right edge. -/
def placeBuckets (c : LayoutConfig) (t : WidgetTree) (b : Buckets) : WidgetTree :=
  let centerLeft := max ((c.gridColumns - t.columnSum b.center) / 2) 0
  let finishLeft := max (c.gridColumns - t.columnSum b.finish) 0
  ((t.packColumns b.start 0).packColumns b.center centerLeft).packColumns b.finish finishLeft

/-- The layers of a container; without any, its children are one row. -/
def effectiveLayers (t : WidgetTree) (parent : WidgetId) : List FlexLayer :=
  match t.layersOf parent with
  | [] => [.ofChildren t ((t.childrenOf parent).map (⟨·, .start⟩))]
  | layers => layers

/-- Place the children of a container; the second part is the row below the last layer. -/
def placeChildren (c : LayoutConfig) (t : WidgetTree) (parent : WidgetId) : WidgetTree × Int :=
  if t.contains parent then
    ((t.effectiveLayers parent).filter fun l => !l.isEmpty).foldl (fun (t, top) l =>
      let (t, height) := t.placeRows l.ids top
      (t.placeBuckets c l.spread, top + height)) (t, c.containerPadding)
  else (t, 0)

/-- Make the bordered container around a canvas as high as its content. -/
def growContainer (t : WidgetTree) (canvas : WidgetId) (height : Int) : WidgetTree :=
  match t.parentOf? canvas with
  | none => t
  | some outer =>
    match t.get? outer with
    | some w =>
      if w.type = containerType ∧ w.id ≠ mainContainerId then
        t.reposition outer fun p => { p with bottomRow := p.topRow + height }
      else t
    | none => t

/-! ### Narrow and wide screens -/

/-- The children of a container that arranges them in layers. -/
def stackedChildren (t : WidgetTree) (parent : WidgetId) : List WidgetId :=
  match t.get? parent with
  | some w => if w.isVerticalStack then w.children else []
  | none => []

/-- Stretch filling widgets over all columns, below a container, down to a depth. -/
def stretchBelow (c : LayoutConfig) : Nat → WidgetTree → WidgetId → WidgetTree
  | 0, t, _ => t
  | depth + 1, t, parent =>
    (t.stackedChildren parent).foldl (fun t child =>
      let t := stretchBelow c depth t child
      if t.isFill child then
        t.reposition child fun p => { p with leftColumn := 0, rightColumn := c.gridColumns }
      else t) t

/-- Share the columns of all layers, below a container, down to a depth. -/
def shareBelow (c : LayoutConfig) : Nat → WidgetTree → WidgetId → WidgetTree
  | 0, t, _ => t
  | depth + 1, t, parent =>
    match t.stackedChildren parent with
    | [] => t
    | children => children.foldl (shareBelow c depth) (t.shareAll c parent)

/-- Arrange a container for a narrow screen: filling widgets take a row of their own. No
way down is longer than there are widgets. -/
def arrangeMobile (c : LayoutConfig) (t : WidgetTree) (parent : WidgetId) : WidgetTree :=
  stretchBelow c (t.size + 1) t parent

/-- Arrange a container for a wide screen: filling widgets share their rows. -/
def arrangeDesktop (c : LayoutConfig) (t : WidgetTree) (parent : WidgetId) : WidgetTree :=
  shareBelow c (t.size + 1) t parent

end AppBuilder.WidgetTree
