import AppBuilder.Layout.Reflow

/-!
Moving, removing and rearranging widgets.

`WidgetTree.moveTo` takes widgets out of their containers and puts them, next to each
other and in the given order, into another one. Widgets that are missing, and those that
contain the target, stay where they are. `removeWidgets` removes widgets with everything
below them. The other operations change the sizing of one widget, or give the canvas of a
container layers and take them away again.
-/

namespace AppBuilder

/-! ### Drop targets -/

/-- Where widgets are dropped. -/
structure DropTarget where
  /-- The container that takes the widgets. -/
  parent : WidgetId
  /-- The place among its children. -/
  index : Nat
  /-- The layer that takes the widgets. -/
  layer : Nat
  /-- The place in the bucket of the layer. -/
  row : Nat
  align : Alignment
  /-- Whether the widgets get a layer of their own, before the given one. -/
  newLayer : Bool
  /-- How the container arranges its children. -/
  direction : LayoutDirection
deriving DecidableEq, Repr

namespace DropTarget

def toJson (d : DropTarget) : Json :=
  .object [("parentId", .string d.parent), ("index", .nat d.index), ("layerIndex", .nat d.layer),
    ("rowIndex", .nat d.row), ("alignment", .string d.align.name),
    ("isNewLayer", .bool d.newLayer), ("direction", .string d.direction.name)]

def ofJson? : Decoder DropTarget := Decode.record do
  let parent ← Decode.required "parentId" Decode.string
  let index ← Decode.required "index" Decode.nat64
  let layer ← Decode.required "layerIndex" Decode.nat64
  let row ← Decode.required "rowIndex" Decode.nat64
  let align ← Decode.required "alignment" Alignment.ofJson?
  let newLayer ← Decode.required "isNewLayer" Decode.bool
  let direction ← Decode.required "direction" LayoutDirection.ofJson?
  return ⟨parent, index, layer, row, align, newLayer, direction⟩

end DropTarget

namespace WidgetTree

/-! ### Single edits -/

/-- Replace the layers of a container. -/
def setLayers (t : WidgetTree) (id : WidgetId) (layers : List FlexLayer) : WidgetTree :=
  t.modify id fun w => { w with layers }

/-- Take names out of the children and the layers of a widget. -/
def dropChildren (t : WidgetTree) (id : WidgetId) (children layerChildren : List WidgetId) :
    WidgetTree :=
  t.modify id fun w =>
    { w with
      children := w.children.filter fun c => !children.contains c
      layers := Layers.without t layerChildren w.layers }

/-! ### Moving -/

/-- The widgets of a selection that can be moved into a container: those that exist and do
not contain it. -/
def movable (t : WidgetTree) (selection : List WidgetId) (parent : WidgetId) : List WidgetId :=
  selection.filter fun id => t.contains id && !t.isAncestorOrSelf id parent

/-- Hand one of the moved widgets over from its container to another, taking all moved
widgets out of the layers of the former; the second part collects the containers left. -/
def handOver (moved : List WidgetId) (parent : WidgetId) (s : WidgetTree × NameSet)
    (id : WidgetId) : WidgetTree × NameSet :=
  let (t, left) := s
  match t.parentOf? id with
  | none => s
  | some before =>
    if before = parent then s
    else
      ((t.dropChildren before [id] moved).modify id fun w => { w with parent := some parent },
        left.insert before)

/-- Hand all moved widgets over and rearrange the containers left. -/
def handOverAll (c : LayoutConfig) (t : WidgetTree) (moved : List WidgetId) (parent : WidgetId) :
    WidgetTree :=
  let (t, left) := moved.foldl (handOver moved parent) (t, .empty)
  left.toList.foldl (fun t id => ((t.shareAll c id).placeChildren c id).1) t

/-- The layers of a container once the moved widgets are in it. A vertical container gets
them in the layer of the target, or in a new one. A horizontal container keeps its layers,
if it has any, as a single row. -/
def layersAfter (t : WidgetTree) (moved : List WidgetId) (d : DropTarget) : List FlexLayer :=
  let own := FlexLayer.ofChildren t (moved.map (⟨·, d.align⟩))
  let layers := t.layersOf d.parent
  match d.direction with
  | .vertical =>
    let rest := Layers.without t moved layers
    if d.newLayer ∨ rest.length ≤ d.layer then Layers.insertLayer rest own d.layer
    else Layers.mergeInto t moved d.layer d.align d.row rest
  | .horizontal =>
    if layers.isEmpty then []
    else
      match Layers.without t moved [Layers.singleRow t layers] with
      | [] => Layers.insertLayer [] own 0
      | rest => Layers.mergeInto t moved 0 d.align d.row rest

/-- Put the moved widgets into the layers and the children of the target. -/
def settle (t : WidgetTree) (moved : List WidgetId) (d : DropTarget) : WidgetTree :=
  let layers := t.layersAfter moved d
  t.modify d.parent fun w =>
    { w with
      layers
      children := insertAt d.index moved (w.children.filter fun c => !moved.contains c) }

/-- Share the columns of a container, place its children and grow the container around
it. -/
def rearrange (c : LayoutConfig) (t : WidgetTree) (parent : WidgetId) : WidgetTree :=
  let (t, height) := (t.shareAll c parent).placeChildren c parent
  t.growContainer parent height

/-- Move widgets to a target. -/
def moveTo (c : LayoutConfig) (t : WidgetTree) (selection : List WidgetId) (d : DropTarget) :
    WidgetTree :=
  if t.contains d.parent then
    match t.movable selection d.parent with
    | [] => t
    | moved => ((t.handOverAll c moved d.parent).settle moved d).rearrange c d.parent
  else t

/-! ### Removing -/

/-- Take a removed widget out of the layers of its parent and share the columns of the
layer that it left. -/
def leaveLayer (c : LayoutConfig) (t : WidgetTree) (id parent : WidgetId) : WidgetTree :=
  match Layers.indexOf? (t.layersOf parent) id with
  | none => t
  | some i =>
    (t.setLayers parent (Layers.without t [id] (t.layersOf parent))).shareLayer c parent i

/-- Remove a widget and everything below it; the second part collects the containers that
lost a child and are still there. -/
def removeOne (c : LayoutConfig) (s : WidgetTree × NameSet) (id : WidgetId) :
    WidgetTree × NameSet :=
  let (t, left) := s
  match t.get? id with
  | none => s
  | some w =>
    let doomed := t.descendants id ++ [id]
    let (t, left) := match w.parent with
      | none => (t, left)
      | some parent =>
        ((t.leaveLayer c id parent).modify parent fun p =>
          { p with children := p.children.filter (· ≠ id) }, left.insert parent)
    (doomed.foldl remove t, left.filter fun p => !doomed.contains p)

/-- Remove widgets and everything below them. -/
def removeWidgets (c : LayoutConfig) (t : WidgetTree) (ids : List WidgetId) : WidgetTree :=
  let (t, left) := ids.foldl (removeOne c) (t, .empty)
  left.toList.foldl (rearrange c) t

/-! ### Sizing and layers -/

/-- Make a widget fill its row or hug its content, and share the columns of its layer. -/
def setSizing (c : LayoutConfig) (t : WidgetTree) (id : WidgetId) (sizing : Sizing) : WidgetTree :=
  match t.parentOf? id with
  | none => t
  | some parent =>
    let t := t.modify id fun w => { w with sizing }
    match t.canvasOf? parent with
    | none => t
    | some canvas =>
      match Layers.indexOf? (t.layersOf canvas) id with
      | none => t
      | some i =>
        (t.setLayers canvas ((t.layersOf canvas).modify i (FlexLayer.refresh t))).shareLayer c
          canvas i

/-- Give the canvas of a container one layer for each of its children. -/
def wrapContainer (c : LayoutConfig) (t : WidgetTree) (id : WidgetId) : WidgetTree :=
  match t.canvasOf? id with
  | none => t
  | some canvas =>
    match t.childrenOf canvas with
    | [] => t
    | children => (t.setLayers canvas (Layers.wrap t children)).shareAll c canvas

/-- Take all layers of the canvas of a container away. -/
def unwrapContainer (t : WidgetTree) (id : WidgetId) : WidgetTree :=
  match t.canvasOf? id with
  | none => t
  | some canvas => t.setLayers canvas []

end WidgetTree

end AppBuilder
