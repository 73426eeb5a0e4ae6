import AppBuilder.Widget.Violation

/-!
Layers and their alignment buckets.

A layer splits into three buckets, one per alignment. A layer with a child that fills the
row behaves as a single start bucket (`FlexLayer.spread`). The operations that build a
layer drop children without a widget and set its fill flag from the tree.
-/

namespace AppBuilder

/-! ### Buckets -/

/-- The names in a layer by alignment. -/
structure Buckets where
  start : List WidgetId
  center : List WidgetId
  finish : List WidgetId
deriving DecidableEq, Repr

namespace Buckets

def empty : Buckets := ⟨[], [], []⟩

def isEmpty (b : Buckets) : Bool := b.start.isEmpty && b.center.isEmpty && b.finish.isEmpty

/-- The bucket of an alignment. -/
def get (b : Buckets) : Alignment → List WidgetId
  | .start => b.start
  | .center => b.center
  | .finish => b.finish

/-- Change the bucket of an alignment. -/
def modify (b : Buckets) (align : Alignment) (f : List WidgetId → List WidgetId) : Buckets :=
  match align with
  | .start => { b with start := f b.start }
  | .center => { b with center := f b.center }
  | .finish => { b with finish := f b.finish }

/-- The children of the buckets, the start bucket first, then the center, then the end
bucket. -/
def children (b : Buckets) : List LayerChild :=
  b.start.map (⟨·, .start⟩) ++ b.center.map (⟨·, .center⟩) ++ b.finish.map (⟨·, .finish⟩)

/-- The names of the children of an alignment. -/
def aligned (children : List LayerChild) (align : Alignment) : List WidgetId :=
  (children.filter fun c => c.align = align).map (·.id)

/-- Children sorted into buckets by their own alignment. -/
def ofChildren (children : List LayerChild) : Buckets :=
  ⟨aligned children .start, aligned children .center, aligned children .finish⟩

end Buckets

/-- Insert some items into a list before a place, at its end when it is shorter. -/
def insertAt {α : Type} (place : Nat) (items xs : List α) : List α :=
  xs.take place ++ items ++ xs.drop place

/-! ### Layers -/

namespace FlexLayer

/-- A layer with its fill flag set from the tree. -/
def refresh (t : WidgetTree) (l : FlexLayer) : FlexLayer := { l with hasFill := t.fills l.children }

/-- The layer of those children that are in the tree. -/
def ofChildren (t : WidgetTree) (children : List LayerChild) : FlexLayer :=
  refresh t ⟨children.filter fun c => t.contains c.id, false⟩

/-- The layer of buckets. -/
def ofBuckets (t : WidgetTree) (b : Buckets) : FlexLayer := ofChildren t b.children

/-- The names in a layer. -/
def ids (l : FlexLayer) : List WidgetId := l.children.map (·.id)

def isEmpty (l : FlexLayer) : Bool := l.children.isEmpty

/-- Whether a layer holds a name. -/
def contains (l : FlexLayer) (id : WidgetId) : Bool := l.ids.contains id

/-- The buckets of a layer; all of it is the start bucket when a child fills the row. -/
def spread (l : FlexLayer) : Buckets :=
  if l.hasFill then ⟨l.ids, [], []⟩ else .ofChildren l.children

/-- The layer without some names. -/
def without (t : WidgetTree) (ids : List WidgetId) (l : FlexLayer) : FlexLayer :=
  ofChildren t (l.children.filter fun c => !ids.contains c.id)

end FlexLayer

/-! ### Lists of layers -/

namespace Layers

/-- One layer for each of some names that are in the tree. -/
def wrap (t : WidgetTree) (ids : List WidgetId) : List FlexLayer :=
  (ids.filter t.contains).map fun id => .ofChildren t [⟨id, .start⟩]

/-- The names in layers, in order. -/
def flatten (layers : List FlexLayer) : List WidgetId := layers.flatMap FlexLayer.ids

/-- The layers without some names; a layer left empty is dropped. -/
def without (t : WidgetTree) (ids : List WidgetId) (layers : List FlexLayer) : List FlexLayer :=
  (layers.map (FlexLayer.without t ids)).filter fun l => !l.isEmpty

/-- The first layer that holds a name. -/
def indexOf? (layers : List FlexLayer) (id : WidgetId) : Option Nat :=
  layers.findIdx? fun l => l.contains id

/-- How many children the first layer with a name has. -/
def siblings (layers : List FlexLayer) (id : WidgetId) : Nat :=
  match layers.find? fun l => l.contains id with
  | some l => l.children.length
  | none => 0

/-- The place of a name in the first layer that holds it. -/
def placeOf? (layers : List FlexLayer) (id : WidgetId) : Option Nat :=
  layers.findSome? fun l => l.ids.findIdx? (· = id)

/-- Insert a layer before a place, at the end when there are fewer; an empty layer is not
inserted. -/
def insertLayer (layers : List FlexLayer) (l : FlexLayer) (place : Nat) : List FlexLayer :=
  if l.isEmpty then layers else insertAt place [l] layers

/-- All children of layers as one layer. -/
def singleRow (t : WidgetTree) (layers : List FlexLayer) : FlexLayer :=
  .ofChildren t (layers.flatMap (·.children))

/-- Insert names into a bucket of the layer at a place, before a place in the bucket. The
layer is put together anew from its buckets. -/
def mergeInto (t : WidgetTree) (ids : List WidgetId) (place : Nat) (align : Alignment)
    (row : Nat) (layers : List FlexLayer) : List FlexLayer :=
  layers.modify place fun l =>
    .ofBuckets t ((Buckets.ofChildren l.children).modify align (insertAt row ids))

end Layers

end AppBuilder
