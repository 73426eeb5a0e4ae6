import AppBuilder.Number.Decimal
import AppBuilder.Widget.Tree

/-!
What can be wrong with a widget tree.

In a sound tree every listed child exists and records the one who lists it, every recorded
parent lists the widget, and in a container with layers every layer has children, tells
rightly whether one of them fills the row, and holds children of the container only, each
of them in exactly one place. `WidgetTree.violations` lists all that is not so.
-/

namespace AppBuilder

/-- Something wrong with a widget tree. -/
inductive TreeViolation where
  | danglingChild (parent child : WidgetId)
  | parentMismatch (child listedBy : WidgetId) (recorded : Option WidgetId)
  | orphan (widget parent : WidgetId)
  | layerMembership (container child : WidgetId) (count : Nat)
  | foreignLayerChild (container child : WidgetId)
  | emptyLayer (container : WidgetId) (layer : Nat)
  | staleFillFlag (container : WidgetId) (layer : Nat)
deriving DecidableEq, Repr

namespace TreeViolation

/-! ### Messages -/

/-- A character of a quoted name: quotes, backslashes and control characters are
escaped. -/
def quotedChar (c : Char) : List Char :=
  if c = '"' then ['\\', '"']
  else if c = '\\' then ['\\', '\\']
  else if c = '\n' then ['\\', 'n']
  else if c = '\r' then ['\\', 'r']
  else if c = '\t' then ['\\', 't']
  else if c.toNat = 0 then ['\\', '0']
  else if c.toNat < 0x20 ∨ (0x7F ≤ c.toNat ∧ c.toNat < 0xA0) then
    '\\' :: 'u' :: '\x7b' :: Nat.toDigits 16 c.toNat ++ ['\x7d']
  else [c]

/-- A recorded parent in a message. -/
def recordedText : Option WidgetId → String
  | none => "None"
  | some id =>
    "Some(WidgetId(\"" ++ String.ofList (id.toList.flatMap quotedChar) ++ "\"))"

def message : TreeViolation → String
  | danglingChild parent child => parent ++ " lists missing child " ++ child
  | parentMismatch child listedBy recorded =>
    child ++ " is listed by " ++ listedBy ++ " but records parent " ++ recordedText recorded
  | orphan widget parent => widget ++ " records parent " ++ parent ++ " which does not list it"
  | layerMembership container child count =>
    child ++ " appears in " ++ digitsText count ++ " layers of " ++ container
  | foreignLayerChild container child =>
    "layer of " ++ container ++ " references non-child " ++ child
  | emptyLayer container layer => "layer " ++ digitsText layer ++ " of " ++ container ++ " is empty"
  | staleFillFlag container layer =>
    "layer " ++ digitsText layer ++ " of " ++ container ++ " has a stale fill flag"

end TreeViolation

namespace WidgetTree

/-! ### Checks -/

/-- What is wrong with a listed child. -/
def childViolation? (t : WidgetTree) (w : Widget) (child : WidgetId) : Option TreeViolation :=
  match t.get? child with
  | none => some (.danglingChild w.id child)
  | some c =>
    if c.parent = some w.id then none else some (.parentMismatch child w.id c.parent)

/-- What is wrong with the recorded parent of a widget. -/
def parentViolation? (t : WidgetTree) (w : Widget) : Option TreeViolation :=
  match w.parent with
  | none => none
  | some parent =>
    if (t.childrenOf parent).contains w.id then none else some (.orphan w.id parent)

/-- Whether the tree has a child of a layer fill the row. -/
def fills (t : WidgetTree) (children : List LayerChild) : Bool :=
  children.any fun c => t.isFill c.id

/-- What is wrong with a layer of a widget. -/
def layerViolations (t : WidgetTree) (w : Widget) (index : Nat) (l : FlexLayer) :
    List TreeViolation :=
  (if l.children.isEmpty then [.emptyLayer w.id index] else []) ++
    (if t.fills l.children = l.hasFill then [] else [.staleFillFlag w.id index]) ++
    (l.children.filter fun c => !w.children.contains c.id).map fun c => .foreignLayerChild w.id c.id

/-- How many places a name has in a list of layers. -/
def placesIn (layers : List FlexLayer) (id : WidgetId) : Nat :=
  ((layers.flatMap (·.children)).filter fun c => c.id = id).length

/-- What is wrong with the layers of a widget. -/
def allLayerViolations (t : WidgetTree) (w : Widget) : List TreeViolation :=
  if w.layers.isEmpty then []
  else
    (w.layers.zipIdx.flatMap fun l => t.layerViolations w l.2 l.1) ++
      w.children.filterMap fun child =>
        let count := placesIn w.layers child
        if count = 1 then none else some (.layerMembership w.id child count)

/-- What is wrong with a widget. -/
def widgetViolations (t : WidgetTree) (w : Widget) : List TreeViolation :=
  w.children.filterMap (t.childViolation? w) ++ (t.parentViolation? w).toList ++
    t.allLayerViolations w

/-- Everything that is wrong with a tree, widget by widget in the order of their names. -/
def violations (t : WidgetTree) : List TreeViolation :=
  t.entries.values.flatMap fun e => t.widgetViolations e.widget

end WidgetTree

end AppBuilder
