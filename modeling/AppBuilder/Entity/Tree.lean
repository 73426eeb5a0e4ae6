import AppBuilder.Json.Decode
import AppBuilder.Number.Decimal

/-!
Data trees: named entities with properties.

A property is named by its path, the name of its entity and its own name with a dot
between. Entity names hold no dot as a rule; a path is split at its first one. The
trigger properties of an entity hold code to run on demand, all others are data or
templates.
-/

namespace AppBuilder

/-! ### Paths -/

/-- The path of a property. -/
def propertyPath (entity property : String) : String := entity ++ "." ++ property

/-- Entity and property of a path, split at the first dot. -/
def splitPath (path : String) : Option (String × String) :=
  let cs := path.toList
  match cs.dropWhile (· ≠ '.') with
  | [] => none
  | _ :: rest => some (String.ofList (cs.takeWhile (· ≠ '.')), String.ofList rest)

/-! ### Entities -/

/-- What an entity stands for. -/
inductive EntityKind where
  | widget
  | action
  | scriptObject
  | application
deriving DecidableEq, Repr

namespace EntityKind

/-- The kinds by their written names. -/
def table : List (String × EntityKind) :=
  [("WIDGET", widget), ("ACTION", action), ("JSACTION", scriptObject), ("APPSMITH", application)]

def name : EntityKind → String
  | widget => "WIDGET"
  | action => "ACTION"
  | scriptObject => "JSACTION"
  | application => "APPSMITH"

end EntityKind

/-- A bag of properties. A name among the triggers need not be a property. -/
structure Entity where
  kind : EntityKind
  triggers : NameSet
  properties : Dict Json

namespace Entity

/-- An entity without properties. -/
def ofKind (kind : EntityKind) : Entity := ⟨kind, .empty, .empty⟩

/-- Store a property. -/
def set (e : Entity) (property : String) (value : Json) : Entity :=
  { e with properties := e.properties.insert property value }

/-- Store code as a trigger property. -/
def setTrigger (e : Entity) (property code : String) : Entity :=
  { e with
    triggers := e.triggers.insert property
    properties := e.properties.insert property (.string code) }

/-- Remove a property, which may stay among the triggers. -/
def unset (e : Entity) (property : String) : Entity :=
  { e with properties := e.properties.erase property }

/-- Whether a name is among the triggers. -/
def isTrigger (e : Entity) (property : String) : Bool := e.triggers.contains property

/-- The fields of a written entity that are no properties. -/
def ownFields : List String := ["ENTITY_TYPE", "triggerPaths"]

/-- The entity as JSON: its kind, its triggers if it has any, then its properties. -/
def toJson (e : Entity) : Json :=
  .object (("ENTITY_TYPE", .string e.kind.name) ::
    ((if e.triggers.isEmpty then [] else [("triggerPaths", .strings e.triggers.toList)]) ++
      e.properties.entries))

/-- Read an entity; kind and triggers may be missing. -/
def ofJson? : Decoder Entity
  | .object fs => do
    let (kind, triggers) ← Decode.fields (do
      let kind ← Decode.defaulted "ENTITY_TYPE" EntityKind.widget (Decode.word EntityKind.table)
      let triggers ← Decode.defaulted "triggerPaths" [] (Decode.list Decode.string)
      return (kind, triggers)) (.object fs)
    let properties := fs.filter fun f => !ownFields.contains f.1
    return ⟨kind, .ofList triggers, .ofList (Json.canonicalFields properties)⟩
  | _ => none

end Entity

/-! ### Trees -/

/-- Entities by name. -/
structure DataTree where
  entities : Dict Entity

namespace DataTree

/-- The tree without entities. -/
def empty : DataTree := ⟨.empty⟩

instance : Inhabited DataTree := ⟨empty⟩

def entity? (t : DataTree) (name : String) : Option Entity := t.entities.get? name

def insert (t : DataTree) (name : String) (e : Entity) : DataTree := ⟨t.entities.insert name e⟩

def remove (t : DataTree) (name : String) : DataTree := ⟨t.entities.erase name⟩

/-- Change an entity, if it exists. -/
def modify (t : DataTree) (name : String) (f : Entity → Entity) : DataTree :=
  ⟨t.entities.modify name f⟩

/-- The value of the property of an entity. -/
def property? (t : DataTree) (entity property : String) : Option Json :=
  (t.entities.get? entity).bind fun e => e.properties.get? property

/-- The value at a path. -/
def get? (t : DataTree) (path : String) : Option Json :=
  (splitPath path).bind fun p => t.property? p.1 p.2

/-- Whether a value can be stored at a path: its entity exists. -/
def admits (t : DataTree) (path : String) : Bool :=
  match splitPath path with
  | some (entity, _) => t.entities.contains entity
  | none => false

/-- Store a value at a path, if its entity exists. -/
def set (t : DataTree) (path : String) (value : Json) : DataTree :=
  match splitPath path with
  | some (entity, property) => t.modify entity (·.set property value)
  | none => t

/-- Remove the property at a path. -/
def unset (t : DataTree) (path : String) : DataTree :=
  match splitPath path with
  | some (entity, property) => t.modify entity (·.unset property)
  | none => t

/-- Whether a path names a trigger. -/
def isTrigger (t : DataTree) (path : String) : Bool :=
  match splitPath path with
  | some (entity, property) =>
    match t.entities.get? entity with
    | some e => e.isTrigger property
    | none => false
  | none => false

/-- The path of every property, triggers included. -/
def paths (t : DataTree) : List String :=
  t.entities.entries.flatMap fun e => e.2.properties.keys.map (propertyPath e.1)

/-- The properties of an entity as an object. -/
def entityValue? (t : DataTree) (name : String) : Option Json :=
  (t.entities.get? name).map fun e => .ofDict e.properties

/-- The properties of every entity as objects. -/
def values (t : DataTree) : Dict Json := t.entities.map fun _ e => .ofDict e.properties

/-- The tree as JSON. -/
def toJson (t : DataTree) : Json := .ofDict (t.entities.map fun _ e => e.toJson)

/-- Read a tree. -/
def ofJson? : Decoder DataTree := fun j => (Decode.dict Entity.ofJson? j).map DataTree.mk

/-- A row of `length` widgets `N0`, `N1`, … with one text each: the first text is the
seed, every other one appends `+` to the text before it. -/
def chain (length : Nat) (seed : String) : DataTree :=
  (List.range length).foldl (fun t i =>
    let text := if i = 0 then seed
      else "\x7b\x7bN" ++ digitsText (i - 1) ++ ".text\x7d\x7d+"
    t.insert ("N" ++ digitsText i) ((Entity.ofKind .widget).set "text" (.string text))) empty

end DataTree

end AppBuilder
