import AppBuilder.Entity.Tree

/-!
What changed between two data trees.

`DataTree.changes` lists, in order of entity and property, every property that is new,
gone or edited. A property is edited when its value differs or when it turned into a
trigger or stopped being one.
-/

namespace AppBuilder

/-- What happened to a property. -/
inductive ChangeEvent where
  | added
  | removed
  | edited
deriving DecidableEq, Repr

namespace ChangeEvent

def name : ChangeEvent → String
  | added => "NEW"
  | removed => "DELETE"
  | edited => "EDIT"

end ChangeEvent

/-- A changed property. -/
structure PropertyChange where
  event : ChangeEvent
  path : String
deriving DecidableEq, Repr

def PropertyChange.toJson (c : PropertyChange) : Json :=
  .object [("event", .string c.event.name), ("propertyPath", .string c.path)]

namespace DataTree

/-- What happened to a property that had one value, if any, and has another. -/
def event? (triggerChanged : Bool) : Option Json → Option Json → Option ChangeEvent
  | none, none => none
  | none, some _ => some .added
  | some _, none => some .removed
  | some a, some b => if !(a == b) || triggerChanged then some .edited else none

/-- The names that two dictionaries have between them, in order. -/
def allNames {α β : Type} (d : Dict α) (e : Dict β) : List String :=
  (NameSet.ofList (d.keys ++ e.keys)).toList

/-- The changed properties of an entity that may be missing before or after. -/
def entityChanges (name : String) (old new : Option Entity) : List PropertyChange :=
  let properties := fun e : Option Entity => (e.map (·.properties)).getD .empty
  let trigger := fun (e : Option Entity) property => (e.map (·.isTrigger property)).getD false
  (allNames (properties old) (properties new)).filterMap fun property =>
    (event? (trigger old property != trigger new property) ((properties old).get? property)
      ((properties new).get? property)).map fun event => ⟨event, propertyPath name property⟩

/-- The properties that changed from an older tree to this one. -/
def changes (new old : DataTree) : List PropertyChange :=
  (allNames old.entities new.entities).flatMap fun name =>
    entityChanges name (old.entity? name) (new.entity? name)

end DataTree

end AppBuilder
