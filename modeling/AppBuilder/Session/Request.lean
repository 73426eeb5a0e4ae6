import AppBuilder.Entity.Tree

/-!
Requests to an evaluation session.

A request has an id and a body, one of ten methods with its data. As JSON the method is a
word and the data an object; two methods have no data. `Request.ofJson?` reads what
`Request.toJson` writes, filling in what may be left out.
-/

namespace AppBuilder

/-! ### Bodies -/

/-- A tree to evaluate, with the state of the editor that goes with it. -/
structure TreeRequest where
  tree : DataTree
  widgets : Json
  theme : Json
  /-- Whether the state of the editor is recorded for undo. -/
  recorded : Bool

/-- A trigger to run after bringing the values up to date with a tree. -/
structure TriggerRequest where
  tree : DataTree
  trigger : String
  arguments : List Json
  context : Dict Json

/-- What a session can be asked for. -/
inductive RequestBody where
  | setup
  | evalTree (r : TreeRequest)
  | evalTrigger (r : TriggerRequest)
  | actionBindings (bindings : List String) (params : Json)
  | clearCache
  | undo (entity : Option String)
  | redo (entity : Option String)
  | setVersion (version : Option Nat)
  | expression (text : String) (isTrigger : Bool)
  | recordEntity (snapshot : Json) (id kind : String)

/-- The word for what is asked for. -/
inductive Method where
  | setup
  | evalTree
  | evalTrigger
  | actionBindings
  | clearCache
  | undo
  | redo
  | setVersion
  | expression
  | recordEntity
deriving DecidableEq, Repr

namespace Method

def name : Method → String
  | setup => "SETUP"
  | evalTree => "EVAL_TREE"
  | evalTrigger => "EVAL_TRIGGER"
  | actionBindings => "EVAL_ACTION_BINDINGS"
  | clearCache => "CLEAR_CACHE"
  | undo => "UNDO"
  | redo => "REDO"
  | setVersion => "SET_EVALUATION_VERSION"
  | expression => "EVAL_EXPRESSION"
  | recordEntity => "UPDATE_REPLAY_OBJECT"

def table : List (String × Method) :=
  [setup, evalTree, evalTrigger, actionBindings, clearCache, undo, redo, setVersion, expression,
    recordEntity].map fun m => (m.name, m)

def ofJson? : Decoder Method := Decode.word table

end Method

namespace TreeRequest

def fields (r : TreeRequest) : List (String × Json) :=
  [("shouldReplay", .bool r.recorded), ("theme", r.theme), ("unevalTree", r.tree.toJson),
    ("widgets", r.widgets)]

def ofJson? : Decoder TreeRequest := Decode.record do
  let tree ← Decode.required "unevalTree" DataTree.ofJson?
  let widgets ← Decode.defaulted "widgets" .null Decode.json
  let theme ← Decode.defaulted "theme" .null Decode.json
  let recorded ← Decode.defaulted "shouldReplay" true Decode.bool
  return ⟨tree, widgets, theme, recorded⟩

end TreeRequest

namespace TriggerRequest

def fields (r : TriggerRequest) : List (String × Json) :=
  [("callbackData", .array r.arguments), ("dataTree", r.tree.toJson),
    ("dynamicTrigger", .string r.trigger), ("globalContext", .ofDict r.context)]

def ofJson? : Decoder TriggerRequest := Decode.record do
  let tree ← Decode.required "dataTree" DataTree.ofJson?
  let trigger ← Decode.required "dynamicTrigger" Decode.string
  let arguments ← Decode.defaulted "callbackData" [] (Decode.list Decode.json)
  let context ← Decode.defaulted "globalContext" .empty (Decode.dict Decode.json)
  return ⟨tree, trigger, arguments, context⟩

end TriggerRequest

namespace RequestBody

def method : RequestBody → Method
  | setup => .setup
  | evalTree _ => .evalTree
  | evalTrigger _ => .evalTrigger
  | actionBindings _ _ => .actionBindings
  | clearCache => .clearCache
  | undo _ => .undo
  | redo _ => .redo
  | setVersion _ => .setVersion
  | expression _ _ => .expression
  | recordEntity _ _ _ => .recordEntity

/-! ### Data -/

/-- The fields of the data of a body, `none` for the methods without data. -/
def data? : RequestBody → Option (List (String × Json))
  | setup | clearCache => none
  | evalTree r => some r.fields
  | evalTrigger r => some r.fields
  | actionBindings bindings params =>
    some [("bindings", .strings bindings), ("executionParams", params)]
  | undo entity | redo entity => some [("entityId", .orNull (entity.map .string))]
  | setVersion version => some [("version", .orNull (version.map .nat))]
  | expression text isTrigger =>
    some [("expression", .string text), ("isTrigger", .bool isTrigger)]
  | recordEntity snapshot id kind =>
    some [("entity", snapshot), ("entityId", .string id), ("entityType", .string kind)]

/-- The entity that a step is for, if it is named. -/
def entityOfJson? : Decoder (Option String) :=
  Decode.record (Decode.omittable "entityId" Decode.string)

/-- The body of a method without data; null counts as none. -/
def bare (body : RequestBody) : Option Json → Option RequestBody
  | none | some .null => some body
  | some _ => none

/-- The body of a method with its data. -/
def ofParts? (m : Method) (data : Option Json) : Option RequestBody :=
  match m with
  | .setup => bare setup data
  | .clearCache => bare clearCache data
  | .evalTree => do return evalTree (← TreeRequest.ofJson? (← data))
  | .evalTrigger => do return evalTrigger (← TriggerRequest.ofJson? (← data))
  | .actionBindings => do
    Decode.record (do
      let bindings ← Decode.required "bindings" (Decode.list Decode.string)
      let params ← Decode.defaulted "executionParams" .null Decode.json
      return actionBindings bindings params) (← data)
  | .undo => do return undo (← entityOfJson? (← data))
  | .redo => do return redo (← entityOfJson? (← data))
  | .setVersion => do
    return setVersion (← Decode.record (Decode.omittable "version" Decode.nat32) (← data))
  | .expression => do
    Decode.record (do
      let text ← Decode.required "expression" Decode.string
      let isTrigger ← Decode.defaulted "isTrigger" false Decode.bool
      return expression text isTrigger) (← data)
  | .recordEntity => do
    Decode.record (do
      let snapshot ← Decode.required "entity" Decode.json
      let id ← Decode.required "entityId" Decode.string
      let kind ← Decode.required "entityType" Decode.string
      return recordEntity snapshot id kind) (← data)

/-- The method and the data of a body. -/
def reader : Decode.RecordReader RequestBody := do
  let m ← Decode.required "method" Method.ofJson?
  let data ← Decode.take "requestData"
  ofParts? m data

/-- A body by itself, as an object or as a pair of method and data. -/
def ofJson? : Decoder RequestBody
  | .array [m, data] => do ofParts? (← Method.ofJson? m) (some data)
  | j => Decode.fields reader j

end RequestBody

/-! ### Requests -/

/-- A request to a session. -/
structure Request where
  id : String
  body : RequestBody

namespace Request

/-- A request as JSON, given the fields of its data. -/
def withData (r : Request) (data : Option (List (String × Json))) : Json :=
  .object ([("method", .string r.body.method.name)] ++
    (data.map fun fields => ("requestData", Json.object fields)).toList ++
    [("requestId", .string r.id)])

def toJson (r : Request) : Json := r.withData r.body.data?

def ofJson? : Decoder Request := Decode.fields do
  let id ← Decode.required "requestId" Decode.string
  return ⟨id, ← RequestBody.reader⟩

/-- The fields of data that may be very large. -/
def bulkyFields : List String := ["unevalTree", "dataTree", "widgets"]

/-- The request as JSON without the fields that may be very large. -/
def summary (r : Request) : Json :=
  r.withData (r.body.data?.map fun fields => fields.filter fun f => !bulkyFields.contains f.1)

end Request

end AppBuilder
