import AppBuilder.Config
import AppBuilder.Evaluation.OnDemand
import AppBuilder.History
import AppBuilder.Session.Response

/-!
Evaluation sessions.

A `Session` evaluates trees for an editor and keeps the histories of its entities. The
first tree makes an evaluator; before that, nothing can be evaluated. The canvas has a
history like any other entity, except that trees record its snapshots.
-/

namespace AppBuilder

/-- What a session remembers between requests. -/
structure Session where
  config : EvalConfig
  /-- What runs code. -/
  evaluator : Evaluator
  /-- The values of the last tree, once there is one. -/
  values : Option TreeEvaluator
  histories : Dict History
  version : Nat
  ready : Bool

namespace Session

/-- The entity that trees are recorded for. -/
def canvas : String := "canvas"

/-- A session that begins. -/
def start (config : EvalConfig) (evaluator : Evaluator) : Session :=
  ⟨config, evaluator, none, .empty, 1, false⟩

/-! ### Life cycle -/

def init (s : Session) : Session := { s with ready := true }

/-- Forget all values; histories stay. -/
def reset (s : Session) : Session :=
  { s with values := none, evaluator := s.evaluator.clearCache }

/-- Forget everything but the version. -/
def dispose (s : Session) : Session := { s.reset with histories := .empty, ready := false }

/-! ### Histories -/

/-- Start the history of an entity, in place of any other. -/
def startHistory (s : Session) (id kind : String) (snapshot : Json) : Session :=
  { s with histories := s.histories.insert id (.start kind snapshot s.config.replayHistory) }

/-- Record a snapshot in the history of an entity, if there is one. -/
def recordSnapshot (s : Session) (id : String) (snapshot : Json) : Session :=
  { s with histories := s.histories.modify id fun h => (h.record snapshot).2 }

/-- Record a snapshot of an entity, the first of its history if there is none. -/
def recordEntity (s : Session) (id kind : String) (snapshot : Json) : Session :=
  if s.histories.contains id then s.recordSnapshot id snapshot
  else s.startHistory id kind snapshot

/-- Take a step through the history of an entity; the answer is null when there is
none. -/
def replay (s : Session) (id : Option String) (step : HistoryStep) : Json × Session :=
  let id := id.getD canvas
  match s.histories.get? id with
  | none => (.null, s)
  | some h =>
    let (replayed, h) := h.replay step
    (.orNull (replayed.map (·.toJson)), { s with histories := s.histories.insert id h })

/-! ### Trees -/

/-- The state of the editor as a snapshot of the canvas. -/
def canvasSnapshot (r : TreeRequest) : Json :=
  .object [("theme", r.theme), ("widgets", r.widgets)]

/-- The answer to a tree. -/
def treeAnswer (pass : EvalPass) (t : TreeEvaluator) : Json :=
  .object [("dataTree", t.evaluated.toJson),
    ("dependencies", .ofDict (t.graph.inverse.map fun _ s => .strings s.toList)),
    ("errors", .array (pass.errors.map (·.toJson))), ("evalMetaUpdates", .array []),
    ("evaluationOrder", .strings pass.evaluationOrder),
    ("isCreateFirstTree", .bool pass.fromScratch), ("jsUpdates", .object []),
    ("unEvalUpdates", .array (pass.changes.map (·.toJson)))]

/-- Evaluate a tree. The first tree starts the history of the canvas. -/
def evalTree (s : Session) (r : TreeRequest) : Json × Session :=
  match s.values with
  | none =>
    let (pass, t) := (TreeEvaluator.fresh s.evaluator).createFirst r.tree
    (treeAnswer pass t,
      { s.startHistory canvas canvas (canvasSnapshot r) with values := some t })
  | some t =>
    let (pass, t) := t.update r.tree
    (treeAnswer pass t,
      { (if r.recorded then s.recordSnapshot canvas (canvasSnapshot r) else s) with
        values := some t })

/-- Bring the values up to date with a tree and run a trigger. -/
def evalTrigger (s : Session) (r : TriggerRequest) : Json × Session :=
  match s.values with
  | none => (.object [("errors", .array []), ("triggers", .array [])], s)
  | some t =>
    let (_, t) := t.update r.tree
    ((t.runTrigger r.trigger r.arguments r.context).toJson, { s with values := some t })

/-! ### Code -/

/-- The values of the bindings of an action. -/
def actionBindings (s : Session) (bindings : List String) (params : Json) : Json :=
  match s.values with
  | none => .object [("errors", .array []), ("values", .null)]
  | some t => (t.actionBindings bindings params).toJson

/-- The value of an expression, or the outcome of a trigger. -/
def expression (s : Session) (text : String) (isTrigger : Bool) : Json :=
  match s.values with
  | none => .object []
  | some t =>
    if isTrigger then (t.runTrigger text [] .empty).toJson
    else
      match t.expression text with
      | .ok j => .object [("errors", .array []), ("result", j)]
      | .error e => .object [("errors", .array [e.toJson]), ("result", .null)]

/-! ### Requests -/

/-- The data that answers a request, and the session after it. -/
def answer (s : Session) : RequestBody → Json × Session
  | .setup => (.bool true, s.init)
  | .clearCache => (.bool true, s.reset)
  | .evalTree r => s.evalTree r
  | .evalTrigger r => s.evalTrigger r
  | .actionBindings bindings params => (s.actionBindings bindings params, s)
  | .undo entity => s.replay entity .undo
  | .redo entity => s.replay entity .redo
  | .setVersion version => (.null, { s with version := version.getD 1 })
  | .expression text isTrigger => (s.expression text isTrigger, s)
  | .recordEntity snapshot id kind => (.null, s.recordEntity id kind snapshot)

/-- The response to a request that took some time. -/
def handle (s : Session) (r : Request) (nanos : Nat) : Response × Session :=
  let (data, s) := s.answer r.body
  (.ofOutcome r (.ok data) nanos, s)

end Session

end AppBuilder
