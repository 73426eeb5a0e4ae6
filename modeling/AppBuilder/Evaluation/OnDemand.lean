import AppBuilder.Evaluation.TreeEvaluator

/-!
Code that runs on demand against the evaluated tree.

A trigger runs its codes in one trigger frame, one after another up to the first that
fails; the actions asked for until then are kept. The bindings of an action and single
expressions run like the bindings of a property, with every entity in scope.
-/

namespace AppBuilder

/-- The outcome of a trigger. -/
structure TriggerOutcome where
  /-- The value of the last code, null after a failure. -/
  result : Json
  /-- The actions asked for. -/
  actions : List Action
  errors : List EvalError

namespace TriggerOutcome

/-- The outcome when there is nothing to run against. -/
def empty : TriggerOutcome := ⟨.null, [], []⟩

def toJson (o : TriggerOutcome) : Json :=
  .object [("errors", .array (o.errors.map (·.toJson))), ("result", o.result),
    ("triggers", .array (o.actions.map (·.toJson)))]

end TriggerOutcome

/-- The values of bindings, null where one failed, and the failures. -/
structure BindingValues where
  values : List Json
  errors : List EvalError

def BindingValues.toJson (b : BindingValues) : Json :=
  .object [("errors", .array (b.errors.map (·.toJson))), ("values", .array b.values)]

namespace Evaluator

/-- Run codes one after another up to the first that fails; the outcome is that of the
last one run, or the given value when there is none. -/
def runAll (e : Evaluator) (scope : Scope) (last : Json) :
    List String → Calls (Except ScriptError Json)
  | [] => return .ok last
  | code :: codes => do
    match ← e.run code scope with
    | .ok j => e.runAll scope j codes
    | .error f => return .error f

end Evaluator

/-- The codes of a trigger: those of a template, or the whole text when it has none. -/
def triggerCodes (text : String) : List String :=
  match Template.codes text with
  | [] => [text]
  | codes => codes

namespace TreeEvaluator

/-- The scope of a trigger: all entities, overridden by a context and the arguments. -/
def triggerScope (t : TreeEvaluator) (arguments : List Json) (context : Dict Json) : Scope :=
  (t.evaluated.values.extend context).insert "arguments" (.array arguments)

/-- Run a trigger. -/
def runTrigger (t : TreeEvaluator) (text : String) (arguments : List Json)
    (context : Dict Json) : TriggerOutcome :=
  let scope := t.triggerScope arguments context
  let (outcome, report) :=
    (t.evaluator.runAll scope .null (triggerCodes text)).inFrame .trigger
  match outcome with
  | .ok j => ⟨j, report.actions, []⟩
  | .error f => ⟨.null, report.actions, [.ofScript .trigger f]⟩

/-- Evaluate the bindings of an action with its parameters in scope. The error of a
binding has the binding as its context. -/
def actionBindings (t : TreeEvaluator) (bindings : List String) (params : Json) :
    BindingValues :=
  let scope := t.evaluated.values.insert "executionParams" params
  let outcomes := bindings.map fun b => (b, t.evaluator.template b scope)
  ⟨outcomes.map fun o => match o.2 with | .ok j => j | .error _ => .null,
    outcomes.filterMap fun o => match o.2 with
      | .ok _ => none
      | .error e => some (e.withContext (.string o.1))⟩

/-- Evaluate one expression, a template or plain code. -/
def expression (t : TreeEvaluator) (text : String) : Except EvalError Json :=
  if Template.isDynamic text then t.evaluator.template text t.evaluated.values
  else t.evaluator.runBinding text t.evaluated.values

end TreeEvaluator

end AppBuilder
