import AppBuilder.Json.Decode

/-!
Errors of evaluation.

Code fails while it is read or while it runs (`ScriptError`). What becomes of such a
failure, and of a property on a cycle, is an `EvalError`: its kind, a message, the path
of the property if there is one, and some context.
-/

namespace AppBuilder

/-! ### Failures of code -/

/-- When code failed. -/
inductive ScriptErrorKind where
  | parse
  | runtime
deriving DecidableEq, Repr

/-- A failure of code. -/
structure ScriptError where
  kind : ScriptErrorKind
  message : String
deriving DecidableEq, Repr

/-! ### Evaluation errors -/

/-- What went wrong. -/
inductive EvalErrorKind where
  | cyclicDependency
  | evaluation
  | actionInBinding
  | parse
  | trigger
  | unwritable
  | unknown
deriving DecidableEq, Repr

namespace EvalErrorKind

def name : EvalErrorKind → String
  | cyclicDependency => "CYCLICAL_DEPENDENCY_ERROR"
  | evaluation => "EVAL_ERROR"
  | actionInBinding => "ACTION_CALLED_IN_SYNC_FIELD"
  | parse => "PARSE_JS_ERROR"
  | trigger => "EVAL_TRIGGER_ERROR"
  | unwritable => "CLONE_ERROR"
  | unknown => "UNKNOWN_ERROR"

def table : List (String × EvalErrorKind) :=
  [cyclicDependency, evaluation, actionInBinding, parse, trigger, unwritable, unknown].map
    fun k => (k.name, k)

end EvalErrorKind

/-- An error of a property or of a request. -/
structure EvalError where
  kind : EvalErrorKind
  message : String
  path : Option String := none
  context : Option Json := none

namespace EvalError

/-- The error of a property. -/
def atPath (e : EvalError) (path : String) : EvalError := { e with path := some path }

def withContext (e : EvalError) (context : Json) : EvalError := { e with context := some context }

/-- The error of a property on a cycle. -/
def cycle (path : String) : EvalError :=
  EvalError.atPath
    ⟨.cyclicDependency, "Cyclic dependency found while evaluating " ++ path, none, none⟩ path

/-- The error of a binding that called a builtin. -/
def actionInBinding (name : String) : EvalError :=
  ⟨.actionInBinding, "Found a reference to " ++ name ++
    " during evaluation. Sync fields cannot execute framework actions.", none, none⟩

/-- The error of code that failed, `runtime` being the kind of a failure while it ran. -/
def ofScript (runtime : EvalErrorKind) (e : ScriptError) : EvalError :=
  ⟨match e.kind with | .parse => .parse | .runtime => runtime, e.message, none, none⟩

def toJson (e : EvalError) : Json :=
  .object ((e.context.map fun c => ("context", c)).toList ++ [("message", .string e.message)] ++
    (e.path.map fun p => ("path", Json.string p)).toList ++ [("type", .string e.kind.name)])

def ofJson? : Decoder EvalError := Decode.record do
  let kind ← Decode.required "type" (Decode.word EvalErrorKind.table)
  let message ← Decode.required "message" Decode.string
  let path ← Decode.omittable "path" Decode.string
  let context ← Decode.omittable "context" Decode.json
  return ⟨kind, message, path, context⟩

end EvalError

end AppBuilder
