import AppBuilder.Evaluation.Evaluator
import AppBuilder.Json.Printer
import AppBuilder.Template.Reference

/-!
The value of a property.

Every text inside a property is a template. `Json.templates` lists those that hold code
and `references?` what their code refers to; a property without any has itself as its
value. `resolve` runs all code of a property in binding frames, one per code, and puts
the results in place: a text that is a single binding becomes the value of its code, in
any other the values are joined as text. The first failure is the failure of the whole.
-/

namespace AppBuilder

namespace Json

mutual

/-- The texts inside a value that hold code. -/
def templates : Json → List String
  | .string s => if Template.isDynamic s then [s] else []
  | .array xs => templatesOfItems xs
  | .object fs => templatesOfFields fs
  | _ => []

/-- `templates` of a list of values. -/
def templatesOfItems : List Json → List String
  | [] => []
  | x :: xs => templates x ++ templatesOfItems xs

/-- `templates` of a list of fields. -/
def templatesOfFields : List (String × Json) → List String
  | [] => []
  | (_, x) :: xs => templates x ++ templatesOfFields xs

end

end Json

namespace Reference

/-- What the code inside a value refers to, `none` when it holds no code. -/
def ofValue? (raw : Json) : Option (List String) :=
  if raw.templates.isEmpty then none else some (distinct (raw.templates.flatMap ofTemplate))

/-- The entity that a reference names first. -/
def entity (reference : String) : String :=
  String.ofList (reference.toList.takeWhile (· ≠ '.'))

/-- The property that a reference names behind its entity. -/
def property? (reference : String) : Option String :=
  match reference.toList.dropWhile (· ≠ '.') with
  | [] => none
  | _ :: rest => some (String.ofList (rest.takeWhile (· ≠ '.')))

end Reference

namespace Evaluator

/-! ### Running bindings -/

/-- Run code in a binding frame. A call of a builtin is an error even when the code
handles the denial. -/
def runBinding (e : Evaluator) (code : String) (scope : Scope) : Except EvalError Json :=
  let (outcome, report) := (e.run code scope).inFrame .binding
  match report.violation with
  | some name => .error (.actionInBinding name)
  | none =>
    match outcome with
    | .ok j => .ok j
    | .error f => .error (.ofScript .evaluation f)

/-- A value inside a joined text: texts as they are, null as nothing, anything else as
JSON. -/
def joinedText : Json → String
  | .string s => s
  | .null => ""
  | j => j.compact

/-- The text of a piece of a template. -/
def pieceText (e : Evaluator) (scope : Scope) : Segment → Except EvalError String
  | .text cs => .ok (String.ofList cs)
  | .code cs => do return joinedText (← e.runBinding (String.ofList (trim cs)) scope)

/-- The value of a template. -/
def template (e : Evaluator) (s : String) (scope : Scope) : Except EvalError Json :=
  if Template.isDynamic s then
    match Template.soleCode? s with
    | some code => e.runBinding code scope
    | none => do
      return .string (String.join (← (Template.segments s).mapM (e.pieceText scope)))
  else .ok (.string s)

mutual

/-- The value of a property. -/
def resolve (e : Evaluator) (scope : Scope) : Json → Except EvalError Json
  | .string s => e.template s scope
  | .array xs => do return .array (← e.resolveItems scope xs)
  | .object fs => do return .object (← e.resolveFields scope fs)
  | j => .ok j

/-- `resolve` on a list of values. -/
def resolveItems (e : Evaluator) (scope : Scope) : List Json → Except EvalError (List Json)
  | [] => .ok []
  | x :: xs => do
    let y ← e.resolve scope x
    return y :: (← e.resolveItems scope xs)

/-- `resolve` on a list of fields. -/
def resolveFields (e : Evaluator) (scope : Scope) :
    List (String × Json) → Except EvalError (List (String × Json))
  | [] => .ok []
  | (k, x) :: xs => do
    let y ← e.resolve scope x
    return (k, y) :: (← e.resolveFields scope xs)

end

end Evaluator

end AppBuilder
