import AppBuilder.Action.Frame
import AppBuilder.Evaluation.Error
import AppBuilder.Text.Split

/-!
What runs code.

An `Evaluator` turns code and the values of the names it may use into an outcome, calling
builtins on the way. The names are fixed while code runs. It may keep a cache, of which
only the number of times it was cleared can show.

`Evaluator.path` is the simplest evaluator: code is a path into its scope, or one of a few
commands.
-/

namespace AppBuilder

/-- The values of the names that code may use. -/
abbrev Scope := Dict Json

/-- What runs code. The outcome depends on the code, the scope and how often the cache was
cleared, and on nothing else: an evaluator that keeps anything more from one code to the
next is none of these. -/
structure Evaluator where
  clears : Nat
  outcome : Nat → String → Scope → Calls (Except ScriptError Json)

namespace Evaluator

/-- Run code in a scope. -/
def run (e : Evaluator) (code : String) (scope : Scope) : Calls (Except ScriptError Json) :=
  e.outcome e.clears code scope

/-- Drop what was kept of earlier code. -/
def clearCache (e : Evaluator) : Evaluator := { e with clears := e.clears + 1 }

/-! ### Paths as code -/

/-- What follows a given beginning of a text. -/
def stripStart? (start text : String) : Option String :=
  if start.toList.isPrefixOf text.toList then
    some (String.ofList (text.toList.drop start.length))
  else none

/-- The value at a path of names, null where there is none. -/
def lookUp (scope : Scope) (path : List String) : Json :=
  match path with
  | [] => .null
  | first :: rest => rest.foldl (fun j name => j.field name) (.orNull (scope.get? first))

/-- The outcome of a path or command: `scope` lists the names in scope, `clears` counts
how often the cache was cleared, `throw` and `syntax` fail with the text behind them,
`act` calls a builtin with the words behind its name, and any other text is a path. -/
def pathOutcome (clears : Nat) (code : String) (scope : Scope) :
    Calls (Except ScriptError Json) :=
  if code = "scope" then return .ok (.strings scope.keys)
  else if code = "clears" then return .ok (.nat clears)
  else match stripStart? "throw " code with
  | some text => return .error ⟨.runtime, text⟩
  | none => match stripStart? "syntax " code with
    | some text => return .error ⟨.parse, text⟩
    | none => match stripStart? "act " code with
      | some text =>
        match (splitAt ' ' text.toList).map String.ofList with
        | [] => return .ok .null
        | name :: args => do
          if ← Calls.ask name (args.map .string) then return .ok .null
          else return .error ⟨.runtime, deniedMessage name⟩
      | none =>
        return .ok (lookUp scope ((splitAt '.' code.toList).map fun cs => String.ofList (trim cs)))

/-- The evaluator of paths. -/
def path : Evaluator := ⟨0, pathOutcome⟩

end Evaluator

end AppBuilder
