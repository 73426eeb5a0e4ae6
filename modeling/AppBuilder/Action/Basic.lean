import AppBuilder.Json.Basic

/-!
Actions that code may ask for.

An action is a side effect described for someone else to perform. Code asks for one by
calling a builtin. A computation that may do so is a tree of `Calls`: either it is
done, or it calls a builtin and goes on according to whether the call was let through.
-/

namespace AppBuilder

/-! ### Builtins -/

/-- The builtins that ask for an action. -/
inductive Builtin where
  | showAlert
  | navigateTo
  | storeValue
  | postWindowMessage
  | resetWidget
  | run
deriving DecidableEq, Repr

namespace Builtin

def all : List Builtin :=
  [showAlert, navigateTo, storeValue, postWindowMessage, resetWidget, run]

/-- The name under which code calls a builtin. -/
def name : Builtin → String
  | showAlert => "showAlert"
  | navigateTo => "navigateTo"
  | storeValue => "storeValue"
  | postWindowMessage => "postWindowMessage"
  | resetWidget => "resetWidget"
  | run => "run"

def ofName? (name : String) : Option Builtin := all.find? (·.name = name)

/-- The type of the action that a builtin asks for. -/
def actionType : Builtin → String
  | showAlert => "SHOW_ALERT"
  | navigateTo => "NAVIGATE_TO"
  | storeValue => "STORE_VALUE"
  | postWindowMessage => "POST_MESSAGE"
  | resetWidget => "RESET_WIDGET_META_RECURSIVE_BY_NAME"
  | run => "RUN_PLUGIN_ACTION"

/-- What identifies the target of a run: its action id or else its name. -/
def targetId (target : Json) : Json := .orNull ((target.field? "actionId").or (target.field? "name"))

/-- The payload made of the first two arguments, each null when it is missing. -/
def payload (b : Builtin) (first second : Json) : Json :=
  match b with
  | showAlert => .object [("message", first), ("style", second)]
  | navigateTo => .object [("pageNameOrUrl", first), ("params", second)]
  | storeValue => .object [("key", first), ("value", second)]
  | postWindowMessage => .object [("message", first), ("targetOrigin", second)]
  | resetWidget => .object [("resetChildren", second), ("widgetName", first)]
  | run => .object [("actionId", targetId first), ("params", second)]

end Builtin

/-! ### Actions -/

/-- A side effect to be performed by someone else. -/
structure Action where
  type : String
  payload : Json

namespace Action

/-- The action that a call of a name asks for. A name that is no builtin asks for an
unknown action with all arguments as its payload. -/
def ofCall (name : String) (args : List Json) : Action :=
  match Builtin.ofName? name with
  | some b => ⟨b.actionType, b.payload (.orNull args[0]?) (.orNull args[1]?)⟩
  | none => ⟨"UNKNOWN_ACTION", .array args⟩

def toJson (a : Action) : Json := .object [("payload", a.payload), ("type", .string a.type)]

end Action

/-! ### Computations that call -/

/-- A computation that may call builtins; `next` tells how it goes on after a call that
was let through (`true`) or denied (`false`). -/
inductive Calls (α : Type) where
  | done (a : α)
  | call (name : String) (args : List Json) (next : Bool → Calls α)

namespace Calls

variable {α β : Type}

/-- One computation after another. -/
def bind : Calls α → (α → Calls β) → Calls β
  | done a, f => f a
  | call name args next, f => call name args fun ok => (next ok).bind f

instance : Monad Calls where
  pure := done
  bind := bind

/-- A single call. -/
def ask (name : String) (args : List Json) : Calls Bool := call name args done

end Calls

end AppBuilder
