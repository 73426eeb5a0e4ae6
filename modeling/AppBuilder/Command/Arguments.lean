import AppBuilder.Command.Basic

/-!
The arguments of the program.

An option is given as `--name value` or `--name=value`, a switch as `--name`; what does not
start with a dash is an operand, and so is all that follows `--`. The first operand names
the command. `Invocation.ofArguments?` refuses what no command understands.
-/

namespace AppBuilder

/-- Arguments by kind. -/
structure Arguments where
  options : List (String × String)
  switches : List String
  operands : List String

namespace Arguments

/-- The options that have a value. -/
def optionNames : List String := ["config", "canvas", "drag", "column-width", "row-height"]

def switchNames : List String := ["json", "verbose"]

def addOption (a : Arguments) (name value : String) : Arguments :=
  { a with options := (name, value) :: a.options }

def addSwitch (a : Arguments) (name : String) : Arguments :=
  { a with switches := name :: a.switches }

def addOperand (a : Arguments) (text : String) : Arguments :=
  { a with operands := text :: a.operands }

/-- What a dash at the start of an argument tells. -/
inductive Dashed where
  | operand
  | ending
  | switch (name : String)
  | option (name : String) (value : Option String)
  | unknown

/-- Look at the dashes of an argument. -/
def Dashed.ofText (text : String) : Dashed :=
  match text.toList with
  | ['-', '-'] => ending
  | '-' :: '-' :: cs =>
    let name := String.ofList (cs.takeWhile (· ≠ '='))
    let value := match cs.dropWhile (· ≠ '=') with
      | [] => none
      | _ :: rest => some (String.ofList rest)
    if optionNames.contains name then option name value
    else if switchNames.contains name ∧ value = none then switch name
    else unknown
  | ['-', 'v'] => switch "verbose"
  | '-' :: _ :: _ => unknown
  | _ => operand

/-- Whether an argument can be the value of the option before it. -/
def isValue (text : String) : Bool :=
  match Dashed.ofText text with
  | .operand => true
  | _ => false

/-- Sort arguments by kind. -/
def ofList? : List String → Option Arguments
  | [] => some ⟨[], [], []⟩
  | text :: rest =>
    match Dashed.ofText text with
    | .operand => (ofList? rest).map fun a => a.addOperand text
    | .ending => some ⟨[], [], rest⟩
    | .switch name => (ofList? rest).map fun a => a.addSwitch name
    | .option name (some value) => (ofList? rest).map fun a => a.addOption name value
    | .option name none =>
      match rest with
      | value :: rest =>
        if isValue value then (ofList? rest).map fun a => a.addOption name value else none
      | [] => none
    | .unknown => none

/-- The values of an option. -/
def values (a : Arguments) (name : String) : List String :=
  (a.options.filter fun o => o.1 = name).map (·.2)

/-- The value of an option that may be given once. -/
def value? (a : Arguments) (name : String) : Option (Option String) :=
  match a.values name with
  | [] => some none
  | [v] => some (some v)
  | _ => none

/-- The number of an option that may be given once, with a value for when it is not. -/
def number? (a : Arguments) (name : String) (default : Float) : Option Float := do
  match ← a.value? name with
  | none => return default
  | some text => readFloat? text

/-- Whether no arguments are given but some options and switches, the latter once. -/
def admits (a : Arguments) (options switches : List String) : Bool :=
  a.options.all (fun o => o.1 = "config" || options.contains o.1) &&
    a.switches.all (fun s => s = "verbose" || switches.contains s) && a.switches.Nodup

end Arguments

/-- The command of some operands, with its options. -/
def Command.ofArguments? (a : Arguments) : Option Command :=
  match a.operands with
  | ["eval", tree] =>
    if a.admits [] ["json"] then some (.eval tree (a.switches.contains "json")) else none
  | ["worker"] => if a.admits [] [] then some (.worker none) else none
  | ["worker", requests] => if a.admits [] [] then some (.worker (some requests)) else none
  | ["highlights", widgets] => do
    guard (a.admits ["canvas", "drag", "column-width", "row-height"] [])
    let dragged := a.values "drag"
    guard (!dragged.isEmpty)
    let canvas := (← a.value? "canvas").getD mainContainerId
    let column ← a.number? "column-width" 10
    let row ← a.number? "row-height" 10
    return .highlights widgets canvas dragged ⟨column, row⟩
  | ["drop", widgets, event] => if a.admits [] [] then some (.drop widgets event) else none
  | _ => none

/-- What the arguments of the program ask for. -/
def Invocation.ofArguments? (arguments : List String) : Option Invocation := do
  let a ← Arguments.ofList? arguments
  return ⟨← a.value? "config", ← Command.ofArguments? a⟩

end AppBuilder
