import AppBuilder.Config
import AppBuilder.Evaluation.Evaluator
import AppBuilder.Script.Value

/-!
Running scripts.

A program runs with the names in scope as constants. Its own variables live in the block
that declares them; a function sees nothing but its parameters. Running ends with a value
or with a fault, which knows where it arose. Two limits bound it: the number of
operations, if there is such a limit, and how deep functions call each other.
-/

namespace AppBuilder.Script

/-! ### Faults -/

/-- Why a program failed. -/
inductive Fault where
  /-- A failure of the program. -/
  | raised (message : String) (pos : Pos)
  /-- A failure inside functions, the innermost first, called from a place. -/
  | inFunction (names message : String) (inner pos : Pos)
  /-- A limit was exceeded. -/
  | exhausted (message : String) (pos : Pos)

namespace Fault

def pos : Fault → Pos
  | raised _ p => p
  | inFunction _ _ _ p => p
  | exhausted _ p => p

/-- A place as part of a message. -/
def placeText (word : String) (p : Pos) : String :=
  " (line " ++ digitsText p.line ++ ", " ++ word ++ " " ++ digitsText p.column ++ ")"

/-- The message of a fault, its place given twice. -/
def message (f : Fault) : String :=
  (match f with
    | raised m p => m ++ placeText "position" p
    | exhausted m p => m ++ placeText "position" p
    | inFunction names m inner p =>
      m ++ placeText "position" inner ++ " in call to function '" ++ names ++ "'" ++
        placeText "position" p) ++ placeText "offset" f.pos

/-- The fault as seen by the caller of a function. -/
def leaving (name : String) (call : Pos) : Fault → Fault
  | raised m p => inFunction name m p call
  | inFunction names m inner _ => inFunction (names ++ " < " ++ name) m inner call
  | exhausted m _ => exhausted m call

end Fault

/-! ### State -/

/-- A name and its value. -/
structure Variable where
  name : String
  value : Value
  constant : Bool

/-- The variables in sight, the innermost first, and how many operations were done. -/
structure Machine where
  locals : List Variable
  operations : Nat

/-- What stays the same while a function runs. -/
structure Setting where
  functions : List Function
  /-- The greatest number of operations, zero for no limit. -/
  maxOperations : Nat
  maxLevels : Nat
  /-- How many functions called each other to get here. -/
  level : Nat

/-- A computation of a program. -/
abbrev Run (α : Type) := StateT Machine (ExceptT Fault Calls) α

namespace Run

def fail {α : Type} (f : Fault) : Run α := throw f

def raise {α : Type} (message : String) (pos : Pos) : Run α := fail (.raised message pos)

/-- The value of an outcome; what is not supported is a missing function. -/
def settle (o : Outcome) (name : String) (args : List Value) (pos : Pos) : Run Value :=
  match o with
  | .value v => return v
  | .failure m => raise m pos
  | .unsupported => raise (missingFunction name args) pos

/-- Count an operation. -/
def tick (s : Setting) (pos : Pos) : Run Unit := do
  let m ← get
  set { m with operations := m.operations + 1 }
  if 0 < s.maxOperations ∧ s.maxOperations < m.operations + 1 then
    fail (.exhausted "Too many operations" pos)

/-- Call a builtin. -/
def askAction (name : String) (args : List Value) (pos : Pos) : Run Value := do
  if ← (Calls.ask name (args.map Value.toJson) : Calls Bool) then return .unit
  else raise ("Runtime error: " ++ deniedMessage name) pos

/-- The variable of a name. -/
def find (name : String) (pos : Pos) : Run Variable := do
  match (← get).locals.find? fun v => v.name = name with
  | some v => return v
  | none => raise ("Variable not found: " ++ name) pos

/-- Declare a variable. -/
def declare (name : String) (value : Value) : Run Unit :=
  modify fun m => { m with locals := ⟨name, value, false⟩ :: m.locals }

/-- Replace the value of the innermost variable of a name. -/
def replace (name : String) (value : Value) : List Variable → List Variable
  | [] => []
  | v :: vs => if v.name = name then { v with value } :: vs else v :: replace name value vs

def assign (name : String) (value : Value) : Run Unit :=
  modify fun m => { m with locals := replace name value m.locals }

/-- Run a computation and forget the variables that it declares. -/
def inBlock {α : Type} (r : Run α) : Run α := do
  let before := (← get).locals.length
  let a ← r
  modify fun m => { m with locals := m.locals.drop (m.locals.length - before) }
  return a

/-- Run a computation that sees the given variables only. -/
def isolated {α : Type} (locals : List Variable) (r : Run α) : Run α := do
  let outer := (← get).locals
  modify fun m => { m with locals }
  let a ← r
  modify fun m => { m with locals := outer }
  return a

/-- Run a computation for each of a number of rounds. -/
def rounds (n : Nat) (r : Nat → Run Unit) (done : Nat) : Run Unit :=
  match n with
  | 0 => return
  | n + 1 => do
    r done
    rounds n r (done + 1)

/-- Change the fault of a computation. -/
def mapFault {α : Type} (f : Fault → Fault) (r : Run α) : Run α :=
  tryCatch r fun e => throw (f e)

end Run

/-! ### Places inside values -/

/-- A step into a value. -/
inductive Access where
  | property (name : String)
  | item (i : Value)

namespace Access

def get (a : Access) (v : Value) : Outcome :=
  match a with
  | property name => v.property name
  | item i => v.item i

def set (a : Access) (v new : Value) : Outcome :=
  match a, v with
  | property name, .map _ => v.setItem (.text name) new
  | property name, v =>
    .failure ("Unknown property '" ++ name ++ "' - a setter is not registered for type '" ++
      v.typeName ++ "'")
  | item i, v => v.setItem i new

end Access

/-- Change what is at a place inside a value. -/
def updateAt (f : Value → Run Value) : List (Access × Pos) → Value → Run Value
  | [], v => f v
  | (a, pos) :: rest, v => do
    let inner ← Run.settle (a.get v) "" [] pos
    let new ← updateAt f rest inner
    Run.settle (a.set v new) "" [] pos

/-- Where a statement starts. -/
def Stmt.pos : Stmt → Pos
  | .value _ p => p
  | .bind _ _ p => p
  | .assign _ _ _ p _ => p
  | .each _ _ _ p _ => p
  | .forever _ p => p
  | .throw _ p => p

/-- The message of a thrown value. -/
def thrownMessage (v : Value) : String :=
  if v.display.isEmpty then "Runtime error" else "Runtime error: " ++ v.display

/-- The function that changes its first argument. -/
def appendName : String := "push"

/-- The values that a loop goes through. -/
def loopItems? : Value → Option (List Value)
  | .list xs => some xs
  | .text s => some (s.toList.map .char)
  | _ => none

/-! ### Evaluation -/

mutual

/-- The value of an expression. -/
def evalExpr (s : Setting) : Nat → Expr → Run Value
  | 0, _ => Run.fail (.exhausted "Stack overflow" .start)
  | fuel + 1, e =>
    match e with
    | .literal l => return .ofLiteral l
    | .joined ps => do
      let vs ← evalAll s fuel ps
      return .text (String.join (vs.map Value.display))
    | .variable name pos => return (← Run.find name pos).value
    | .list es => return .list (← evalAll s fuel es)
    | .map fs => do
      let vs ← evalAll s fuel (fs.map (·.2))
      return .map (((fs.map (·.1)).zip vs).foldl (fun es f => Entries.insert f.1 f.2 es) [])
    | .unary op a pos => do
      let v ← evalExpr s fuel a
      Run.settle (op.apply v) op.symbol [v] pos
    | .binary op a b pos => do
      let v ← evalExpr s fuel a
      let w ← evalExpr s fuel b
      Run.settle (op.apply v w) op.symbol [v, w] pos
    | .both a b posA posB => do
      if ← evalTest s fuel a posA then return .bool (← evalTest s fuel b posB)
      else return .bool false
    | .either a b posA posB => do
      if ← evalTest s fuel a posA then return .bool true
      else return .bool (← evalTest s fuel b posB)
    | .range a b pos => do
      match ← evalExpr s fuel a, ← evalExpr s fuel b with
      | .int m, .int n => return .range m n
      | v, w => Run.raise (missingFunction ".." [v, w]) pos
    | .property a name pos => do
      Run.settle ((← evalExpr s fuel a).property name) name [] pos
    | .index a i pos => do
      let v ← evalExpr s fuel a
      Run.settle (v.item (← evalExpr s fuel i)) "" [] pos
    | .call name args pos =>
      match args with
      | receiver :: rest =>
        if name = appendName then evalAppend s fuel receiver rest pos
        else do evalCall s fuel name (← evalAll s fuel args) pos
      | [] => evalCall s fuel name [] pos
    | .method receiver name args pos =>
      if name = appendName then evalAppend s fuel receiver args pos
      else do
        let v ← evalExpr s fuel receiver
        evalCall s fuel name (v :: (← evalAll s fuel args)) pos
    | .branch test pos yes no => do
      if ← evalTest s fuel test pos then evalExpr s fuel yes else evalExpr s fuel no
    | .block body => Run.inBlock (runAll s fuel body)

/-- The values of expressions. -/
def evalAll (s : Setting) : Nat → List Expr → Run (List Value)
  | 0, _ => Run.fail (.exhausted "Stack overflow" .start)
  | _ + 1, [] => return []
  | fuel + 1, e :: es => do
    let v ← evalExpr s fuel e
    return v :: (← evalAll s fuel es)

/-- The truth of an expression. -/
def evalTest (s : Setting) : Nat → Expr → Pos → Run Bool
  | 0, _, _ => Run.fail (.exhausted "Stack overflow" .start)
  | fuel + 1, e, pos => do
    match ← evalExpr s fuel e with
    | .bool b => return b
    | v => Run.raise ("Data type incorrect: " ++ v.typeName ++ " (expecting bool)") pos

/-- Call a function of the program, a builtin or a function that every program has. -/
def evalCall (s : Setting) : Nat → String → List Value → Pos → Run Value
  | 0, _, _, _ => Run.fail (.exhausted "Stack overflow" .start)
  | fuel + 1, name, args, pos => do
    Run.tick s pos
    match s.functions.find? fun f => f.name = name ∧ f.params.length = args.length with
    | some f =>
      if s.maxLevels < s.level + 1 then Run.fail (.exhausted "Stack overflow" pos)
      else
        let locals := (f.params.zip args).map fun p => (⟨p.1, p.2, false⟩ : Variable)
        Run.mapFault (.leaving name pos) (Run.isolated locals.reverse
          (evalExpr { s with level := s.level + 1 } fuel f.body))
    | none =>
      if (Builtin.ofName? name).isSome ∧ args.length ≤ 2 then Run.askAction name args pos
      else Run.settle (libraryCall name args) name args pos

/-- The steps into a value that an expression takes from a variable; the variable comes
first. -/
def evalAccesses (s : Setting) :
    Nat → Expr → Run (Option (String × Pos × List (Access × Pos)))
  | 0, _ => return none
  | fuel + 1, e =>
    match e with
    | .variable name pos => return some (name, pos, [])
    | .property a name pos => do
      match ← evalAccesses s fuel a with
      | some (root, p, steps) => return some (root, p, steps ++ [(.property name, pos)])
      | none => return none
    | .index a i pos => do
      match ← evalAccesses s fuel a with
      | some (root, p, steps) =>
        return some (root, p, steps ++ [(.item (← evalExpr s fuel i), pos)])
      | none => return none
    | _ => return none

/-- Append an item to a list, in place when the list is in a variable. -/
def evalAppend (s : Setting) : Nat → Expr → List Expr → Pos → Run Value
  | 0, _, _, _ => Run.fail (.exhausted "Stack overflow" .start)
  | fuel + 1, receiver, args, pos => do
    let append := fun (items : List Value) (v : Value) => match v, items with
      | .list xs, [x] => (return .list (xs ++ [x]) : Run Value)
      | v, items => Run.raise (missingFunction appendName (v :: items)) pos
    match ← evalAccesses s fuel receiver with
    | some (root, rootPos, steps) =>
      let variable_ ← Run.find root rootPos
      let items ← evalAll s fuel args
      let new ← updateAt (append items) steps variable_.value
      if variable_.constant then
        Run.raise ("Non-pure method '" ++ appendName ++ "' cannot be called on constant") pos
      else
        Run.assign root new
        return .unit
    | none =>
      let v ← evalExpr s fuel receiver
      let _ ← append (← evalAll s fuel args) v
      return .unit

/-- Run statements one after another; the value is that of the last. -/
def runAll (s : Setting) : Nat → List Stmt → Run Value
  | 0, _ => Run.fail (.exhausted "Stack overflow" .start)
  | _ + 1, [] => return .unit
  | fuel + 1, [stmt] => runStmt s fuel stmt
  | fuel + 1, stmt :: rest => do
    let _ ← runStmt s fuel stmt
    runAll s fuel rest

/-- Run a statement. -/
def runStmt (s : Setting) : Nat → Stmt → Run Value
  | 0, _ => Run.fail (.exhausted "Stack overflow" .start)
  | fuel + 1, stmt => do
    Run.tick s stmt.pos
    match stmt with
    | .value e _ => evalExpr s fuel e
    | .bind name none _ =>
      Run.declare name .unit
      return .unit
    | .bind name (some e) _ =>
      Run.declare name (← evalExpr s fuel e)
      return .unit
    | .assign target op e _ opPos =>
      let new ← evalExpr s fuel e
      match ← evalAccesses s fuel target with
      | some (root, rootPos, steps) =>
        let variable_ ← Run.find root rootPos
        if variable_.constant then Run.raise ("Cannot modify constant " ++ root) rootPos
        else
          let change := fun old => match op with
            | none => (return new : Run Value)
            | some o => Run.settle (o.apply old new) o.symbol [old, new] opPos
          Run.assign root (← updateAt change steps variable_.value)
          return .unit
      | none => return .unit
    | .each name range body rangePos bodyPos =>
      let go := fun (v : Value) => Run.inBlock do
        Run.tick s bodyPos
        Run.declare name v
        let _ ← evalExpr s fuel body
        return ()
      match ← evalExpr s fuel range with
      | .range a b => Run.rounds (b - a).toNat (fun i => go (.int (a + i))) 0
      | v =>
        match loopItems? v with
        | some vs => vs.forM go
        | none => Run.raise "For loop expects iterable type" rangePos
      return .unit
    | .forever body bodyPos =>
      let limit := if s.maxOperations = 0 then twoTo 64 else s.maxOperations + 1
      Run.rounds limit (fun _ => do
        Run.tick s bodyPos
        let _ ← evalExpr s fuel body
        return ()) 0
      return .unit
    | .throw none pos => Run.raise "Runtime error" pos
    | .throw (some e) pos => Run.raise (thrownMessage (← evalExpr s fuel e)) pos

end

/-! ### Programs -/

/-- Run code with constants in scope. Nothing nests deeper than the text is long, times
the number of functions that call each other. -/
def evaluate (config : EvalConfig) (code : String) (scope : Scope) :
    Calls (Except ScriptError Json) :=
  match parse code with
  | .error f => return .error ⟨.parse, f.message ++ Fault.placeText "offset" f.pos⟩
  | .ok program => do
    let setting : Setting := ⟨program.functions, config.maxOperations, config.maxCallLevels, 0⟩
    let locals := scope.entries.map fun e => (⟨e.1, .ofJson e.2, true⟩ : Variable)
    let fuel := 4 * (code.length + 4) * (config.maxCallLevels + 2)
    match ← ((runAll setting fuel program.body).run ⟨locals, 0⟩).run with
    | .ok (v, _) => return .ok v.toJson
    | .error f => return .error ⟨.runtime, f.message⟩

end AppBuilder.Script

namespace AppBuilder.Evaluator

/-- The evaluator of scripts. Its cache cannot show. -/
def script (config : EvalConfig) : Evaluator := ⟨0, fun _ => Script.evaluate config⟩

end AppBuilder.Evaluator
