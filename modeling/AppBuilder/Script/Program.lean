import AppBuilder.Script.Token

/-!
Scripts as trees.

`Script.parse` reads a text as a program: functions, and statements of which the last
gives the value. A text that is no program is refused with a message and the place
where reading stopped.
-/

namespace AppBuilder.Script

/-! ### Trees -/

/-- Operators that take two values. -/
inductive BinaryOp where
  | add | sub | mul | div | rem
  | eq | ne | lt | le | gt | ge
deriving DecidableEq, Repr

/-- Operators that take one value. -/
inductive UnaryOp where
  | neg | plus | not
deriving DecidableEq, Repr

/-- A constant. -/
inductive Literal where
  | unit
  | bool (b : Bool)
  | int (n : Int)
  | float (x : Float)
  | text (s : String)
  | char (c : Char)

mutual

/-- An expression; positions tell where it fails. -/
inductive Expr where
  | literal (l : Literal)
  | joined (pieces : List Expr)
  | variable (name : String) (pos : Pos)
  | list (items : List Expr)
  | map (fields : List (String × Expr))
  | unary (op : UnaryOp) (e : Expr) (pos : Pos)
  | binary (op : BinaryOp) (a b : Expr) (pos : Pos)
  | both (a b : Expr) (posA posB : Pos)
  | either (a b : Expr) (posA posB : Pos)
  | range (a b : Expr) (pos : Pos)
  | property (e : Expr) (name : String) (pos : Pos)
  | index (e i : Expr) (pos : Pos)
  | call (name : String) (args : List Expr) (pos : Pos)
  | method (receiver : Expr) (name : String) (args : List Expr) (pos : Pos)
  | branch (test : Expr) (testPos : Pos) (yes no : Expr)
  | block (body : List Stmt)

/-- A statement. -/
inductive Stmt where
  | value (e : Expr) (pos : Pos)
  | bind (name : String) (e : Option Expr) (pos : Pos)
  | assign (target : Expr) (op : Option BinaryOp) (e : Expr) (targetPos opPos : Pos)
  | each (name : String) (range body : Expr) (rangePos bodyPos : Pos)
  | forever (body : Expr) (bodyPos : Pos)
  | throw (e : Option Expr) (pos : Pos)

end

instance : Inhabited Expr := ⟨.literal .unit⟩

/-- A function of a program. -/
structure Function where
  name : String
  params : List String
  body : Expr

/-- A program. -/
structure Program where
  functions : List Function
  body : List Stmt

/-! ### Reading -/

/-- Why a text is no program, and where. -/
structure ParseFailure where
  message : String
  pos : Pos
deriving DecidableEq

/-- A reader of tokens. -/
abbrev Parse (α : Type) := StateT (List Located) (Except ParseFailure) α

namespace Parse

/-- The next token. -/
def peek : Parse Located := do
  match ← get with
  | t :: _ => return t
  | [] => return ⟨.finish, .start⟩

/-- Go on to the next token. -/
def skip : Parse Unit := modify fun ts => ts.drop 1

/-- Fail at the next token; a malformed one has its own message. -/
def refuse {α : Type} (message : String) : Parse α := do
  let t ← peek
  match t.token with
  | .malformed own => throw ⟨own, t.pos⟩
  | _ => throw ⟨message, t.pos⟩

/-- Take a symbol if it comes next. -/
def accept (s : String) : Parse Bool := do
  let t ← peek
  if t.token = .symbol s then
    skip
    return true
  else return false

/-- Take a symbol that has to come next. -/
def expect (s purpose : String) : Parse Unit := do
  if ← accept s then return
  else refuse ("Expecting '" ++ s ++ "' " ++ purpose)

/-- The text of a token in messages. -/
def tokenText : Token → String
  | .symbol s => s
  | .name s => s
  | .int n => intText n
  | .text s => s
  | .char c => c.toString
  | _ => ""

/-- Fail at a token that can start nothing here. -/
def unexpected {α : Type} : Parse α := do
  let t ← peek
  match t.token with
  | .finish => refuse "Script is incomplete"
  | token => refuse ("Unexpected '" ++ tokenText token ++ "'")

/-- A name, with a message for when there is none. -/
def variableName : Parse String := do
  let t ← peek
  match t.token with
  | .name s =>
    skip
    return s
  | _ => refuse "Expecting name of a variable"

/-- The operators between two expressions and how tightly they bind. -/
inductive Operator where
  | either | both | range
  | op (o : BinaryOp)

def operatorTable : List (String × Nat × Operator) := [
  ("||", 1, .either), ("&&", 2, .both), ("==", 3, .op .eq), ("!=", 3, .op .ne),
  ("<", 4, .op .lt), ("<=", 4, .op .le), (">", 4, .op .gt), (">=", 4, .op .ge),
  ("..", 5, .range), ("+", 6, .op .add), ("-", 6, .op .sub), ("*", 7, .op .mul),
  ("/", 7, .op .div), ("%", 7, .op .rem)]

/-- The operator of a token. -/
def operator? : Token → Option (Nat × Operator)
  | .symbol s => operatorTable.findSome? fun r => if r.1 = s then some r.2 else none
  | _ => none

/-- An expression made by an operator. -/
def Operator.apply (i : Operator) (a b : Expr) (posA pos posB : Pos) : Expr :=
  match i with
  | .either => .either a b posA posB
  | .both => .both a b posA posB
  | .range => .range a b pos
  | .op o => .binary o a b pos

/-- The operators of assignments. -/
def assignOps : List (String × Option BinaryOp) :=
  [("=", none), ("+=", some .add), ("-=", some .sub), ("*=", some .mul), ("/=", some .div),
    ("%=", some .rem)]

/-- Whether a value can be assigned to an expression. -/
def isTarget : Expr → Bool
  | .variable _ _ => true
  | .property e _ _ => isTarget e
  | .index e _ _ => isTarget e
  | _ => false

/-- Whether a statement ends without a semicolon. -/
def endsItself : Stmt → Bool
  | .each _ _ _ _ _ => true
  | .forever _ _ => true
  | .value (.branch _ _ _ _) _ => true
  | .value (.block _) _ => true
  | _ => false

mutual

/-- An expression whose operators bind at least as tightly as given. -/
def expr : Nat → Nat → Parse Expr
  | 0, _ => unexpected
  | fuel + 1, level => do
    let start ← peek
    let a ← unary fuel
    operators fuel level start.pos a

/-- The operators and operands behind an expression. -/
def operators : Nat → Nat → Pos → Expr → Parse Expr
  | 0, _, _, a => return a
  | fuel + 1, level, start, a => do
    let t ← peek
    match operator? t.token with
    | none => return a
    | some (own, i) =>
      if own < level then return a
      else
        skip
        let second ← peek
        let b ← expr fuel (own + 1)
        operators fuel level start (i.apply a b start t.pos second.pos)

/-- An expression with signs in front. -/
def unary : Nat → Parse Expr
  | 0 => unexpected
  | fuel + 1 => do
    let t ← peek
    match t.token with
    | .symbol "-" =>
      skip
      match ← unary fuel with
      | .literal (.int n) => return .literal (.int (-n))
      | .literal (.float x) => return .literal (.float (-x))
      | e => return .unary .neg e t.pos
    | .symbol "+" =>
      skip
      return .unary .plus (← unary fuel) t.pos
    | .symbol "!" =>
      skip
      return .unary .not (← unary fuel) t.pos
    | _ =>
      let e ← primary fuel
      suffixes fuel e

/-- The properties, indices and methods behind an expression. -/
def suffixes : Nat → Expr → Parse Expr
  | 0, e => return e
  | fuel + 1, e => do
    let t ← peek
    match t.token with
    | .symbol "." =>
      skip
      let word ← peek
      match word.token with
      | .name name =>
        skip
        if ← accept "(" then
          let args ← arguments fuel name
          suffixes fuel (.method e name args word.pos)
        else suffixes fuel (.property e name word.pos)
      | _ => refuse "Expecting name of a property"
    | .symbol "[" =>
      skip
      let at_ ← peek
      let i ← expr fuel 0
      expect "]" "for a matching [ in this index expression"
      suffixes fuel (.index e i at_.pos)
    | _ => return e

/-- The arguments of a call, after its opening bracket. -/
def arguments : Nat → String → Parse (List Expr)
  | 0, _ => unexpected
  | fuel + 1, name => do
    let closing := "to close the arguments list of this function call '" ++ name ++ "'"
    if ← accept ")" then return []
    else
      let a ← expr fuel 0
      if ← accept "," then return a :: (← arguments fuel name)
      else if ← accept ")" then return [a]
      else if (← peek).token = .finish then refuse ("Expecting ')' " ++ closing)
      else refuse ("Expecting ',' to separate the arguments to function call '" ++ name ++ "'")

/-- An expression without operators. -/
def primary : Nat → Parse Expr
  | 0 => unexpected
  | fuel + 1 => do
    let t ← peek
    match t.token with
    | .int n => skip; return .literal (.int n)
    | .float x => skip; return .literal (.float x)
    | .text s => skip; return .literal (.text s)
    | .char c => skip; return .literal (.char c)
    | .piece _ => return .joined (← pieces fuel)
    | .lastPiece _ => return .joined (← pieces fuel)
    | .name name =>
      skip
      if ← accept "(" then return .call name (← arguments fuel name) t.pos
      else return .variable name t.pos
    | .symbol "true" => skip; return .literal (.bool true)
    | .symbol "false" => skip; return .literal (.bool false)
    | .symbol "(" =>
      skip
      if ← accept ")" then return .literal .unit
      else
        let e ← expr fuel 0
        expect ")" "for a matching ( in this expression"
        return e
    | .symbol "[" => skip; return .list (← items fuel)
    | .symbol "#\x7b" => skip; return .map (← fields fuel)
    | .symbol "\x7b" => block fuel
    | .symbol "if" => branch fuel
    | _ => unexpected

/-- The pieces of text in back quotes and the code between them. -/
def pieces : Nat → Parse (List Expr)
  | 0 => unexpected
  | fuel + 1 => do
    match (← peek).token with
    | .piece s =>
      skip
      let body ← statements fuel
      expect "\x7d" "to terminate this block"
      return .literal (.text s) :: .block body :: (← pieces fuel)
    | .lastPiece s => skip; return [.literal (.text s)]
    | _ => unexpected

/-- The items of a list, after its opening bracket. -/
def items : Nat → Parse (List Expr)
  | 0 => unexpected
  | fuel + 1 => do
    if ← accept "]" then return []
    else if (← peek).token = .finish then refuse "Expecting ']' to end this array literal"
    else
      let a ← expr fuel 0
      if ← accept "," then return a :: (← items fuel)
      else if ← accept "]" then return [a]
      else if (← peek).token = .finish then refuse "Expecting ']' to end this array literal"
      else refuse "Expecting ',' to separate the items of this array literal"

/-- The fields of a map, after its opening brace. -/
def fields : Nat → Parse (List (String × Expr))
  | 0 => unexpected
  | fuel + 1 => do
    if ← accept "\x7d" then return []
    else
      let t ← peek
      let name ← match t.token with
        | .name s => pure s
        | .text s => pure s
        | .finish => refuse "Expecting '\x7d' to end this object map literal"
        | _ => refuse "Expecting name of a property"
      skip
      expect ":" ("to follow the property '" ++ name ++ "' in this object map literal")
      let e ← expr fuel 0
      if ← accept "," then return (name, e) :: (← fields fuel)
      else if ← accept "\x7d" then return [(name, e)]
      else if (← peek).token = .finish then refuse "Expecting '\x7d' to end this object map literal"
      else refuse "Expecting ',' to separate the items of this object map literal"

/-- Statements between braces. -/
def block : Nat → Parse Expr
  | 0 => unexpected
  | fuel + 1 => do
    expect "\x7b" "to start a statement block"
    let body ← statements fuel
    expect "\x7d" "to terminate this block"
    return .block body

/-- An `if` with its branches. -/
def branch : Nat → Parse Expr
  | 0 => unexpected
  | fuel + 1 => do
    skip
    let start ← peek
    let test ← expr fuel 0
    let yes ← block fuel
    if ← accept "else" then
      if (← peek).token = .symbol "if" then
        return .branch test start.pos yes (← branch fuel)
      else return .branch test start.pos yes (← block fuel)
    else return .branch test start.pos yes (.literal .unit)

/-- One statement. -/
def statement : Nat → Parse Stmt
  | 0 => unexpected
  | fuel + 1 => do
    let t ← peek
    match t.token with
    | .symbol "let" =>
      skip
      let name ← variableName
      if ← accept "=" then return .bind name (some (← expr fuel 0)) t.pos
      else return .bind name none t.pos
    | .symbol "for" =>
      skip
      let name ← variableName
      expect "in" "after the iteration variable"
      let start ← peek
      let range ← expr fuel 0
      let bodyPos := (← peek).pos
      return .each name range (← block fuel) start.pos bodyPos
    | .symbol "loop" =>
      skip
      let bodyPos := (← peek).pos
      return .forever (← block fuel) bodyPos
    | .symbol "throw" =>
      skip
      let next ← peek
      if next.token = .finish ∨ next.token = .symbol ";" ∨ next.token = .symbol "\x7d" then
        return .throw none t.pos
      else return .throw (some (← expr fuel 0)) t.pos
    | .symbol "fn" =>
      throw ⟨"Function definitions must be at global level and cannot be inside a block or " ++
        "another function", t.pos⟩
    | .symbol "\x7b" => return .value (← block fuel) t.pos
    | .symbol "if" => return .value (← branch fuel) t.pos
    | _ =>
      let target ← expr fuel 0
      let next ← peek
      match (match next.token with | .symbol s => Entries.lookup s assignOps | _ => none) with
      | none => return .value target t.pos
      | some op =>
        if isTarget target then
          skip
          return .assign target op (← expr fuel 0) t.pos next.pos
        else throw ⟨"Expression cannot be assigned to", t.pos⟩

/-- The statements of a block, up to its closing brace. -/
def statements : Nat → Parse (List Stmt)
  | 0 => return []
  | fuel + 1 => do
    let t ← peek
    if t.token = .symbol "\x7d" then return []
    else if t.token = .finish then refuse "Expecting '\x7d' to terminate this block"
    else if ← accept ";" then statements fuel
    else
      let s ← statement fuel
      if (← peek).token = .symbol "\x7d" then return [s]
      else if (← accept ";") || endsItself s then return s :: (← statements fuel)
      else refuse "Expecting ';' to terminate this statement"

end

/-- The names of the parameters of a function, after the opening bracket. -/
def params : Nat → String → Parse (List String)
  | 0, _ => unexpected
  | fuel + 1, name => do
    if ← accept ")" then return []
    else
      let t ← peek
      match t.token with
      | .name p =>
        skip
        if ← accept "," then return p :: (← params fuel name)
        else if ← accept ")" then return [p]
        else refuse ("Expecting ',' to separate the parameters of function '" ++ name ++ "'")
      | _ => refuse ("Expecting ')' to close the parameters list of function '" ++ name ++ "'")

/-- A function, after its keyword. -/
def function (fuel : Nat) : Parse Function := do
  match (← peek).token with
  | .name name =>
    skip
    if ← accept "(" then
      let ps ← params fuel name
      if (← peek).token = .symbol "\x7b" then return ⟨name, ps, ← block fuel⟩
      else refuse ("Expecting body statement block for function '" ++ name ++ "'")
    else refuse ("Expecting parameters list for function '" ++ name ++ "'")
  | _ => refuse "Expecting function name in function declaration"

/-- The functions and statements of a whole text. -/
def program : Nat → Parse Program
  | 0 => return ⟨[], []⟩
  | fuel + 1 => do
    let t ← peek
    if t.token = .finish then return ⟨[], []⟩
    else if ← accept ";" then program fuel
    else if ← accept "fn" then
      let f ← function fuel
      let rest ← program fuel
      return { rest with functions := f :: rest.functions }
    else
      let s ← statement fuel
      let next ← peek
      if next.token = .finish then return ⟨[], [s]⟩
      else if (← accept ";") || endsItself s then
        let rest ← program fuel
        return { rest with body := s :: rest.body }
      else refuse "Expecting ';' to terminate this statement"

end Parse

/-- Read a text as a program. No reader calls more than ten others before it takes a
token, which bounds how deep they nest. -/
def parse (text : String) : Except ParseFailure Program :=
  let ts := tokens text
  ((Parse.program (10 * ts.length + 10)).run ts).map (·.1)

end AppBuilder.Script
