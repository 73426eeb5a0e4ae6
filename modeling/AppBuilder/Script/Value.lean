import AppBuilder.Script.Program
import AppBuilder.Json.Basic
import AppBuilder.Text.Case

/-!
Values of scripts.

A value is a JSON value with two kinds of its own, single characters and ranges.
`Value.ofJson` and `Value.toJson` go between the two: whole numbers beyond the range of
scripts become floating-point numbers, characters become texts, and what JSON cannot
hold becomes null.
-/

namespace AppBuilder.Script

/-- A value of a script. The fields of a map are in order of their names. -/
inductive Value where
  | unit
  | bool (b : Bool)
  | int (n : Int)
  | float (x : Float)
  | char (c : Char)
  | text (s : String)
  | list (items : List Value)
  | map (fields : List (String × Value))
  | range (first last : Int)
deriving Inhabited

namespace Value

/-! ### From and to JSON -/

mutual

/-- The value of a JSON value. -/
def ofJson : Json → Value
  | .null => .unit
  | .bool b => .bool b
  | .number (.int n) => if minInt ≤ n ∧ n ≤ maxInt then .int n else .float (Float.ofInt n)
  | .number (.real x) => .float x
  | .string s => .text s
  | .array xs => .list (ofItems xs)
  | .object fs => .map (ofFields fs)

/-- `ofJson` on a list of values. -/
def ofItems : List Json → List Value
  | [] => []
  | x :: xs => ofJson x :: ofItems xs

/-- `ofJson` on a list of fields. -/
def ofFields : List (String × Json) → List (String × Value)
  | [] => []
  | (k, x) :: xs => (k, ofJson x) :: ofFields xs

end

mutual

/-- A value as JSON. -/
def toJson : Value → Json
  | .unit => .null
  | .bool b => .bool b
  | .int n => .int n
  | .float x => .real x
  | .char c => .string c.toString
  | .text s => .string s
  | .list xs => .array (toItems xs)
  | .map fs => .object (toFields fs)
  | .range _ _ => .null

/-- `toJson` on a list of values. -/
def toItems : List Value → List Json
  | [] => []
  | x :: xs => toJson x :: toItems xs

/-- `toJson` on a list of fields. -/
def toFields : List (String × Value) → List (String × Json)
  | [] => []
  | (k, x) :: xs => (k, toJson x) :: toFields xs

end

/-- The value of a constant. -/
def ofLiteral : Literal → Value
  | .unit => .unit
  | .bool b => .bool b
  | .int n => .int n
  | .float x => .float x
  | .text s => .text s
  | .char c => .char c

/-! ### Names of types -/

/-- The type of a value in messages about properties and indices. -/
def typeName : Value → String
  | .unit => "()"
  | .bool _ => "bool"
  | .int _ => "i64"
  | .float _ => "f64"
  | .char _ => "char"
  | .text _ => "string"
  | .list _ => "array"
  | .map _ => "map"
  | .range _ _ => "range"

/-- The type of a value in messages about functions. -/
def argumentType : Value → String
  | .text _ => "&str | ImmutableString | String"
  | v => v.typeName

/-! ### Text -/

/-- A floating-point number in text: positional from `1e-13` to `1e13`, whole ones with
`.0`. -/
def floatValueText (x : Float) : String :=
  if isZero x then "0.0"
  else if x.abs > 1e13 || x.abs < 1e-13 then floatText ⟨some (1, 0), false, false⟩ x
  else floatText ⟨none, true, false⟩ x

/-- A character inside a quoted text of a list or map. -/
def quotedChar (c : Char) : List Char :=
  if c = '"' then ['\\', '"']
  else if c = '\\' then ['\\', '\\']
  else if c = '\n' then ['\\', 'n']
  else if c = '\r' then ['\\', 'r']
  else if c = '\t' then ['\\', 't']
  else [c]

mutual

/-- A value inside the text of a list or map. -/
def innerText : Value → String
  | .text s => "\"" ++ String.ofList (s.toList.flatMap quotedChar) ++ "\""
  | .char c => "'" ++ c.toString ++ "'"
  | .unit => "()"
  | .bool b => if b then "true" else "false"
  | .int n => intText n
  | .float x => floatValueText x
  | .list xs => "[" ++ ", ".intercalate (innerItems xs) ++ "]"
  | .map fs => "#\x7b" ++ ", ".intercalate (innerFields fs) ++ "\x7d"
  | .range a b => intText a ++ ".." ++ intText b

/-- `innerText` on a list of values. -/
def innerItems : List Value → List String
  | [] => []
  | x :: xs => innerText x :: innerItems xs

/-- `innerText` on a list of fields. -/
def innerFields : List (String × Value) → List String
  | [] => []
  | (k, x) :: xs =>
    ("\"" ++ String.ofList (k.toList.flatMap quotedChar) ++ "\": " ++ innerText x) ::
      innerFields xs

end

/-- A value joined to a text. -/
def display : Value → String
  | .text s => s
  | .char c => c.toString
  | .unit => ""
  | v => v.innerText

/-- The text of a text or character. -/
def asText? : Value → Option String
  | .text s => some s
  | .char c => some c.toString
  | _ => none

/-- The number of a number. -/
def asFloat? : Value → Option Float
  | .int n => some (Float.ofInt n)
  | .float x => some x
  | _ => none

/-! ### Equality -/

mutual

/-- Whether two values are equal; a whole number may equal a floating-point one and a
character a text, values of other different types are unequal. -/
def equal : Value → Value → Bool
  | .unit, .unit => true
  | .bool a, .bool b => a = b
  | .int m, .int n => m = n
  | .int m, .float y => Float.ofInt m == y
  | .float x, .int n => x == Float.ofInt n
  | .float x, .float y => x == y
  | .char c, .char d => c = d
  | .char c, .text t => c.toString = t
  | .text s, .char d => s = d.toString
  | .text s, .text t => s = t
  | .list xs, .list ys => equalItems xs ys
  | .map fs, .map gs => equalFields fs gs
  | .range a b, .range c d => a = c && b = d
  | _, _ => false

/-- `equal` on lists of values. -/
def equalItems : List Value → List Value → Bool
  | [], [] => true
  | x :: xs, y :: ys => equal x y && equalItems xs ys
  | _, _ => false

/-- `equal` on lists of fields. -/
def equalFields : List (String × Value) → List (String × Value) → Bool
  | [], [] => true
  | (k, x) :: xs, (l, y) :: ys => k = l && equal x y && equalFields xs ys
  | _, _ => false

end

end Value

/-! ### Operators -/

/-- What comes of an operation. -/
inductive Outcome where
  | value (v : Value)
  /-- No such operation on these types. -/
  | unsupported
  | failure (message : String)

namespace BinaryOp

def symbol : BinaryOp → String
  | add => "+" | sub => "-" | mul => "*" | div => "/" | rem => "%"
  | eq => "==" | ne => "!=" | lt => "<" | le => "<=" | gt => ">" | ge => ">="

/-- Whether an operator compares, and what it says for a given order. -/
def compares? : BinaryOp → Option (Ordering → Bool)
  | lt => some (· = .lt)
  | le => some (· ≠ .gt)
  | gt => some (· = .gt)
  | ge => some (· ≠ .lt)
  | _ => none

/-- A whole number in range, or a failure that names the operation. -/
def inRange (name : String) (o : BinaryOp) (a b result : Int) : Outcome :=
  if minInt ≤ result ∧ result ≤ maxInt then .value (.int result)
  else .failure (name ++ ": " ++ intText a ++ " " ++ o.symbol ++ " " ++ intText b)

/-- Arithmetic on whole numbers; division goes towards zero. -/
def onInts (o : BinaryOp) (a b : Int) : Outcome :=
  let text := intText a ++ " " ++ o.symbol ++ " " ++ intText b
  match o with
  | add => inRange "Addition overflow" o a b (a + b)
  | sub => inRange "Subtraction overflow" o a b (a - b)
  | mul => inRange "Multiplication overflow" o a b (a * b)
  | div =>
    if b = 0 then .failure ("Division by zero: " ++ text)
    else inRange "Division overflow" o a b (a.tdiv b)
  | rem =>
    if b = 0 ∨ (a = minInt ∧ b = -1) then
      .failure ("Modulo division by zero or overflow: " ++ text)
    else .value (.int (a.tmod b))
  | _ => .unsupported

/-- The remainder of two floating-point numbers, with the sign of the first. -/
def floatRem (x y : Float) : Float :=
  match Dyadic.ofFloat? x, Dyadic.ofFloat? y with
  | some a, some b =>
    if b.significand = 0 then 0 / 0
    else
      let e := min a.exponent b.exponent
      let m := a.significand * twoTo (a.exponent - e).toNat
      let n := b.significand * twoTo (b.exponent - e).toNat
      let r := Float.scaleB (Float.ofNat (m % n)) e
      if a.negative then -r else r
  | some _, none => if y.isInf then x else 0 / 0
  | none, _ => 0 / 0

/-- Arithmetic on floating-point numbers. -/
def onFloats (o : BinaryOp) (x y : Float) : Outcome :=
  match o with
  | add => .value (.float (x + y))
  | sub => .value (.float (x - y))
  | mul => .value (.float (x * y))
  | div => .value (.float (x / y))
  | rem => .value (.float (floatRem x y))
  | lt => .value (.bool (x < y))
  | le => .value (.bool (x ≤ y))
  | gt => .value (.bool (y < x))
  | ge => .value (.bool (y ≤ x))
  | _ => .unsupported

/-- The rest of a comparison or sum of values that are not both numbers. -/
def onOthers (o : BinaryOp) (a b : Value) : Outcome :=
  match o.compares? with
  | some holds =>
    match a, b with
    | .unit, .unit => .value (.bool (holds .eq))
    | a, b =>
      match a.asText?, b.asText? with
      | some s, some t => .value (.bool (holds (compare s t)))
      | _, _ => if a.typeName = b.typeName then .unsupported else .value (.bool false)
  | none =>
    match o, a, b with
    | .add, .list xs, .list ys => .value (.list (xs ++ ys))
    | .add, .map fs, .map gs =>
      .value (.map (gs.foldl (fun fs g => Entries.insert g.1 g.2 fs) fs))
    | .add, a, b =>
      if a.asText?.isSome || b.asText?.isSome then .value (.text (a.display ++ b.display))
      else .unsupported
    | _, _, _ => .unsupported

/-- The value of an operator on two values. -/
def apply (o : BinaryOp) (a b : Value) : Outcome :=
  match o with
  | .eq => .value (.bool (a.equal b))
  | .ne => .value (.bool !(a.equal b))
  | o =>
    match a, b with
    | .int m, .int n =>
      match o.compares? with
      | some holds => .value (.bool (holds (compare m n)))
      | none => o.onInts m n
    | a, b =>
      match a.asFloat?, b.asFloat? with
      | some x, some y => o.onFloats x y
      | _, _ => o.onOthers a b

end BinaryOp

namespace UnaryOp

def symbol : UnaryOp → String
  | neg => "-" | plus => "+" | not => "!"

/-- The value of an operator on one value. -/
def apply (o : UnaryOp) (a : Value) : Outcome :=
  match o, a with
  | .neg, .int n =>
    if n = minInt then .failure "integer overflow" else .value (.int (-n))
  | .neg, .float x => .value (.float (-x))
  | .plus, .int n => .value (.int n)
  | .plus, .float x => .value (.float x)
  | .not, .bool b => .value (.bool !b)
  | _, _ => .unsupported

end UnaryOp

/-! ### Properties and indices -/

/-- The last part of a message about an index out of bounds. -/
def boundsText (size : Nat) (what : String) : String :=
  if size = 1 then "only 1 " ++ what
  else "only " ++ digitsText size ++ " " ++ what ++ "s"

/-- The place of an index; a negative one counts from the end. -/
def place? (size : Nat) (i : Int) : Option Nat :=
  let j := if i < 0 then i + size else i
  if 0 ≤ j ∧ j < size then some j.toNat else none

/-- A property of a value. -/
def Value.property (v : Value) (name : String) : Outcome :=
  match v, name with
  | .map fs, name => .value ((Entries.lookup name fs).getD .unit)
  | .list xs, "len" => .value (.int xs.length)
  | .list xs, "is_empty" => .value (.bool xs.isEmpty)
  | .text s, "len" => .value (.int s.length)
  | .text s, "is_empty" => .value (.bool s.isEmpty)
  | v, name =>
    .failure ("Unknown property '" ++ name ++ "' - a getter is not registered for type '" ++
      v.typeName ++ "'")

/-- An item of a value. -/
def Value.item (v i : Value) : Outcome :=
  match v, i with
  | .list xs, .int i =>
    match place? xs.length i with
    | some j => .value (xs.getD j .unit)
    | none =>
      .failure ("Array index " ++ intText i ++ " out of bounds: " ++
        if xs.isEmpty then "array is empty" else boundsText xs.length "element" ++ " in array")
  | .text s, .int i =>
    match place? s.length i with
    | some j => .value ((s.toList[j]?.map Value.char).getD .unit)
    | none =>
      .failure ("String index " ++ intText i ++ " out of bounds: " ++
        if s.isEmpty then "string is empty" else boundsText s.length "character" ++ " in string")
  | .map fs, .text k => .value ((Entries.lookup k fs).getD .unit)
  | .list _, i => .failure ("Data type incorrect: " ++ i.typeName ++ " (expecting i64)")
  | .text _, i => .failure ("Data type incorrect: " ++ i.typeName ++ " (expecting i64)")
  | .map _, i => .failure ("Data type incorrect: " ++ i.typeName ++ " (expecting string)")
  | v, i => .failure ("Indexer unavailable: " ++ v.typeName ++ " [" ++ i.typeName ++ "]")

/-- Replace an item of a value. -/
def Value.setItem (v i new : Value) : Outcome :=
  match v, i with
  | .map fs, .text k => .value (.map (Entries.insert k new fs))
  | .list xs, .int n =>
    match place? xs.length n with
    | some j => .value (.list (xs.set j new))
    | none => v.item i
  | v, i =>
    match v.item i with
    | .failure m => .failure m
    | _ => .unsupported

/-! ### Functions -/

/-- The value of a function that every program has. Those that change their first
argument are not among them. -/
def libraryCall (name : String) (args : List Value) : Outcome :=
  match name, args with
  | "len", [.list xs] => .value (.int xs.length)
  | "len", [.text s] => .value (.int s.length)
  | "len", [.map fs] => .value (.int fs.length)
  | "is_empty", [.list xs] => .value (.bool xs.isEmpty)
  | "is_empty", [.text s] => .value (.bool s.isEmpty)
  | "is_empty", [.map fs] => .value (.bool fs.isEmpty)
  | "to_upper", [.text s] => .value (.text (upperText s))
  | "to_lower", [.text s] => .value (.text (lowerText s))
  | "to_string", [v] => .value (.text v.display)
  | "contains", [.list xs, v] => .value (.bool (xs.any fun x => x.equal v))
  | "contains", [.map fs, .text k] => .value (.bool (Entries.lookup k fs).isSome)
  | "contains", [.text s, v] =>
    match v.asText? with
    | some t => .value (.bool ((List.range (s.length + 1)).any fun i =>
        t.toList.isPrefixOf (s.toList.drop i)))
    | none => .unsupported
  | _, _ => .unsupported

/-- The message for a function that there is not. -/
def missingFunction (name : String) (args : List Value) : String :=
  "Function not found: " ++ name ++ " (" ++ ", ".intercalate (args.map Value.argumentType) ++ ")"

end AppBuilder.Script
