import AppBuilder.Json.Parser
import AppBuilder.Number.Decimal

/-!
Reading TOML documents.

`Toml.parse?` reads a document into a JSON object: tables become objects, and an
infinity or a number that is none stays a floating-point number. A key or table that is
defined twice is refused: a header defines its table once, dotted keys may only extend
tables that dotted keys began, and inline tables are closed.
-/

namespace AppBuilder.Toml

/-! ### Tables under construction -/

/-- How a table came about. -/
inductive Origin where
  /-- As the parent of a table with a header. -/
  | implied
  /-- By its own header. -/
  | header
  /-- By dotted keys. -/
  | dotted
deriving DecidableEq, Repr

/-- A part of a document: a finished value, a table or a list of tables. -/
inductive Item where
  | value (j : Json)
  | table (origin : Origin) (entries : List (String × Item))
  | tables (items : List (List (String × Item)))

/-- The entries of a table. -/
abbrev Entries := List (String × Item)

/-- The item under a key. -/
def find? (key : String) : Entries → Option Item
  | [] => none
  | (k, i) :: rest => if k = key then some i else find? key rest

/-- Replace the item under a key or append it. -/
def put (key : String) (item : Item) : Entries → Entries
  | [] => [(key, item)]
  | (k, i) :: rest => if k = key then (key, item) :: rest else (k, i) :: put key item rest

/-- Set a value under a dotted key. -/
def setValue (j : Json) : List String → Entries → Option Entries
  | [], _ => none
  | [key], es => match find? key es with
    | none => some (put key (.value j) es)
    | some _ => none
  | key :: path, es => match find? key es with
    | none => (setValue j path []).map fun sub => put key (.table .dotted sub) es
    | some (.table .dotted sub) =>
      (setValue j path sub).map fun sub => put key (.table .dotted sub) es
    | some _ => none

/-- Define the table of a header. -/
def defineTable : List String → Entries → Option Entries
  | [], _ => none
  | [key], es => match find? key es with
    | none => some (put key (.table .header []) es)
    | some (.table .implied sub) => some (put key (.table .header sub) es)
    | some _ => none
  | key :: path, es => match find? key es with
    | none => (defineTable path []).map fun sub => put key (.table .implied sub) es
    | some (.table origin sub) =>
      (defineTable path sub).map fun sub => put key (.table origin sub) es
    | some (.tables items) => match items.getLast? with
      | some sub =>
        (defineTable path sub).map fun sub => put key (.tables (items.dropLast ++ [sub])) es
      | none => none
    | some (.value _) => none

/-- Append a table to the list of tables of a header. -/
def appendTable : List String → Entries → Option Entries
  | [], _ => none
  | [key], es => match find? key es with
    | none => some (put key (.tables [[]]) es)
    | some (.tables items) => some (put key (.tables (items ++ [[]])) es)
    | some _ => none
  | key :: path, es => match find? key es with
    | none => (appendTable path []).map fun sub => put key (.table .implied sub) es
    | some (.table origin sub) =>
      (appendTable path sub).map fun sub => put key (.table origin sub) es
    | some (.tables items) => match items.getLast? with
      | some sub =>
        (appendTable path sub).map fun sub => put key (.tables (items.dropLast ++ [sub])) es
      | none => none
    | some (.value _) => none

/-- Set a value under a dotted key inside the table of a header. -/
def setUnder (j : Json) (key : List String) : List String → Entries → Option Entries
  | [], es => setValue j key es
  | k :: header, es => match find? k es with
    | some (.table origin sub) =>
      (setUnder j key header sub).map fun sub => put k (.table origin sub) es
    | some (.tables items) => match items.getLast? with
      | some sub =>
        (setUnder j key header sub).map fun sub => put k (.tables (items.dropLast ++ [sub])) es
      | none => none
    | _ => none

mutual

/-- The JSON value of an item. -/
def Item.toJson : Item → Json
  | .value j => j
  | .table _ es => .object (entriesToJson es)
  | .tables items => .array (itemsToJson items)

/-- The fields of a table. -/
def entriesToJson : List (String × Item) → List (String × Json)
  | [] => []
  | (k, i) :: rest => (k, i.toJson) :: entriesToJson rest

/-- The values of a list of tables. -/
def itemsToJson : List (List (String × Item)) → List Json
  | [] => []
  | es :: rest => .object (entriesToJson es) :: itemsToJson rest

end

/-! ### Blanks, comments and line ends -/

/-- Drop blanks within a line. -/
def skipSpaces : List Char → List Char := List.dropWhile fun c => c = ' ' || c = '\t'

/-- Whether a character may not stand in a comment or string. -/
def isControl (c : Char) : Bool := (c.toNat < 0x20 && c ≠ '\t') || c.toNat = 0x7F

/-- Drop a comment up to the end of its line. -/
def skipComment (cs : List Char) : List Char :=
  match cs with
  | '#' :: rest => rest.dropWhile fun c => !isControl c
  | cs => cs

/-- What follows the end of a line, which may hold blanks and a comment. -/
def afterLine? (cs : List Char) : Option (List Char) :=
  match skipComment (skipSpaces cs) with
  | [] => some []
  | '\n' :: rest => some rest
  | '\r' :: '\n' :: rest => some rest
  | _ => none

/-- Drop blanks, comments and line ends. -/
def skipLines : Nat → List Char → List Char
  | 0, cs => cs
  | fuel + 1, cs =>
    match skipComment (skipSpaces cs) with
    | '\n' :: rest => skipLines fuel rest
    | '\r' :: '\n' :: rest => skipLines fuel rest
    | rest => rest

/-! ### Strings and keys -/

/-- The character of `n` hexadecimal digits. -/
def hexChar? (n : Nat) (cs : List Char) : Option (Char × List Char) := do
  if cs.length < n then none
  let ds ← (cs.take n).mapM Json.hexDigit?
  let code := ds.foldl (fun a d => a * 16 + d) 0
  if code.isValidChar then return (Char.ofNat code, cs.drop n) else none

/-- The character of an escape, after its backslash. -/
def escape? : List Char → Option (Char × List Char)
  | 'b' :: cs => some ('\x08', cs)
  | 't' :: cs => some ('\t', cs)
  | 'n' :: cs => some ('\n', cs)
  | 'f' :: cs => some ('\x0c', cs)
  | 'r' :: cs => some ('\r', cs)
  | 'e' :: cs => some ('\x1b', cs)
  | '"' :: cs => some ('"', cs)
  | '\\' :: cs => some ('\\', cs)
  | 'x' :: cs => hexChar? 2 cs
  | 'u' :: cs => hexChar? 4 cs
  | 'U' :: cs => hexChar? 8 cs
  | _ => none

/-- Drop white space and line ends after a backslash at the end of a line. -/
def afterFold? (cs : List Char) : Option (List Char) :=
  match skipSpaces cs with
  | '\n' :: rest => some (rest.dropWhile fun c => c = ' ' || c = '\t' || c = '\n' || c = '\r')
  | '\r' :: '\n' :: rest =>
    some (rest.dropWhile fun c => c = ' ' || c = '\t' || c = '\n' || c = '\r')
  | _ => none

/-- Read the rest of a string on one line. `acc` holds the characters read, last first. -/
def stringTail (quote : Char) : Nat → List Char → List Char → Option (String × List Char)
  | 0, _, _ => none
  | _ + 1, _, [] => none
  | fuel + 1, acc, c :: cs =>
    if c = quote then some (String.ofList acc.reverse, cs)
    else if isControl c then none
    else if c = '\\' ∧ quote = '"' then
      match escape? cs with
      | some (d, rest) => stringTail quote fuel (d :: acc) rest
      | none => none
    else stringTail quote fuel (c :: acc) cs

/-- Read the rest of a string over several lines, which ends with three quotes; up to
two more quotes before them belong to it. -/
def longTail (quote : Char) : Nat → List Char → List Char → Option (String × List Char)
  | 0, _, _ => none
  | _ + 1, _, [] => none
  | fuel + 1, acc, c :: cs =>
    if c = quote then
      let more := cs.takeWhile (· = quote)
      if more.length < 2 then longTail quote fuel (c :: acc) cs
      else if 4 < more.length then none
      else some (String.ofList (acc.reverse ++ more.drop 2), cs.drop more.length)
    else if c = '\\' ∧ quote = '"' then
      match escape? cs with
      | some (d, rest) => longTail quote fuel (d :: acc) rest
      | none =>
        match afterFold? cs with
        | some rest => longTail quote fuel acc rest
        | none => none
    else if c = '\r' ∧ cs.head? = some '\n' then longTail quote fuel acc cs
    else if isControl c ∧ c ≠ '\n' then none
    else longTail quote fuel (c :: acc) cs

/-- Drop the line end right after the opening of a long string. -/
def skipFirstLineEnd : List Char → List Char
  | '\n' :: cs => cs
  | '\r' :: '\n' :: cs => cs
  | cs => cs

/-- Read a string of either quote. -/
def parseString (cs : List Char) : Option (String × List Char) :=
  let fuel := cs.length + 1
  match cs with
  | '"' :: '"' :: '"' :: cs => longTail '"' fuel [] (skipFirstLineEnd cs)
  | '"' :: cs => stringTail '"' fuel [] cs
  | '\x27' :: '\x27' :: '\x27' :: cs => longTail '\x27' fuel [] (skipFirstLineEnd cs)
  | '\x27' :: cs => stringTail '\x27' fuel [] cs
  | _ => none

/-- Whether a character may stand in a bare key. -/
def isBareKeyChar (c : Char) : Bool := c.isAlphanum || c = '_' || c = '-'

/-- Read one part of a key. -/
def parseKeyPart (cs : List Char) : Option (String × List Char) :=
  match cs with
  | '"' :: cs => stringTail '"' (cs.length + 1) [] cs
  | '\x27' :: cs => stringTail '\x27' (cs.length + 1) [] cs
  | cs =>
    let name := cs.takeWhile isBareKeyChar
    if name.isEmpty then none else some (String.ofList name, cs.dropWhile isBareKeyChar)

/-- Read a key of parts joined by dots, which may have blanks around them. -/
def parseKey : Nat → List Char → Option (List String × List Char)
  | 0, _ => none
  | fuel + 1, cs => do
    let (part, rest) ← parseKeyPart (skipSpaces cs)
    match skipSpaces rest with
    | '.' :: rest =>
      let (parts, rest) ← parseKey fuel rest
      return (part :: parts, rest)
    | rest => return ([part], rest)

/-! ### Numbers -/

/-- The digits of a number without its underscores, each of which must stand between
two digits. -/
def plainDigits? (isDigit : Char → Bool) (cs : List Char) : Option (List Char) :=
  let ok := (cs.head?.map isDigit).getD false && (cs.getLast?.map isDigit).getD false &&
    (cs.all fun c => isDigit c || c = '_') &&
    ((cs.zip cs.tail).all fun p => p.1 ≠ '_' || p.2 ≠ '_')
  if ok then some (cs.filter (· ≠ '_')) else none

/-- A whole number in a base other than ten. -/
def basedInt? (base : Nat) (cs : List Char) : Option Int := do
  let isDigit := fun c => match Json.hexDigit? c with
    | some d => d < base
    | none => false
  let ds ← plainDigits? isDigit cs
  let ds ← ds.mapM Json.hexDigit?
  return ((ds.foldl (fun a d => a * base + d) 0 : Nat) : Int)

/-- Digits of a whole part: no leading zero. -/
def wholeDigits? (cs : List Char) : Option (List Char) := do
  let ds ← plainDigits? Char.isDigit cs
  if 1 < ds.length ∧ ds.head? = some '0' then none else return ds

/-- A number written in decimal, without its sign. -/
def decimalNumber? (negative : Bool) (cs : List Char) : Option Number :=
  let signed := fun x : Float => if negative then -x else x
  if cs = ['i', 'n', 'f'] then some (.real (signed (1 / 0)))
  else if cs = ['n', 'a', 'n'] then some (.real (0 / 0))
  else
    let whole := cs.takeWhile fun c => c ≠ '.' && c ≠ 'e' && c ≠ 'E'
    match cs.drop whole.length with
    | [] => (wholeDigits? whole).map fun ds =>
      .int (if negative then -(digitsValue ds : Int) else digitsValue ds)
    | rest => do
      let ws ← wholeDigits? whole
      let (fs, rest) ← match rest with
        | '.' :: rest =>
          let fraction := rest.takeWhile fun c => c ≠ 'e' && c ≠ 'E'
          (plainDigits? Char.isDigit fraction).map fun ds => (ds, rest.drop fraction.length)
        | rest => some ([], rest)
      let e ← match rest with
        | [] => some (0 : Int)
        | _ :: rest =>
          let (neg, rest) := spanSign rest
          (plainDigits? Char.isDigit rest).map fun ds =>
            if neg then -(digitsValue ds : Int) else digitsValue ds
      return .real (signed (floatOfDecimal (digitsValue (ws ++ fs)) (e - fs.length)))

/-- A number; whole ones must fit in 64 bits, signed or not. -/
def number? (cs : List Char) : Option Number := do
  let n ← match cs with
    | '0' :: 'x' :: cs => (basedInt? 16 cs).map .int
    | '0' :: 'o' :: cs => (basedInt? 8 cs).map .int
    | '0' :: 'b' :: cs => (basedInt? 2 cs).map .int
    | cs => let (negative, cs) := spanSign cs; decimalNumber? negative cs
  match n with
  | .int i => if -twoTo 63 ≤ i ∧ i < twoTo 64 then return n else none
  | .real _ => return n

/-- Whether a character may stand in a number. -/
def isNumberChar (c : Char) : Bool :=
  c.isAlphanum || c = '_' || c = '+' || c = '-' || c = '.'

/-! ### Values -/

mutual

/-- Read a value. -/
def parseValue : Nat → List Char → Option (Json × List Char)
  | 0, _ => none
  | fuel + 1, cs =>
    match cs with
    | '"' :: _ => (parseString cs).map fun r => (.string r.1, r.2)
    | '\x27' :: _ => (parseString cs).map fun r => (.string r.1, r.2)
    | '[' :: rest => parseItems fuel [] rest
    | '\x7b' :: rest => parseInline fuel [] rest
    | cs =>
      let word := cs.takeWhile isNumberChar
      let rest := cs.drop word.length
      if word = ['t', 'r', 'u', 'e'] then some (.bool true, rest)
      else if word = ['f', 'a', 'l', 's', 'e'] then some (.bool false, rest)
      else (number? word).map fun n => (.number n, rest)

/-- Read the items of an array up to its end. -/
def parseItems : Nat → List Json → List Char → Option (Json × List Char)
  | 0, _, _ => none
  | fuel + 1, acc, cs =>
    match skipLines (cs.length + 1) cs with
    | ']' :: rest => some (.array acc.reverse, rest)
    | cs => do
      let (j, rest) ← parseValue fuel cs
      match skipLines (rest.length + 1) rest with
      | ',' :: rest => parseItems fuel (j :: acc) rest
      | ']' :: rest => some (.array (j :: acc).reverse, rest)
      | _ => none

/-- Read the entries of an inline table up to its end. -/
def parseInline : Nat → Entries → List Char → Option (Json × List Char)
  | 0, _, _ => none
  | fuel + 1, acc, cs =>
    match skipLines (cs.length + 1) cs with
    | '\x7d' :: rest => some (.object (entriesToJson acc), rest)
    | cs => do
      let (key, rest) ← parseKey (cs.length + 1) cs
      match rest with
      | '=' :: rest =>
        let (j, rest) ← parseValue fuel (skipSpaces rest)
        let acc ← setValue j key acc
        match skipLines (rest.length + 1) rest with
        | ',' :: rest => parseInline fuel acc rest
        | '\x7d' :: rest => some (.object (entriesToJson acc), rest)
        | _ => none
      | _ => none

end

/-! ### Documents -/

/-- Read the lines of a document below a header. -/
def parseLines : Nat → List String → Entries → List Char → Option Entries
  | 0, _, _, _ => none
  | fuel + 1, header, es, cs =>
    match skipLines (cs.length + 1) cs with
    | [] => some es
    | '[' :: '[' :: rest => do
      let (key, rest) ← parseKey (rest.length + 1) rest
      match rest with
      | ']' :: ']' :: rest =>
        let es ← appendTable key es
        parseLines fuel key es (← afterLine? rest)
      | _ => none
    | '[' :: rest => do
      let (key, rest) ← parseKey (rest.length + 1) rest
      match rest with
      | ']' :: rest =>
        let es ← defineTable key es
        parseLines fuel key es (← afterLine? rest)
      | _ => none
    | cs => do
      let (key, rest) ← parseKey (cs.length + 1) cs
      match rest with
      | '=' :: rest =>
        let (j, rest) ← parseValue (rest.length + 1) (skipSpaces rest)
        let es ← setUnder j key header es
        parseLines fuel header es (← afterLine? rest)
      | _ => none

/-- Read a document. -/
def parse? (text : String) : Option Json :=
  (parseLines (text.length + 2) [] [] text.toList).map fun es => .object (entriesToJson es)

end AppBuilder.Toml
