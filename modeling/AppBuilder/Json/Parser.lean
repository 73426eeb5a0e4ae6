import AppBuilder.Json.Basic
import AppBuilder.Number.Decimal

/-!
Reading JSON text.

`Json.parse?` reads a whole text as one value. Objects keep their fields in the order
of the text, repetitions included. Values nested deeper than 127 are refused.

A number with a fraction or exponent is read from the whole number that its digits
form, as far as they fit in 64 bits, scaled by a power of ten in floating point
(`scaleDecimal?`).
-/

namespace AppBuilder.Json

/-! ### Numbers -/

/-- The largest whole number that is read exactly. -/
def maxSignificand : Nat := twoTo 64 - 1

/-- Append whole digits to a significand; from the first that does not fit on, digits
only count. -/
def scanWhole (significand : Nat) : List Char → Nat × Nat
  | [] => (significand, 0)
  | c :: cs =>
    let next := significand * 10 + (c.toNat - '0'.toNat)
    if next ≤ maxSignificand then scanWhole next cs else (significand, cs.length + 1)

/-- Append digits after the point to a significand, lowering the power of ten; from
the first that does not fit on, digits are ignored. -/
def scanFraction (significand : Nat) (power : Int) : List Char → Nat × Int
  | [] => (significand, power)
  | c :: cs =>
    let next := significand * 10 + (c.toNat - '0'.toNat)
    if next ≤ maxSignificand then scanFraction next (power - 1) cs else (significand, power)

/-- A whole number times a power of ten, in floating point: one multiplication, or
divisions by at most `10 ^ 308` each. There is no value beyond the largest number. -/
def scaleDecimal? (significand : Nat) (power : Int) : Option Float :=
  let x := Float.ofNat significand
  if 0 ≤ power then
    if significand = 0 then some x
    else if 308 < power then none
    else
      let y := x * floatOfDecimal 1 power
      if y.isInf then none else some y
  else some (lower 4 x power)
where
  lower : Nat → Float → Int → Float
    | 0, x, _ => x
    | fuel + 1, x, power =>
      if -308 ≤ power then x / floatOfDecimal 1 (-power)
      else lower fuel (x / floatOfDecimal 1 308) (power + 308)

/-- The number written by its parts: sign, whole digits, digits after a point and
exponent, each of the last two if present. -/
def numberOf (negative : Bool) (whole : List Char) (fraction : Option (List Char))
    (exponent : Option Int) : Option Number :=
  let (significand, dropped) := scanWhole 0 whole
  let signed := fun x : Float => if negative then -x else x
  match fraction, exponent with
  | none, none =>
    if dropped = 0 ∧ ¬ negative then some (.int significand)
    else if dropped = 0 ∧ significand ≠ 0 ∧ significand ≤ twoTo 63 then some (.int (-significand))
    else (scaleDecimal? significand dropped).map fun x => .real (signed x)
  | fraction, exponent =>
    let (significand, power) := scanFraction significand dropped (fraction.getD [])
    (scaleDecimal? significand (power + exponent.getD 0)).map fun x => .real (signed x)

/-- Read a number at the start of a text. -/
def parseNumber (cs : List Char) : Option (Number × List Char) :=
  let (negative, cs) := match cs with
    | '-' :: cs => (true, cs)
    | cs => (false, cs)
  let (whole, rest) := spanDigits cs
  if whole.isEmpty ∨ (1 < whole.length ∧ whole.head? = some '0') then none
  else
    let (fraction, rest) : Option (List Char) × List Char := match rest with
      | '.' :: rest => let (ds, rest) := spanDigits rest; (some ds, rest)
      | rest => (none, rest)
    if fraction = some [] then none
    else match rest with
      | c :: _ =>
        if c = 'e' ∨ c = 'E' then do
          let (e, rest) ← spanExponent rest
          return (← numberOf negative whole fraction (some e), rest)
        else do return (← numberOf negative whole fraction none, rest)
      | [] => do return (← numberOf negative whole fraction none, [])

/-! ### Strings -/

/-- The value of a hexadecimal digit. -/
def hexDigit? (c : Char) : Option Nat :=
  if '0' ≤ c ∧ c ≤ '9' then some (c.toNat - '0'.toNat)
  else if 'a' ≤ c ∧ c ≤ 'f' then some (c.toNat - 'a'.toNat + 10)
  else if 'A' ≤ c ∧ c ≤ 'F' then some (c.toNat - 'A'.toNat + 10)
  else none

/-- Four hexadecimal digits. -/
def hexUnit? : List Char → Option (Nat × List Char)
  | a :: b :: c :: d :: rest => do
    let a ← hexDigit? a
    let b ← hexDigit? b
    let c ← hexDigit? c
    let d ← hexDigit? d
    return (((a * 16 + b) * 16 + c) * 16 + d, rest)
  | _ => none

/-- The character of a `\u` escape, which may take a second escape to complete a pair;
half a pair alone is refused. -/
def unicodeEscape? (cs : List Char) : Option (Char × List Char) := do
  let (hi, rest) ← hexUnit? cs
  if 0xD800 ≤ hi ∧ hi < 0xDC00 then
    match rest with
    | '\\' :: 'u' :: rest =>
      let (lo, rest) ← hexUnit? rest
      if 0xDC00 ≤ lo ∧ lo < 0xE000 then
        return (Char.ofNat (0x10000 + (hi - 0xD800) * 0x400 + (lo - 0xDC00)), rest)
      else none
    | _ => none
  else if 0xDC00 ≤ hi ∧ hi < 0xE000 then none
  else return (Char.ofNat hi, rest)

/-- The character that a letter after a backslash stands for. -/
def simpleEscape? : Char → Option Char
  | '"' => some '"'
  | '\\' => some '\\'
  | '/' => some '/'
  | 'b' => some '\x08'
  | 'f' => some '\x0c'
  | 'n' => some '\n'
  | 'r' => some '\r'
  | 't' => some '\t'
  | _ => none

/-- Read the rest of a string, after its opening quote. `acc` holds the characters
read so far, last first. -/
def parseStringTail : Nat → List Char → List Char → Option (String × List Char)
  | 0, _, _ => none
  | _ + 1, _, [] => none
  | fuel + 1, acc, c :: cs =>
    if c = '"' then some (String.ofList acc.reverse, cs)
    else if c = '\\' then
      match cs with
      | 'u' :: cs =>
        match unicodeEscape? cs with
        | some (d, cs) => parseStringTail fuel (d :: acc) cs
        | none => none
      | e :: cs =>
        match simpleEscape? e with
        | some d => parseStringTail fuel (d :: acc) cs
        | none => none
      | [] => none
    else if c.toNat < 0x20 then none
    else parseStringTail fuel (c :: acc) cs

/-! ### Values -/

/-- Drop the blanks that may stand between tokens. -/
def skipBlanks : List Char → List Char :=
  List.dropWhile fun c => c = ' ' || c = '\n' || c = '\t' || c = '\r'

/-- Read a fixed word. -/
def parseWord (word : List Char) (j : Json) (cs : List Char) : Option (Json × List Char) :=
  if word.isPrefixOf cs then some (j, cs.drop word.length) else none

mutual

/-- Read a value at the start of a text. `depth` is how much deeper values may nest. -/
def parseValue : Nat → Nat → List Char → Option (Json × List Char)
  | 0, _, _ => none
  | fuel + 1, depth, cs =>
    match skipBlanks cs with
    | 'n' :: rest => parseWord ['u', 'l', 'l'] .null rest
    | 't' :: rest => parseWord ['r', 'u', 'e'] (.bool true) rest
    | 'f' :: rest => parseWord ['a', 'l', 's', 'e'] (.bool false) rest
    | '"' :: rest => do
      let (s, rest) ← parseStringTail fuel [] rest
      return (.string s, rest)
    | '[' :: rest =>
      match depth with
      | 0 => none
      | depth + 1 =>
        match skipBlanks rest with
        | ']' :: rest => some (.array [], rest)
        | rest => parseItems fuel depth [] rest
    | '\x7b' :: rest =>
      match depth with
      | 0 => none
      | depth + 1 =>
        match skipBlanks rest with
        | '\x7d' :: rest => some (.object [], rest)
        | rest => parseFields fuel depth [] rest
    | rest => do
      let (n, rest) ← parseNumber rest
      return (.number n, rest)

/-- Read the items of an array up to its end. `acc` holds those read, last first. -/
def parseItems : Nat → Nat → List Json → List Char → Option (Json × List Char)
  | 0, _, _, _ => none
  | fuel + 1, depth, acc, cs => do
    let (j, rest) ← parseValue fuel depth cs
    match skipBlanks rest with
    | ',' :: rest => parseItems fuel depth (j :: acc) rest
    | ']' :: rest => some (.array (j :: acc).reverse, rest)
    | _ => none

/-- Read the fields of an object up to its end. `acc` holds those read, last first. -/
def parseFields : Nat → Nat → List (String × Json) → List Char → Option (Json × List Char)
  | 0, _, _, _ => none
  | fuel + 1, depth, acc, cs =>
    match skipBlanks cs with
    | '"' :: rest => do
      let (name, rest) ← parseStringTail fuel [] rest
      match skipBlanks rest with
      | ':' :: rest =>
        let (j, rest) ← parseValue fuel depth rest
        match skipBlanks rest with
        | ',' :: rest => parseFields fuel depth ((name, j) :: acc) rest
        | '\x7d' :: rest => some (.object ((name, j) :: acc).reverse, rest)
        | _ => none
      | _ => none
    | _ => none

end

/-- How deep values may nest. -/
def maxDepth : Nat := 127

/-- Read a text that holds one value. Every call of the reader uses up a character of
the text or is followed by one that does, which bounds their number. -/
def parse? (text : String) : Option Json :=
  let cs := text.toList
  match parseValue (2 * cs.length + 2) maxDepth cs with
  | some (j, rest) => if (skipBlanks rest).isEmpty then some j else none
  | none => none

end AppBuilder.Json
