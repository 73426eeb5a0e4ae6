import AppBuilder.Json.Basic
import AppBuilder.Number.Decimal

/-!
Writing JSON text.

`Json.compact` writes a value without blanks, `Json.pretty` with two blanks per level
and one item a line. Fields come in the order of the object. A number that is not
whole is written with the fewest digits that read back.
-/

namespace AppBuilder.Json

/-- Floating-point numbers are positional from `1e-5` to below `1e16`, whole ones keep
`.0`, and a positive exponent has its sign. -/
def numberStyle : DecimalStyle := ⟨some (-5, 15), true, true⟩

/-- The text of a number. -/
def numberText : Number → String
  | .int n => intText n
  | .real x => floatText numberStyle x

/-- A hexadecimal digit. -/
def hexChar (n : Nat) : Char := Nat.digitChar n

/-- A character inside a string: quote, backslash and control characters are escaped. -/
def escapeChar (c : Char) : List Char :=
  if c = '"' then ['\\', '"']
  else if c = '\\' then ['\\', '\\']
  else if c = '\n' then ['\\', 'n']
  else if c = '\r' then ['\\', 'r']
  else if c = '\t' then ['\\', 't']
  else if c.toNat = 8 then ['\\', 'b']
  else if c.toNat = 12 then ['\\', 'f']
  else if c.toNat < 0x20 then
    ['\\', 'u', '0', '0', hexChar (c.toNat / 16), hexChar (c.toNat % 16)]
  else [c]

/-- A string in quotes. -/
def quoted (s : String) : String :=
  "\"" ++ String.ofList (s.toList.flatMap escapeChar) ++ "\""

mutual

/-- A value on one line without blanks. -/
def compact : Json → String
  | .null => "null"
  | .bool b => if b then "true" else "false"
  | .number n => numberText n
  | .string s => quoted s
  | .array xs => "[" ++ ",".intercalate (compactItems xs) ++ "]"
  | .object fs => "\x7b" ++ ",".intercalate (compactFields fs) ++ "\x7d"

/-- The texts of the items of an array. -/
def compactItems : List Json → List String
  | [] => []
  | x :: xs => compact x :: compactItems xs

/-- The texts of the fields of an object. -/
def compactFields : List (String × Json) → List String
  | [] => []
  | (k, x) :: xs => (quoted k ++ ":" ++ compact x) :: compactFields xs

end

/-- A line break and the blanks of a level. -/
def newline (level : Nat) : String := "\n" ++ String.ofList (List.replicate (2 * level) ' ')

mutual

/-- A value with one item a line, nested at a level. -/
def prettyAt (level : Nat) : Json → String
  | .array [] => "[]"
  | .array xs =>
    "[" ++ newline (level + 1) ++ ("," ++ newline (level + 1)).intercalate
      (prettyItems (level + 1) xs) ++ newline level ++ "]"
  | .object [] => "\x7b\x7d"
  | .object fs =>
    "\x7b" ++ newline (level + 1) ++ ("," ++ newline (level + 1)).intercalate
      (prettyFields (level + 1) fs) ++ newline level ++ "\x7d"
  | j => compact j

/-- The texts of the items of an array at a level. -/
def prettyItems (level : Nat) : List Json → List String
  | [] => []
  | x :: xs => prettyAt level x :: prettyItems level xs

/-- The texts of the fields of an object at a level. -/
def prettyFields (level : Nat) : List (String × Json) → List String
  | [] => []
  | (k, x) :: xs => (quoted k ++ ": " ++ prettyAt level x) :: prettyFields level xs

end

/-- A value over several lines. -/
def pretty (j : Json) : String := prettyAt 0 j

end AppBuilder.Json
