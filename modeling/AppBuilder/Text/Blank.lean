/-!
White space.

The white space characters of all scripts, and texts without the white space around
them. A trimmed text neither starts nor ends with white space.
-/

namespace AppBuilder

/-- White space of any script. -/
def isBlank (c : Char) : Bool :=
  let n := c.toNat
  (9 ≤ n && n ≤ 13) || n = 0x20 || n = 0x85 || n = 0xA0 || n = 0x1680 ||
    (0x2000 ≤ n && n ≤ 0x200A) || n = 0x2028 || n = 0x2029 || n = 0x202F || n = 0x205F || n = 0x3000

/-- The text without white space in front. -/
def trimStart (cs : List Char) : List Char := cs.dropWhile isBlank

/-- The text without white space at its end. -/
def trimEnd (cs : List Char) : List Char := (cs.reverse.dropWhile isBlank).reverse

/-- The text without white space around it. -/
def trim (cs : List Char) : List Char := trimEnd (trimStart cs)

/-- The text without white space around it. -/
def trimText (s : String) : String := String.ofList (trim s.toList)

end AppBuilder
