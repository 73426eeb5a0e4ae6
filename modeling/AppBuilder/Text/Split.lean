import AppBuilder.Text.Blank

/-!
Cutting text into parts.
-/

namespace AppBuilder

/-- The parts of a text between the occurrences of a character. -/
def splitAt (sep : Char) (cs : List Char) : List (List Char) :=
  cs.foldr (fun c parts =>
    match parts with
    | p :: ps => if c = sep then [] :: p :: ps else (c :: p) :: ps
    | [] => [[c]]) [[]]

/-- A line without the carriage return at its end. -/
def stripReturn (cs : List Char) : List Char :=
  if cs.getLast? = some '\r' then cs.dropLast else cs

/-- The lines of a text. Each ends in a newline, which may be missing from the last. -/
def textLines (cs : List Char) : List (List Char) :=
  let parts := splitAt '\n' cs
  (if parts.getLast? = some [] then parts.dropLast else parts).map stripReturn

end AppBuilder
