import AppBuilder.Text.Split
import AppBuilder.Text.Width

/-!
Tables drawn with box characters.

A table has a header and rows. Every column is as wide as its widest cell, with a space on
both sides; a cell may have several lines, and a row is as high as its highest cell.
-/

namespace AppBuilder

/-- A cell, as its lines. -/
abbrev Cell := List (List Char)

/-- The cell of a text. -/
def Cell.ofText (text : String) : Cell := splitAt '\n' text.toList

/-- Columns that a cell takes. -/
def Cell.width (c : Cell) : Nat := (c.map textWidth).foldl max 0

/-- A header and rows with one cell for each column. -/
structure Table where
  header : List Cell
  rows : List (List Cell)

namespace Table

/-- A table of texts. -/
def ofTexts (header : List String) (rows : List (List String)) : Table :=
  ⟨header.map .ofText, rows.map fun row => row.map .ofText⟩

/-- The width of each column. -/
def widths (t : Table) : List Nat :=
  t.rows.foldl (fun ws row => ws.zipWith max (row.map Cell.width)) (t.header.map Cell.width)

/-- Put lists together with another one between any two. -/
def joinWith (between : List Char) (parts : List (List Char)) : List Char :=
  (parts.intersperse between).flatten

/-- A line between two rows or at an edge. -/
def ruleLine (left fill cross right : Char) (widths : List Nat) : List Char :=
  left :: joinWith [cross] (widths.map fun w => List.replicate (w + 2) fill) ++ [right]

/-- A line of a cell, filled up with spaces. -/
def padded (width : Nat) (line : List Char) : List Char :=
  line ++ List.replicate (width - textWidth line) ' '

/-- The lines of a row. -/
def rowLines (widths : List Nat) (row : List Cell) : List (List Char) :=
  (List.range ((row.map List.length).foldl max 0)).map fun i =>
    let cells := List.zipWith (fun w (cell : Cell) => padded w (cell[i]?.getD [])) widths row
    '│' :: ' ' :: joinWith [' ', '┆', ' '] cells ++ [' ', '│']

/-- The lines of a table. -/
def lines (t : Table) : List (List Char) :=
  let ws := t.widths
  let between := [ruleLine '├' '╌' '┼' '┤' ws]
  [ruleLine '┌' '─' '┬' '┐' ws] ++ rowLines ws t.header ++ [ruleLine '╞' '═' '╪' '╡' ws] ++
    ((t.rows.map (rowLines ws)).intersperse between).flatten ++ [ruleLine '└' '─' '┴' '┘' ws]

/-- The text of a table, a newline behind each line. -/
def text (t : Table) : String := String.ofList (t.lines.flatMap fun line => line ++ ['\n'])

end Table

end AppBuilder
