import AppBuilder.Evaluation.Error
import AppBuilder.Entity.Tree
import AppBuilder.Json.Printer
import AppBuilder.Layout.Highlight
import AppBuilder.Table

/-!
What evaluation and dragging give, as tables.
-/

namespace AppBuilder.Report

/-- A coordinate in a table, rounded to a whole number. -/
def pixels (x : Float) : String := fixedText 0 x

/-- A rectangle in a table: its corner and its extent. -/
def rectText (r : Rect) : String :=
  pixels r.x ++ "," ++ pixels r.y ++ " " ++ pixels r.width ++ "x" ++ pixels r.height

/-- The row of a bar. -/
def barRow (number : Nat) (h : Highlight) : List String :=
  [digitsText number, digitsText h.layer, digitsText h.index, digitsText h.row, h.align.title,
    h.orientation.title, if h.newLayer then "yes" else "", rectText h.rect]

/-- Bars, one row for each. -/
def ofBars (bars : List Highlight) : Table :=
  .ofTexts ["#", "layer", "index", "row", "align", "bar", "new", "rect"]
    (bars.zipIdx.map fun p => barRow p.2 p.1)

/-- A value in a table: a text as it is, anything else as JSON. -/
def valueText : Json → String
  | .string s => s
  | j => j.compact

/-- The messages of all errors at a path. -/
def errorText (errors : List EvalError) (path : String) : String :=
  String.intercalate "; " ((errors.filter fun e => e.path = some path).map (·.message))

/-- The row of a path. -/
def pathRow (t : DataTree) (errors : List EvalError) (number : Nat) (path : String) :
    List String :=
  [digitsText number, path, ((t.get? path).map valueText).getD "", errorText errors path]

/-- Evaluated paths in order, with their values and errors. -/
def ofEvaluation (order : List String) (t : DataTree) (errors : List EvalError) : Table :=
  .ofTexts ["#", "path", "value", "error"] (order.zipIdx.map fun p => pathRow t errors p.2 p.1)

end AppBuilder.Report
