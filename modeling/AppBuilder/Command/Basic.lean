import AppBuilder.Json.Parser
import AppBuilder.Layout.Drag
import AppBuilder.Layout.Drop
import AppBuilder.Report
import AppBuilder.Script.Run
import AppBuilder.Session.Basic

/-!
The commands of the program.

A command works on texts that it names as files: a data tree to evaluate, requests to a
session, a widget tree to drag over or to drop into. `Invocation.run` gives what a command
writes, and why it fails if it does; what was written before a failure stays.
-/

namespace AppBuilder

/-- The name of a text. -/
abbrev FileName := String

/-- What the program can do. -/
inductive Command where
  /-- Evaluate a data tree and write it as JSON, or a table of what was evaluated. -/
  | eval (tree : FileName) (json : Bool)
  /-- Answer requests, one on each line of a file or of the input. -/
  | worker (requests : Option FileName)
  /-- List the bars for widgets dragged over a canvas. -/
  | highlights (widgets : FileName) (canvas : WidgetId) (dragged : List WidgetId)
    (scale : GridScale)
  /-- Write a widget tree after the end of a drag. -/
  | drop (widgets event : FileName)

/-- A command and the file with the settings. -/
structure Invocation where
  config : Option FileName
  command : Command

/-! ### Outcomes -/

/-- Why a command fails. -/
inductive CommandError where
  | unreadable (file : FileName)
  | badRequest (line : Nat)
  | canvasMissing (canvas : WidgetId)
  | nothingMoved
deriving DecidableEq, Repr

def CommandError.message : CommandError → String
  | unreadable file => "cannot read " ++ file
  | badRequest line => "cannot read the request on line " ++ digitsText line
  | canvasMissing canvas => "canvas " ++ canvas ++ " not in tree"
  | nothingMoved => "empty drag selection"

/-- What a command wrote, and why it failed. -/
structure CommandOutcome where
  output : String
  error : Option CommandError

/-- The texts of the files that can be read. -/
abbrev Files := FileName → Option String

/-- The data in a file. -/
def Files.read {α : Type} (files : Files) (decode : String → Option α) (file : FileName) :
    Except CommandError α :=
  match (files file).bind decode with
  | some a => .ok a
  | none => .error (.unreadable file)

/-- Read data from JSON text. -/
def decodeText {α : Type} (decode : Decoder α) (text : String) : Option α :=
  (Json.parse? text).bind decode

/-- The settings in a file, the usual ones without a file. -/
def Files.config (files : Files) : Option FileName → Except CommandError Config
  | none => .ok {}
  | some file => files.read Config.ofToml? file

/-! ### Requests -/

/-- A line of requests. -/
inductive RequestLine where
  | blank
  | request (r : Request)
  | unreadable

/-- Read a line of requests. -/
def RequestLine.ofText (line : String) : RequestLine :=
  if line.toList.all isBlank then blank
  else match decodeText Request.ofJson? line with
    | some r => request r
    | none => unreadable

/-- The line of a response. -/
def Response.line (r : Response) : String := r.toJson.canonical.compact ++ "\n"

/-- Answer lines of requests one after another up to one that cannot be read; they are
counted from a number on. -/
def Session.answerLines (s : Session) (number : Nat) : List String → CommandOutcome
  | [] => ⟨"", none⟩
  | line :: rest =>
    match RequestLine.ofText line with
    | .blank => s.answerLines (number + 1) rest
    | .unreadable => ⟨"", some (.badRequest number)⟩
    | .request r =>
      let (response, s) := s.handle r 0
      let after := s.answerLines (number + 1) rest
      ⟨response.line ++ after.output, after.error⟩

/-- The session that answers requests. -/
def Config.session (c : Config) : Session := .start c.eval (.script c.eval)

/-! ### Commands -/

/-- Evaluate a tree. -/
def evalText (c : Config) (tree : DataTree) (json : Bool) : String :=
  let (pass, t) := (TreeEvaluator.fresh (.script c.eval)).createFirst tree
  if json then t.evaluated.toJson.pretty ++ "\n"
  else (Report.ofEvaluation pass.evaluationOrder t.evaluated pass.errors).text

/-- List the bars of a canvas, measured on the grid. -/
def highlightsText (c : Config) (t : WidgetTree) (canvas : WidgetId) (dragged : List WidgetId)
    (scale : GridScale) : Except CommandError String :=
  if t.contains canvas then
    let rects := t.gridRects scale
    let drag := Drag.start (.ofCanvas canvas c.highlight) dragged
    .ok (Report.ofBars (drag.refresh t rects.get? false).bars).text
  else .error (.canvasMissing canvas)

/-- Drop widgets. -/
def dropText (c : Config) (t : WidgetTree) (e : DropEvent) : Except CommandError String :=
  match e.place c.layout t with
  | .ok t => .ok (t.toJson.pretty ++ "\n")
  | .error _ => .error .nothingMoved

/-- An outcome of a command that writes all or nothing. -/
def CommandOutcome.ofExcept : Except CommandError String → CommandOutcome
  | .ok output => ⟨output, none⟩
  | .error e => ⟨"", some e⟩

/-- The text with the requests of a command. -/
def Files.requests (files : Files) (input : String) : Option FileName → Except CommandError String
  | none => .ok input
  | some file => files.read some file

/-- Run a command with settings. -/
def Command.run (files : Files) (input : String) (c : Config) : Command → CommandOutcome
  | .eval tree json => .ofExcept do
    return evalText c (← files.read (decodeText DataTree.ofJson?) tree) json
  | .worker requests =>
    match files.requests input requests with
    | .ok text => c.session.answerLines 1 ((textLines text.toList).map String.ofList)
    | .error e => ⟨"", some e⟩
  | .highlights widgets canvas dragged scale => .ofExcept do
    highlightsText c (← files.read (decodeText WidgetTree.ofJson?) widgets) canvas dragged scale
  | .drop widgets event => .ofExcept do
    let t ← files.read (decodeText WidgetTree.ofJson?) widgets
    dropText c t (← files.read (decodeText DropEvent.ofJson?) event)

/-- Run a command; its settings are read first. -/
def Invocation.run (files : Files) (input : String) (v : Invocation) : CommandOutcome :=
  match files.config v.config with
  | .ok c => v.command.run files input c
  | .error e => ⟨"", some e⟩

end AppBuilder
