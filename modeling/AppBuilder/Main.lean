import AppBuilder.Command.Arguments

/-!
The program: it reads the files that its arguments name, runs the command and writes what
comes of it. Requests from the input are answered as they come in. The exit code is 1
after an error and 2 after arguments that are not understood.
-/

namespace AppBuilder

/-- How the program is called. -/
def usageText : String :=
  "usage: [--config FILE] [--verbose] COMMAND\n" ++
    "  eval TREE [--json]\n" ++
    "  worker [REQUESTS]\n" ++
    "  highlights WIDGETS [--canvas ID] --drag ID... [--column-width N] [--row-height N]\n" ++
    "  drop WIDGETS EVENT\n"

/-- The files that a command reads as a whole. -/
def Command.fileNames : Command → List FileName
  | .eval tree _ => [tree]
  | .worker _ => []
  | .highlights widgets _ _ _ => [widgets]
  | .drop widgets event => [widgets, event]

/-- Read a file, if that can be done. -/
def readText? (file : FileName) : IO (Option String) := do
  try return some (← IO.FS.readFile file)
  catch _ => return none

/-- Read files. -/
def readFiles (names : List FileName) : IO Files := do
  let texts ← names.mapM fun name => do return (name, ← readText? name)
  return fun name => (texts.lookup name).join

/-- Report an error. -/
def fail (e : CommandError) : IO UInt32 := do
  IO.eprintln ("Error: " ++ e.message)
  return 1

/-- Answer requests line by line. -/
partial def serve (input output : IO.FS.Stream) (s : Session) (number : Nat) : IO UInt32 := do
  let line ← input.getLine
  if line.isEmpty then return 0
  match RequestLine.ofText line with
  | .blank => serve input output s (number + 1)
  | .unreadable => fail (.badRequest number)
  | .request r =>
    let began ← IO.monoNanosNow
    let (data, s) ← IO.lazyPure fun _ => s.answer r.body
    let nanos := (← IO.monoNanosNow) - began
    output.putStr (Response.ofOutcome r (.ok data) nanos).line
    output.flush
    serve input output s (number + 1)

/-- Answer the requests in a file, or those of the input. -/
def serveFrom (c : Config) (requests : Option FileName) : IO UInt32 := do
  let output ← IO.getStdout
  match requests with
  | none => serve (← IO.getStdin) output c.session 1
  | some file =>
    try serve (.ofHandle (← IO.FS.Handle.mk file .read)) output c.session 1
    catch _ => fail (.unreadable file)

/-- Run a command and write what comes of it. -/
def Invocation.execute (v : Invocation) : IO UInt32 := do
  let files ← readFiles (v.config.toList ++ v.command.fileNames)
  match v.command, files.config v.config with
  | .worker requests, .ok c => serveFrom c requests
  | _, _ =>
    let outcome := v.run files ""
    (← IO.getStdout).putStr outcome.output
    match outcome.error with
    | none => return 0
    | some e => fail e

end AppBuilder

def main (arguments : List String) : IO UInt32 :=
  match AppBuilder.Invocation.ofArguments? arguments with
  | some v => v.execute
  | none => do
    IO.eprint AppBuilder.usageText
    return 2
