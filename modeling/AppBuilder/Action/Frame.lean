import AppBuilder.Action.Basic

/-!
Frames that decide whether code may ask for actions.

Code runs inside a frame, of which only the innermost counts. A trigger frame lets every
call through and collects the actions asked for, in order. A binding frame denies every
call and keeps the name of the first. Outside all frames every call is denied.
-/

namespace AppBuilder

/-- What code is run for: the value of a property, or its effect. -/
inductive EvalMode where
  | binding
  | trigger
deriving DecidableEq, Repr

/-- What a frame has seen: the actions asked for in order, and the first call denied. -/
structure FrameReport where
  actions : List Action
  violation : Option String

def FrameReport.empty : FrameReport := ⟨[], none⟩

/-- An open frame. -/
structure Frame where
  mode : EvalMode
  report : FrameReport

namespace Frame

/-- A frame that has seen nothing. -/
def fresh (mode : EvalMode) : Frame := ⟨mode, .empty⟩

/-- Take note of a call. -/
def record (f : Frame) (name : String) (args : List Json) : Frame :=
  match f.mode with
  | .trigger =>
    { f with report := { f.report with actions := f.report.actions ++ [.ofCall name args] } }
  | .binding => { f with report := { f.report with violation := f.report.violation.or (some name) } }

end Frame

/-- The innermost open frame, if any. -/
abbrev Ambient := Option Frame

namespace Ambient

/-- Whether calls are let through. -/
def permits : Ambient → Bool
  | some f => f.mode = .trigger
  | none => false

/-- Take note of a call. -/
def record (a : Ambient) (name : String) (args : List Json) : Ambient :=
  a.map fun f => f.record name args

/-- What the innermost frame has seen. -/
def report : Ambient → FrameReport
  | some f => f.report
  | none => .empty

end Ambient

/-- Why a call is denied. -/
def deniedMessage (name : String) : String :=
  name ++ " is an action and cannot be called from a sync field"

namespace Calls

variable {α : Type}

/-- Run a computation where a frame may be open. -/
def runIn : Calls α → Ambient → α × Ambient
  | done a, frame => (a, frame)
  | call name args next, frame => (next frame.permits).runIn (frame.record name args)

/-- Run a computation in a new frame. -/
def inFrame (mode : EvalMode) (c : Calls α) : α × FrameReport :=
  let (a, frame) := c.runIn (some (.fresh mode))
  (a, frame.report)

/-- Run a computation outside all frames. -/
def unframed (c : Calls α) : α := (c.runIn none).1

end Calls

/-! ### Nested frames -/

/-- A step of a program: a call, or a frame with steps of its own. -/
inductive FrameStep where
  | call (name : String) (args : List Json)
  | within (mode : EvalMode) (steps : List FrameStep)

/-- The outcome of a step: whether the call was let through, or the outcomes of the
steps of a frame and what it has seen. -/
inductive StepOutcome where
  | called (name : String) (permitted : Bool)
  | framed (outcomes : List StepOutcome) (report : FrameReport)

namespace FrameStep

mutual

/-- Run a step where a frame may be open. Steps inside a new frame leave the frame
around it as it was. -/
def run : FrameStep → Ambient → StepOutcome × Ambient
  | .call name args, frame => (.called name frame.permits, frame.record name args)
  | .within mode steps, frame =>
    let (outcomes, inner) := runAll steps (some (.fresh mode))
    (.framed outcomes inner.report, frame)

/-- Run steps one after another. -/
def runAll : List FrameStep → Ambient → List StepOutcome × Ambient
  | [], frame => ([], frame)
  | s :: ss, frame =>
    let (outcome, frame) := run s frame
    let (outcomes, frame) := runAll ss frame
    (outcome :: outcomes, frame)

end

end FrameStep

end AppBuilder
