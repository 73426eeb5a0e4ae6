import AppBuilder.Action.Frame
import AppBuilder.Evaluation.Value

/-!
Programs that call builtins and open frames.

A program runs on the stack of the frames that are open and acts on the innermost only. What it
returns and the calls that it makes directly can be told without a stack (`FrameProgram.outcome`):
all that matters is whether its own calls are let through, and a frame inside it is told by its mode
and by the calls made directly in it. A run returns just that, and of all frames only the innermost
has changed, by the direct calls (`FrameProgram.run_eq`). Computations with calls and lists of steps
are such programs.

Main statement: `FrameProgram.frames_isolated`.
-/

namespace AppBuilder

/-! ### Calls and what a frame sees of them -/

/-- A call of a builtin. -/
structure BuiltinCall where
  name : String
  args : List Json

/-- The action that a call asks for. -/
def BuiltinCall.action (c : BuiltinCall) : Action := .ofCall c.name c.args

/-- What a frame reports when calls were made directly in it. -/
def FrameReport.ofCalls : EvalMode → List BuiltinCall → FrameReport
  | .trigger, calls => ⟨calls.map (·.action), none⟩
  | .binding, calls => ⟨[], calls.head?.map (·.name)⟩

namespace Frame

/-- Take note of calls, one after another. -/
def recordAll (f : Frame) (calls : List BuiltinCall) : Frame :=
  calls.foldl (fun f c => f.record c.name c.args) f

@[simp] theorem recordAll_nil (f : Frame) : f.recordAll [] = f := rfl

@[simp] theorem recordAll_record (f : Frame) (c : BuiltinCall) (calls : List BuiltinCall) :
    (f.record c.name c.args).recordAll calls = f.recordAll (c :: calls) := rfl

theorem recordAll_append (f : Frame) (calls more : List BuiltinCall) :
    f.recordAll (calls ++ more) = (f.recordAll calls).recordAll more := List.foldl_append

@[simp] theorem mode_record (f : Frame) (name : String) (args : List Json) :
    (f.record name args).mode = f.mode := by
  unfold record
  split <;> rfl

@[simp] theorem mode_recordAll (f : Frame) (calls : List BuiltinCall) :
    (f.recordAll calls).mode = f.mode := by
  induction calls generalizing f with
  | nil => rfl
  | cons c calls ih => rw [← recordAll_record, ih, mode_record]

/-- A trigger frame collects the actions that calls ask for. -/
theorem recordAll_trigger (actions : List Action) (violation : Option String)
    (calls : List BuiltinCall) :
    recordAll ⟨.trigger, ⟨actions, violation⟩⟩ calls =
      ⟨.trigger, ⟨actions ++ calls.map (·.action), violation⟩⟩ := by
  induction calls generalizing actions with
  | nil => simp
  | cons c calls ih => simp [← recordAll_record, record, ih, BuiltinCall.action]

/-- A binding frame keeps the name of the first call. -/
theorem recordAll_binding (actions : List Action) (violation : Option String)
    (calls : List BuiltinCall) :
    recordAll ⟨.binding, ⟨actions, violation⟩⟩ calls =
      ⟨.binding, ⟨actions, violation.or (calls.head?.map (·.name))⟩⟩ := by
  induction calls generalizing violation with
  | nil => simp
  | cons c calls ih => cases violation <;> simp [← recordAll_record, record, ih]

theorem recordAll_fresh (mode : EvalMode) (calls : List BuiltinCall) :
    (fresh mode).recordAll calls = ⟨mode, .ofCalls mode calls⟩ := by
  cases mode with
  | binding => simp [fresh, FrameReport.empty, recordAll_binding, FrameReport.ofCalls]
  | trigger => simp [fresh, FrameReport.empty, recordAll_trigger, FrameReport.ofCalls]

end Frame

/-- Calls are let through as before when the innermost frame keeps its mode. -/
theorem Ambient.permits_map {f : Frame → Frame} (same : ∀ frame, (f frame).mode = frame.mode)
    (a : Ambient) : permits (a.map f) = a.permits := by
  cases a <;> simp [permits, same]

/-! ### Programs -/

/-- A program that makes calls and opens frames. It goes on according to whether a call was let
through, and to what the program in a frame returned and the frame reports. -/
inductive FrameProgram : Type → Type 1 where
  | done {α : Type} (a : α) : FrameProgram α
  | call {α : Type} (name : String) (args : List Json) (next : Bool → FrameProgram α) :
    FrameProgram α
  | within {α β : Type} (mode : EvalMode) (body : FrameProgram β)
    (next : β → FrameReport → FrameProgram α) : FrameProgram α

namespace FrameProgram

variable {α β : Type}

/-- One program after another. -/
def bind {α β : Type} : FrameProgram α → (α → FrameProgram β) → FrameProgram β
  | done a, f => f a
  | call name args next, f => call name args fun ok => (next ok).bind f
  | within mode body next, f => within mode body fun b report => (next b report).bind f

/-- Run a program where some frames are open, the innermost first. A new frame is put before them,
and what the rest of the program finds open is what is left behind it. -/
def run {α : Type} : FrameProgram α → List Frame → α × List Frame
  | done a, frames => (a, frames)
  | call name args next, frames =>
    (next (Ambient.permits frames.head?)).run (frames.modifyHead (·.record name args))
  | within mode body next, frames =>
    let (b, frames) := body.run (.fresh mode :: frames)
    (next b (Ambient.report frames.head?)).run frames.tail

/-- What a program returns and the calls it makes directly, when these are let through or denied. -/
def outcome {α : Type} : FrameProgram α → Bool → α × List BuiltinCall
  | done a, _ => (a, [])
  | call name args next, permitted =>
    let (a, calls) := (next permitted).outcome permitted
    (a, ⟨name, args⟩ :: calls)
  | within mode body next, permitted =>
    let (b, calls) := body.outcome (mode = .trigger)
    (next b (.ofCalls mode calls)).outcome permitted

/-- A program acts on the innermost frame alone, and there by its direct calls. -/
theorem run_eq (p : FrameProgram α) (frames : List Frame) :
    p.run frames = ((p.outcome (Ambient.permits frames.head?)).1,
      frames.modifyHead (·.recordAll (p.outcome (Ambient.permits frames.head?)).2)) := by
  induction p generalizing frames with
  | done a => cases frames <;> rfl
  | call name args next ih =>
    have same : Ambient.permits (frames.modifyHead (·.record name args)).head? =
        Ambient.permits frames.head? := by
      rw [List.head?_modifyHead, Ambient.permits_map fun f => f.mode_record name args]
    rw [run, ih, same, List.modifyHead_modifyHead]
    rfl
  | within mode body next ihBody ihNext =>
    -- the body acts on its own frame, which is gone when the rest of the program runs
    have report : ∀ calls, Ambient.report (some ((Frame.fresh mode).recordAll calls)) =
        .ofCalls mode calls := fun calls => by
      rw [Frame.recordAll_fresh]
      rfl
    simp only [run, ihBody, ihNext, outcome, List.head?_cons, List.modifyHead_cons, List.tail_cons,
      report]
    rfl

/-- Leaving a frame, a program is told what it reports and finds the frames around it as they
were. -/
theorem run_within (mode : EvalMode) (body : FrameProgram β)
    (next : β → FrameReport → FrameProgram α) (frames : List Frame) :
    (within mode body next).run frames =
      (next (body.outcome (mode = .trigger)).1
        (.ofCalls mode (body.outcome (mode = .trigger)).2)).run frames := by
  rw [run_eq, run_eq]
  rfl

/-- What a program does in a new frame. -/
theorem run_fresh (p : FrameProgram α) (mode : EvalMode) (frames : List Frame) :
    p.run (.fresh mode :: frames) = ((p.outcome (mode = .trigger)).1,
      ⟨mode, .ofCalls mode (p.outcome (mode = .trigger)).2⟩ :: frames) := by
  rw [run_eq, List.modifyHead_cons, Frame.recordAll_fresh]
  rfl

/-- Outside all frames a program is denied its direct calls. -/
theorem run_nil (p : FrameProgram α) : p.run [] = ((p.outcome false).1, []) := by
  rw [run_eq]
  rfl

theorem outcome_bind (p : FrameProgram α) (f : α → FrameProgram β) (permitted : Bool) :
    (p.bind f).outcome permitted =
      (((f (p.outcome permitted).1).outcome permitted).1,
        (p.outcome permitted).2 ++ ((f (p.outcome permitted).1).outcome permitted).2) := by
  induction p with
  | done a => rfl
  | call name args next ih => simp only [bind, outcome, ih, List.cons_append]
  | within mode body next _ ih => simp only [bind, outcome, ih]

end FrameProgram

/-! ### Computations with calls -/

namespace Calls

variable {α : Type}

/-- A computation with calls as a program that opens no frames. -/
def toProgram : Calls α → FrameProgram α
  | done a => .done a
  | call name args next => .call name args fun ok => (next ok).toProgram

theorem runIn_eq (c : Calls α) (a : Ambient) :
    c.runIn a = ((c.toProgram.outcome a.permits).1,
      a.map (·.recordAll (c.toProgram.outcome a.permits).2)) := by
  induction c generalizing a with
  | done x => cases a <;> rfl
  | call name args next ih =>
    have same : (a.record name args).permits = a.permits :=
      Ambient.permits_map (fun f => f.mode_record name args) a
    rw [runIn, ih, same, Ambient.record, Option.map_map]
    rfl

theorem inFrame_eq (mode : EvalMode) (c : Calls α) :
    c.inFrame mode = ((c.toProgram.outcome (mode = .trigger)).1,
      .ofCalls mode (c.toProgram.outcome (mode = .trigger)).2) := by
  rw [inFrame, runIn_eq, Option.map_some, Frame.recordAll_fresh]
  rfl

end Calls

/-- A binding fails with the name of the first builtin that its code calls, whatever the code makes
of the denial. -/
theorem Evaluator.runBinding_eq (e : Evaluator) (code : String) (scope : Scope) :
    e.runBinding code scope =
      match (e.run code scope).toProgram.outcome false with
      | (_, c :: _) => .error (.actionInBinding c.name)
      | (.ok j, []) => .ok j
      | (.error f, []) => .error (.ofScript .evaluation f) := by
  have denied : decide (EvalMode.binding = .trigger) = false := rfl
  rw [runBinding, Calls.inFrame_eq, denied]
  rcases (e.run code scope).toProgram.outcome false with ⟨result, _ | ⟨c, calls⟩⟩
  · cases result <;> rfl
  · rfl

/-! ### Lists of steps -/

namespace FrameProgram

mutual

/-- A step as a program. -/
def ofStep : FrameStep → FrameProgram StepOutcome
  | .call name args => .call name args fun ok => .done (.called name ok)
  | .within mode steps =>
    .within mode (ofSteps steps) fun outcomes report => .done (.framed outcomes report)

/-- Steps as a program that takes them one after another. -/
def ofSteps : List FrameStep → FrameProgram (List StepOutcome)
  | [] => .done []
  | s :: ss => (ofStep s).bind fun outcome => (ofSteps ss).bind fun outcomes =>
    .done (outcome :: outcomes)

end

end FrameProgram

namespace FrameStep

open FrameProgram

mutual

theorem run_eq (s : FrameStep) (a : Ambient) :
    s.run a = (((ofStep s).outcome a.permits).1,
      a.map (·.recordAll ((ofStep s).outcome a.permits).2)) := by
  cases s with
  | call name args => rfl
  | within mode steps =>
    rw [run, runAll_eq steps, Option.map_some, Frame.recordAll_fresh]
    cases a <;> rfl

theorem runAll_eq (steps : List FrameStep) (a : Ambient) :
    runAll steps a = (((ofSteps steps).outcome a.permits).1,
      a.map (·.recordAll ((ofSteps steps).outcome a.permits).2)) := by
  cases steps with
  | nil => cases a <;> rfl
  | cons s ss =>
    have same : Ambient.permits (a.map (·.recordAll ((ofStep s).outcome a.permits).2)) =
        a.permits := Ambient.permits_map (fun f => f.mode_recordAll _) a
    simp only [runAll, run_eq s, runAll_eq ss, same, Option.map_map, ofSteps, outcome_bind, outcome,
      List.append_nil]
    simp only [Function.comp_def, Frame.recordAll_append]

end

end FrameStep

/-! ### Isolation -/

namespace FrameProgram

/-- A trigger frame reports the actions of the calls made directly in it and no violation; a binding
frame reports no actions and the first of these calls. The calls in a binding frame and those outside
all frames are denied. Other frames stay as they were, also when a program goes on behind a frame
inside it. A binding whose code calls a builtin fails with the name of the first, whatever the code
makes of the denial. -/
theorem frames_isolated :
    (∀ {α : Type} (p : FrameProgram α) (frames : List Frame),
      p.run (.fresh .trigger :: frames) =
        ((p.outcome true).1, ⟨.trigger, (p.outcome true).2.map (·.action), none⟩ :: frames) ∧
      p.run (.fresh .binding :: frames) =
        ((p.outcome false).1,
          ⟨.binding, [], (p.outcome false).2.head?.map (·.name)⟩ :: frames) ∧
      p.run [] = ((p.outcome false).1, [])) ∧
    (∀ {α β : Type} (mode : EvalMode) (body : FrameProgram β)
        (next : β → FrameReport → FrameProgram α) (frames : List Frame),
      (within mode body next).run frames =
        (next (body.outcome (mode = .trigger)).1
          (.ofCalls mode (body.outcome (mode = .trigger)).2)).run frames) ∧
    (∀ (steps : List FrameStep) (a : Ambient), FrameStep.runAll steps a =
      (((ofSteps steps).outcome a.permits).1,
        a.map (·.recordAll ((ofSteps steps).outcome a.permits).2))) ∧
    ∀ (e : Evaluator) (code : String) (scope : Scope), e.runBinding code scope =
      match (e.run code scope).toProgram.outcome false with
      | (_, c :: _) => .error (.actionInBinding c.name)
      | (.ok j, []) => .ok j
      | (.error f, []) => .error (.ofScript .evaluation f) :=
  ⟨fun p frames => ⟨p.run_fresh .trigger frames, p.run_fresh .binding frames, p.run_nil⟩,
    run_within, FrameStep.runAll_eq, Evaluator.runBinding_eq⟩

/-- A binding frame inside a trigger frame keeps the denied call to itself. -/
example :
    (within .trigger (within .binding (call "navigateTo" [] done) fun ok _ =>
        call "navigateTo" [] fun ok' => done (ok, ok'))
      fun oks report => done (oks, report.actions.length, report.violation)).run [] =
        (((false, true), 1, none), []) := rfl

end FrameProgram

end AppBuilder
