import AppBuilder.Layout.Drop

/-!
Running events in the background, the latest one winning.

A caller numbers its events and queues them. The worker takes an event, lets go of it as
long as there is a newer one in the queue, and works out its effect on the stored value.
The effect is committed if no newer event has been numbered in the meantime. `Step` has
every interleaving of one caller and the worker, each step with what happens in it;
`Runner.drain` lets the worker go on alone until it has nothing to do.
-/

namespace AppBuilder

/-- A numbered event. -/
structure Job (ε : Type) where
  number : Nat
  event : ε
deriving DecidableEq, Repr

/-- What the worker is doing. -/
inductive WorkerPhase (ε τ : Type) where
  | idle
  /-- It has an event and looks for a newer one. -/
  | holding (job : Job ε)
  /-- It has settled on an event. -/
  | chosen (job : Job ε)
  /-- It knows the effect of the event, `none` when the event fails. -/
  | finished (job : Job ε) (effect : Option τ)
  /-- It has seen no newer event. -/
  | approved (job : Job ε) (effect : τ)

/-- A caller, a worker and the stored value. -/
structure Runner (ε τ : Type) where
  /-- The number of the newest event. -/
  latest : Nat
  /-- An event that is numbered and not queued yet. -/
  caller : Option (Job ε)
  queue : List (Job ε)
  phase : WorkerPhase ε τ
  store : τ
  /-- The events committed so far. -/
  commits : List (Job ε)

namespace Runner

variable {ε τ : Type}

/-- A runner without events. -/
def start (store : τ) : Runner ε τ := ⟨0, none, [], .idle, store, []⟩

/-! ### The caller -/

/-- Number an event. -/
def number (r : Runner ε τ) (e : ε) : Runner ε τ :=
  { r with latest := r.latest + 1, caller := some ⟨r.latest + 1, e⟩ }

/-- Queue the numbered event. -/
def enqueue (r : Runner ε τ) : Runner ε τ :=
  { r with queue := r.queue ++ r.caller.toList, caller := none }

/-- Number an event and queue it. -/
def dispatch (r : Runner ε τ) (e : ε) : Runner ε τ := (r.number e).enqueue

/-! ### The worker -/

/-- One step of the worker, if there is anything to do. -/
def work (effect : τ → ε → Option τ) (r : Runner ε τ) : Option (Runner ε τ) :=
  match r.phase, r.queue with
  | .idle, [] => none
  | .idle, job :: queue => some { r with phase := .holding job, queue }
  | .holding _, job :: queue => some { r with phase := .holding job, queue }
  | .holding job, [] => some { r with phase := .chosen job }
  | .chosen job, _ => some { r with phase := .finished job (effect r.store job.event) }
  | .finished _ none, _ => some { r with phase := .idle }
  | .finished job (some after), _ =>
    if job.number = r.latest then some { r with phase := .approved job after }
    else some { r with phase := .idle }
  | .approved job after, _ =>
    some { r with phase := .idle, store := after, commits := r.commits ++ [job] }

/-- A bound on the steps that the worker can take alone. -/
def workLeft (r : Runner ε τ) : Nat :=
  5 * r.queue.length + match r.phase with
    | .idle => 0
    | .holding _ => 4
    | .chosen _ => 3
    | .finished _ _ => 2
    | .approved _ _ => 1

theorem workLeft_of_work {effect : τ → ε → Option τ} {r r' : Runner ε τ}
    (h : r.work effect = some r') : r'.workLeft < r.workLeft := by
  unfold work at h
  repeat' split at h
  all_goals simp only [Option.some.injEq, reduceCtorEq] at h
  all_goals subst h; simp_all only [workLeft, List.length_cons, List.length_nil]; omega

/-- Let the worker go on until it has nothing to do. -/
def drain (effect : τ → ε → Option τ) (r : Runner ε τ) : Runner ε τ :=
  match _h : r.work effect with
  | none => r
  | some r' => drain effect r'
termination_by r.workLeft
decreasing_by exact workLeft_of_work _h

/-! ### Interleavings -/

/-- What happens in a step. -/
inductive Happening (ε τ : Type) where
  | numbered (job : Job ε)
  | queued (job : Job ε)
  /-- The worker takes an event, in place of the one that it has. -/
  | taken (job : Job ε)
  | settled (job : Job ε)
  | ran (job : Job ε) (effect : Option τ)
  | failed (job : Job ε)
  /-- The worker looks for an event that is newer. -/
  | compared (job : Job ε)
  | committed (job : Job ε)

/-- What happens in the next step of the worker, if there is anything to do. -/
def next (effect : τ → ε → Option τ) (r : Runner ε τ) : Option (Happening ε τ) :=
  match r.phase, r.queue with
  | .idle, [] => none
  | .idle, job :: _ => some (.taken job)
  | .holding _, job :: _ => some (.taken job)
  | .holding job, [] => some (.settled job)
  | .chosen job, _ => some (.ran job (effect r.store job.event))
  | .finished job none, _ => some (.failed job)
  | .finished job (some _), _ => some (.compared job)
  | .approved job _, _ => some (.committed job)

/-- A step of the caller or of the worker. -/
inductive Step (effect : τ → ε → Option τ) : Runner ε τ → Happening ε τ → Runner ε τ → Prop where
  | number {r : Runner ε τ} (e : ε) :
    r.caller = none → Step effect r (.numbered ⟨r.latest + 1, e⟩) (r.number e)
  | enqueue {r : Runner ε τ} {job : Job ε} :
    r.caller = some job → Step effect r (.queued job) r.enqueue
  | work {r r' : Runner ε τ} {what : Happening ε τ} :
    r.next effect = some what → r.work effect = some r' → Step effect r what r'

end Runner

/-- The effect of an event on a widget tree, `none` when it fails. -/
def DropEvent.effect (c : LayoutConfig) (factory : WidgetFactory) (t : WidgetTree)
    (e : DropEvent) : Option WidgetTree :=
  (e.run c factory t).toOption

end AppBuilder
