import AppBuilder.Layout.Runner
import AppBuilder.Trace
import Mathlib.Data.List.Nodup

/-!
The latest event wins.

Events are numbered in the order they come and pass through the queue and the hands of the
worker in that order (`Issued`, `Conveyed`), so the event that the worker compares is older
than every event that is not numbered yet. A commit therefore never overtakes a newer event,
and an event that was run without being committed has failed or is not the newest
(`Committed`). The three invariants are kept by every step of the caller and the worker.

Main statement: `latest_wins`.
-/

namespace AppBuilder.Runner

variable {ε τ : Type}

/-! ### What a history tells -/

/-- The event that gets a number. -/
def Happening.numbered? : Happening ε τ → Option (Job ε)
  | .numbered job => some job
  | _ => none

/-- The event that comes into the queue. -/
def Happening.queued? : Happening ε τ → Option (Job ε)
  | .queued job => some job
  | _ => none

/-- The event that the worker runs, with its effect. -/
def Happening.ran? : Happening ε τ → Option (Job ε × Option τ)
  | .ran job effect => some (job, effect)
  | _ => none

/-- The events that got a number, oldest first. -/
def numbered (h : List (Happening ε τ)) : List (Job ε) := h.filterMap Happening.numbered?

/-- The events that came into the queue, oldest first. -/
def queued (h : List (Happening ε τ)) : List (Job ε) := h.filterMap Happening.queued?

/-- The events that the worker ran, oldest first, each with its effect. -/
def runs (h : List (Happening ε τ)) : List (Job ε × Option τ) := h.filterMap Happening.ran?

section Views

variable (h h' : List (Happening ε τ)) (what : Happening ε τ)

@[simp] theorem numbered_append : numbered (h ++ h') = numbered h ++ numbered h' :=
  List.filterMap_append

@[simp] theorem numbered_one : numbered [what] = what.numbered?.toList := by
  cases what <;> rfl

@[simp] theorem queued_snoc : queued (h ++ [what]) = queued h ++ what.queued?.toList :=
  filterMap_snoc _ _ _

@[simp] theorem runs_snoc : runs (h ++ [what]) = runs h ++ what.ran?.toList :=
  filterMap_snoc _ _ _

end Views

/-- At a comparison of the event no event had a larger number. -/
def Newest (h : List (Happening ε τ)) (job : Job ε) : Prop :=
  ∃ before after, h = before ++ .compared job :: after ∧
    ∀ newer ∈ numbered before, newer.number ≤ job.number

section Newest

variable {h before after : List (Happening ε τ)} {job newer : Job ε}

theorem Newest.append (newest : Newest h job) (more : List (Happening ε τ)) :
    Newest (h ++ more) job := by
  obtain ⟨before, after, rfl, hle⟩ := newest
  exact ⟨before, after ++ more, by simp, hle⟩

/-- Up to its comparison, nothing newer than the event was numbered. -/
theorem Newest.number_le (newest : Newest h job) (split : h = before ++ after)
    (notYet : .compared job ∉ before) (mem : newer ∈ numbered before) :
    newer.number ≤ job.number := by
  obtain ⟨earlier, later, rfl, hle⟩ := newest
  rcases List.append_eq_append_iff.mp split with ⟨rest, rfl, hrest⟩ | ⟨rest, rfl, -⟩
  · cases rest with
    | nil => exact hle newer (by simpa using mem)
    | cons what rest =>
      obtain ⟨rfl, -⟩ := List.cons.inj hrest
      simp at notYet
  · exact hle newer (by simp [mem])

end Newest

/-! ### Turns of the worker -/

variable {effect : τ → ε → Option τ}

/-- A turn of the worker, by what the worker does in it. -/
inductive Turn (effect : τ → ε → Option τ) (r : Runner ε τ) :
    Happening ε τ → Runner ε τ → Prop where
  | receive {job : Job ε} {queue : List (Job ε)} :
    r.phase = .idle → r.queue = job :: queue →
    Turn effect r (.taken job) { r with phase := .holding job, queue }
  | coalesce {old job : Job ε} {queue : List (Job ε)} :
    r.phase = .holding old → r.queue = job :: queue →
    Turn effect r (.taken job) { r with phase := .holding job, queue }
  | settle {job : Job ε} :
    r.phase = .holding job → r.queue = [] →
    Turn effect r (.settled job) { r with phase := .chosen job }
  | run {job : Job ε} :
    r.phase = .chosen job →
    Turn effect r (.ran job (effect r.store job.event))
      { r with phase := .finished job (effect r.store job.event) }
  | fail {job : Job ε} :
    r.phase = .finished job none → Turn effect r (.failed job) { r with phase := .idle }
  | approve {job : Job ε} {after : τ} :
    r.phase = .finished job (some after) → job.number = r.latest →
    Turn effect r (.compared job) { r with phase := .approved job after }
  | supersede {job : Job ε} {after : τ} :
    r.phase = .finished job (some after) → job.number ≠ r.latest →
    Turn effect r (.compared job) { r with phase := .idle }
  | commit {job : Job ε} {after : τ} :
    r.phase = .approved job after →
    Turn effect r (.committed job)
      { r with phase := .idle, store := after, commits := r.commits ++ [job] }

theorem turn_of_work {r r' : Runner ε τ} {what : Happening ε τ}
    (next : r.next effect = some what) (work : r.work effect = some r') :
    Turn effect r what r' := by
  unfold Runner.next at next
  unfold Runner.work at work
  cases phase : r.phase with
  | idle =>
    cases queue : r.queue with
    | nil => simp [phase, queue] at work
    | cons job rest =>
      simp only [phase, queue, Option.some.injEq] at next work
      exact next ▸ work ▸ .receive phase queue
  | holding old =>
    cases queue : r.queue with
    | nil =>
      simp only [phase, queue, Option.some.injEq] at next work
      have unchanged : { r with phase := .chosen old } = r' := by rw [← work, ← queue]
      exact next ▸ unchanged ▸ .settle phase queue
    | cons job rest =>
      simp only [phase, queue, Option.some.injEq] at next work
      exact next ▸ work ▸ .coalesce phase queue
  | chosen job =>
    simp only [phase, Option.some.injEq] at next work
    exact next ▸ work ▸ .run phase
  | finished job outcome =>
    cases outcome with
    | none =>
      simp only [phase, Option.some.injEq] at next work
      exact next ▸ work ▸ .fail phase
    | some after =>
      simp only [phase, Option.some.injEq] at next work
      split at work
      · exact next ▸ Option.some.inj work ▸ .approve phase ‹_›
      · exact next ▸ Option.some.inj work ▸ .supersede phase ‹_›
  | approved job after =>
    simp only [phase, Option.some.injEq] at next work
    exact next ▸ work ▸ .commit phase

/-! ### Numbers -/

/-- The events are numbered from one on, and the last one may not be queued yet. -/
structure Issued (h : List (Happening ε τ)) (r : Runner ε τ) : Prop where
  numbers : (numbered h).map Job.number = List.range' 1 r.latest
  waiting : numbered h = queued h ++ r.caller.toList

namespace Issued

variable {h : List (Happening ε τ)} {r r' : Runner ε τ} {what : Happening ε τ}

theorem start (store : τ) : Issued [] (Runner.start store : Runner ε τ) := ⟨rfl, rfl⟩

theorem increasing (issued : Issued h r) :
    (numbered h).Pairwise fun a b => a.number < b.number := by
  have sorted : ((numbered h).map Job.number).Pairwise (· < ·) :=
    issued.numbers ▸ List.pairwise_lt_range'
  exact List.pairwise_map.mp sorted

theorem increasing_queued (issued : Issued h r) :
    (queued h).Pairwise fun a b => a.number < b.number :=
  (List.pairwise_append.mp (issued.waiting ▸ issued.increasing)).1

theorem number_le (issued : Issued h r) {job : Job ε} (mem : job ∈ numbered h) :
    job.number ≤ r.latest := by
  have : job.number ∈ List.range' 1 r.latest := issued.numbers ▸ List.mem_map_of_mem mem
  rw [List.mem_range'_1] at this
  omega

/-- The newest event has the last number, unless the caller still has it. -/
theorem number_eq (issued : Issued h r) (free : r.caller = none) {job : Job ε}
    (last : (queued h).getLast? = some job) : job.number = r.latest := by
  have waiting : numbered h = queued h := by simpa [free] using issued.waiting
  have : (List.range' 1 r.latest).getLast? = some job.number := by
    rw [← issued.numbers, waiting, List.getLast?_map, last, Option.map_some]
  rw [List.getLast?_range'] at this
  split at this
  · simp at this
  · have := Option.some.inj this
    omega

theorem turn (issued : Issued h r) (turn : Turn effect r what r') :
    Issued (h ++ [what]) r' := by
  cases turn <;> exact ⟨by simpa [Happening.numbered?] using issued.numbers,
    by simpa [Happening.numbered?, Happening.queued?] using issued.waiting⟩

theorem step (issued : Issued h r) (step : Step effect r what r') :
    Issued (h ++ [what]) r' := by
  cases step with
  | number e free =>
    exact ⟨by simp [Runner.number, issued.numbers, Happening.numbered?, List.range'_1_concat,
        Nat.add_comm],
      by simp [Runner.number, issued.waiting, free, Happening.numbered?, Happening.queued?]⟩
  | enqueue held =>
    exact ⟨by simpa [Runner.enqueue, Happening.numbered?] using issued.numbers,
      by simp [Runner.enqueue, issued.waiting, held, Happening.numbered?, Happening.queued?]⟩
  | work next work => exact issued.turn (turn_of_work next work)

end Issued

end AppBuilder.Runner

/-! ### The way of the events -/

namespace AppBuilder.WorkerPhase

variable {ε τ : Type}

/-- The event that the worker has. -/
def held : WorkerPhase ε τ → List (Job ε)
  | .idle => []
  | .holding job | .chosen job | .finished job _ | .approved job _ => [job]

/-- The event that the worker has, once it was run. -/
def tried : WorkerPhase ε τ → List (Job ε)
  | .idle | .holding _ | .chosen _ => []
  | .finished job _ | .approved job _ => [job]

@[simp] theorem held_idle : (.idle : WorkerPhase ε τ).held = [] := rfl

@[simp] theorem tried_idle : (.idle : WorkerPhase ε τ).tried = [] := rfl

theorem tried_sublist_held (phase : WorkerPhase ε τ) : phase.tried.Sublist phase.held := by
  cases phase <;> simp [tried, held]

end AppBuilder.WorkerPhase

namespace AppBuilder.Runner

variable {ε τ : Type} {effect : τ → ε → Option τ} {store : τ}

/-- The events go from the queue through the hands of the worker to the past, in their
order. -/
structure Conveyed (h : List (Happening ε τ)) (past : List (Job ε)) (r : Runner ε τ) : Prop where
  order : queued h = past ++ r.phase.held ++ r.queue
  commits_past : r.commits.Sublist past
  runs_past : ((runs h).map Prod.fst).Sublist (past ++ r.phase.tried)
  ran : ∀ job ∈ r.phase.tried, ∃ outcome, (job, outcome) ∈ runs h
  /-- Only a coalesced event may pass without a run, and a newer one follows it. -/
  rested : r.phase = .idle → ∀ job, past.getLast? = some job → ∃ outcome, (job, outcome) ∈ runs h

namespace Conveyed

variable {h : List (Happening ε τ)} {past : List (Job ε)} {r r' : Runner ε τ}
  {what : Happening ε τ}

theorem start : Conveyed [] [] (Runner.start store : Runner ε τ) where
  order := rfl
  commits_past := .slnil
  runs_past := .slnil
  ran := by simp [Runner.start]
  rested := by simp

theorem mem_numbered (conveyed : Conveyed h past r) (issued : Issued h r) {job : Job ε}
    (mem : job ∈ r.phase.held) : job ∈ numbered h := by
  simp [issued.waiting, conveyed.order, mem]

/-- No event is run twice. -/
theorem outcome_unique (conveyed : Conveyed h past r) (issued : Issued h r) {job : Job ε}
    {outcome outcome' : Option τ} (mem : (job, outcome) ∈ runs h)
    (mem' : (job, outcome') ∈ runs h) : outcome = outcome' := by
  have came : (past ++ r.phase.tried).Sublist (queued h) := by
    rw [conveyed.order]
    exact ((List.Sublist.refl past).append r.phase.tried_sublist_held).trans
      (List.sublist_append_left _ _)
  have ordered := issued.increasing_queued.sublist (conveyed.runs_past.trans came)
  have distinct : ((runs h).map Prod.fst).Nodup :=
    ordered.imp fun {a b} lt same => by subst same; exact Nat.lt_irrefl _ lt
  exact congrArg Prod.snd (List.inj_on_of_nodup_map distinct mem mem' rfl)

/-- The worker lets go of the event that it has run. -/
theorem release (conveyed : Conveyed h past r) {job : Job ε} (held : r.phase.held = [job])
    (tried : r.phase.tried = [job]) (noEntry : what.queued? = none) (noRun : what.ran? = none)
    (idle : r'.phase = .idle) (queue : r'.queue = r.queue)
    (commits : r'.commits.Sublist (r.commits ++ [job])) :
    Conveyed (h ++ [what]) (past ++ [job]) r' where
  order := by simp [noEntry, conveyed.order, held, idle, queue]
  commits_past := commits.trans (conveyed.commits_past.append (.refl _))
  runs_past := by simpa [noRun, idle, tried] using conveyed.runs_past
  ran := by simp [idle]
  rested := by
    intro _ last hlast
    obtain rfl : job = last := by simpa using hlast
    simpa [noRun] using conveyed.ran job (by simp [tried])

theorem turn (conveyed : Conveyed h past r) (turn : Turn effect r what r') :
    ∃ past', Conveyed (h ++ [what]) past' r' := by
  have order := conveyed.order
  have sub := conveyed.runs_past
  cases turn with
  | receive phase queue =>
    simp only [phase, queue, WorkerPhase.held, WorkerPhase.tried, List.append_nil] at order sub
    exact ⟨past, {
      order := by simp [Happening.queued?, order, WorkerPhase.held]
      commits_past := conveyed.commits_past
      runs_past := by simpa [Happening.ran?, WorkerPhase.tried] using sub
      ran := by simp [WorkerPhase.tried]
      rested := by simp }⟩
  | @coalesce old _ _ phase queue =>
    simp only [phase, queue, WorkerPhase.held, WorkerPhase.tried, List.append_nil] at order sub
    exact ⟨past ++ [old], {
      order := by simp [Happening.queued?, order, WorkerPhase.held]
      commits_past := conveyed.commits_past.trans (List.sublist_append_left _ _)
      runs_past := by
        simpa [Happening.ran?, WorkerPhase.tried] using sub.trans (List.sublist_append_left _ _)
      ran := by simp [WorkerPhase.tried]
      rested := by simp }⟩
  | settle phase queue =>
    simp only [phase, queue, WorkerPhase.held, WorkerPhase.tried, List.append_nil] at order sub
    exact ⟨past, {
      order := by simp [Happening.queued?, order, queue, WorkerPhase.held]
      commits_past := conveyed.commits_past
      runs_past := by simpa [Happening.ran?, WorkerPhase.tried] using sub
      ran := by simp [WorkerPhase.tried]
      rested := by simp }⟩
  | run phase =>
    simp only [phase, WorkerPhase.held, WorkerPhase.tried, List.append_nil] at order sub
    exact ⟨past, {
      order := by simp [Happening.queued?, order, WorkerPhase.held]
      commits_past := conveyed.commits_past
      runs_past := by simpa [Happening.ran?, WorkerPhase.tried] using sub
      ran := by simp [Happening.ran?, WorkerPhase.tried]
      rested := by simp }⟩
  | approve phase _ =>
    simp only [phase, WorkerPhase.held, WorkerPhase.tried] at order sub
    exact ⟨past, {
      order := by simp [Happening.queued?, order, WorkerPhase.held]
      commits_past := conveyed.commits_past
      runs_past := by simpa [Happening.ran?, WorkerPhase.tried] using sub
      ran := by simpa [Happening.ran?, phase, WorkerPhase.tried] using conveyed.ran
      rested := by simp }⟩
  | fail phase =>
    exact ⟨_, conveyed.release (by rw [phase]; rfl) (by rw [phase]; rfl) rfl rfl rfl rfl
      (List.sublist_append_left _ _)⟩
  | supersede phase _ =>
    exact ⟨_, conveyed.release (by rw [phase]; rfl) (by rw [phase]; rfl) rfl rfl rfl rfl
      (List.sublist_append_left _ _)⟩
  | commit phase =>
    exact ⟨_, conveyed.release (by rw [phase]; rfl) (by rw [phase]; rfl) rfl rfl rfl rfl
      (.refl _)⟩

/-- What the caller does leaves the past and the hands of the worker alone. -/
theorem wait (conveyed : Conveyed h past r) (noRun : what.ran? = none)
    (phase : r'.phase = r.phase) (queue : r'.queue = r.queue ++ what.queued?.toList)
    (commits : r'.commits = r.commits) : Conveyed (h ++ [what]) past r' where
  order := by simp [conveyed.order, phase, queue]
  commits_past := commits ▸ conveyed.commits_past
  runs_past := by simpa [noRun, phase] using conveyed.runs_past
  ran := by simpa [noRun, phase] using conveyed.ran
  rested := by simpa [noRun, phase] using conveyed.rested

theorem step (conveyed : Conveyed h past r) (step : Step effect r what r') :
    ∃ past', Conveyed (h ++ [what]) past' r' := by
  cases step with
  | number e _ => exact ⟨past, conveyed.wait rfl rfl (by simp [Runner.number]; rfl) rfl⟩
  | enqueue held => exact ⟨past, conveyed.wait rfl rfl (by simp [Runner.enqueue, held]; rfl) rfl⟩
  | work next work => exact conveyed.turn (turn_of_work next work)

end Conveyed

/-! ### Commits -/

/-- What the worker knows of the event that it was running. -/
def Known (effect : τ → ε → Option τ) (h : List (Happening ε τ)) (store : τ) :
    WorkerPhase ε τ → Prop
  | .idle | .holding _ | .chosen _ => True
  | .finished job outcome => effect store job.event = outcome ∧ (job, outcome) ∈ runs h
  | .approved job after =>
    effect store job.event = some after ∧ (job, some after) ∈ runs h ∧ Newest h job

theorem Known.append {h : List (Happening ε τ)} {t : τ} {phase : WorkerPhase ε τ}
    (known : Known effect h t phase) (what : Happening ε τ) :
    Known effect (h ++ [what]) t phase := by
  cases phase with
  | idle | holding _ | chosen _ => trivial
  | finished job outcome => exact ⟨known.1, by simp [known.2]⟩
  | approved job after => exact ⟨known.1, by simp [known.2.1], known.2.2.append _⟩

/-- The store is what the committed events make of the first one, and an event that has an
effect is committed unless there is a newer one. -/
structure Committed (effect : τ → ε → Option τ) (store : τ) (h : List (Happening ε τ))
    (r : Runner ε τ) : Prop where
  applied : r.commits.foldlM (fun t job => effect t job.event) store = some r.store
  known : Known effect h r.store r.phase
  newest : ∀ job ∈ r.commits, Newest h job
  ran : ∀ job ∈ r.commits, ∃ after, (job, some after) ∈ runs h
  effective : ∀ job after, (job, some after) ∈ runs h →
    job ∈ r.commits ∨ job ∈ r.phase.tried ∨ job.number < r.latest

namespace Committed

variable {h : List (Happening ε τ)} {past : List (Job ε)} {r r' : Runner ε τ}
  {what : Happening ε τ}

theorem start (effect : τ → ε → Option τ) (store : τ) :
    Committed effect store [] (Runner.start store : Runner ε τ) where
  applied := rfl
  known := trivial
  newest := by simp [Runner.start]
  ran := by simp [Runner.start]
  effective := by simp [runs]

/-- A step that neither runs nor commits an event. -/
theorem keep (committed : Committed effect store h r) (noRun : what.ran? = none)
    (store_eq : r'.store = r.store) (commits : r'.commits = r.commits)
    (latest : r.latest ≤ r'.latest) (known : Known effect (h ++ [what]) r'.store r'.phase)
    (held : ∀ job ∈ r.phase.tried, ∀ after, (job, some after) ∈ runs h →
      job ∈ r'.phase.tried ∨ job.number < r'.latest) :
    Committed effect store (h ++ [what]) r' where
  applied := by rw [commits, store_eq, committed.applied]
  known := known
  newest := fun job mem => (committed.newest job (commits ▸ mem)).append _
  ran := by simpa [commits, noRun] using committed.ran
  effective := by
    intro job after mem
    have before : (job, some after) ∈ runs h := by simpa [noRun] using mem
    rcases committed.effective job after before with done | tried | older
    · exact .inl (commits ▸ done)
    · exact .inr (held job tried after before)
    · exact .inr (.inr (by omega))

theorem turn (committed : Committed effect store h r) (issued : Issued h r)
    (conveyed : Conveyed h past r) (turn : Turn effect r what r') :
    Committed effect store (h ++ [what]) r' := by
  have known := committed.known
  cases turn with
  | receive phase _ =>
    exact committed.keep rfl rfl rfl (Nat.le_refl _) trivial (by simp [phase, WorkerPhase.tried])
  | coalesce phase _ =>
    exact committed.keep rfl rfl rfl (Nat.le_refl _) trivial (by simp [phase, WorkerPhase.tried])
  | settle phase _ =>
    exact committed.keep rfl rfl rfl (Nat.le_refl _) trivial (by simp [phase, WorkerPhase.tried])
  | run phase =>
    exact {
      applied := committed.applied
      known := by simp [Known, Happening.ran?]
      newest := fun job mem => (committed.newest job mem).append _
      ran := fun job mem => (committed.ran job mem).imp fun _ => by simp +contextual
      effective := by
        intro job after mem
        simp only [runs_snoc, Happening.ran?, Option.toList, List.mem_append,
          List.mem_singleton, Prod.mk.injEq] at mem
        rcases mem with mem | ⟨rfl, -⟩
        · rcases committed.effective job after mem with done | tried | older
          · exact .inl done
          · simp [phase, WorkerPhase.tried] at tried
          · exact .inr (.inr older)
        · simp [WorkerPhase.tried] }
  | @fail job phase =>
    simp only [phase, Known] at known
    refine committed.keep rfl rfl rfl (Nat.le_refl _) trivial fun other tried after mem => ?_
    obtain rfl : other = job := by simpa [phase, WorkerPhase.tried] using tried
    -- The event was run once only, and it failed.
    exact absurd (conveyed.outcome_unique issued known.2 mem) (by simp)
  | @approve job after phase same =>
    simp only [phase, Known] at known
    refine committed.keep rfl rfl rfl (Nat.le_refl _) ?_ ?_
    · refine ⟨known.1, by simpa [Happening.ran?] using known.2, h, [], rfl, fun newer mem => ?_⟩
      exact same ▸ issued.number_le mem
    · simp [phase, WorkerPhase.tried]
  | @supersede job after phase other =>
    refine committed.keep rfl rfl rfl (Nat.le_refl _) trivial fun job' tried _ _ => .inr ?_
    obtain rfl : job' = job := by simpa [phase, WorkerPhase.tried] using tried
    have mem : job' ∈ numbered h :=
      conveyed.mem_numbered issued (by simp [phase, WorkerPhase.held])
    exact Nat.lt_of_le_of_ne (issued.number_le mem) other
  | @commit job after phase =>
    simp only [phase, Known] at known
    exact {
      applied := by simp [List.foldlM_append, committed.applied, known.1]
      known := trivial
      newest := by
        intro job' mem
        rcases List.mem_append.mp mem with mem | mem
        · exact (committed.newest job' mem).append _
        · obtain rfl := List.mem_singleton.mp mem
          exact known.2.2.append _
      ran := by
        intro job' mem
        rcases List.mem_append.mp mem with mem | mem
        · simpa [Happening.ran?] using committed.ran job' mem
        · exact ⟨after, by simp [List.mem_singleton.mp mem, known.2.1]⟩
      effective := by
        intro job' after' mem
        have before : (job', some after') ∈ runs h := by simpa [Happening.ran?] using mem
        rcases committed.effective job' after' before with done | tried | older
        · exact .inl (List.mem_append_left _ done)
        · have last : job' ∈ [job] := by simpa [phase, WorkerPhase.tried] using tried
          exact .inl (List.mem_append_right _ last)
        · exact .inr (.inr older) }

theorem step (committed : Committed effect store h r) (issued : Issued h r)
    (conveyed : Conveyed h past r) (step : Step effect r what r') :
    Committed effect store (h ++ [what]) r' := by
  cases step with
  | number e _ =>
    exact committed.keep rfl rfl rfl (Nat.le_succ _) (committed.known.append _)
      fun _ tried _ _ => .inl tried
  | enqueue _ =>
    exact committed.keep rfl rfl rfl (Nat.le_refl _) (committed.known.append _)
      fun _ tried _ _ => .inl tried
  | work next work => exact committed.turn issued conveyed (turn_of_work next work)

end Committed

/-! ### Runs -/

/-- The three invariants after every run. -/
theorem committed_of_trace {h : List (Happening ε τ)} {r : Runner ε τ}
    (trace : Trace (Step effect) (.start store) h r) :
    Issued h r ∧ (∃ past, Conveyed h past r) ∧ Committed effect store h r := by
  induction trace with
  | nil => exact ⟨.start store, ⟨[], .start⟩, .start effect store⟩
  | snoc _ step ih =>
    obtain ⟨issued, ⟨past, conveyed⟩, committed⟩ := ih
    exact ⟨issued.step step, conveyed.step step, committed.step issued conveyed step⟩

/-- In every interleaving of one caller and the worker, the numbers of the commits increase,
an event is not committed once a newer one was numbered before its comparison, and the
committed events make the store. To dispatch an event is to number it and then to queue it.
While no dispatch is half done, which is when the caller holds no event, the events queued are
all that were dispatched. When the worker is idle and the queue empty, the newest event queued
has been run, and if no dispatch is half done, which would be that of a newer event, it is
committed just if it has an effect. -/
theorem latest_wins (c : LayoutConfig) (factory : WidgetFactory) {t : WidgetTree}
    {h : List (Happening DropEvent WidgetTree)} {r : Runner DropEvent WidgetTree}
    (trace : Trace (Step (DropEvent.effect c factory)) (.start t) h r) :
    r.commits.Pairwise (fun a b => a.number < b.number) ∧
    (∀ before after job newer, h = before ++ after → .compared job ∉ before →
      newer ∈ numbered before → job.number < newer.number → job ∉ r.commits) ∧
    r.commits.foldlM (fun t job => DropEvent.effect c factory t job.event) t = some r.store ∧
    numbered h = queued h ++ r.caller.toList ∧
    (r.queue = [] → r.phase = .idle → ∀ job, (queued h).getLast? = some job →
      (∃ outcome, (job, outcome) ∈ runs h) ∧
      (r.caller = none → ∀ outcome, (job, outcome) ∈ runs h →
        (job ∈ r.commits ↔ outcome.isSome))) := by
  obtain ⟨issued, ⟨past, conveyed⟩, committed⟩ := committed_of_trace trace
  refine ⟨?_, ?_, committed.applied, issued.waiting, ?_⟩
  · have passed : past.Sublist (queued h) := by
      rw [conveyed.order, List.append_assoc]
      exact List.sublist_append_left _ _
    exact issued.increasing_queued.sublist (conveyed.commits_past.trans passed)
  · intro before after job newer split notYet mem older commit
    have := (committed.newest job commit).number_le split notYet mem
    omega
  · intro queue idle job last
    have past_last : past.getLast? = some job := by
      simpa [conveyed.order, queue, idle] using last
    refine ⟨conveyed.rested idle job past_last, fun free outcome mem => ⟨fun commit => ?_, ?_⟩⟩
    · obtain ⟨after, ran⟩ := committed.ran job commit
      simp [conveyed.outcome_unique issued mem ran]
    · intro effective
      obtain ⟨after, rfl⟩ := Option.isSome_iff_exists.mp effective
      rcases committed.effective job after mem with done | tried | older
      · exact done
      · simp [idle] at tried
      · exact absurd (issued.number_eq free last) (Nat.ne_of_lt older)

/-- A canvas with one widget. -/
def lone : WidgetTree :=
  .ofList [
    { Widget.ofType mainContainerId canvasType with children := ["a"] },
    { Widget.ofType "a" "TEXT_WIDGET" with parent := some mainContainerId }]

/-- A drop, and one that comes while the worker runs it. -/
def overtaken : Job DropEvent :=
  ⟨1, .move ["a"] ⟨mainContainerId, 0, 0, 0, .start, true, .vertical⟩⟩

def overtaking : Job DropEvent :=
  ⟨2, .move ["a"] ⟨mainContainerId, 0, 0, 0, .center, true, .vertical⟩⟩

theorem latest_wins_overtaking :
    ∃ (h : List (Happening DropEvent WidgetTree)) (r : Runner DropEvent WidgetTree),
      Trace (Step (DropEvent.effect {} .lastChild)) (.start lone) h r ∧
      r.queue = [] ∧ r.phase = .idle ∧ r.caller = none ∧ queued h = [overtaken, overtaking] ∧
      overtaken ∉ r.commits ∧ overtaking ∈ r.commits := by
  let effect := DropEvent.effect {} .lastChild
  let first := effect lone overtaken.event
  let second := effect lone overtaking.event
  let ranFirst : List (Happening DropEvent WidgetTree) :=
    [.numbered overtaken, .queued overtaken, .taken overtaken, .settled overtaken,
      .ran overtaken first, .numbered overtaking]
  let ranSecond : List (Happening DropEvent WidgetTree) :=
    [.queued overtaking, .compared overtaken, .taken overtaking, .settled overtaking,
      .ran overtaking second]
  have before : Trace (Step effect) (.start lone) ranFirst
      ⟨2, some overtaking, [], .finished overtaken first, lone, []⟩ :=
    (((((Trace.nil.snoc (Step.number overtaken.event rfl)).snoc (Step.enqueue rfl)).snoc
      (Step.work rfl rfl)).snoc (Step.work rfl rfl)).snoc (Step.work rfl rfl)).snoc
      (Step.number overtaking.event rfl)
  have after : Trace (Step effect) (.start lone) (ranFirst ++ ranSecond)
      ⟨2, none, [], .finished overtaking second, lone, []⟩ :=
    ((((before.snoc (Step.enqueue rfl)).snoc (Step.work rfl rfl)).snoc
      (Step.work rfl rfl)).snoc (Step.work rfl rfl)).snoc (Step.work rfl rfl)
  have trace : Trace (Step effect) (.start lone)
      (ranFirst ++ ranSecond ++ [.compared overtaking, .committed overtaking])
      ⟨2, none, [], .idle, second.getD lone, [overtaking]⟩ :=
    (after.snoc (Step.work rfl rfl)).snoc (Step.work rfl rfl)
  obtain ⟨-, newer, -, -, newest⟩ := latest_wins {} .lastChild trace
  refine ⟨_, _, trace, rfl, rfl, rfl, rfl, ?_, ?_⟩
  · exact newer ranFirst _ overtaken overtaking (List.append_assoc _ _ _)
      (by simp [ranFirst]) (.tail _ (.head _)) (by decide)
  · exact ((newest rfl rfl overtaking rfl).2 rfl second (.tail _ (.head _))).mpr rfl

end AppBuilder.Runner
