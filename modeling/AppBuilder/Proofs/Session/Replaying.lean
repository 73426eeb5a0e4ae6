import AppBuilder.Proofs.Session.CanvasHistory

/-!
A step through the history of the canvas can be taken back.

The editor answers a step by having the restored canvas evaluated again. A tree that comes with
the current snapshot leaves the history as it is (`History.record_of_same`), and so do the requests
that only run code. What the step left behind is then still one step away in the other direction
(`Timeline.shift_opposite`).

Main statement: `replay_opposite_of_run`.
-/

namespace AppBuilder

/-! ### Opposite steps -/

/-- The step in the other direction. -/
def HistoryStep.opposite : HistoryStep → HistoryStep
  | undo => redo
  | redo => undo

/-- The request for a step through the history of an entity. -/
def HistoryStep.request : HistoryStep → Option String → RequestBody
  | undo => .undo
  | redo => .redo

/-- A step leads to a timeline from which the opposite step leads back. -/
theorem Timeline.shift_opposite {t t' : Timeline} {step : HistoryStep}
    (shift : t.shift? step = some t') : t'.shift? step.opposite = some t := by
  obtain ⟨past, present, future⟩ := t
  cases step with
  | undo =>
    obtain ⟨last, hlast, rfl⟩ := Option.map_eq_some_iff.mp shift
    simp [shift?, HistoryStep.opposite, List.dropLast_append_getLast? last hlast]
  | redo =>
    obtain ⟨next, hnext, rfl⟩ := Option.map_eq_some_iff.mp shift
    have split : next :: future.tail = future := (List.eq_cons_of_mem_head? hnext).symm
    simpa [shift?, HistoryStep.opposite] using split

/-- A snapshot equal to the current one changes nothing. -/
theorem History.record_of_same {h : History} {snapshot : Json}
    (same : (h.current == snapshot) = true) : h.record snapshot = (false, h) := if_pos same

/-! ### Requests that stay at a snapshot -/

/-- A tree that comes with given widgets and theme, or a request that only runs code. -/
def RequestBody.StaysAt (widgets theme : Json) : RequestBody → Prop
  | evalTree r => (r.widgets == widgets) = true ∧ (r.theme == theme) = true
  | evalTrigger _ | actionBindings _ _ | expression _ _ => True
  | _ => False

namespace Session

variable {s : Session} {h : History} {widgets theme : Json}

/-- With values, a request that stays at the current snapshot keeps the history. -/
theorem get?_canvas_of_staysAt (known : s.histories.get? canvas = some h)
    (current : h.current = .object [("theme", theme), ("widgets", widgets)])
    (valued : s.values ≠ none) {body : RequestBody} (stays : body.StaysAt widgets theme) :
    (s.answer body).2.values ≠ none ∧ (s.answer body).2.histories.get? canvas = some h := by
  refine ⟨fun gone => ?_, ?_⟩
  · rcases (s.values_answer_eq_none_iff body).mp gone with clearing | ⟨unvalued, -⟩
    · cases body <;> simp_all [RequestBody.StaysAt, RequestBody.isClearing]
    · exact valued unvalued
  · rw [s.get?_canvas_answer known fun _ => valued]
    cases body with
    | evalTree r =>
      have same : (h.current == canvasSnapshot r) = true := by
        have fields : theme.same r.theme = true ∧ widgets.same r.widgets = true :=
          ⟨Json.same_symm stays.2, Json.same_symm stays.1⟩
        rw [current]
        simp [canvasSnapshot, BEq.beq, Json.same, Json.sameFields, fields]
      by_cases recorded : r.recorded = true <;>
        simp [canvasCall?, recorded, History.afterCalls, History.after,
          History.record_of_same same]
    | evalTrigger _ | actionBindings _ _ | expression _ _ => rfl
    | setup | clearCache | undo _ | redo _ | setVersion _ | recordEntity _ _ _ => exact stays.elim

theorem get?_canvas_handleAll_of_staysAt (known : s.histories.get? canvas = some h)
    (current : h.current = .object [("theme", theme), ("widgets", widgets)])
    (valued : s.values ≠ none) {more : List Request}
    (stays : ∀ r ∈ more, r.body.StaysAt widgets theme) :
    (s.handleAll more).histories.get? canvas = some h := by
  induction more generalizing s with
  | nil => exact known
  | cons r rest ih =>
    obtain ⟨first, rest⟩ := List.forall_mem_cons.mp stays
    obtain ⟨valued, known⟩ := get?_canvas_of_staysAt known current valued first
    exact ih known valued rest

/-! ### Steps on the canvas -/

/-- The sessions that requests and disposals lead to. -/
inductive Reachable (config : EvalConfig) (evaluator : Evaluator) : Session → Prop
  | start : Reachable config evaluator (start config evaluator)
  | answer {s : Session} (body : RequestBody) :
    Reachable config evaluator s → Reachable config evaluator (s.answer body).2
  | dispose {s : Session} : Reachable config evaluator s → Reachable config evaluator s.dispose

theorem Reachable.allLaid {config : EvalConfig} {evaluator : Evaluator}
    (reachable : Reachable config evaluator s) : s.AllLaid := by
  induction reachable with
  | start => exact allLaid_start config evaluator
  | answer body _ ih => exact ih.answer body
  | dispose _ _ =>
    intro id h known
    simp [Session.dispose] at known

theorem answer_request (s : Session) (step : HistoryStep) (entity : Option String) :
    s.answer (step.request entity) = s.replay entity step := by
  cases step <;> rfl

variable {entity : Option String} (own : entity.getD canvas = canvas)
include own

theorem replay_of_known (known : s.histories.get? canvas = some h) (step : HistoryStep) :
    s.replay entity step = (.orNull ((h.replay step).1.map (·.toJson)),
      { s with histories := s.histories.insert canvas (h.replay step).2 }) := by
  unfold replay
  simp only [own, known]

/-- A step that gives a snapshot was taken on the timeline of the canvas. -/
theorem exists_shift_of_answered (laid : s.AllLaid) {step : HistoryStep} {snapshot : Json}
    (answered : (s.answer (step.request entity)).1.field? "replayEntity" = some snapshot) :
    ∃ kind limit, ∃ t t' : Timeline, s.histories.get? canvas = some (t.toHistory kind limit) ∧
      t.shift? step = some t' ∧ t'.present = snapshot ∧
      (s.answer (step.request entity)).2 =
        { s with histories := s.histories.insert canvas (t'.toHistory kind limit) } := by
  rw [answer_request] at answered ⊢
  cases known : s.histories.get? canvas with
  | none => simp [replay, own, known, Json.field?] at answered
  | some h =>
    obtain ⟨kind, t, rfl⟩ := laid canvas h known
    rw [replay_of_known own known, Timeline.replay_toHistory] at answered ⊢
    cases shift : t.shift? step with
    | none => simp [shift, Json.orNull, Json.field?] at answered
    | some t' =>
      refine ⟨kind, _, t, t', rfl, shift, ?_, rfl⟩
      simpa [shift, Json.orNull, Json.field?, Replayed.toJson, Entries.lookup] using answered

omit own

/-- After a step on the canvas that gives widgets and theme, any trees that come with them and any
requests that only run code leave the history of the canvas as the step left it, and the opposite
step gives the snapshot that was current before. -/
theorem replay_opposite_of_run {config : EvalConfig} {evaluator : Evaluator}
    (reachable : Reachable config evaluator s) (valued : s.values ≠ none) (step : HistoryStep)
    {entity entity' : Option String} (own : entity.getD canvas = canvas)
    (own' : entity'.getD canvas = canvas)
    (answered : (s.answer (step.request entity)).1.field? "replayEntity" =
      some (.object [("theme", theme), ("widgets", widgets)]))
    (more : List Request) (stays : ∀ r ∈ more, r.body.StaysAt widgets theme) :
    let s' := (s.answer (step.request entity)).2
    let back := (s'.handleAll more).answer (step.opposite.request entity')
    (s'.handleAll more).histories.get? canvas = s'.histories.get? canvas ∧
    ∃ before updates, s.histories.get? canvas = some before ∧
      back.1 = (Replayed.mk before.current before.kind step.opposite updates).toJson ∧
      back.2.histories.get? canvas = some before := by
  intro s' back
  obtain ⟨kind, limit, t, t', known, shift, present, after⟩ :=
    exists_shift_of_answered own reachable.allLaid answered
  have known' : s'.histories.get? canvas = some (t'.toHistory kind limit) := by
    simp [s', after]
  have stayed : (s'.handleAll more).histories.get? canvas = some (t'.toHistory kind limit) :=
    get?_canvas_handleAll_of_staysAt known' (by rw [Timeline.current_toHistory, present])
      (by simpa [s', after] using valued) stays
  refine ⟨stayed.trans known'.symm, _, History.changedFields t'.present t.present, known, ?_, ?_⟩
  · simp only [back, answer_request, replay_of_known own' stayed, Timeline.replay_toHistory,
      Timeline.shift_opposite shift, Timeline.current_toHistory]
    rfl
  · simp only [back, answer_request, replay_of_known own' stayed, Timeline.replay_toHistory,
      Timeline.shift_opposite shift, Dict.get?_insert, if_pos]

/-- After an undo the restored widgets come with another tree, then with an unrecorded one, and an
expression is evaluated; the redo gives the later widgets. -/
theorem replay_opposite_of_run_undo :
    let s := SessionWorker.bare.handleAll [⟨"1", widgetsTree 1⟩, ⟨"2", widgetsTree 2⟩]
    let restored := Json.object [("theme", .null), ("widgets", .int 1)]
    let more : List Request := [⟨"4", .evalTree ⟨.chain 1 "x", .int 1, .null, true⟩⟩,
      ⟨"5", .evalTree ⟨.empty, .int 1, .null, false⟩⟩, ⟨"6", .expression "N0.text" false⟩]
    s.values ≠ none ∧
    (s.answer (.undo none)).1.field? "replayEntity" = some restored ∧
    (∀ r ∈ more, r.body.StaysAt (.int 1) .null) ∧
    (((s.answer (.undo none)).2.handleAll more).answer (.redo none)).1.field? "replayEntity" =
      some (.object [("theme", .null), ("widgets", .int 2)]) := by
  intro s restored more
  have reachable : Reachable {} .path s := .answer _ (.answer _ .start)
  have valued : s.values ≠ none := Option.some_ne_none _
  have answered : (s.answer (.undo none)).1.field? "replayEntity" = some restored := rfl
  have stays : ∀ r ∈ more, r.body.StaysAt (.int 1) .null := by
    simp [more, RequestBody.StaysAt, BEq.beq, Json.same, Json.int, Number.same]
  refine ⟨valued, answered, stays, ?_⟩
  obtain ⟨-, before, updates, known, back, -⟩ :=
    replay_opposite_of_run reachable valued .undo rfl
      (show (none : Option String).getD canvas = canvas from rfl) answered more stays
  have current : before.current = .object [("theme", .null), ("widgets", .int 2)] := by
    obtain rfl : (_ : History) = before := Option.some.inj known
    rfl
  refine (congrArg (Json.field? · "replayEntity") back).trans ?_
  simp [Replayed.toJson, Json.field?, Entries.lookup, current]

end Session

end AppBuilder
