import AppBuilder.Proofs.History.Timeline
import AppBuilder.Proofs.Session.Separation

/-!
What becomes of the history of the canvas.

As long as there are values, a request uses the history of the canvas as `canvasCall?` tells, and
every snapshot up to the current one stays in it, apart from the oldest when it is full
(`History.Retains`). A tree that finds no values starts the history anew, whatever it was; there
are no values just when every tree was followed by a clearing (`values_handleAll_eq_none_iff`).

Main statements: `history_canvas_of_run`, `history_canvas_lost`.
-/

namespace AppBuilder

/-! ### Retained snapshots -/

/-- All snapshots up to the current one stay where they are in a later history, apart from as many
of the oldest as go beyond the limit when one more is recorded. -/
def History.Retains (h h' : History) : Prop :=
  ∃ lost, (h.snapshots.take (h.cursor + 1)).drop lost <+: h'.snapshots ∧
    (lost = 0 ∨ h.cursor + 2 = h.limit + lost)

namespace Timeline

variable {kind : String} {limit : Nat} {t t' : Timeline}

theorem retains_of_snapshots (same : t'.snapshots = t.snapshots) :
    (t.toHistory kind limit).Retains (t'.toHistory kind limit) := by
  refine ⟨0, ?_, .inl rfl⟩
  change List.take _ t.snapshots <+: t'.snapshots
  rw [same]
  exact List.take_prefix _ _

/-- No use of a history loses a snapshot that could be undone, but the oldest of a full one. -/
theorem retains_after (room : 0 < limit) (call : HistoryCall) :
    (t.toHistory kind limit).Retains ((t.after limit call).toHistory kind limit) := by
  cases call with
  | replay step =>
    cases shift : t.shift? step with
    | none => exact retains_of_snapshots (by simp [after, shift])
    | some t' => exact retains_of_snapshots (by simp [after, shift, snapshots_shift shift])
  | record snapshot =>
    by_cases same : (t.present == snapshot) = true
    · exact retains_of_snapshots (by simp [after, record, same])
    · have recorded := snapshots_record room (eq_false_of_ne_true same)
      have count : (t.past ++ [t.present] ++ [snapshot]).length = t.past.length + 2 := by simp
      have fits : t.past.length + 2 - limit ≤ (t.past ++ [t.present]).length := by
        rw [List.length_append, List.length_singleton]
        omega
      refine ⟨t.past.length + 2 - limit, ?_, ?_⟩
      · rw [take_toHistory]
        change _ <+: (t.record limit snapshot).2.snapshots
        rw [recorded, History.lastItems, count, List.drop_append_of_le_length fits]
        exact List.prefix_append _ _
      · change _ ∨ t.past.length + 2 = limit + _
        omega

end Timeline

/-! ### Histories of a session -/

/-- Whether a request clears the values. -/
def RequestBody.isClearing : RequestBody → Bool
  | clearCache => true
  | _ => false

/-- A history that is a timeline with a limit. -/
def History.Laid (limit : Nat) (h : History) : Prop :=
  ∃ kind, ∃ t : Timeline, h = t.toHistory kind limit

theorem History.Laid.start (kind : String) (first : Json) (limit : Nat) :
    (History.start kind first limit).Laid (max limit 1) := ⟨kind, .start first, rfl⟩

theorem History.Laid.after {limit : Nat} {h : History} (laid : h.Laid limit) (room : 0 < limit)
    (call : HistoryCall) : (h.after call).Laid limit := by
  obtain ⟨kind, t, rfl⟩ := laid
  exact ⟨kind, t.after limit call, Timeline.after_toHistory kind t room call⟩

theorem History.Laid.retains {limit : Nat} {h : History} (laid : h.Laid limit) (room : 0 < limit)
    (call : HistoryCall) : h.Retains (h.after call) := by
  obtain ⟨kind, t, rfl⟩ := laid
  rw [Timeline.after_toHistory kind t room]
  exact Timeline.retains_after room call

theorem History.Retains.refl (h : History) : h.Retains h :=
  ⟨0, by simpa using List.take_prefix _ _, .inl rfl⟩

namespace Session

/-- How a request uses the history of the canvas, if it does. -/
def canvasCall? : RequestBody → Option HistoryCall
  | .evalTree r => if r.recorded then some (.record (canvasSnapshot r)) else none
  | .undo entity => if entity.getD canvas = canvas then some (.replay .undo) else none
  | .redo entity => if entity.getD canvas = canvas then some (.replay .redo) else none
  | .recordEntity snapshot entity _ => if entity = canvas then some (.record snapshot) else none
  | _ => none

/-! ### Values -/

variable (s : Session)

/-- With values, a request uses the history of the canvas as told. -/
theorem get?_canvas_answer {h : History} (known : s.histories.get? canvas = some h)
    {body : RequestBody} (valued : body.isTree = true → s.values ≠ none) :
    (s.answer body).2.histories.get? canvas = some (h.afterCalls (canvasCall? body).toList) := by
  rw [get?_histories_answer]
  cases body with
  | evalTree r =>
    obtain ⟨t, ht⟩ := Option.ne_none_iff_exists'.mp (valued rfl)
    by_cases recorded : r.recorded <;>
      simp [historyAfter, canvasCall?, ht, known, recorded, History.afterCalls, History.after]
  | undo entity | redo entity =>
    by_cases own : entity.getD canvas = canvas <;>
      simp [historyAfter, canvasCall?, known, own, History.afterCalls, History.after]
  | recordEntity snapshot entity kind =>
    by_cases own : entity = canvas <;>
      simp [historyAfter, canvasCall?, known, own, History.afterCalls, History.after]
  | setup | evalTrigger _ | actionBindings _ _ | clearCache | setVersion _ | expression _ _ =>
    exact known

/-- Without values, a tree starts the history of the canvas anew. -/
theorem get?_canvas_evalTree (unvalued : s.values = none) (r : TreeRequest) :
    (s.answer (.evalTree r)).2.histories.get? canvas =
      some (.start canvas (canvasSnapshot r) s.config.replayHistory) := by
  rw [get?_histories_answer]
  simp [historyAfter, unvalued]

/-- Every tree was followed by a clearing. -/
def Cleared (requests : List Request) : Prop :=
  ∀ before r after, requests = before ++ r :: after → r.body.isTree = true →
    ∃ c ∈ after, c.body.isClearing = true

theorem cleared_snoc_iff (front : List Request) (r : Request) :
    Cleared (front ++ [r]) ↔
      r.body.isClearing = true ∨ (Cleared front ∧ r.body.isTree = false) := by
  constructor
  · intro cleared
    by_cases clearing : r.body.isClearing = true
    · exact .inl clearing
    refine .inr ⟨fun before tree after eq isTree => ?_, eq_false_of_ne_true fun isTree => ?_⟩
    · obtain ⟨c, mem, hc⟩ := cleared before tree (after ++ [r]) (by simp [eq]) isTree
      rcases List.mem_append.mp mem with old | last
      · exact ⟨c, old, hc⟩
      · exact absurd (List.mem_singleton.mp last ▸ hc) clearing
    · obtain ⟨c, mem, -⟩ := cleared front r [] rfl isTree
      simp at mem
  · intro last before tree after eq isTree
    cases after using List.reverseRecOn with
    | nil =>
      obtain ⟨rfl, same⟩ := List.append_inj' eq rfl
      obtain rfl : r = tree := List.singleton_inj.mp same
      rcases last with clearing | ⟨-, noTree⟩
      · cases body : r.body <;> simp_all [RequestBody.isTree, RequestBody.isClearing]
      · simp [noTree] at isTree
    | append_singleton after last' _ =>
      rw [← List.cons_append, ← List.append_assoc] at eq
      obtain ⟨rfl, same⟩ := List.append_inj' eq rfl
      obtain rfl : r = last' := List.singleton_inj.mp same
      rcases last with clearing | ⟨cleared, -⟩
      · exact ⟨r, by simp, clearing⟩
      · obtain ⟨c, mem, hc⟩ := cleared before tree after rfl isTree
        exact ⟨c, List.mem_append_left _ mem, hc⟩

theorem values_answer_eq_none_iff (body : RequestBody) :
    (s.answer body).2.values = none ↔
      body.isClearing = true ∨ (s.values = none ∧ body.isTree = false) := by
  cases own : body.evaluates with
  | false =>
    have same : (s.answer body).2.values = s.values :=
      congrArg Prod.snd (isolated_evaluation.silent s body own)
    rw [same]
    cases body <;>
      simp_all [RequestBody.evaluates, RequestBody.isClearing, RequestBody.isTree]
  | true =>
    cases body with
    | evalTree r =>
      cases hv : s.values <;>
        simp [answer, evalTree, hv, RequestBody.isClearing, RequestBody.isTree]
    | evalTrigger r =>
      cases hv : s.values <;>
        simp [answer, evalTrigger, hv, RequestBody.isClearing, RequestBody.isTree]
    | clearCache => simp [answer, reset, RequestBody.isClearing]
    | _ => simp [RequestBody.evaluates] at own

/-- There are no values just when every tree was followed by a clearing. -/
theorem values_handleAll_eq_none_iff (config : EvalConfig) (evaluator : Evaluator)
    (requests : List Request) :
    ((start config evaluator).handleAll requests).values = none ↔ Cleared requests := by
  induction requests using List.reverseRecOn with
  | nil => simp [handleAll, start, Cleared]
  | append_singleton front r ih =>
    rw [handleAll_snoc, values_answer_eq_none_iff, cleared_snoc_iff, ih]

/-! ### Runs -/

theorem config_handleAll (requests : List Request) :
    (s.handleAll requests).config = s.config := by
  induction requests generalizing s with
  | nil => rfl
  | cons r rest ih => exact (ih _).trans (s.config_answer r.body)

/-- With values whenever a tree comes, a run uses the history of the canvas as told. -/
theorem get?_canvas_handleAll {before : List Request} {h : History}
    (known : (s.handleAll before).histories.get? canvas = some h) (more : List Request)
    (valued : ∀ front r back, more = front ++ r :: back → r.body.isTree = true →
      (s.handleAll (before ++ front)).values ≠ none) :
    (s.handleAll (before ++ more)).histories.get? canvas =
      some (h.afterCalls (more.filterMap fun r => canvasCall? r.body)) := by
  induction more using List.reverseRecOn with
  | nil => simpa [History.afterCalls] using known
  | append_singleton front r ih =>
    have there := ih fun front' r' back eq isTree =>
      valued front' r' (back ++ [r]) (by simp [eq]) isTree
    rw [← List.append_assoc, handleAll_snoc,
      get?_canvas_answer _ there (valued front r [] rfl), filterMap_snoc, History.afterCalls,
      History.afterCalls, History.afterCalls, List.foldl_append]

/-- A history after a request is a new one, the one before, or that after a use. -/
theorem historyAfter_cases {id : String} {body : RequestBody} {h : History}
    (known : s.historyAfter id body = some h) :
    (∃ kind first, h = .start kind first s.config.replayHistory) ∨
    s.histories.get? id = some h ∨
    ∃ h' call, s.histories.get? id = some h' ∧ h = h'.after call := by
  cases body with
  | evalTree r =>
    simp only [historyAfter] at known
    split_ifs at known
    · exact .inl ⟨_, _, (Option.some.inj known).symm⟩
    · obtain ⟨h', known', rfl⟩ := Option.map_eq_some_iff.mp known
      exact .inr (.inr ⟨h', .record _, known', rfl⟩)
    · exact .inr (.inl (by simpa using known))
    · exact .inr (.inl known)
  | undo entity | redo entity =>
    simp only [historyAfter] at known
    split_ifs at known
    · obtain ⟨h', known', rfl⟩ := Option.map_eq_some_iff.mp known
      exact .inr (.inr ⟨h', .replay _, known', rfl⟩)
    · exact .inr (.inl known)
  | recordEntity snapshot entity kind =>
    simp only [historyAfter] at known
    split_ifs at known
    · cases known' : s.histories.get? id with
      | none => exact .inl ⟨kind, snapshot, by simpa [known'] using known.symm⟩
      | some h' =>
        exact .inr (.inr ⟨h', .record snapshot, rfl,
          by simpa [known', History.after] using known.symm⟩)
    · exact .inr (.inl known)
  | setup | evalTrigger _ | actionBindings _ _ | clearCache | setVersion _ | expression _ _ =>
    exact .inr (.inl known)

/-- Every history is a timeline with the limit of the settings. -/
def AllLaid (s : Session) : Prop :=
  ∀ id h, s.histories.get? id = some h → h.Laid (max s.config.replayHistory 1)

theorem AllLaid.answer {s : Session} (laid : s.AllLaid) (body : RequestBody) :
    (s.answer body).2.AllLaid := by
  intro id h known
  rw [get?_histories_answer] at known
  rw [config_answer]
  obtain ⟨kind, first, rfl⟩ | same | ⟨h', call, known', rfl⟩ := s.historyAfter_cases known
  · exact .start kind first _
  · exact laid id h same
  · exact (laid id h' known').after (by omega) call

theorem AllLaid.handleAll {s : Session} (laid : s.AllLaid) (requests : List Request) :
    (s.handleAll requests).AllLaid := by
  induction requests generalizing s with
  | nil => exact laid
  | cons r rest ih => exact ih (laid.answer r.body)

theorem allLaid_start (config : EvalConfig) (evaluator : Evaluator) :
    (start config evaluator).AllLaid := by
  intro id h known
  simp [start] at known

/-! ### Undo steps -/

/-- Once the canvas has a history, a run changes it only as `canvasCall?` tells, unless a tree comes
when every tree before it was followed by a clearing. Such a use of it, and so every request but
such a tree, retains what could be undone. Such a tree starts the history anew, so that nothing can
be undone. -/
theorem history_canvas_of_run (config : EvalConfig) (evaluator : Evaluator)
    (before : List Request) {h : History}
    (known : ((start config evaluator).handleAll before).histories.get? canvas = some h) :
    let s := start config evaluator
    h.limit = max config.replayHistory 1 ∧
    (∀ more, (∀ front r back, more = front ++ r :: back → r.body.isTree = true →
        ¬ Cleared (before ++ front)) →
      (s.handleAll (before ++ more)).histories.get? canvas =
        some (h.afterCalls (more.filterMap fun r => canvasCall? r.body))) ∧
    (∀ body, (body.isTree = true → ¬ Cleared before) →
      ∃ h', ((s.handleAll before).answer body).2.histories.get? canvas = some h' ∧
        h.Retains h') ∧
    ∀ r, Cleared before →
      ((s.handleAll before).answer (.evalTree r)).2.histories.get? canvas =
        some (.start canvas (canvasSnapshot r) config.replayHistory) := by
  intro s
  have values (requests : List Request) : (s.handleAll requests).values = none ↔ Cleared requests :=
    values_handleAll_eq_none_iff config evaluator requests
  have settings : (s.handleAll before).config = config := s.config_handleAll before
  have laid := (allLaid_start config evaluator).handleAll before canvas h known
  rw [settings] at laid
  have room : 0 < max config.replayHistory 1 := by omega
  refine ⟨?_, fun more valued => ?_, fun body valued => ?_, fun r cleared => ?_⟩
  · obtain ⟨kind, t, rfl⟩ := laid
    rfl
  · refine s.get?_canvas_handleAll known more fun front r back eq isTree => ?_
    exact mt (values _).mp (valued front r back eq isTree)
  · have valued' : body.isTree = true → (s.handleAll before).values ≠ none :=
      fun isTree => mt (values before).mp (valued isTree)
    refine ⟨_, get?_canvas_answer _ known valued', ?_⟩
    cases canvasCall? body with
    | none => exact .refl h
    | some call => exact laid.retains room call
  · rw [get?_canvas_evalTree _ ((values before).mpr cleared), settings]

/-- A tree that comes with a state of the widgets. -/
def widgetsTree (widgets : Int) : RequestBody := .evalTree ⟨.empty, .int widgets, .null, true⟩

/-- Two trees and a clearing. -/
def clearedTrees : List Request :=
  [⟨"1", widgetsTree 1⟩, ⟨"2", widgetsTree 2⟩, ⟨"3", .clearCache⟩]

/-- After a clearing, a step back works as before it and keeps both snapshots. -/
theorem history_canvas_of_run_undo :
    ∃ h, (SessionWorker.bare.handleAll clearedTrees).histories.get? canvas = some h ∧
      h.cursor = 1 ∧
      (SessionWorker.bare.handleAll (clearedTrees ++ [⟨"4", .undo none⟩])).histories.get? canvas =
        some (h.replay .undo).2 ∧
      ∃ h', ((SessionWorker.bare.handleAll clearedTrees).answer (.undo none)).2.histories.get?
        canvas = some h' ∧ h.Retains h' := by
  have known : (SessionWorker.bare.handleAll clearedTrees).histories.get? canvas =
      some ⟨canvas, [_, _], 1, 100⟩ := rfl
  obtain ⟨-, run, retained, -⟩ := history_canvas_of_run {} .path clearedTrees known
  refine ⟨_, known, rfl, run [⟨"4", .undo none⟩] fun front r back eq isTree => ?_,
    retained (.undo none) fun isTree => by simp [RequestBody.isTree] at isTree⟩
  have mem : r ∈ front ++ r :: back := List.mem_append_right front List.mem_cons_self
  rw [← eq, List.mem_singleton] at mem
  simp [mem, RequestBody.isTree] at isTree

/-- A tree after a clearing discards a history that could be undone, instead of recording in it. -/
theorem history_canvas_lost :
    ∃ h h', (SessionWorker.bare.handleAll clearedTrees).histories.get? canvas = some h ∧
      ((SessionWorker.bare.handleAll clearedTrees).answer (widgetsTree 3)).2.histories.get? canvas =
        some h' ∧
      h' ≠ h.afterCalls (canvasCall? (widgetsTree 3)).toList ∧
      h.canUndo = true ∧ h'.canUndo = false ∧ ¬ h.Retains h' := by
  refine ⟨⟨canvas, [_, _], 1, 100⟩, ⟨canvas, [_], 0, 100⟩, rfl, rfl, fun same => ?_, rfl, rfl, ?_⟩
  · exact absurd (congrArg History.cursor same) (by decide)
  · rintro ⟨lost, kept, rfl | few⟩
    · exact absurd kept.length_le (by decide)
    · change 1 + 2 = 100 + lost at few
      omega

end Session

end AppBuilder
