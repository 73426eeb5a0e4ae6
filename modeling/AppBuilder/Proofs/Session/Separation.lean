import AppBuilder.Proofs.Session.Histories

/-!
The parts of a session do not interfere.

A part of a session is what a view shows of it. It is `Isolated` for a kind of requests when no
other request changes it, and when what one of the kind makes of it depends on nothing else. Then a
run leaves the part as the run of just those requests does (`Isolated.handleAll_filter`). The
values are one such part and the history of each entity is another; trees change the history of
the canvas, so that one is no such part.

Main statement: `separated`.
-/

namespace AppBuilder

/-! ### Kinds of requests -/

namespace RequestBody

/-- Whether a request can change the values of a session. -/
def evaluates : RequestBody → Bool
  | evalTree _ | evalTrigger _ | clearCache => true
  | _ => false

/-- Whether a request records an entity or steps through its history, naming it. -/
def replays (id : String) : RequestBody → Bool
  | recordEntity _ entity _ => entity = id
  | undo entity | redo entity => entity = some id
  | _ => false

end RequestBody

namespace Session

/-! ### Isolated parts -/

/-- A view of sessions that only requests of a kind change, each in a way that depends on the view
alone. -/
structure Isolated {α : Type} (view : Session → α) (kind : RequestBody → Bool) : Prop where
  silent (s : Session) (body : RequestBody) :
    kind body = false → view (s.answer body).2 = view s
  determined (s t : Session) (body : RequestBody) :
    kind body = true → view s = view t → view (s.answer body).2 = view (t.answer body).2

/-- The run of all requests and the run of those of the kind show the same. -/
theorem Isolated.handleAll_filter {α : Type} {view : Session → α} {kind : RequestBody → Bool}
    (isolated : Isolated view kind) (requests : List Request) {s t : Session}
    (same : view s = view t) :
    view (s.handleAll requests) = view (t.handleAll (requests.filter fun r => kind r.body)) := by
  induction requests generalizing s t with
  | nil => exact same
  | cons r rest ih =>
    cases own : kind r.body with
    | false =>
      rw [List.filter_cons_of_neg (by simp [own])]
      exact ih ((isolated.silent s r.body own).trans same)
    | true =>
      rw [List.filter_cons_of_pos (by simp [own])]
      exact ih (isolated.determined s t r.body own same)

/-! ### Values -/

/-- What runs code, and the values. -/
def evaluation (s : Session) : Evaluator × Option TreeEvaluator := (s.evaluator, s.values)

theorem evaluation_recordEntity (s : Session) (id kind : String) (snapshot : Json) :
    (s.recordEntity id kind snapshot).evaluation = s.evaluation := by
  unfold recordEntity
  split <;> rfl

theorem evaluation_replay (s : Session) (id : Option String) (step : HistoryStep) :
    (s.replay id step).2.evaluation = s.evaluation := by
  unfold replay
  dsimp only
  split <;> rfl

/-- The answer to a tree and the values after it depend on the values before it. -/
theorem evalTree_congr {s t : Session} (same : s.evaluation = t.evaluation) (r : TreeRequest) :
    (s.evalTree r).1 = (t.evalTree r).1 ∧
    (s.evalTree r).2.evaluation = (t.evalTree r).2.evaluation := by
  obtain ⟨evaluator, values⟩ := Prod.mk.inj same
  unfold evalTree
  rw [evaluator, values]
  cases t.values with
  | none => exact ⟨rfl, Prod.ext evaluator rfl⟩
  | some values =>
    refine ⟨rfl, Prod.ext ?_ rfl⟩
    by_cases recorded : r.recorded <;> simpa [evaluation, recorded, recordSnapshot] using evaluator

theorem evaluation_evalTrigger_congr {s t : Session} (same : s.evaluation = t.evaluation)
    (r : TriggerRequest) :
    (s.evalTrigger r).2.evaluation = (t.evalTrigger r).2.evaluation := by
  obtain ⟨evaluator, values⟩ := Prod.mk.inj same
  unfold evalTrigger
  rw [values]
  cases hv : t.values with
  | none => exact same
  | some _ => exact Prod.ext evaluator rfl

/-- The values are isolated for the requests that evaluate. -/
theorem isolated_evaluation : Isolated evaluation RequestBody.evaluates where
  silent s body kind := by
    cases body with
    | evalTree _ | evalTrigger _ | clearCache => simp [RequestBody.evaluates] at kind
    | undo id => exact s.evaluation_replay id .undo
    | redo id => exact s.evaluation_replay id .redo
    | recordEntity snapshot id name => exact s.evaluation_recordEntity id name snapshot
    | setup | actionBindings _ _ | setVersion _ | expression _ _ => rfl
  determined s t body kind same := by
    cases body with
    | evalTree r => exact (evalTree_congr same r).2
    | evalTrigger r => exact evaluation_evalTrigger_congr same r
    | clearCache => exact Prod.ext (congrArg Evaluator.clearCache (Prod.mk.inj same).1) rfl
    | _ => simp [RequestBody.evaluates] at kind

/-- The data of the responses to trees, each taking some time and under the id of its request. -/
def treeAnswers (s : Session) (nanos : Nat) (requests : List Request) : List (String × Json) :=
  ((requests.zip (s.answers nanos requests)).filter fun a => a.1.body.isTree).map Prod.snd

theorem treeAnswers_cons (s : Session) (nanos : Nat) (r : Request) (rest : List Request) :
    s.treeAnswers nanos (r :: rest) =
      (if r.body.isTree then [(r.id, (s.answer r.body).1)] else []) ++
        (s.answer r.body).2.treeAnswers nanos rest := by
  rw [treeAnswers, answers, entry_handle, handle_snd, List.zip_cons_cons]
  by_cases tree : r.body.isTree <;> simp [treeAnswers, tree]

theorem RequestBody.evaluates_of_isTree {body : RequestBody} (tree : body.isTree = true) :
    body.evaluates = true := by
  cases body <;> simp_all [RequestBody.isTree, RequestBody.evaluates]

/-- The answers to trees depend only on the requests that evaluate. -/
theorem treeAnswers_filter (nanos nanos' : Nat) (requests : List Request) {s t : Session}
    (same : s.evaluation = t.evaluation) :
    s.treeAnswers nanos requests =
      t.treeAnswers nanos' (requests.filter fun r => r.body.evaluates) := by
  induction requests generalizing s t with
  | nil => rfl
  | cons r rest ih =>
    rw [treeAnswers_cons]
    cases own : r.body.evaluates with
    | false =>
      have other : ¬ r.body.isTree = true := fun tree => by
        simp [RequestBody.evaluates_of_isTree tree] at own
      rw [List.filter_cons_of_neg (by simp [own]), if_neg other, List.nil_append]
      exact ih ((isolated_evaluation.silent s r.body own).trans same)
    | true =>
      rw [List.filter_cons_of_pos (by simp [own]), treeAnswers_cons,
        ih (isolated_evaluation.determined s t r.body own same)]
      congr 1
      cases body : r.body with
      | evalTree tree => simp only [answer, (evalTree_congr same tree).1]
      | _ => rfl

/-! ### Histories -/

/-- How much a history holds, and the history of an entity. -/
def historyOf (id : String) (s : Session) : EvalConfig × Option History :=
  (s.config, s.histories.get? id)

theorem getD_canvas_eq_iff {id : String} (other : id ≠ canvas) (entity : Option String) :
    entity.getD canvas = id ↔ entity = some id := by
  cases entity with
  | none => simp [Ne.symm other]
  | some name => simp

/-- The history of an entity other than the canvas is isolated for the requests that name it. -/
theorem isolated_historyOf {id : String} (other : id ≠ canvas) :
    Isolated (historyOf id) (RequestBody.replays id) where
  silent s body unnamed := by
    refine Prod.ext (s.config_answer body) ((s.get?_histories_answer id body).trans ?_)
    cases body with
    | evalTree r => exact if_neg other
    | undo entity | redo entity =>
      have elsewhere : entity ≠ some id := by simpa [RequestBody.replays] using unnamed
      exact if_neg (mt (getD_canvas_eq_iff other entity).mp elsewhere)
    | recordEntity snapshot entity kind =>
      exact if_neg (by simpa [RequestBody.replays] using unnamed)
    | setup | evalTrigger _ | actionBindings _ _ | clearCache | setVersion _ | expression _ _ => rfl
  determined s t body named same := by
    obtain ⟨config, history⟩ := Prod.mk.inj same
    refine Prod.ext ?_ ?_
    · exact (s.config_answer body).trans (config.trans (t.config_answer body).symm)
    · change (s.answer body).2.histories.get? id = (t.answer body).2.histories.get? id
      rw [get?_histories_answer, get?_histories_answer]
      cases body with
      | undo _ | redo _ | recordEntity _ _ _ => simp only [historyAfter, config, history]
      | _ => simp [RequestBody.replays] at named

/-! ### Separation -/

/-- What evaluates in a session and what it answers to trees depend only on the requests that
evaluate, and the history of an entity other than the canvas only on the requests that record it or
step through it: a run has the same values and answers as the run without all other requests. -/
theorem separated (s : Session) (requests : List Request) :
    (s.handleAll requests).values =
      (s.handleAll (requests.filter fun r => r.body.evaluates)).values ∧
    (∀ nanos nanos', s.treeAnswers nanos requests =
      s.treeAnswers nanos' (requests.filter fun r => r.body.evaluates)) ∧
    ∀ id, id ≠ canvas → (s.handleAll requests).histories.get? id =
      (s.handleAll (requests.filter fun r => r.body.replays id)).histories.get? id :=
  ⟨congrArg Prod.snd (isolated_evaluation.handleAll_filter requests rfl),
    fun nanos nanos' => treeAnswers_filter nanos nanos' requests rfl,
    fun _ other => congrArg Prod.snd ((isolated_historyOf other).handleAll_filter requests rfl)⟩

/-- The history of a query is not touched by a tree, nor by a step on the canvas. -/
theorem separated_query :
    let requests : List Request := [
      ⟨"1", .recordEntity (.int 1) "Query1" "ACTION"⟩,
      ⟨"2", .evalTree ⟨.empty, .null, .null, true⟩⟩,
      ⟨"3", .recordEntity (.int 2) "Query1" "ACTION"⟩,
      ⟨"4", .undo none⟩, ⟨"5", .clearCache⟩, ⟨"6", .undo (some "Query1")⟩]
    let after := (SessionWorker.bare.handleAll requests).histories.get? "Query1"
    "Query1" ≠ canvas ∧ after.map History.current = some (.int 1) ∧
    after = (SessionWorker.bare.handleAll
      (requests.filter fun r => r.body.replays "Query1")).histories.get? "Query1" := by
  intro requests after
  have other : "Query1" ≠ canvas := by decide
  obtain ⟨-, -, histories⟩ := separated SessionWorker.bare requests
  have same := histories "Query1" other
  exact ⟨other, congrArg (Option.map History.current) same, same⟩

end Session

end AppBuilder
