import AppBuilder.Proofs.Session.Delivery

/-!
What requests do to histories.

`Session.historyAfter` is the history of an entity after a request, told from what it was before
(`get?_histories_answer`). Only trees, snapshots and steps matter to it, and a tree only to the
history of the canvas.
-/

namespace AppBuilder

/-- Whether a request is for a tree. -/
def RequestBody.isTree : RequestBody → Bool
  | evalTree _ => true
  | _ => false

namespace Session

/-- The history of an entity after a request. -/
def historyAfter (s : Session) (id : String) : RequestBody → Option History
  | .evalTree r =>
    if id = canvas then
      if s.values.isNone then some (.start canvas (canvasSnapshot r) s.config.replayHistory)
      else (s.histories.get? id).map fun h =>
        if r.recorded then (h.record (canvasSnapshot r)).2 else h
    else s.histories.get? id
  | .undo entity =>
    if entity.getD canvas = id then (s.histories.get? id).map fun h => (h.replay .undo).2
    else s.histories.get? id
  | .redo entity =>
    if entity.getD canvas = id then (s.histories.get? id).map fun h => (h.replay .redo).2
    else s.histories.get? id
  | .recordEntity snapshot entity kind =>
    if entity = id then
      some (((s.histories.get? id).map fun h => (h.record snapshot).2).getD
        (.start kind snapshot s.config.replayHistory))
    else s.histories.get? id
  | _ => s.histories.get? id

variable (s : Session) (id : String)

theorem get?_replay (entity : Option String) (step : HistoryStep) :
    (s.replay entity step).2.histories.get? id =
      if entity.getD canvas = id then (s.histories.get? id).map fun h => (h.replay step).2
      else s.histories.get? id := by
  unfold replay
  dsimp only
  split
  · rename_i missing
    split
    · rename_i own
      rw [← own, missing]
      rfl
    · rfl
  · rename_i h known
    rw [Dict.get?_insert]
    split
    · rename_i own
      rw [← own, known]
      rfl
    · rfl

theorem get?_recordEntity (entity kind : String) (snapshot : Json) :
    (s.recordEntity entity kind snapshot).histories.get? id =
      if entity = id then
        some (((s.histories.get? id).map fun h => (h.record snapshot).2).getD
          (.start kind snapshot s.config.replayHistory))
      else s.histories.get? id := by
  unfold recordEntity
  by_cases own : entity = id
  · subst own
    cases known : s.histories.get? entity with
    | none => simp [Dict.contains, known, startHistory]
    | some h => simp [Dict.contains, known, recordSnapshot, Dict.get?_modify]
  · split <;> simp [recordSnapshot, startHistory, Dict.get?_modify, Dict.get?_insert, own]

theorem get?_evalTree (r : TreeRequest) :
    (s.evalTree r).2.histories.get? id = s.historyAfter id (.evalTree r) := by
  unfold evalTree historyAfter
  cases s.values with
  | none => simp [startHistory, Dict.get?_insert, eq_comm]
  | some _ =>
    by_cases own : id = canvas <;> by_cases recorded : r.recorded <;>
      simp [recordSnapshot, Dict.get?_modify, own, recorded, eq_comm]

/-- A request leaves the history of an entity as told. -/
theorem get?_histories_answer (body : RequestBody) :
    (s.answer body).2.histories.get? id = s.historyAfter id body := by
  cases body with
  | evalTree r => exact s.get?_evalTree id r
  | evalTrigger r =>
    unfold answer evalTrigger
    cases s.values <;> rfl
  | undo entity => exact s.get?_replay id entity .undo
  | redo entity => exact s.get?_replay id entity .redo
  | recordEntity snapshot entity kind => exact s.get?_recordEntity id entity kind snapshot
  | setup | clearCache | actionBindings _ _ | setVersion _ | expression _ _ => rfl

/-- No request changes the settings. -/
theorem config_answer (body : RequestBody) : (s.answer body).2.config = s.config := by
  cases body with
  | evalTree r =>
    unfold answer evalTree
    cases s.values with
    | none => rfl
    | some _ => by_cases recorded : r.recorded <;> simp [recorded, recordSnapshot]
  | evalTrigger r =>
    unfold answer evalTrigger
    cases s.values <;> rfl
  | undo entity | redo entity =>
    unfold answer replay
    dsimp only
    split <;> rfl
  | recordEntity snapshot entity kind =>
    change (s.recordEntity entity kind snapshot).config = s.config
    unfold recordEntity
    split <;> rfl
  | setup | clearCache | actionBindings _ _ | setVersion _ | expression _ _ => rfl

end Session

end AppBuilder
