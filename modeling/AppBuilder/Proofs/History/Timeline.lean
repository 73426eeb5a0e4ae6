import AppBuilder.History
import AppBuilder.Proofs.Json.Fields
import Mathlib.Data.List.Chain

/-!
A history is a timeline.

A `Timeline` has a present snapshot between those past and those to come. `Timeline.toHistory`
lays one out as a list with a cursor, and what is recorded or replayed there is what happens on
the timeline (`record_toHistory`, `replay_toHistory`). A step tells in which fields the two
snapshots differ, and there always are some (`differIn_changedFields`).

Main statement: `History.afterCalls_eq_toHistory`.
-/

namespace AppBuilder

/-! ### Changed fields -/

/-- Two values are not equal. -/
def Json.Differ (a b : Json) : Prop := (a == b) = false

theorem Json.Differ.symm {a b : Json} (h : a.Differ b) : b.Differ a :=
  (Json.same_comm b a).trans h

/-- The names under which two values differ, in order; the empty name alone stands for the whole
when one of them is no object. -/
def Json.DifferIn (names : List String) : Json → Json → Prop
  | .object fs, .object gs => names.Pairwise (· < ·) ∧
    ∀ name, name ∈ names ↔ (Entries.lookup name fs == Entries.lookup name gs) = false
  | _, _ => names = [""]

namespace History

theorem mem_changedFields_iff {fs gs : List (String × Json)} (hf : Entries.Ordered fs)
    (hg : Entries.Ordered gs) (name : String) :
    name ∈ changedFields (.object fs) (.object gs) ↔
      (Entries.lookup name fs == Entries.lookup name gs) = false := by
  change name ∈ NameSet.filter _ _ ↔ _
  rw [NameSet.mem_filter, NameSet.mem_ofList, List.mem_append, Dict.mem_keys_iff,
    Dict.mem_keys_iff, Dict.contains, Dict.contains, Dict.get?_ofList hf, Dict.get?_ofList hg,
    bne, Bool.not_eq_true']
  refine and_iff_right_of_imp fun differ => ?_
  cases left : Entries.lookup name fs with
  | some _ => exact .inl rfl
  | none =>
    cases right : Entries.lookup name gs with
    | some _ => exact .inr rfl
    | none => simp [left, right] at differ

theorem changedFields_of_no_object {a b : Json} (differ : a.Differ b)
    (plain : a.toDict? = none ∨ b.toDict? = none) : changedFields a b = [""] := by
  have ne : ¬ (a == b) = true := ne_true_of_eq_false differ
  rw [changedFields]
  split
  · simp_all
  · exact if_neg ne

/-- A step tells in which fields two snapshots differ, and there are some. -/
theorem differIn_changedFields {a b : Json} (ha : a.InOrder) (hb : b.InOrder)
    (differ : a.Differ b) :
    Json.DifferIn (changedFields a b) a b ∧ changedFields a b ≠ [] := by
  cases a with
  | object fs =>
    cases b with
    | object gs =>
      have mem := mem_changedFields_iff ha hb
      refine ⟨⟨NameSet.ordered _, mem⟩, fun bare => ?_⟩
      have same : Json.sameFields fs gs = true := Json.sameFields_of_lookup ha hb fun name =>
        by_contra fun ne => by simpa [bare] using (mem name).mpr (eq_false_of_ne_true ne)
      exact ne_true_of_eq_false differ (by simpa only [BEq.beq, Json.same] using same)
    | _ =>
      have whole := changedFields_of_no_object differ (.inr rfl)
      exact ⟨whole, whole ▸ List.cons_ne_nil _ _⟩
  | _ =>
    have whole := changedFields_of_no_object differ (.inl rfl)
    exact ⟨whole, whole ▸ List.cons_ne_nil _ _⟩

end History

/-! ### Timelines -/

/-- A snapshot with those before and after it. -/
structure Timeline where
  /-- What can be undone, the oldest first. -/
  past : List Json
  present : Json
  /-- What can be redone, the next first. -/
  future : List Json

/-- A use of a history. -/
inductive HistoryCall where
  | record (snapshot : Json)
  | replay (step : HistoryStep)

namespace Timeline

/-- The timeline of a first snapshot. -/
def start (first : Json) : Timeline := ⟨[], first, []⟩

/-- All snapshots, the oldest first. -/
def snapshots (t : Timeline) : List Json := t.past ++ t.present :: t.future

/-- Record a snapshot, unless it equals the present one; the first part tells whether it was
recorded. With the present one, as much of the past is kept as the limit leaves room for. -/
def record (limit : Nat) (t : Timeline) (snapshot : Json) : Bool × Timeline :=
  if t.present == snapshot then (false, t)
  else (true, ⟨History.lastItems (limit - 1) (t.past ++ [t.present]), snapshot, []⟩)

/-- Move one snapshot across the present, if there is one. -/
def shift? (t : Timeline) : HistoryStep → Option Timeline
  | .undo => t.past.getLast?.map fun last => ⟨t.past.dropLast, last, t.present :: t.future⟩
  | .redo => t.future.head?.map fun next => ⟨t.past ++ [t.present], next, t.future.tail⟩

/-- The timeline after a use. -/
def after (limit : Nat) (t : Timeline) : HistoryCall → Timeline
  | .record snapshot => (t.record limit snapshot).2
  | .replay step => (t.shift? step).getD t

/-- The timeline after uses, one after another. -/
def afterCalls (limit : Nat) (t : Timeline) (calls : List HistoryCall) : Timeline :=
  calls.foldl (after limit) t

/-- A timeline as a list of snapshots with a cursor. -/
def toHistory (kind : String) (limit : Nat) (t : Timeline) : History :=
  ⟨kind, t.snapshots, t.past.length, limit⟩

end Timeline

namespace History

/-- The history after a use. -/
def after (h : History) : HistoryCall → History
  | .record snapshot => (h.record snapshot).2
  | .replay step => (h.replay step).2

/-- The history after uses, one after another. -/
def afterCalls (h : History) (calls : List HistoryCall) : History := calls.foldl after h

/-! ### Operations -/

theorem lastItems_concat {α : Type} (count : Nat) (xs : List α) (x : α) :
    lastItems (count + 1) (xs ++ [x]) = lastItems count xs ++ [x] := by
  rw [lastItems, List.length_append, List.length_singleton, Nat.add_sub_add_right,
    List.drop_append_of_le_length (Nat.sub_le _ _)]
  rfl

theorem length_lastItems_le {α : Type} (count : Nat) (xs : List α) :
    (lastItems count xs).length ≤ count := by
  rw [lastItems, List.length_drop]
  omega

end History

namespace Timeline

variable (kind : String) {limit : Nat} (t : Timeline)

@[simp] theorem current_toHistory : (t.toHistory kind limit).current = t.present := by
  simp [History.current, toHistory, snapshots]

theorem take_toHistory :
    (t.toHistory kind limit).snapshots.take ((t.toHistory kind limit).cursor + 1) =
      t.past ++ [t.present] := by
  rw [toHistory, snapshots, List.append_cons, List.take_left' (by simp)]

/-- Recording in a history is recording on its timeline. -/
theorem record_toHistory (room : 0 < limit) (snapshot : Json) :
    (t.toHistory kind limit).record snapshot =
      ((t.record limit snapshot).1, (t.record limit snapshot).2.toHistory kind limit) := by
  obtain ⟨count, rfl⟩ : ∃ count, limit = count + 1 := ⟨limit - 1, by omega⟩
  rw [History.record, current_toHistory, record]
  split
  · rfl
  · rw [take_toHistory]
    change (true, History.mk kind (History.lastItems (count + 1) _)
      (List.length (History.lastItems (count + 1) _) - 1) _) = _
    rw [History.lastItems_concat, List.length_append, List.length_singleton, Nat.add_sub_cancel]
    rfl

/-- A step through a timeline leaves the snapshots as they are. -/
theorem snapshots_shift {t t' : Timeline} {step : HistoryStep} (shift : t.shift? step = some t') :
    t'.snapshots = t.snapshots := by
  obtain ⟨past, present, future⟩ := t
  cases step with
  | undo =>
    obtain ⟨last, hlast, rfl⟩ := Option.map_eq_some_iff.mp shift
    change past.dropLast ++ last :: present :: future = past ++ present :: future
    rw [List.append_cons, List.dropLast_append_getLast? last hlast]
  | redo =>
    obtain ⟨next, hnext, rfl⟩ := Option.map_eq_some_iff.mp shift
    change past ++ [present] ++ next :: future.tail = past ++ present :: future
    have split : next :: future.tail = future := (List.eq_cons_of_mem_head? hnext).symm
    rw [split, List.append_assoc, List.singleton_append]

theorem target_toHistory (step : HistoryStep) :
    (t.toHistory kind limit).target? step = (t.shift? step).map (·.past.length) := by
  obtain ⟨past, present, future⟩ := t
  cases step with
  | undo =>
    cases past using List.reverseRecOn <;>
      simp [History.target?, History.canUndo, toHistory, shift?]
  | redo =>
    cases future <;> simp [History.target?, History.canRedo, toHistory, shift?, snapshots]

theorem cursor_toHistory {t t' : Timeline} {step : HistoryStep} (shift : t.shift? step = some t') :
    { t.toHistory kind limit with cursor := t'.past.length } = t'.toHistory kind limit := by
  simp only [toHistory, snapshots_shift shift]

/-- A step through a history is a step on its timeline. -/
theorem replay_toHistory (step : HistoryStep) :
    (t.toHistory kind limit).replay step =
      match t.shift? step with
      | none => (none, t.toHistory kind limit)
      | some t' =>
        (some ⟨t'.present, kind, step, History.changedFields t.present t'.present⟩,
          t'.toHistory kind limit) := by
  simp only [History.replay, target_toHistory]
  cases shift : t.shift? step with
  | none => rfl
  | some t' =>
    simp only [Option.map_some, cursor_toHistory kind shift, current_toHistory]
    rfl

/-! ### Invariants -/

/-- The snapshots are no more than the limit, those next to each other differ, and each is in
order. -/
structure Sound (limit : Nat) (t : Timeline) : Prop where
  size : t.snapshots.length ≤ limit
  distinct : t.snapshots.IsChain Json.Differ
  inOrder : ∀ s ∈ t.snapshots, s.InOrder

/-- Recording appends a snapshot to what is not undone and drops the oldest beyond the limit. -/
theorem snapshots_record {t : Timeline} {snapshot : Json} (room : 0 < limit)
    (new : t.present.Differ snapshot) :
    (t.record limit snapshot).2.snapshots =
      History.lastItems limit (t.past ++ [t.present] ++ [snapshot]) := by
  obtain ⟨count, rfl⟩ : ∃ count, limit = count + 1 := ⟨limit - 1, by omega⟩
  rw [History.lastItems_concat, record, if_neg (ne_true_of_eq_false new)]
  rfl

namespace Sound

variable {t : Timeline}

theorem start {first : Json} (inOrder : first.InOrder) (room : 0 < limit) :
    Sound limit (Timeline.start first) where
  size := room
  distinct := .singleton _
  inOrder := by simpa [Timeline.start, snapshots] using inOrder

theorem distinct_past (sound : t.Sound limit) : (t.past ++ [t.present]).IsChain Json.Differ := by
  have all := sound.distinct
  rw [snapshots, List.append_cons] at all
  exact all.left_of_append

theorem record (sound : t.Sound limit) (room : 0 < limit) {snapshot : Json}
    (inOrder : snapshot.InOrder) : (t.record limit snapshot).2.Sound limit := by
  by_cases same : (t.present == snapshot) = true
  · rwa [Timeline.record, if_pos same]
  · have new : t.present.Differ snapshot := eq_false_of_ne_true same
    have recorded := snapshots_record room new
    refine ⟨?_, ?_, fun s hs => ?_⟩
    · rw [recorded]
      exact History.length_lastItems_le limit _
    · rw [recorded]
      refine List.IsChain.drop (.append sound.distinct_past (.singleton _) ?_) _
      simpa using new
    · rw [recorded] at hs
      rcases List.mem_append.mp (List.mem_of_mem_drop hs) with old | last
      · refine sound.inOrder s ?_
        rw [snapshots, List.append_cons]
        exact List.mem_append_left _ old
      · rwa [List.mem_singleton.mp last]

theorem shift (sound : t.Sound limit) {t' : Timeline} {step : HistoryStep}
    (shift : t.shift? step = some t') : t'.Sound limit := by
  have same := snapshots_shift shift
  exact ⟨same ▸ sound.size, same ▸ sound.distinct, same ▸ sound.inOrder⟩

/-- A step leads to a snapshot that differs from the present one. -/
theorem differ_shift (sound : t.Sound limit) {t' : Timeline} {step : HistoryStep}
    (shift : t.shift? step = some t') : t.present.Differ t'.present := by
  obtain ⟨past, present, future⟩ := t
  have distinct := sound.distinct
  cases step with
  | undo =>
    obtain ⟨last, hlast, rfl⟩ := Option.map_eq_some_iff.mp shift
    exact Json.Differ.symm ((List.isChain_append.mp distinct).2.2 last hlast present rfl)
  | redo =>
    obtain ⟨next, hnext, rfl⟩ := Option.map_eq_some_iff.mp shift
    rw [snapshots, List.eq_cons_of_mem_head? hnext] at distinct
    exact (List.isChain_cons_cons.mp distinct.right_of_append).1

theorem inOrder_present (sound : t.Sound limit) : t.present.InOrder :=
  sound.inOrder _ (List.mem_append_right _ List.mem_cons_self)

end Sound

/-! ### Runs -/

theorem after_toHistory (room : 0 < limit) (call : HistoryCall) :
    (t.toHistory kind limit).after call = (t.after limit call).toHistory kind limit := by
  cases call with
  | record snapshot => rw [History.after, record_toHistory kind t room, after]
  | replay step =>
    rw [History.after, replay_toHistory, after]
    cases t.shift? step <;> rfl

theorem afterCalls_toHistory (room : 0 < limit) (calls : List HistoryCall) :
    (t.toHistory kind limit).afterCalls calls =
      (t.afterCalls limit calls).toHistory kind limit := by
  induction calls generalizing t with
  | nil => rfl
  | cons call rest ih =>
    rw [History.afterCalls, List.foldl_cons, after_toHistory kind t room]
    exact ih _

end Timeline

/-- What is recorded is in order. -/
def HistoryCall.InOrder : HistoryCall → Prop
  | .record snapshot => snapshot.InOrder
  | .replay _ => True

instance : DecidablePred HistoryCall.InOrder
  | .record snapshot => inferInstanceAs (Decidable snapshot.InOrder)
  | .replay _ => .isTrue trivial

theorem Timeline.Sound.afterCalls {limit : Nat} (room : 0 < limit) {calls : List HistoryCall} :
    ∀ {t : Timeline}, t.Sound limit → (∀ call ∈ calls, call.InOrder) →
      (t.afterCalls limit calls).Sound limit := by
  induction calls with
  | nil => exact fun sound _ => sound
  | cons call rest ih =>
    intro t sound inOrder
    obtain ⟨first, rest⟩ := List.forall_mem_cons.mp inOrder
    refine ih ?_ rest
    cases call with
    | record snapshot => exact sound.record room first
    | replay step =>
      rw [Timeline.after]
      cases shift : t.shift? step with
      | none => exact sound
      | some t' => exact sound.shift shift

/-- A history behaves as a timeline through every run of uses: what a use gives, and the history
after it, are those of the timeline. The cursor always is at a snapshot, there are no more
snapshots than the limit, neighbours differ, and a step that is taken tells the fields in which
the two snapshots differ, of which there are some. -/
theorem History.afterCalls_eq_toHistory (kind : String) (first : Json) (limit : Nat)
    (calls : List HistoryCall) (inOrder : first.InOrder) (inOrder' : ∀ call ∈ calls, call.InOrder) :
    let h := (History.start kind first limit).afterCalls calls
    let t := (Timeline.start first).afterCalls (max limit 1) calls
    h = t.toHistory kind (max limit 1) ∧
    h.cursor < h.snapshots.length ∧
    (t.past ++ t.present :: t.future).length ≤ max limit 1 ∧
    (t.past ++ t.present :: t.future).IsChain Json.Differ ∧
    (∀ snapshot, h.record snapshot =
      ((t.record (max limit 1) snapshot).1,
        (t.record (max limit 1) snapshot).2.toHistory kind (max limit 1))) ∧
    ∀ step, match t.shift? step with
      | none => h.replay step = (none, h)
      | some t' => ∃ updates,
        h.replay step = (some ⟨t'.present, kind, step, updates⟩, t'.toHistory kind (max limit 1)) ∧
        Json.DifferIn updates t.present t'.present ∧ updates ≠ [] := by
  intro h t
  have room : 0 < max limit 1 := by omega
  have same : h = t.toHistory kind (max limit 1) :=
    Timeline.afterCalls_toHistory kind (.start first) room calls
  have sound : t.Sound (max limit 1) :=
    Timeline.Sound.afterCalls room (.start inOrder room) inOrder'
  refine ⟨same, ?_, sound.size, sound.distinct, fun snapshot => ?_, fun step => ?_⟩
  · rw [same]
    simp [Timeline.toHistory, Timeline.snapshots]
  · rw [same, Timeline.record_toHistory kind t room]
  · have replay : (t.toHistory kind (max limit 1)).replay step = _ :=
      Timeline.replay_toHistory kind t step
    rw [← same] at replay
    cases shift : t.shift? step with
    | none => rw [replay, shift]
    | some t' =>
      have names := History.differIn_changedFields sound.inOrder_present
        (sound.shift shift).inOrder_present (sound.differ_shift shift)
      exact ⟨_, by rw [replay, shift], names⟩

/-- A full history with one step undone. -/
theorem History.afterCalls_eq_toHistory_full :
    let snapshot (n : Int) : Json := .object [("v", .int n)]
    let calls : List HistoryCall := [.record (snapshot 2), .record (snapshot 3), .replay .undo]
    let h := (History.start "canvas" (snapshot 1) 2).afterCalls calls
    (snapshot 1).InOrder ∧ (∀ call ∈ calls, call.InOrder) ∧
    h.snapshots = [snapshot 2, snapshot 3] ∧ (h.replay .undo).1.isNone = true ∧
    ∃ updates, (h.replay .redo).1 = some ⟨snapshot 3, "canvas", .redo, updates⟩ ∧
      Json.DifferIn updates (snapshot 2) (snapshot 3) ∧ updates ≠ [] := by
  intro snapshot calls h
  have inOrder : (snapshot 1).InOrder := by decide
  have inOrder' : ∀ call ∈ calls, call.InOrder := by decide
  obtain ⟨same, -, -, -, -, steps⟩ :=
    History.afterCalls_eq_toHistory "canvas" (snapshot 1) 2 calls inOrder inOrder'
  obtain ⟨updates, replay, names⟩ := steps .redo
  exact ⟨inOrder, inOrder', congrArg History.snapshots same,
    by rw [(steps .undo : h.replay .undo = (none, h))]; rfl, updates,
    congrArg Prod.fst replay, names⟩

end AppBuilder
