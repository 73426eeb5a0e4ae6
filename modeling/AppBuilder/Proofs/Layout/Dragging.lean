import AppBuilder.Proofs.Layout.Landing
import AppBuilder.Proofs.Layout.Offered
import AppBuilder.Trace

/-!
Drags from the first step to the last.

What a drag answers is told from its history: the bars on offer and the tree they were computed for
come from the last time they were offered, and the bar where the widgets drop is the last one that was
selected since then (`Follows`). Ranking sorts the bars that suit a movement by their distance and
keeps the order of those at the same distance (`ranks_rank`). A bar is always among them when there is
one on offer: a stack offers a horizontal one (`exists_horizontal`), and the drag knows whether its
bars are those of a stack.

Main statement: `Drag.answers_of_trace`.
-/

namespace AppBuilder

/-! ### Sorting by a key -/

section KeySort

variable {α : Type} (key : α → Int) (xs : List α)

theorem pairwise_mergeSort_key :
    (xs.mergeSort fun a b => key a ≤ key b).Pairwise fun a b => key a ≤ key b := by
  have sorted : (xs.mergeSort fun a b => key a ≤ key b).Pairwise fun a b =>
      decide (key a ≤ key b) = true :=
    List.pairwise_mergeSort (fun a b c => by simpa using Int.le_trans)
      (fun a b => by simpa using Int.le_total _ _) xs
  simpa only [decide_eq_true_eq] using sorted

/-- Sorting by a key keeps the order of the items with the same key. -/
theorem filter_mergeSort_key (k : Int) :
    (xs.mergeSort fun a b => key a ≤ key b).filter (key · = k) = xs.filter (key · = k) := by
  have own : ∀ a ∈ xs.filter (key · = k), key a = k := fun a ha => by
    simpa using (List.mem_filter.mp ha).2
  have level : (xs.filter (key · = k)).Pairwise fun a b => decide (key a ≤ key b) = true :=
    List.pairwise_of_forall_mem_list fun a ha b hb => by simp [own a ha, own b hb]
  have sub : (xs.filter (key · = k)).Sublist (xs.mergeSort fun a b => key a ≤ key b) :=
    List.sublist_mergeSort (fun a b c => by simpa using Int.le_trans)
      (fun a b => by simpa using Int.le_total _ _) level List.filter_sublist
  have kept := sub.filter (key · = k)
  rw [List.filter_filter] at kept
  simp only [Bool.and_self] at kept
  exact (kept.eq_of_length ((List.mergeSort_perm xs _).filter _).length_eq.symm).symm

end KeySort

namespace Highlight

/-- How far a bar is from the pointer, as a place in the order of all numbers. -/
def distanceKey (c : HighlightConfig) (p : Point) (d : Option Direction) (h : Highlight) : Int :=
  totalKey (h.distance c p d)

/-- Bars put in the order of their distance, those at the same distance in the order they had. -/
structure Ranks (c : HighlightConfig) (p : Point) (d : Option Direction)
    (bars ranked : List Highlight) : Prop where
  perm : ranked.Perm bars
  nearest : ranked.Pairwise fun g h => distanceKey c p d g ≤ distanceKey c p d h
  stable : ∀ key,
    ranked.filter (distanceKey c p d · = key) = bars.filter (distanceKey c p d · = key)

theorem ranks_rank (c : HighlightConfig) (bars : List Highlight) (p : Point)
    (d : Option Direction) (stacked : Bool) :
    Ranks c p d (viable bars p d stacked) (rank c bars p d stacked) where
  perm := List.mergeSort_perm _ _
  nearest := pairwise_mergeSort_key (distanceKey c p d) _
  stable := filter_mergeSort_key (distanceKey c p d) _

/-! ### Bars that suit a movement -/

theorem orLast_eq_nil_iff {hits others : List Highlight} :
    orLast hits others = [] ↔ hits = [] ∧ others = [] := by
  unfold orLast
  cases hits <;> simp

/-- Some bar suits a movement when there is any, and over a stack a horizontal one. -/
theorem viable_eq_nil_iff {bars : List Highlight} {stacked : Bool}
    (flat : stacked = true → bars ≠ [] → ∃ h ∈ bars, h.isVertical = false) (p : Point)
    (d : Option Direction) : viable bars p d stacked = [] ↔ bars = [] := by
  have none_flat : stacked = true → (bars.filter (fun h => !h.isVertical) = [] ↔ bars = []) := by
    intro stack
    refine ⟨fun bare => ?_, fun bare => by simp [bare]⟩
    by_contra nonempty
    obtain ⟨h, mem, horizontal⟩ := flat stack nonempty
    simpa [horizontal] using List.filter_eq_nil_iff.mp bare h mem
  have of_nil : ∀ test : Highlight → Bool, bars = [] → bars.filter test = [] :=
    fun test bare => by simp [bare]
  cases d with
  | none => rfl
  | some d =>
    cases stacked with
    | false =>
      simp only [viable, Bool.not_false, if_true, orLast_eq_nil_iff]
      exact ⟨And.right, fun bare => ⟨of_nil _ bare, bare⟩⟩
    | true =>
      by_cases upright : d.isVertical = true
      · simpa [viable, upright] using none_flat rfl
      · simp only [viable, upright, Bool.not_true, Bool.false_eq_true, if_false,
          orLast_eq_nil_iff, none_flat]
        exact ⟨And.right, fun bare => ⟨of_nil _ bare, bare⟩⟩

/-- Only horizontal bars suit a movement up or down over a stack. -/
theorem horizontal_of_mem_viable {bars : List Highlight} {p : Point} {d : Direction}
    (upright : d.isVertical = true) {h : Highlight} (mem : h ∈ viable bars p (some d) true) :
    h.isVertical = false := by
  simp only [viable, upright, Bool.not_true, Bool.false_eq_true, if_false, if_true,
    List.mem_filter, Bool.not_eq_true'] at mem
  exact mem.2

end Highlight

/-- A stack offers a horizontal bar. -/
theorem BarContext.exists_horizontal (b : BarContext) (t : WidgetTree) {w : Widget}
    (stack : w.isVerticalStack = true) (dragged : List WidgetId) :
    ∃ h ∈ b.bars t w dragged, h.isVertical = false := by
  unfold bars
  simp only [stack, Bool.true_and, if_true]
  split
  · exact ⟨_, List.mem_singleton_self _, rfl⟩
  · exact ⟨_, List.mem_append_right _ (List.mem_singleton_self _), rfl⟩

/-! ### Histories -/

/-- What happens in a drag: bars are offered anew for a tree, the pointer moves, the bar where the
widgets drop is asked for, the rectangle of the canvas is forgotten, or the drag ends. -/
inductive DragStep where
  | refresh (t : WidgetTree) (m : Measure) (resizing : Bool)
  | hover (p : Point) (d : Option Direction)
  | drop (p : Point)
  | forget
  | finish

/-- The bars that a step answers with, the selected one first, and the drag after it. -/
def DragStep.run (g : Drag) : DragStep → List Highlight × Drag
  | refresh t m resizing => ((g.refresh t m resizing).bars, g.refresh t m resizing)
  | hover p d => g.hover p d
  | drop p => ((g.dropBar p).1.toList, (g.dropBar p).2)
  | forget => ([], g.onSurface .forget)
  | finish => ([], g.finish)

/-- A step and its answer. -/
structure DragEvent where
  step : DragStep
  answer : List Highlight

namespace DragEvent

/-- Bars are offered anew, or not any more. -/
def restarts (e : DragEvent) : Bool :=
  match e.step with
  | .refresh .. | .finish => true
  | _ => false

/-- The bar that was selected. -/
def selected? (e : DragEvent) : Option Highlight :=
  match e.step with
  | .hover .. | .drop _ => e.answer.head?
  | _ => none

/-- The tree that bars were offered for. -/
def tree? (e : DragEvent) : Option WidgetTree :=
  match e.step with
  | .refresh t .. => some t
  | _ => none

end DragEvent

/-- What happened in a drag, the oldest first. -/
abbrev DragHistory := List DragEvent

namespace DragHistory

/-- The bars on offer: those offered last, unless the drag ended since then. -/
def offered (history : DragHistory) : List Highlight :=
  ((history.reverse.find? (·.restarts)).map (·.answer)).getD []

/-- The bar selected last since bars were offered or the drag ended. -/
def selected? (history : DragHistory) : Option Highlight :=
  (history.reverse.takeWhile fun e => !e.restarts).findSome? (·.selected?)

/-- Whether the canvas arranges its children in layers in the tree that bars were offered for last. It
counts as if it did when it is missing there, or before bars were ever offered. -/
def stacked (canvas : WidgetId) (history : DragHistory) : Bool :=
  ((history.reverse.findSome? (·.tree?)).bind (·.get? canvas)).all Widget.isVerticalStack

theorem offered_snoc (history : DragHistory) (e : DragEvent) :
    offered (history ++ [e]) = if e.restarts then e.answer else history.offered := by
  cases restart : e.restarts <;> simp [offered, restart]

theorem selected?_snoc (history : DragHistory) (e : DragEvent) :
    selected? (history ++ [e]) =
      if e.restarts then none else e.selected?.or history.selected? := by
  cases restart : e.restarts <;> simp [selected?, List.findSome?_cons, restart]
  cases e.selected? <;> rfl

theorem stacked_snoc (canvas : WidgetId) (history : DragHistory) (e : DragEvent) :
    stacked canvas (history ++ [e]) =
      match e.tree? with
      | some t => (t.get? canvas).all Widget.isVerticalStack
      | none => history.stacked canvas := by
  cases tree : e.tree? <;> simp [stacked, tree]

end DragHistory

/-! ### What a step answers and what it leaves -/

namespace DropSurface

theorem config_measured (s : DropSurface) (m : Measure) : (s.measured m).config = s.config := by
  unfold measured
  split <;> rfl

theorem config_offer (s : DropSurface) (t : WidgetTree) (dragged : List WidgetId) (m : Measure)
    (resizing : Bool) : (s.offer t dragged m resizing).2.config = s.config := by
  unfold offer
  split
  · rfl
  · dsimp only
    split <;> exact s.config_measured m

/-- The bars on offer for a stack, or for a canvas that is missing, have a horizontal one among
them. -/
theorem exists_horizontal_offer {s : DropSurface} {t : WidgetTree} {dragged : List WidgetId}
    {m : Measure} {resizing : Bool}
    (stack : (t.get? s.canvas).all Widget.isVerticalStack = true)
    (nonempty : (s.offer t dragged m resizing).1 ≠ []) :
    ∃ h ∈ (s.offer t dragged m resizing).1, h.isVertical = false := by
  unfold offer at nonempty ⊢
  split
  · simp_all
  · rename_i busy
    simp only [busy, Bool.false_eq_true, if_false] at nonempty ⊢
    split at nonempty
    · rename_i container w known present
      rw [canvas_measured] at present
      rw [present, Option.all_some] at stack
      exact BarContext.exists_horizontal _ t stack dragged
    · exact absurd rfl nonempty

theorem wholeCanvas_eq_none_iff (s : DropSurface) (stacked : Bool) :
    s.wholeCanvas stacked = none ↔ s.known = none := Option.map_eq_none_iff

theorem horizontal_wholeCanvas {s : DropSurface} {h : Highlight}
    (whole : s.wholeCanvas true = some h) : h.isVertical = false := by
  obtain ⟨container, -, rfl⟩ := Option.map_eq_some_iff.mp whole
  rfl

/-- The bars that may be selected: those on offer, or the one for the whole canvas when there are
none. -/
def candidates (s : DropSurface) (offered : List Highlight) (stacked : Bool) : List Highlight :=
  if offered = [] then (s.wholeCanvas stacked).toList else offered

theorem candidates_eq_nil_iff (s : DropSurface) (offered : List Highlight) (stacked : Bool) :
    s.candidates offered stacked = [] ↔ offered = [] ∧ s.known = none := by
  unfold candidates
  split <;> simp_all [wholeCanvas_eq_none_iff]

theorem exists_horizontal_candidates {s : DropSurface} {offered : List Highlight} {stacked : Bool}
    (flat : stacked = true → offered ≠ [] → ∃ h ∈ offered, h.isVertical = false)
    (stack : stacked = true) (nonempty : s.candidates offered stacked ≠ []) :
    ∃ h ∈ s.candidates offered stacked, h.isVertical = false := by
  by_cases bare : offered = []
  · obtain ⟨h, mem⟩ := List.exists_mem_of_ne_nil _ nonempty
    refine ⟨h, mem, ?_⟩
    rw [candidates, if_pos bare, stack, Option.mem_toList] at mem
    exact horizontal_wholeCanvas mem
  · rw [candidates, if_neg bare]
    exact flat stack bare

end DropSurface

namespace Drag

variable {surface : DropSurface} {dragged : List WidgetId} {history : DragHistory} {g g' : Drag}

theorem stacked_refresh (g : Drag) (t : WidgetTree) (m : Measure) (resizing : Bool) :
    (g.refresh t m resizing).stacked = (t.get? g.surface.canvas).all Widget.isVerticalStack := by
  cases h : t.get? g.surface.canvas <;> simp [refresh, h]

/-- The pointer is told of the bars that suit its movement, and the nearest gets selected. -/
theorem hover_eq (g : Drag) (p : Point) (d : Option Direction) :
    g.hover p d = (g.surface.rank g.bars p d g.stacked,
      { g with active := (g.surface.rank g.bars p d g.stacked).head?.or g.active }) := by
  unfold hover
  cases g.surface.rank g.bars p d g.stacked <;> rfl

/-- The widgets drop at the selected bar, or else the nearest one gets selected. -/
theorem dropBar_eq (g : Drag) (p : Point) :
    g.dropBar p = (g.active.or (g.hover p none).1.head?,
      { g with active := g.active.or (g.hover p none).1.head? }) := by
  obtain ⟨surface, dragged, bars, active, stacked⟩ := g
  cases active <;> simp [dropBar, hover_eq]

/-- A step of a drag with what it answers. -/
def Takes (g : Drag) (e : DragEvent) (g' : Drag) : Prop := e.step.run g = (e.answer, g')

theorem takes_run (g : Drag) (step : DragStep) :
    Takes g ⟨step, (step.run g).1⟩ (step.run g).2 := rfl

/-- A drag over a surface in the state that its history tells. -/
structure Follows (surface : DropSurface) (history : DragHistory) (g : Drag) : Prop where
  canvas : g.surface.canvas = surface.canvas
  config : g.surface.config = surface.config
  bars : g.bars = history.offered
  active : g.active = history.selected?
  stacked : g.stacked = history.stacked surface.canvas
  flat : g.stacked = true → g.bars ≠ [] → ∃ h ∈ g.bars, h.isVertical = false

theorem follows_start : Follows surface [] (.start surface dragged) where
  canvas := rfl
  config := rfl
  bars := rfl
  active := rfl
  stacked := rfl
  flat _ some := absurd rfl some

/-- A step that leaves the bars on offer selects one of them at most. -/
theorem Follows.select (follows : Follows surface history g) {e : DragEvent} {s : DropSurface}
    {active : Option Highlight} (keeps : e.restarts = false) (canvas : s.canvas = g.surface.canvas)
    (config : s.config = g.surface.config) (selects : active = e.selected?.or g.active) :
    Follows surface (history ++ [e]) { g with surface := s, active } where
  canvas := canvas.trans follows.canvas
  config := config.trans follows.config
  bars := by simpa [DragHistory.offered_snoc, keeps] using follows.bars
  active := by simpa [DragHistory.selected?_snoc, keeps, ← follows.active] using selects
  stacked := by
    have treeless : e.tree? = none := by
      unfold DragEvent.restarts at keeps
      unfold DragEvent.tree?
      cases step : e.step <;> simp_all
    simpa [DragHistory.stacked_snoc, treeless] using follows.stacked
  flat := follows.flat

theorem Follows.step (follows : Follows surface history g) {e : DragEvent}
    (takes : Takes g e g') : Follows surface (history ++ [e]) g' := by
  obtain ⟨step, answer⟩ := e
  obtain rfl : (step.run g).1 = answer := congrArg Prod.fst takes
  obtain rfl : (step.run g).2 = g' := congrArg Prod.snd takes
  cases step with
  | refresh t m resizing =>
    have stacked := g.stacked_refresh t m resizing
    exact {
      canvas := (g.surface.canvas_offer t g.dragged m resizing).trans follows.canvas
      config := (g.surface.config_offer t g.dragged m resizing).trans follows.config
      bars := by simp [DragHistory.offered_snoc, DragEvent.restarts, DragStep.run]
      active := by simp [DragHistory.selected?_snoc, DragEvent.restarts, DragStep.run, refresh]
      stacked := by
        simp [DragHistory.stacked_snoc, DragEvent.tree?, DragStep.run, stacked, follows.canvas]
      flat := fun stack nonempty => DropSurface.exists_horizontal_offer (stacked ▸ stack) nonempty }
  | hover p d =>
    rw [DragStep.run, hover_eq]
    exact follows.select rfl rfl rfl rfl
  | drop p =>
    rw [DragStep.run, dropBar_eq]
    refine follows.select rfl rfl rfl ?_
    cases g.active <;> simp [DragEvent.selected?]
  | forget => exact follows.select rfl rfl rfl rfl
  | finish =>
    exact {
      canvas := follows.canvas
      config := follows.config
      bars := by simp [DragHistory.offered_snoc, DragEvent.restarts, DragStep.run, finish]
      active := by simp [DragHistory.selected?_snoc, DragEvent.restarts, DragStep.run, finish]
      stacked := by
        simpa [DragHistory.stacked_snoc, DragEvent.tree?, DragStep.run, finish] using
          follows.stacked
      flat := fun _ nonempty => absurd rfl nonempty }

theorem follows_of_trace (trace : Trace Takes (.start surface dragged) history g) :
    Follows surface history g := by
  induction trace with
  | nil => exact follows_start
  | snoc _ takes ih => exact ih.step takes

/-- A moving pointer is told of no bar just when none is on offer and the canvas has not been
measured. Otherwise it is told of the bars that suit the movement, the nearest first; up or down a
stack these are horizontal. The widgets drop at the bar selected last, wherever the pointer is, and at
the nearest when none was. -/
theorem answers_of_trace (trace : Trace Takes (.start surface dragged) history g) (p : Point)
    (d : Option Direction) :
    ((g.hover p d).1 = [] ↔ history.offered = [] ∧ g.surface.known = none) ∧
    Highlight.Ranks surface.config p d
      (Highlight.viable (g.surface.candidates history.offered (history.stacked surface.canvas)) p d
        (history.stacked surface.canvas)) (g.hover p d).1 ∧
    (history.stacked surface.canvas = true → d.any (·.isVertical) = true →
      ∀ h ∈ (g.hover p d).1, h.isVertical = false) ∧
    (g.dropBar p).1 = history.selected?.or (g.hover p none).1.head? := by
  have follows := follows_of_trace trace
  have told : (g.hover p d).1 = Highlight.rank g.surface.config
      (g.surface.candidates g.bars g.stacked) p d g.stacked := by
    simp only [hover_eq, DropSurface.rank, DropSurface.candidates, List.isEmpty_iff]
  have ranks := Highlight.ranks_rank g.surface.config (g.surface.candidates g.bars g.stacked) p d
    g.stacked
  rw [← told, follows.config] at ranks
  rw [← follows.bars, ← follows.stacked, ← follows.active]
  refine ⟨?_, ranks, fun stack upright h mem => ?_, by rw [dropBar_eq]⟩
  · have none_iff := g.surface.candidates_eq_nil_iff g.bars g.stacked
    rw [← none_iff, ← Highlight.viable_eq_nil_iff
      (DropSurface.exists_horizontal_candidates follows.flat) p d, ← List.perm_nil,
      ← List.perm_nil]
    exact ranks.perm.congr_left []
  · obtain ⟨d, rfl, upright⟩ := (Option.any_eq_true _ _).mp upright
    rw [stack] at ranks
    exact Highlight.horizontal_of_mem_viable upright (ranks.perm.mem_iff.mp mem)

/-- A drag over the shelf. -/
def shelfDrag : Drag :=
  (start WidgetTree.shelfSurface ["x"]).refresh WidgetTree.shelf WidgetTree.shelfMeasure false

/-- The pointer moves down over the shelf. -/
def shelfHistory : DragHistory :=
  [⟨.refresh WidgetTree.shelf WidgetTree.shelfMeasure false, shelfDrag.bars⟩,
    ⟨.hover ⟨50, 60⟩ (some .down), (shelfDrag.hover ⟨50, 60⟩ (some .down)).1⟩]

theorem answers_of_trace_shelf :
    ∃ g, Trace Takes (.start WidgetTree.shelfSurface ["x"]) shelfHistory g ∧
      (∀ p, ∀ h ∈ (g.hover p (some .down)).1, h.isVertical = false) ∧
      ∃ h, shelfHistory.selected? = some h ∧ ∀ p, (g.dropBar p).1 = some h := by
  have offered : Trace Takes (.start WidgetTree.shelfSurface ["x"]) (shelfHistory.take 1)
      shelfDrag :=
    Trace.nil.snoc (takes_run _ (.refresh ..))
  have moved : Trace Takes (.start WidgetTree.shelfSurface ["x"]) shelfHistory
      (shelfDrag.hover ⟨50, 60⟩ (some .down)).2 :=
    offered.snoc (takes_run _ (.hover ..))
  have told : (shelfDrag.hover ⟨50, 60⟩ (some .down)).1 ≠ [] :=
    mt (answers_of_trace offered _ _).1.mp (by decide +kernel)
  obtain ⟨h, hs, answer⟩ := List.exists_cons_of_ne_nil told
  have selected : shelfHistory.selected? = some h := by
    simp [shelfHistory, DragHistory.selected?, DragEvent.restarts, DragEvent.selected?, answer]
  refine ⟨_, moved, fun p => ?_, h, selected, fun p => ?_⟩
  · exact (answers_of_trace moved p (some .down)).2.2.1 (by decide +kernel) rfl
  · rw [(answers_of_trace moved p none).2.2.2, selected, Option.some_or]

end Drag

end AppBuilder
