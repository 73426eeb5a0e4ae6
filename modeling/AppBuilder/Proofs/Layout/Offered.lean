import AppBuilder.Layout.Drag
import AppBuilder.Proofs.Layout.Bars

/-!
Drops at the bars on offer.

Whatever is visible, every bar that a surface offers names the canvas of the surface
(`canvas_of_mem_bars`), and so does the bar for the whole canvas. A drop at such a bar leaves the
tree valid but for one case: a canvas that stacks its children and has no layers yet gets a layer of
the widgets dropped only, and a child that it keeps is in none (`violations_ne_nil_of_leavesOut`).
-/

namespace AppBuilder

/-! ### Bars name their canvas -/

namespace BarContext

variable {b : BarContext} {h : Highlight}

theorem canvas_of_mem_rowBars {ids : List WidgetId} {first layer : Nat} {align : Alignment}
    (mem : h ∈ b.rowBars ids first layer align) : h.canvas = b.canvas := by
  have before : ∀ visible : List (Rect × Nat), ∀ h ∈ visible.map (fun p =>
      b.rowBar first layer p.2 align (greater (p.1.x - b.config.childGap) 0) p.1),
      h.canvas = b.canvas := by
    intro visible
    rw [List.forall_mem_map]
    exact fun _ _ => rfl
  unfold rowBars at mem
  dsimp only at mem
  split at mem
  · exact before _ h mem
  · rcases List.mem_append.mp mem with mem | mem
    · exact before _ h mem
    · exact List.mem_singleton.mp mem ▸ rfl

theorem canvas_initialBar (index : Nat) (align : Alignment) (layer : Nat) (rect : Rect)
    (stacked newLayer : Bool) :
    (b.initialBar index align layer rect stacked newLayer).canvas = b.canvas := by
  cases stacked <;> rfl

theorem canvas_of_mem_layerBars {l : FlexLayer} {layer first : Nat} {rect : Rect}
    (mem : h ∈ b.layerBars l layer rect first) : h.canvas = b.canvas := by
  obtain ⟨align, -, mem⟩ := exists_mem_bucketBars mem
  unfold bucketBars at mem
  split at mem
  · split at mem
    · simp at mem
    · rw [List.mem_singleton.mp mem, canvas_initialBar]
  · exact canvas_of_mem_rowBars mem

theorem canvas_of_mem_stackLayer {s : Stacking} (before : ∀ h ∈ s.bars, h.canvas = b.canvas)
    {l rest : FlexLayer} (mem : h ∈ (b.stackLayer s l rest).bars) : h.canvas = b.canvas := by
  cases hr : b.layerRect? l with
  | none =>
    rw [stackLayer, hr] at mem
    exact before h mem
  | some rect =>
    rw [(stackLayer_of_rect hr s rest).1] at mem
    rcases List.mem_append.mp mem with mem | mem
    · rcases List.mem_append.mp mem with mem | mem
      · exact before h mem
      · split at mem
        · simp at mem
        · exact List.mem_singleton.mp mem ▸ rfl
    · exact canvas_of_mem_layerBars mem

/-- Every bar of a canvas names it. -/
theorem canvas_of_mem_bars {t : WidgetTree} {w : Widget} {dragged : List WidgetId}
    (mem : h ∈ b.bars t w dragged) : h.canvas = b.canvas := by
  have run : ∀ (layers : List FlexLayer) (s : Stacking), (∀ h ∈ s.bars, h.canvas = b.canvas) →
      ∀ h ∈ (b.descend t dragged s layers).bars, h.canvas = b.canvas := by
    intro layers
    induction layers with
    | nil => exact fun s before => before
    | cons l layers ih => exact fun s before => ih _ fun _ => canvas_of_mem_stackLayer before
  unfold bars at mem
  dsimp only at mem
  split at mem
  · rw [List.mem_singleton.mp mem, canvas_initialBar]
  · split at mem
    · rcases List.mem_append.mp mem with mem | mem
      · exact run w.layers ⟨[], 0, 0, 0⟩ (by simp) h mem
      · exact List.mem_singleton.mp mem ▸ rfl
    · exact canvas_of_mem_layerBars mem

end BarContext

/-! ### Bars on offer -/

namespace Highlight

/-- Ranking leaves bars out and changes none. -/
theorem mem_of_mem_rank {c : HighlightConfig} {bars : List Highlight} {p : Point}
    {d : Option Direction} {stacked : Bool} {h : Highlight}
    (mem : h ∈ rank c bars p d stacked) : h ∈ bars := by
  have orLast : ∀ {hits others : List Highlight}, hits ⊆ bars → others ⊆ bars →
      h ∈ orLast hits others → h ∈ bars := by
    intro hits others hitsSub othersSub mem
    unfold Highlight.orLast at mem
    split at mem
    · exact othersSub (List.mem_of_getLast? (Option.mem_toList.mp mem))
    · exact hitsSub mem
  have sub : ∀ p : Highlight → Bool, bars.filter p ⊆ bars := fun p _ mem =>
    (List.mem_filter.mp mem).1
  rw [rank, List.mem_mergeSort] at mem
  unfold viable at mem
  split at mem
  · exact mem
  · split at mem
    · exact orLast (sub _) (List.Subset.refl _) mem
    · split at mem
      · exact sub _ mem
      · exact orLast (sub _) (sub _) mem

end Highlight

namespace DropSurface

/-- A bar on offer for dragged widgets, or when there is none the bar for the whole canvas. -/
def Offers (s : DropSurface) (t : WidgetTree) (dragged : List WidgetId) (m : Measure)
    (resizing : Bool) (bar : Highlight) : Prop :=
  let offer := s.offer t dragged m resizing
  bar ∈ offer.1 ∨ offer.1 = [] ∧ ∃ p d stacked, bar ∈ offer.2.rank [] p d stacked

theorem canvas_measured (s : DropSurface) (m : Measure) : (s.measured m).canvas = s.canvas := by
  unfold measured
  split <;> rfl

theorem canvas_offer (s : DropSurface) (t : WidgetTree) (dragged : List WidgetId) (m : Measure)
    (resizing : Bool) : (s.offer t dragged m resizing).2.canvas = s.canvas := by
  unfold offer
  split
  · rfl
  · dsimp only
    split <;> exact s.canvas_measured m

/-- Every bar on offer, and the bar for the whole canvas, names the canvas. -/
theorem Offers.canvas_eq {s : DropSurface} {t : WidgetTree} {dragged : List WidgetId}
    {m : Measure} {resizing : Bool} {bar : Highlight}
    (offered : s.Offers t dragged m resizing bar) : bar.canvas = s.canvas := by
  rcases offered with mem | ⟨-, p, d, stacked, mem⟩
  · unfold offer at mem
    split at mem
    · simp at mem
    · dsimp only at mem
      split at mem
      · exact (BarContext.canvas_of_mem_bars mem).trans (s.canvas_measured m)
      · simp at mem
  · have mem := Option.mem_toList.mp (Highlight.mem_of_mem_rank mem)
    obtain ⟨container, -, rfl⟩ := Option.map_eq_some_iff.mp mem
    rw [BarContext.canvas_initialBar]
    exact s.canvas_offer t dragged m resizing

end DropSurface

namespace WidgetTree

/-! ### Drops into a canvas without layers -/

/-- A container that is there stacks its children in layers. -/
def stacksChildren (t : WidgetTree) (id : WidgetId) : Bool := (t.get? id).any Widget.isVerticalStack

/-- The way a container arranges its children. -/
def directionOf (t : WidgetTree) (id : WidgetId) : LayoutDirection :=
  if t.stacksChildren id then .vertical else .horizontal

/-- A drop that gives a container its first layers, and leaves a child out of these. -/
def LeavesOut (t : WidgetTree) (selection : List WidgetId) (canvas : WidgetId) : Prop :=
  t.stacksChildren canvas = true ∧ t.layersOf canvas = [] ∧ t.movable selection canvas ≠ [] ∧
    ∃ child ∈ t.childrenOf canvas, child ∉ selection

section LeavesOut

variable {t : WidgetTree} (h : t.WellFormed) (c : LayoutConfig) {selection : List WidgetId}
  {d : DropTarget}
include h

/-- A child left out of the layers of a canvas is a violation. -/
theorem WellFormed.violations_ne_nil_of_leavesOut (nodup : selection.Nodup)
    (target : t.contains d.parent = true) (vertical : d.direction = .vertical)
    (leaves : t.LeavesOut selection d.parent) : (t.moveTo c selection d).violations ≠ [] := by
  obtain ⟨-, bare, nonempty, child, mem, stays⟩ := leaves
  have selected := selected_movable nodup nonempty
  have out : child ∉ t.movable selection d.parent := fun hm => stays (List.mem_filter.mp hm).1
  rw [← moveTo_movable]
  generalize t.movable selection d.parent = moved at *
  have children := h.consistent.childrenOf_moveTo selected target c
  -- there are no layers that the widgets could join
  have layers : ∃ l, (t.moveTo c moved d).layersOf d.parent = [l] ∧ l.ids = moved := by
    have there : ∀ child ∈ moved.map fun m => (⟨m, d.align⟩ : LayerChild),
        t.contains child.id = true := by
      rw [List.forall_mem_map]
      exact selected.there
    rw [h.consistent.layersOf_moveTo selected target c vertical, bare,
      FlexLayer.ofChildren_of_there there]
    refine ⟨⟨moved.map (⟨·, d.align⟩), t.fills (moved.map (⟨·, d.align⟩))⟩, ?_, ?_⟩
    · simp [Layers.without, Layers.insertLayer, FlexLayer.isEmpty, selected.nonempty, insertAt]
    · simp [FlexLayer.ids, Function.comp_def]
  obtain ⟨l, layers, ids⟩ := layers
  intro valid
  have arranged := (h.consistent.linked_moveTo selected target c valid).arranged d.parent
    (by simp [layers])
  have kept : child ∈ (t.moveTo c moved d).childrenOf d.parent := by
    rw [children, (perm_insertAt _ _ _).mem_iff]
    exact List.mem_append_right _ (List.mem_filter.mpr ⟨mem, by simpa using out⟩)
  have held := arranged.perm.mem_iff.mpr kept
  rw [layers, Layers.flatten_cons, Layers.flatten_nil, List.append_nil, ids] at held
  exact out held

/-- A drop that leaves no child of a canvas out keeps the tree well formed. -/
theorem WellFormed.moveTo_of_not_leavesOut (nodup : selection.Nodup) (canvas : t.IsCanvas d.parent)
    (vertical : d.direction = t.directionOf d.parent)
    (covers : ¬ t.LeavesOut selection d.parent) : (t.moveTo c selection d).WellFormed := by
  rcases eq_or_ne (t.movable selection d.parent) [] with idle | nonempty
  · rw [WidgetTree.moveTo, idle, ite_self]
    exact h
  · refine h.moveTo c ⟨nodup, fun _ => canvas, fun stacked bare child mem => ?_⟩
    by_contra stays
    refine covers ⟨?_, bare, nonempty, child, mem, stays⟩
    by_contra beside
    rw [vertical, directionOf, if_neg beside] at stacked
    cases stacked

end LeavesOut

/-! ### Drops at the bars on offer -/

/-- A drop at a bar that a surface offers over a canvas, the widgets being arranged in the way of
the canvas, leaves the tree valid if and only if it does not give the canvas its first layers and
leave out a child. -/
theorem WellFormed.violations_drop_eq_nil_iff {t : WidgetTree} (h : t.WellFormed)
    (c : LayoutConfig) (s : DropSurface) (canvas : t.IsCanvas s.canvas) (m : Measure)
    {dragged : List WidgetId} (nodup : dragged.Nodup) (resizing : Bool) {bar : Highlight}
    (offered : s.Offers t dragged m resizing bar) :
    (t.moveTo c dragged (bar.target (t.directionOf s.canvas))).violations = [] ↔
      ¬ t.LeavesOut dragged s.canvas := by
  have parent : (bar.target (t.directionOf s.canvas)).parent = s.canvas := offered.canvas_eq
  have direction : (bar.target (t.directionOf s.canvas)).direction = t.directionOf s.canvas := rfl
  have there : t.contains s.canvas = true := by
    obtain ⟨w, hw, -⟩ := canvas
    exact contains_iff.mpr ⟨w, hw⟩
  generalize bar.target (t.directionOf s.canvas) = d at *
  rw [← parent] at there canvas direction ⊢
  constructor
  · intro valid leaves
    have vertical : d.direction = .vertical := direction.trans (if_pos leaves.1)
    exact h.violations_ne_nil_of_leavesOut c nodup there vertical leaves valid
  · intro covers
    exact (h.moveTo_of_not_leavesOut c nodup canvas direction covers).valid

/-- A root canvas with two texts and no layers. -/
def unlayered : WidgetTree :=
  .ofList [
    { Widget.ofType mainContainerId canvasType with children := ["a", "b"] },
    { Widget.ofType "a" "TEXT_WIDGET" with
      parent := some mainContainerId
      position := ⟨0, 4, 0, 16⟩ },
    { Widget.ofType "b" "TEXT_WIDGET" with
      parent := some mainContainerId
      position := ⟨4, 8, 0, 16⟩ }]

/-- Its canvas on the screen. -/
def unlayeredSurface : DropSurface := ⟨mainContainerId, {}, some ⟨0, 0, 640, 400⟩⟩

/-- The only bar on the canvas. -/
def unlayeredBar : Highlight :=
  let b := unlayeredSurface.context .nothing ⟨0, 0, 640, 400⟩
  b.initialBar 0 .start 0 b.localContainer true true

theorem violations_drop_eq_nil_iff_unlayered :
    unlayered.WellFormed ∧ unlayered.IsCanvas unlayeredSurface.canvas ∧ ["b", "a"].Nodup ∧
      unlayeredSurface.Offers unlayered ["b", "a"] .nothing false unlayeredBar ∧
      (unlayered.moveTo {} ["b", "a"] (unlayeredBar.target
        (unlayered.directionOf unlayeredSurface.canvas))).violations = [] := by
  have wellFormed : unlayered.WellFormed := by decide +kernel
  have canvas : unlayered.IsCanvas unlayeredSurface.canvas := by decide +kernel
  have nodup : ["b", "a"].Nodup := by decide
  have offered : unlayeredSurface.Offers unlayered ["b", "a"] .nothing false unlayeredBar :=
    .inl (List.mem_singleton_self unlayeredBar)
  refine ⟨wellFormed, canvas, nodup, offered, ?_⟩
  refine (wellFormed.violations_drop_eq_nil_iff {} unlayeredSurface canvas .nothing nodup false
    offered).mpr ?_
  -- both children are dropped, so that none is left out
  rintro ⟨-, -, -, child, mem, stays⟩
  have children : unlayered.childrenOf unlayeredSurface.canvas = ["a", "b"] := by decide +kernel
  rw [children] at mem
  exact stays (by simpa [or_comm] using mem)

/-- One of the texts is dropped at the bar on offer, and the other one is in no layer. -/
theorem violations_drop_unlayered :
    unlayered.WellFormed ∧ unlayered.IsCanvas unlayeredSurface.canvas ∧ ["a"].Nodup ∧
      unlayeredSurface.Offers unlayered ["a"] .nothing false unlayeredBar ∧
      (unlayered.moveTo {} ["a"] (unlayeredBar.target
        (unlayered.directionOf unlayeredSurface.canvas))).violations =
          [.layerMembership mainContainerId "b" 0] :=
  ⟨by decide +kernel, by decide +kernel, by decide, .inl (List.mem_singleton_self unlayeredBar),
    by decide +kernel⟩

end WidgetTree

end AppBuilder
