import AppBuilder.Proofs.Layout.Landing
import AppBuilder.Proofs.Widget.LayerRule

/-!
Bars over a stack of which some layers cannot be seen.

The bars of a row depend on what is visible of that row only, and on where the count of widgets
and layers above it stands (`layerBars_shift`). A child of a row that cannot be seen still counts,
but a whole layer that cannot be seen does not. So when a measure hides some layers, the bars of
the others stay but count less by what these layers keep in the drag (`barsBelow_eq_map_shift`).

Main statement: `WidgetTree.Consistent.barsBelow_of_hides`.
-/

namespace AppBuilder

/-! ### Numbers of bars -/

namespace Highlight

/-- What a bar counts: its place among the children, its layer and its place in the bucket. -/
def numbers (h : Highlight) : Nat × Nat × Nat := (h.index, h.layer, h.row)

/-- A bar that counts some more widgets and layers above it. -/
def shift (widgets layers : Nat) (h : Highlight) : Highlight :=
  { h with index := h.index + widgets, layer := h.layer + layers }

@[simp] theorem rect_shift (widgets layers : Nat) (h : Highlight) :
    (h.shift widgets layers).rect = h.rect := rfl

theorem numbers_shift_eq_iff {widgets layers : Nat} {h : Highlight} :
    (h.shift widgets layers).numbers = h.numbers ↔ widgets = 0 ∧ layers = 0 := by
  simp [numbers, shift]

/-- Bars that count more have the same numbers just when they count nothing more. -/
theorem map_numbers_shift_eq_iff {widgets layers : Nat} {bars : List Highlight}
    (nonempty : bars ≠ []) :
    (bars.map (shift widgets layers)).map numbers = bars.map numbers ↔
      widgets = 0 ∧ layers = 0 := by
  rw [List.map_map, List.map_inj_left]
  constructor
  · intro same
    obtain ⟨h, mem⟩ := List.exists_mem_of_ne_nil bars nonempty
    exact numbers_shift_eq_iff.mp (same h mem)
  · rintro still h -
    exact numbers_shift_eq_iff.mpr still

end Highlight

namespace BarContext

/-! ### Bars of a row under two measures -/

section Shift

variable {b : BarContext} {m : Measure}

theorem rowBars_shift {ids : List WidgetId}
    (same : ∀ id ∈ ids, { b with measure := m }.localRect? id = b.localRect? id)
    (first layer widgets layers : Nat) (align : Alignment) :
    b.rowBars ids (first + widgets) (layer + layers) align =
      ({ b with measure := m }.rowBars ids first layer align).map (.shift widgets layers) := by
  have bar : ∀ row x r, b.rowBar (first + widgets) (layer + layers) row align x r =
      ({ b with measure := m }.rowBar first layer row align x r).shift widgets layers := by
    intro row x r
    simp only [rowBar, Highlight.shift, Nat.add_right_comm]
  have visible : (ids.zipIdx.filterMap fun p =>
      ({ b with measure := m }.localRect? p.1).map fun r => (r, p.2)) =
        ids.zipIdx.filterMap fun p => (b.localRect? p.1).map fun r => (r, p.2) :=
    List.filterMap_congr fun p hp => by rw [same p.1 (List.fst_mem_of_mem_zipIdx hp)]
  simp only [rowBars, visible, bar]
  split
  · rw [List.map_map]
    rfl
  · rw [List.map_append, List.map_map]
    rfl

theorem bucketBars_shift {ids : List WidgetId}
    (same : ∀ id ∈ ids, { b with measure := m }.localRect? id = b.localRect? id)
    (first layer widgets layers : Nat) (align : Alignment) (rect : Rect) (rowEmpty : Bool)
    (occupied : Float) :
    b.bucketBars ids (first + widgets) (layer + layers) align rect rowEmpty occupied =
      ({ b with measure := m }.bucketBars ids first layer align rect rowEmpty occupied).map
        (.shift widgets layers) := by
  unfold bucketBars
  rw [rowBars_shift same]
  cases { b with measure := m }.rowBars ids first layer align with
  | nil =>
    rw [List.map_nil]
    dsimp only
    split <;> rfl
  | cons bar bars => rfl

/-- The bars of a row whose widgets are seen alike under two measures differ in what they count
above it only. -/
theorem layerBars_shift {l : FlexLayer}
    (same : ∀ id ∈ l.ids, { b with measure := m }.localRect? id = b.localRect? id)
    (layer layers : Nat) (rect : Rect) (first widgets : Nat) :
    b.layerBars l (layer + layers) rect (first + widgets) =
      ({ b with measure := m }.layerBars l layer rect first).map (.shift widgets layers) := by
  have bucket : ∀ align first, b.bucketBars (l.spread.get align) (first + widgets)
      (layer + layers) align rect l.spread.isEmpty (b.occupied l) =
        ({ b with measure := m }.bucketBars (l.spread.get align) first layer align rect
          l.spread.isEmpty ({ b with measure := m }.occupied l)).map (.shift widgets layers) := by
    intro align first
    have occupied : { b with measure := m }.occupied l = b.occupied l := by
      rw [occupied, occupied, List.filterMap_congr same]
    rw [occupied]
    exact bucketBars_shift (fun id hid => same id (FlexLayer.mem_ids_of_mem_get hid)) ..
  unfold layerBars
  simp only [bucket, Nat.add_right_comm first widgets, Nat.add_right_comm _ widgets]
  split
  · rfl
  · simp only [List.map_append, List.filter_map, List.any_map, List.isEmpty_map,
      Function.comp_def, Highlight.rect_shift]
    rfl

end Shift

/-! ### Bars by layer -/

/-- The bars of a layer, given with and without the dragged widgets, below some widgets and
layers: the bar above it, unless the drag takes all of it, and those of its row. -/
def ownBars (b : BarContext) (count kept : Nat) (l rest : FlexLayer) : List Highlight :=
  match b.layerRect? l with
  | none => []
  | some rect =>
    (if rest.isEmpty then [] else [b.newLayerBar count kept (b.edgeAbove l)]) ++
      b.layerBars rest kept rect count

/-- The bars of a layer of a stack that has some layers above it. -/
def barsBelow (b : BarContext) (t : WidgetTree) (dragged : List WidgetId)
    (above : List FlexLayer) (l : FlexLayer) : List Highlight :=
  let left := Layers.without t dragged (b.shown above)
  b.ownBars (Layers.flatten left).length left.length l (l.without t dragged)

section Below

variable (b : BarContext) (t : WidgetTree) (dragged : List WidgetId)

theorem bars_stackLayer (s : Stacking) (l rest : FlexLayer) :
    (b.stackLayer s l rest).bars = s.bars ++ b.ownBars s.count s.kept l rest := by
  cases hr : b.layerRect? l with
  | none => simp [stackLayer, ownBars, hr]
  | some rect =>
    rw [(stackLayer_of_rect hr s rest).1, ownBars, hr]
    exact List.append_assoc ..

/-- Going down a stack, the bars of each layer are put behind those of the layers above it. -/
theorem bars_descend (above layers : List FlexLayer) :
    (b.descend t dragged ⟨[], 0, 0, 0⟩ (above ++ layers)).bars =
      (b.descend t dragged ⟨[], 0, 0, 0⟩ above).bars ++
        (layers.mapIdx fun i l => b.barsBelow t dragged (above ++ layers.take i) l).flatten := by
  induction layers generalizing above with
  | nil => simp
  | cons l layers ih =>
    obtain ⟨count, kept⟩ := b.descend_counts_shown t dragged above ⟨[], 0, 0, 0⟩
    rw [Nat.zero_add] at count kept
    have next : (b.descend t dragged ⟨[], 0, 0, 0⟩ (above ++ [l])).bars =
        (b.descend t dragged ⟨[], 0, 0, 0⟩ above).bars ++ b.barsBelow t dragged above l := by
      rw [descend, List.foldl_append, List.foldl_cons, List.foldl_nil, bars_stackLayer]
      rw [← descend, count, kept]
      rfl
    rw [List.append_cons, ih, next, List.mapIdx_cons]
    simp

/-- The bars of a stack are those of its layers and one below them all. -/
theorem exists_stackBars_eq_barsBelow (layers : List FlexLayer) :
    ∃ y, b.stackBars t layers dragged =
      (layers.mapIdx fun i l => b.barsBelow t dragged (layers.take i) l).flatten ++
        [b.newLayerBar (Layers.flatten (Layers.without t dragged (b.shown layers))).length
          (Layers.without t dragged (b.shown layers)).length y] := by
  obtain ⟨count, kept⟩ := b.descend_counts_shown t dragged layers ⟨[], 0, 0, 0⟩
  rw [Nat.zero_add] at count kept
  refine ⟨(b.descend t dragged ⟨[], 0, 0, 0⟩ layers).bottom, ?_⟩
  rw [← count, ← kept]
  exact congrArg (· ++ _) (b.bars_descend t dragged [] layers)

variable {b t dragged}

/-- A layer of which something is visible has a bar, even when the drag takes all of it. -/
theorem barsBelow_ne_nil {l : FlexLayer} (seen : (b.layerRect? l).isSome = true)
    (above : List FlexLayer) : b.barsBelow t dragged above l ≠ [] := by
  obtain ⟨rect, hr⟩ := Option.isSome_iff_exists.mp seen
  simp only [barsBelow, ownBars, hr]
  cases none : (l.without t dragged).isEmpty with
  | false => simp
  | true =>
    have bare : (l.without t dragged).children = [] := by simpa [FlexLayer.isEmpty] using none
    have unfilled : (l.without t dragged).hasFill = false := by
      have flag : t.fills (l.without t dragged).children = (l.without t dragged).hasFill := rfl
      rw [← flag, bare]
      rfl
    simp [layerBars, FlexLayer.spread, unfilled, bare, Buckets.ofChildren, Buckets.aligned,
      bucketBars, rowBars, Buckets.get, Buckets.isEmpty]

end Below

/-! ### Layers that only one measure sees -/

/-- The layers that are visible, but not with another measure. -/
def shownOnly (b : BarContext) (m : Measure) (layers : List FlexLayer) : List FlexLayer :=
  (b.shown layers).filter fun l => !({ b with measure := m }.layerRect? l).isSome

section ShownOnly

variable {b : BarContext} {m : Measure} {t : WidgetTree} {dragged : List WidgetId}

theorem shownOnly_subset (b : BarContext) (m : Measure) (layers : List FlexLayer) :
    b.shownOnly m layers ⊆ layers := fun _ hl =>
  (List.mem_filter.mp (List.mem_filter.mp hl).1).1

/-- When nothing comes into view, the layers that stay visible and those that do not make up the
visible ones. -/
theorem perm_shown {layers : List FlexLayer} (sub : ∀ l ∈ layers,
      ({ b with measure := m }.layerRect? l).isSome = true → (b.layerRect? l).isSome = true) :
    (b.shown layers).Perm ({ b with measure := m }.shown layers ++ b.shownOnly m layers) := by
  have kept : { b with measure := m }.shown layers =
      (b.shown layers).filter fun l => ({ b with measure := m }.layerRect? l).isSome := by
    rw [shown, shown, List.filter_filter]
    refine List.filter_congr fun l hl => ?_
    have below := sub l hl
    cases hm : ({ b with measure := m }.layerRect? l).isSome with
    | false => rfl
    | true => rw [below hm, Bool.and_self]
  rw [kept]
  exact (List.filter_append_perm _ _).symm

/-- A layer that is seen alike has the same bars below layers that are not, but they count less by
what the drag leaves of the layers that went out of view. -/
theorem barsBelow_eq_map_shift {above : List FlexLayer} {l : FlexLayer} (sub : ∀ l ∈ above,
      ({ b with measure := m }.layerRect? l).isSome = true → (b.layerRect? l).isSome = true)
    (same : ∀ id ∈ l.ids, { b with measure := m }.localRect? id = b.localRect? id) :
    let gone := Layers.without t dragged (b.shownOnly m above)
    b.barsBelow t dragged above l =
      ({ b with measure := m }.barsBelow t dragged above l).map
        (.shift (Layers.flatten gone).length gone.length) := by
  intro gone
  have left : (Layers.without t dragged (b.shown above)).Perm
      (Layers.without t dragged ({ b with measure := m }.shown above) ++ gone) := by
    have split := ((perm_shown sub).map (FlexLayer.without t dragged)).filter (!·.isEmpty)
    rwa [List.map_append, List.filter_append] at split
  have kept := left.length_eq
  have count := (left.flatMap_right FlexLayer.ids).length_eq
  rw [List.length_append] at kept
  rw [List.flatMap_append, List.length_append] at count
  have rect : { b with measure := m }.layerRect? l = b.layerRect? l := by
    rw [layerRect?, layerRect?, List.filterMap_congr same]
  have edge : { b with measure := m }.edgeAbove l = b.edgeAbove l := by
    rw [edgeAbove, edgeAbove, rect]
  have own : ∀ id ∈ (l.without t dragged).ids,
      { b with measure := m }.localRect? id = b.localRect? id := fun id hid =>
    same id (List.mem_filter.mp (FlexLayer.ids_without t _ _ ▸ hid)).1
  simp only [barsBelow, ownBars, rect, edge]
  cases b.layerRect? l with
  | none => rfl
  | some rect =>
    simp only [Layers.flatten, kept, count]
    rw [layerBars_shift own, List.map_append]
    split <;> rfl

end ShownOnly

end BarContext

namespace WidgetTree

/-! ### Two measures of a canvas -/

/-- Two measures of a canvas that agree on it and on all widgets, but that the second sees nothing
of some of its layers. -/
structure Hides (t : WidgetTree) (canvas : WidgetId) (hidden : FlexLayer → Prop)
    (m m' : Measure) : Prop where
  container : ∃ rect, m canvas = some rect ∧ m' canvas = some rect
  unseen : ∀ l ∈ t.layersOf canvas, hidden l → ∀ id ∈ l.ids, m' id = none
  seen : ∀ id, (∀ l ∈ t.layersOf canvas, hidden l → id ∉ l.ids) → m' id = m id

section Hides

variable {t : WidgetTree} (h : t.Consistent) {s : DropSurface} {hidden : FlexLayer → Prop}
  {m m' : Measure}

/-- A surface knows the same rectangle of its canvas from both measures. -/
theorem Hides.exists_known (hides : t.Hides s.canvas hidden m m') :
    ∃ container, (s.measured m).known = some container ∧
      (s.measured m').known = some container := by
  unfold DropSurface.measured
  cases hk : s.known with
  | none => exact hides.container
  | some container => exact ⟨container, hk, hk⟩

include h

/-- No child is in two layers of a container. -/
theorem Consistent.layer_unique {canvas : WidgetId} {l l' : FlexLayer}
    (hl : l ∈ t.layersOf canvas) (hl' : l' ∈ t.layersOf canvas) {id : WidgetId}
    (mem : id ∈ l.ids) (mem' : id ∈ l'.ids) : l = l' := by
  have arranged := h.linked.arranged canvas (List.ne_nil_of_mem hl)
  have nodup := arranged.perm.nodup_iff.mpr (h.nodup canvas)
  obtain ⟨i, hi⟩ := List.mem_iff_getElem?.mp hl
  obtain ⟨i', hi'⟩ := List.mem_iff_getElem?.mp hl'
  obtain ⟨j, hj⟩ := List.mem_iff_getElem?.mp mem
  obtain ⟨j', hj'⟩ := List.mem_iff_getElem?.mp mem'
  obtain ⟨rfl, -⟩ := Layers.nodup_flatten_iff.mp nodup i j i' j' id
    (Layers.nameAt?_eq_some_iff.mpr ⟨l, hi, hj⟩) (Layers.nameAt?_eq_some_iff.mpr ⟨l', hi', hj'⟩)
  exact Option.some.inj (hi.symm.trans hi')

/-- What the drag leaves of layers is nothing just when it takes them whole. -/
theorem Consistent.without_eq_nil_iff {canvas : WidgetId} {layers : List FlexLayer}
    (sub : layers ⊆ t.layersOf canvas) (dragged : List WidgetId) :
    Layers.without t dragged layers = [] ↔ ∀ l ∈ layers, ∀ id ∈ l.ids, id ∈ dragged := by
  have whole : ∀ l ∈ layers, (l.without t dragged).isEmpty = true ↔ ∀ id ∈ l.ids, id ∈ dragged := by
    intro l hl
    have there : ∀ id ∈ l.ids, t.contains id = true := fun id hid =>
      contains_of_parentOf? (h.linked.up_of_mem_flatten (List.mem_flatMap.mpr ⟨l, sub hl, hid⟩))
    have names : (l.without t dragged).isEmpty = (l.without t dragged).ids.isEmpty := by
      rw [FlexLayer.isEmpty, FlexLayer.ids, List.isEmpty_map]
    rw [names, FlexLayer.ids_without, List.isEmpty_iff, List.filter_eq_nil_iff]
    refine forall₂_congr fun id hid => ?_
    simp [there id hid]
  rw [Layers.without, List.filter_eq_nil_iff, List.forall_mem_map]
  refine forall₂_congr fun l hl => ?_
  rw [← whole l hl]
  simp

variable (hides : t.Hides s.canvas hidden m m') (container : Rect) {l : FlexLayer}
  (hl : l ∈ t.layersOf s.canvas) (seen : ((s.context m' container).layerRect? l).isSome = true)
include hides hl seen

/-- A layer of which the second measure sees something, the first sees alike. -/
theorem Consistent.same_of_shown : ∀ id ∈ l.ids,
    (s.context m' container).localRect? id = (s.context m container).localRect? id := by
  have shown : ¬ hidden l := fun out => by
    have unmeasured : l.ids.filterMap (s.context m' container).localRect? = [] := by
      refine List.filterMap_eq_nil_iff.mpr fun id hid => ?_
      simp [BarContext.localRect?, DropSurface.context, hides.unseen l hl out id hid]
    simp [BarContext.layerRect?, unmeasured] at seen
  intro id hid
  have alike : m' id = m id := hides.seen id fun l' hl' out mem =>
    shown (h.layer_unique hl hl' hid mem ▸ out)
  simp only [BarContext.localRect?, DropSurface.context, alike]

theorem Consistent.shown_of_shown : ((s.context m container).layerRect? l).isSome = true := by
  have same := List.filterMap_congr (h.same_of_shown hides container hl seen)
  rw [BarContext.layerRect?, same] at seen
  exact seen

end Hides

/-- The bars of the layers of a stack are on offer. -/
theorem Linked.mem_offer_of_mem_barsBelow {t : WidgetTree} (linked : t.Linked) {s : DropSurface}
    (stacked : t.Stacks s.canvas) {m : Measure} {dragged : List WidgetId} (nonempty : dragged ≠ [])
    {container : Rect} (known : (s.measured m).known = .some container) {i : Nat} {l : FlexLayer}
    (hi : (t.layersOf s.canvas)[i]? = .some l) {bar : Highlight}
    (mem : bar ∈ (s.context m container).barsBelow t dragged ((t.layersOf s.canvas).take i) l) :
    bar ∈ (s.offer t dragged m false).1 := by
  obtain ⟨y, eq⟩ := (s.context m container).exists_stackBars_eq_barsBelow t dragged
    (t.layersOf s.canvas)
  rw [linked.offer_eq stacked nonempty known, eq]
  refine List.mem_append_left _ (List.mem_flatten.mpr ⟨_, List.mem_mapIdx.mpr ?_, mem⟩)
  obtain ⟨inside, own⟩ := List.getElem?_eq_some_iff.mp hi
  exact ⟨i, inside, by rw [own]⟩

/-- Whatever is visible, the bars on a stack are those of its layers and one below them all. When a
second measure sees nothing of some layers, it has the same bars for every layer that it sees, but
they count less by the widgets and layers that the drag leaves of the layers above that went out
of view. So they have the same numbers just when the drag takes these layers whole. -/
theorem Consistent.barsBelow_of_hides {t : WidgetTree} (h : t.Consistent) (s : DropSurface)
    (stacked : t.Stacks s.canvas) {hidden : FlexLayer → Prop} {m m' : Measure}
    (hides : t.Hides s.canvas hidden m m') (dragged : List WidgetId) (resizing : Bool) :
    let layers := t.layersOf s.canvas
    ∃ container, let b := s.context m container
      let b' := s.context m' container
      (∀ μ, μ = m ∨ μ = m' → (s.measured μ).known = some container ∧ ∃ y,
        let shown := Layers.without t dragged ((s.context μ container).shown layers)
        (s.offer t dragged μ resizing).1 = if resizing || dragged.isEmpty then [] else
          (layers.mapIdx fun i l =>
            (s.context μ container).barsBelow t dragged (layers.take i) l).flatten ++
          [(s.context μ container).newLayerBar (Layers.flatten shown).length shown.length y]) ∧
      ∀ i l, layers[i]? = some l → (b'.layerRect? l).isSome = true →
        let above := layers.take i
        let gone := Layers.without t dragged (b.shownOnly m' above)
        b.barsBelow t dragged above l ≠ [] ∧
        b.barsBelow t dragged above l = (b'.barsBelow t dragged above l).map
          (.shift (Layers.flatten gone).length gone.length) ∧
        ((b.barsBelow t dragged above l).map Highlight.numbers =
            (b'.barsBelow t dragged above l).map Highlight.numbers ↔
          ∀ l' ∈ b.shownOnly m' above, ∀ id ∈ l'.ids, id ∈ dragged) := by
  intro layers
  obtain ⟨container, known, known'⟩ := hides.exists_known
  refine ⟨container, ?_, ?_⟩
  · intro μ hμ
    have knows : (s.measured μ).known = some container := by
      rcases hμ with rfl | rfl <;> assumption
    refine ⟨knows, ?_⟩
    obtain ⟨y, eq⟩ := (s.context μ container).exists_stackBars_eq_barsBelow t dragged layers
    refine ⟨y, ?_⟩
    cases off : resizing || dragged.isEmpty with
    | true => simp [DropSurface.offer, off]
    | false =>
      obtain ⟨rfl, nonempty⟩ : resizing = false ∧ dragged ≠ [] := by simpa using off
      exact (h.linked.offer_eq stacked nonempty knows).trans eq
  · intro i l hi seen above gone
    have hl := List.mem_of_getElem? hi
    have inside : above ⊆ layers := List.take_subset i layers
    have shown := h.shown_of_shown hides container hl seen
    have shifted : (s.context m container).barsBelow t dragged above l =
        ((s.context m' container).barsBelow t dragged above l).map
          (.shift (Layers.flatten gone).length gone.length) :=
      BarContext.barsBelow_eq_map_shift (b := s.context m container)
        (fun l' hl' => h.shown_of_shown hides container (inside hl'))
        (h.same_of_shown hides container hl seen)
    refine ⟨BarContext.barsBelow_ne_nil shown above, shifted, ?_⟩
    have taken := h.without_eq_nil_iff
      (List.Subset.trans ((s.context m container).shownOnly_subset m' above) inside) dragged
    rw [shifted, Highlight.map_numbers_shift_eq_iff (BarContext.barsBelow_ne_nil seen above),
      ← taken]
    constructor
    · exact fun same => List.length_eq_zero_iff.mp same.2
    · intro same
      exact ⟨by simp only [gone, same]; rfl, by simp only [gone, same]; rfl⟩

/-- A canvas with three layers of one widget each. -/
def column : WidgetTree :=
  .ofList [
    { Widget.ofType mainContainerId canvasType with
      children := ["a", "b", "x"]
      layers := [⟨[⟨"a", .start⟩], false⟩, ⟨[⟨"b", .start⟩], false⟩, ⟨[⟨"x", .start⟩], false⟩] },
    { Widget.ofType "a" "TEXT_WIDGET" with parent := some mainContainerId },
    { Widget.ofType "b" "TEXT_WIDGET" with parent := some mainContainerId },
    { Widget.ofType "x" "TEXT_WIDGET" with parent := some mainContainerId }]

/-- Where the widgets of the column are. -/
def columnMeasure : Measure := fun id =>
  if id = "a" then some ⟨0, 0, 160, 40⟩
  else if id = "b" then some ⟨0, 40, 160, 40⟩
  else if id = "x" then some ⟨0, 80, 160, 40⟩
  else some ⟨0, 0, 640, 400⟩

/-- The same while the first widget is not on the screen. -/
def scrolledMeasure : Measure := fun id => if id = "a" then none else columnMeasure id

theorem hides_column : column.Consistent ∧ column.Stacks shelfSurface.canvas ∧
    column.Hides shelfSurface.canvas (fun l => l = ⟨[⟨"a", .start⟩], false⟩) columnMeasure
      scrolledMeasure := by
  refine ⟨WellFormed.consistent (by decide +kernel), ⟨_, rfl, rfl, List.cons_ne_nil _ _⟩,
    ⟨_, rfl, rfl⟩, ?_, fun id out => ?_⟩
  · rintro l - rfl id mem
    rw [List.mem_singleton.mp mem]
    rfl
  · have apart : id ≠ "a" := fun same =>
      out ⟨[⟨"a", .start⟩], false⟩ (by decide +kernel) rfl (by simp [same, FlexLayer.ids])
    rw [scrolledMeasure, if_neg apart]

theorem barsBelow_of_hides_column : column.Consistent ∧ column.Stacks shelfSurface.canvas ∧
    ∃ container, (shelfSurface.measured scrolledMeasure).known = some container ∧
      (shelfSurface.context columnMeasure container).barsBelow column ["x"]
          [⟨[⟨"a", .start⟩], false⟩] ⟨[⟨"b", .start⟩], false⟩ =
        ((shelfSurface.context scrolledMeasure container).barsBelow column ["x"]
          [⟨[⟨"a", .start⟩], false⟩] ⟨[⟨"b", .start⟩], false⟩).map (.shift 1 1) := by
  obtain ⟨consistent, stacked, hides⟩ := hides_column
  obtain ⟨container, offers, shifts⟩ :=
    consistent.barsBelow_of_hides shelfSurface stacked hides ["x"] false
  exact ⟨consistent, stacked, container, (offers _ (.inr rfl)).1, (shifts 1 _ rfl rfl).2.1⟩

/-- In the column a bar above the second layer counts the first when it is visible, and the same
bar counts nothing when it is not. -/
theorem exists_bar_miscounted : column.Consistent ∧ column.Stacks shelfSurface.canvas ∧
    column.Hides shelfSurface.canvas (fun l => l = ⟨[⟨"a", .start⟩], false⟩) columnMeasure
      scrolledMeasure ∧
    ∃ bar ∈ (shelfSurface.offer column ["x"] columnMeasure false).1,
      ∃ bar' ∈ (shelfSurface.offer column ["x"] scrolledMeasure false).1,
        bar'.rect = bar.rect ∧ bar.numbers = (1, 1, 0) ∧ bar'.numbers = (0, 0, 0) := by
  obtain ⟨consistent, stacked, hides⟩ := hides_column
  have second : (column.layersOf shelfSurface.canvas)[1]? = some ⟨[⟨"b", .start⟩], false⟩ := rfl
  have mem : ∀ m : Measure, (shelfSurface.measured m).known = some ⟨0, 0, 640, 400⟩ →
      ∀ bar ∈ (shelfSurface.context m ⟨0, 0, 640, 400⟩).barsBelow column ["x"]
        ((column.layersOf shelfSurface.canvas).take 1) ⟨[⟨"b", .start⟩], false⟩,
        bar ∈ (shelfSurface.offer column ["x"] m false).1 := fun m known bar mem =>
    consistent.linked.mem_offer_of_mem_barsBelow stacked (List.cons_ne_nil "x" []) known second mem
  refine ⟨consistent, stacked, hides, _, mem columnMeasure rfl _ List.mem_cons_self, _,
    mem scrolledMeasure rfl _ List.mem_cons_self, rfl, rfl, rfl⟩

end WidgetTree

end AppBuilder
