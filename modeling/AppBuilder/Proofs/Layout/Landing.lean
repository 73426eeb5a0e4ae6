import AppBuilder.Proofs.Layout.Bars

/-!
Where a drop at a bar lands.

A `DropSurface` over a container that stacks layers counts the layers that the drag leaves, and
a drop takes the widgets out of the layers before it looks for the one that the bar names. Both
counts agree: a drop at a bar between layers makes a layer right there, and one in a row goes
into that row (`InRow.layersOf_moveTo`).

Within a row they do not always. The bars of a row that a child fills take it for a single bucket
(`FlexLayer.spread`), but the widgets are merged into the buckets of the children's own alignment,
so they go no further than the start-aligned ones (`InRow.children_merged`), while among the
children of the container they stand at the bar (`InRow.childrenOf_moveTo`).
-/

namespace AppBuilder.WidgetTree

/-! ### Surfaces over a stack -/

/-- A vertical container that has layers. -/
def Stacks (t : WidgetTree) (id : WidgetId) : Prop :=
  ∃ w, t.get? id = some w ∧ w.isVerticalStack = true ∧ w.layers ≠ []

theorem Stacks.contains {t : WidgetTree} {id : WidgetId} (h : t.Stacks id) :
    t.contains id = true := by
  obtain ⟨w, hw, -, -⟩ := h
  exact contains_iff.mpr ⟨w, hw⟩

/-- A container and all its children are visible. -/
structure Visible (t : WidgetTree) (m : Measure) (id : WidgetId) : Prop where
  container : (m id).isSome = true
  children : ∀ c ∈ t.childrenOf id, (m c).isSome = true

section Offer

variable {t : WidgetTree} {s : DropSurface} {m : Measure} {dragged : List WidgetId}

theorem measured_eq (s : DropSurface) (m : Measure) :
    (s.measured m).canvas = s.canvas ∧ (s.measured m).config = s.config := by
  unfold DropSurface.measured
  cases s.known <;> exact ⟨rfl, rfl⟩

/-- A surface that can be measured knows its rectangle from then on. -/
theorem exists_known (container : (m s.canvas).isSome = true) :
    ∃ container, (s.measured m).known = some container := by
  unfold DropSurface.measured
  cases hk : s.known with
  | none => exact Option.isSome_iff_exists.mp container
  | some container => exact ⟨container, hk⟩

/-- The bars on a stack are drawn from the rectangle that its surface knows. -/
theorem Linked.offer_eq (linked : t.Linked) (stacked : t.Stacks s.canvas) (nonempty : dragged ≠ [])
    {container : Rect} (known : (s.measured m).known = .some container) :
    (s.offer t dragged m false).1 =
      (s.context m container).stackBars t (t.layersOf s.canvas) dragged := by
  obtain ⟨w, hw, vertical, layered⟩ := stacked
  have layers := layersOf_of_get? hw
  have arranged := linked.arranged s.canvas (layers ▸ layered)
  have children : w.children.isEmpty = false := by
    obtain ⟨l, more, hl⟩ := List.exists_cons_of_ne_nil layered
    obtain ⟨c, cs, hc⟩ := List.exists_cons_of_ne_nil
      (arranged.filled l (by simp [layers, hl]))
    have child : c.id ∈ w.children := by
      rw [← childrenOf_of_get? hw, ← arranged.perm.mem_iff]
      simp [layers, hl, FlexLayer.ids, hc]
    cases hw' : w.children with
    | nil => simp [hw'] at child
    | cons c cs => rfl
  have bare : w.layers.isEmpty = false := by simpa using layered
  have drag : dragged.isEmpty = false := by simpa using nonempty
  simp only [DropSurface.offer, drag, Bool.or_self, Bool.false_eq_true, if_false, known,
    measured_eq s m, hw, BarContext.bars, children, vertical, bare, Bool.and_false, layers, if_true,
    DropSurface.context]

/-- The bars on a visible stack are drawn from the rectangle that its surface knows, with all
layers visible. -/
theorem Consistent.exists_offer_eq (h : t.Consistent) (stacked : t.Stacks s.canvas)
    (visible : t.Visible m s.canvas) (nonempty : dragged ≠ []) :
    ∃ container, (s.measured m).known = Option.some container ∧
      (s.context m container).Visible (t.layersOf s.canvas) ∧
      (s.offer t dragged m false).1 =
        (s.context m container).stackBars t (t.layersOf s.canvas) dragged := by
  obtain ⟨container, known⟩ := exists_known visible.container
  have layered : t.layersOf s.canvas ≠ [] := by
    obtain ⟨w, hw, -, layered⟩ := stacked
    exact layersOf_of_get? hw ▸ layered
  have arranged := h.linked.arranged s.canvas layered
  refine ⟨container, known, ⟨arranged.filled, fun l hl id hid => ?_⟩,
    h.linked.offer_eq stacked nonempty known⟩
  have child := arranged.perm.mem_iff.mp (List.mem_flatMap.mpr ⟨l, hl, hid⟩)
  simpa [BarContext.localRect?, DropSurface.context] using visible.children id child

end Offer

/-! ### Bars in a row -/

/-- A bar in the row of a layer that is left, which has some layers before and behind it. -/
structure InRow (t : WidgetTree) (s : DropSurface) (m : Measure) (dragged : List WidgetId)
    (bar : Highlight) (container : Rect) (done : List FlexLayer) (l : FlexLayer)
    (more : List FlexLayer) (rect : Rect) : Prop where
  known : (s.measured m).known = some container
  split : t.layersOf s.canvas = done ++ l :: more
  kept : (l.without t dragged).isEmpty = false
  shown : ∀ id ∈ (l.without t dragged).ids, ((s.context m container).localRect? id).isSome = true
  mem : bar ∈ (s.context m container).layerBars (l.without t dragged)
    (Layers.without t dragged done).length rect
    (Layers.flatten (Layers.without t dragged done)).length

section InRow

variable {t : WidgetTree} {s : DropSurface} {m : Measure} {dragged : List WidgetId}
  {bar : Highlight} {container : Rect} {done : List FlexLayer} {l : FlexLayer}
  {more : List FlexLayer} {rect : Rect}
  (inRow : t.InRow s m dragged bar container done l more rect)
include inRow

theorem InRow.names : (s.context m container).Names (l.without t dragged)
    (Layers.without t dragged done).length
    (Layers.flatten (Layers.without t dragged done)).length bar :=
  BarContext.names_of_mem_layerBars inRow.shown inRow.mem

/-- The layers that are left, around the one that the bar is in. -/
theorem InRow.without_eq : Layers.without t dragged (t.layersOf s.canvas) =
    Layers.without t dragged done ++ l.without t dragged :: Layers.without t dragged more := by
  rw [inRow.split]
  simp [Layers.without, inRow.kept]

/-- In a packed row the widgets are merged in where the bar counts, as far as that goes. -/
theorem InRow.children_merged (selected : t.Selected dragged s.canvas)
    (packed : (l.without t dragged).Packed) {before : Nat}
    (place : before = (l.without t dragged).spread.offset bar.align + bar.row) :
    ((l.without t dragged).merged t dragged bar.align bar.row).children =
      insertAt ((l.without t dragged).mergePlace before) (dragged.map (⟨·, bar.align⟩))
        (l.without t dragged).children := by
  rw [packed.children_merged selected.there
    (fun id hid => (FlexLayer.there_of_mem_without hid).1), inRow.names.mergePlace_eq, place]

variable (h : t.Consistent) (target : t.contains s.canvas = true)
  (selected : t.Selected dragged s.canvas) (c : LayoutConfig)
include h target selected

/-- A drop at the bar merges the widgets into the row. -/
theorem InRow.layersOf_moveTo : (t.moveTo c dragged (bar.target .vertical)).layersOf s.canvas =
    Layers.without t dragged done ++
      (l.without t dragged).merged t dragged bar.align bar.row ::
        Layers.without t dragged more := by
  have parent : (bar.target .vertical).parent = s.canvas := inRow.names.canvas
  have old : (bar.target .vertical).newLayer = false := inRow.names.newLayer.trans inRow.kept
  rw [← parent] at target selected ⊢
  exact h.layersOf_moveTo_of_merged selected target c rfl old (parent ▸ inRow.without_eq)
    inRow.names.layer_eq.symm

/-- A drop at the bar puts the widgets among the children where it counts. -/
theorem InRow.childrenOf_moveTo
    (flat : t.childrenOf s.canvas = Layers.flatten (t.layersOf s.canvas)) {before : Nat}
    (inside : before ≤ (l.without t dragged).ids.length)
    (place : before = (l.without t dragged).spread.offset bar.align + bar.row) :
    (t.moveTo c dragged (bar.target .vertical)).childrenOf s.canvas =
      Layers.flatten (Layers.without t dragged done) ++
        (insertAt before dragged (l.without t dragged).ids ++
          Layers.flatten (Layers.without t dragged more)) := by
  have parent : (bar.target .vertical).parent = s.canvas := inRow.names.canvas
  have index : (bar.target .vertical).index =
      (Layers.flatten (Layers.without t dragged done)).length + before := by
    rw [place]
    exact inRow.names.index
  have rest : ((t.childrenOf s.canvas).filter fun id => !dragged.contains id) =
      Layers.flatten (Layers.without t dragged (t.layersOf s.canvas)) := by
    rw [Layers.flatten_without, ← flat]
    refine List.filter_congr fun id hid => ?_
    rw [contains_of_parentOf? (h.linked.up_of_mem _ _ hid), Bool.true_and]
  have kids := h.childrenOf_moveTo (parent.symm ▸ selected) (parent.symm ▸ target) c
  rw [parent, rest, inRow.without_eq, index] at kids
  rw [kids, ← insertAt_append_left _ _ inside, ← insertAt_append_right _ _ _ rfl,
    Layers.flatten_append, Layers.flatten_cons]

end InRow

/-! ### Layers -/

section Drop

variable {t : WidgetTree} (h : t.Consistent) {s : DropSurface} (stacked : t.Stacks s.canvas)
  {m : Measure} (visible : t.Visible m s.canvas) {dragged : List WidgetId}
  (selected : t.Selected dragged s.canvas) {bar : Highlight}
include h stacked visible selected

/-- A bar on offer asks for a new layer at one of the places between the layers left, or it is in
the row of one of them. -/
theorem Consistent.cases_of_mem_offer {resizing : Bool}
    (mem : bar ∈ (s.offer t dragged m resizing).1) : bar.canvas = s.canvas ∧
      ((bar.newLayer = true ∧
          bar.layer ≤ (Layers.without t dragged (t.layersOf s.canvas)).length) ∨
        (bar.newLayer = false ∧ ∃ container done l more rect,
          t.InRow s m dragged bar container done l more rect)) := by
  cases resizing with
  | true => simp [DropSurface.offer] at mem
  | false =>
    obtain ⟨container, known, shown, eq⟩ := h.exists_offer_eq stacked visible selected.nonempty
    rw [eq] at mem
    rcases BarContext.mem_stackBars shown mem with ⟨y, rfl⟩ | ⟨done, l, more, split, spec⟩
    · exact ⟨rfl, .inl ⟨rfl, Nat.le_refl _⟩⟩
    have within : (Layers.without t dragged done).length ≤
        (Layers.without t dragged (t.layersOf s.canvas)).length := by
      simp [split, Layers.without]
    rcases spec with ⟨-, rfl⟩ | ⟨rect, mem⟩
    · exact ⟨rfl, .inl ⟨rfl, within⟩⟩
    · have seen : ∀ id ∈ (l.without t dragged).ids,
          ((s.context m container).localRect? id).isSome = true := fun id hid =>
        shown.shown l (by simp [split]) id
          (List.mem_filter.mp (FlexLayer.ids_without t _ _ ▸ hid)).1
      have names := BarContext.names_of_mem_layerBars seen mem
      refine ⟨names.canvas, ?_⟩
      cases none : (l.without t dragged).isEmpty with
      | true => exact .inl ⟨names.newLayer.trans none, names.layer_eq ▸ within⟩
      | false =>
        exact .inr ⟨names.newLayer.trans none, container, done, l, more, rect, known, split, none,
          seen, mem⟩

end Drop

/-- A drop at a bar that is offered over a stack puts the widgets where the bar says, counted in
the layers that the drag leaves: into a new layer at that place, or into the layer there. Of the
horizontal bars one is above each layer left and has its place, and the last one, below them all,
has the number of layers left. -/
theorem Consistent.layers_of_drop {t : WidgetTree} (h : t.Consistent) (s : DropSurface)
    (stacked : t.Stacks s.canvas) (m : Measure) (visible : t.Visible m s.canvas)
    (dragged : List WidgetId) (selected : t.Selected dragged s.canvas) (c : LayoutConfig)
    (resizing : Bool) :
    let bars := (s.offer t dragged m resizing).1
    let rest := Layers.without t dragged (t.layersOf s.canvas)
    (∀ bar ∈ bars,
      let after := (t.moveTo c dragged (bar.target .vertical)).layersOf s.canvas
      let dropped := dragged.map fun id => (⟨id, bar.align⟩ : LayerChild)
      (bar.newLayer = true → bar.layer ≤ rest.length ∧
        after = insertAt bar.layer [⟨dropped, t.fills dropped⟩] rest) ∧
      (bar.newLayer = false → ∃ front row row' back, rest = front ++ row :: back ∧
        front.length = bar.layer ∧ after = front ++ row' :: back ∧
        row'.children.Perm (row.children ++ dropped))) ∧
    (resizing = false → ∃ container y, (s.measured m).known = some container ∧
      let b := s.context m container
      let left := BarContext.survivors t (t.layersOf s.canvas) dragged
      rest = left.map (FlexLayer.without t dragged) ∧
      bars.filter (·.orientation = .horizontal) =
        (left.mapIdx fun j l =>
          b.newLayerBar (Layers.flatten (rest.take j)).length j (b.edgeAbove l)) ++
        [b.newLayerBar (Layers.flatten rest).length rest.length y]) := by
  intro bars rest
  have target := stacked.contains
  refine ⟨fun bar mem => ?_, ?_⟩
  · obtain ⟨canvas, cases⟩ := h.cases_of_mem_offer stacked visible selected mem
    have parent : (bar.target .vertical).parent = s.canvas := canvas
    intro after dropped
    refine ⟨fun new => ?_, fun old => ?_⟩
    · have within := (cases.resolve_right fun inRow => by simp [new] at inRow).2
      have eq := h.layersOf_moveTo_of_new (parent.symm ▸ selected) (parent.symm ▸ target) c rfl new
      rw [parent] at eq
      exact ⟨within, eq⟩
    · obtain ⟨container, done, l, more, rect, inRow⟩ :=
        (cases.resolve_left fun new => by simp [old] at new).2
      exact ⟨_, _, _, _, inRow.without_eq, inRow.names.layer_eq.symm,
        inRow.layersOf_moveTo h target selected c, FlexLayer.perm_children_merged selected.there
          (fun id hid => (FlexLayer.there_of_mem_without hid).1) _ _⟩
  · rintro rfl
    obtain ⟨container, known, shown, eq⟩ := h.exists_offer_eq stacked visible selected.nonempty
    obtain ⟨y, horizontal⟩ := BarContext.filter_stackBars t dragged shown
    refine ⟨container, y, known, ?_, ?_⟩
    · exact List.filter_map ..
    · show (s.offer t dragged m false).1.filter _ = _
      rw [eq]
      exact horizontal

/-- A canvas with a row that its second widget fills, and a third widget below it. -/
def shelf : WidgetTree :=
  .ofList [
    { Widget.ofType mainContainerId canvasType with
      children := ["a", "b", "x"]
      layers := [⟨[⟨"a", .start⟩, ⟨"b", .center⟩], true⟩, ⟨[⟨"x", .start⟩], false⟩] },
    { Widget.ofType "a" "TEXT_WIDGET" with parent := some mainContainerId },
    { Widget.ofType "b" "TEXT_WIDGET" with parent := some mainContainerId, sizing := .fill },
    { Widget.ofType "x" "TEXT_WIDGET" with parent := some mainContainerId }]

/-- Where the widgets on the shelf are. -/
def shelfMeasure : Measure := fun id =>
  if id = "a" then some ⟨0, 0, 40, 40⟩
  else if id = "b" then some ⟨40, 0, 60, 40⟩
  else if id = "x" then some ⟨0, 40, 40, 40⟩
  else some ⟨0, 0, 100, 80⟩

def shelfSurface : DropSurface := .ofCanvas mainContainerId {}

theorem droppable_shelf : shelf.Consistent ∧ shelf.Stacks shelfSurface.canvas ∧
    shelf.Visible shelfMeasure shelfSurface.canvas ∧
    shelf.Selected ["x"] shelfSurface.canvas := by
  have consistent : shelf.Consistent := WellFormed.consistent (by decide +kernel)
  refine ⟨consistent, ⟨_, rfl, rfl, List.cons_ne_nil _ _⟩, ⟨rfl, by decide +kernel⟩,
    by decide, by decide, by decide +kernel, fun m hm => ?_⟩
  rw [← isAncestorOrSelf_iff, List.mem_singleton.mp hm]
  decide +kernel

theorem layers_of_drop_shelf : shelf.Consistent ∧ shelf.Stacks shelfSurface.canvas ∧
    shelf.Visible shelfMeasure shelfSurface.canvas ∧ shelf.Selected ["x"] shelfSurface.canvas ∧
    ∃ bar ∈ (shelfSurface.offer shelf ["x"] shelfMeasure false).1, bar.newLayer = true ∧
      (shelf.moveTo {} ["x"] (bar.target .vertical)).layersOf mainContainerId =
        insertAt bar.layer [⟨[⟨"x", bar.align⟩], false⟩]
          [⟨[⟨"a", .start⟩, ⟨"b", .center⟩], true⟩] := by
  obtain ⟨consistent, stacked, visible, selected⟩ := droppable_shelf
  refine ⟨consistent, stacked, visible, selected, ?_⟩
  have offered : (shelfSurface.offer shelf ["x"] shelfMeasure false).1.any (·.newLayer) = true :=
    rfl
  obtain ⟨bar, mem, new⟩ := List.any_eq_true.mp offered
  exact ⟨bar, mem, new, (((consistent.layers_of_drop shelfSurface stacked shelfMeasure visible ["x"]
    selected {} false).1 bar mem).1 new).2⟩

/-! ### Rows -/

/-- What a bar in a row shows: the layers that the drag leaves before and behind the row, and the
children that the bar stands between. -/
structure Shows (t : WidgetTree) (s : DropSurface) (m : Measure) (dragged : List WidgetId)
    (bar : Highlight) (front : List FlexLayer) (row : FlexLayer) (back : List FlexLayer)
    (before behind : List LayerChild) : Prop where
  split : Layers.without t dragged (t.layersOf s.canvas) = front ++ row :: back
  place : front.length = bar.layer
  children : row.children = before ++ behind
  stands : ∃ container rect, (s.measured m).known = some container ∧
    (s.context m container).Stands row rect bar before behind

/-- A drop at a bar in a row puts the widgets among the children of the container right where the
bar is drawn, but in the layer only when no child fills the row or all those before the bar are
start-aligned. Otherwise they stand behind the start-aligned ones, and the children of the
container are no longer those of its layers in order. -/
theorem Consistent.row_of_drop {t : WidgetTree} (h : t.Consistent) (s : DropSurface)
    (stacked : t.Stacks s.canvas)
    (flat : t.childrenOf s.canvas = Layers.flatten (t.layersOf s.canvas))
    (packed : ∀ l ∈ t.layersOf s.canvas, l.Packed) (m : Measure)
    (visible : t.Visible m s.canvas) (dragged : List WidgetId)
    (selected : t.Selected dragged s.canvas) (c : LayoutConfig) (resizing : Bool)
    (bar : Highlight) (mem : bar ∈ (s.offer t dragged m resizing).1) (old : bar.newLayer = false) :
    let after := t.moveTo c dragged (bar.target .vertical)
    let dropped := dragged.map fun id => (⟨id, bar.align⟩ : LayerChild)
    ∃ front row row' back before behind,
      t.Shows s m dragged bar front row back before behind ∧
      after.childrenOf s.canvas = Layers.flatten front ++
        (before.map (·.id) ++ dragged ++ behind.map (·.id)) ++ Layers.flatten back ∧
      after.layersOf s.canvas = front ++ row' :: back ∧
      row'.children = insertAt (row.mergePlace before.length) dropped row.children ∧
      (row'.children = before ++ dropped ++ behind ↔
        (row.hasFill = true → ∀ c ∈ before, c.align = .start)) ∧
      (after.childrenOf s.canvas = Layers.flatten (after.layersOf s.canvas) ↔
        row'.children = before ++ dropped ++ behind) := by
  obtain ⟨canvas, cases⟩ := h.cases_of_mem_offer stacked visible selected mem
  obtain ⟨container, done, l, more, rect, inRow⟩ :=
    (cases.resolve_left fun new => by simp [old] at new).2
  have target := stacked.contains
  have rowPacked : (l.without t dragged).Packed :=
    (packed l (by simp [inRow.split])).without t dragged
  obtain ⟨before, behind, children, place, stands⟩ :=
    BarContext.exists_stands inRow.shown rowPacked inRow.mem
  have merged := inRow.children_merged selected rowPacked place
  have kids := inRow.childrenOf_moveTo h target selected c flat
    (by simp [FlexLayer.ids, children]) place
  have layers := inRow.layersOf_moveTo h target selected c
  have apart : ∀ id ∈ dragged, id ∉ (l.without t dragged).ids := fun id hid own =>
    (FlexLayer.there_of_mem_without own).2 hid
  -- the same place is asked for in the row and among the names of the row
  have drawn : ((l.without t dragged).merged t dragged bar.align bar.row).children =
      before ++ dragged.map (⟨·, bar.align⟩) ++ behind ↔
        ((l.without t dragged).hasFill = true → ∀ c ∈ before, c.align = .start) := by
    have new : ∀ x ∈ dragged.map (⟨·, bar.align⟩), x ∉ (l.without t dragged).children.map id := by
      rw [List.map_id, List.forall_mem_map]
      exact fun id hid own => apart id hid (List.mem_map_of_mem own)
    have lands := rowPacked.insertAt_mergePlace_iff children id
      (by simpa using selected.nonempty) new
    simpa only [merged, List.map_id] using lands
  have named := rowPacked.insertAt_mergePlace_iff children (·.id) selected.nonempty apart
  have ids : ((l.without t dragged).merged t dragged bar.align bar.row).ids =
      insertAt ((l.without t dragged).mergePlace before.length) dragged
        (l.without t dragged).ids := by
    rw [FlexLayer.ids, merged, map_insertAt]
    simp [FlexLayer.ids, Function.comp_def]
  have there : insertAt before.length dragged (l.without t dragged).ids =
      before.map (·.id) ++ dragged ++ behind.map (·.id) := by
    simp [insertAt, FlexLayer.ids, children]
  rw [there, ← List.append_assoc] at kids
  refine ⟨_, _, _, _, before, behind,
    ⟨inRow.without_eq, inRow.names.layer_eq.symm, children, container, rect, inRow.known, stands⟩,
    kids, layers, merged, drawn, ?_⟩
  rw [drawn, ← named, ← FlexLayer.ids, ← ids, kids, layers, Layers.flatten_append,
    Layers.flatten_cons, List.append_assoc, List.append_right_inj, List.append_left_inj, eq_comm]

theorem row_of_drop_shelf : shelf.Consistent ∧ shelf.Stacks shelfSurface.canvas ∧
    shelf.childrenOf shelfSurface.canvas = Layers.flatten (shelf.layersOf shelfSurface.canvas) ∧
    (∀ l ∈ shelf.layersOf shelfSurface.canvas, l.Packed) ∧
    shelf.Visible shelfMeasure shelfSurface.canvas ∧ shelf.Selected ["x"] shelfSurface.canvas ∧
    ∃ bar ∈ (shelfSurface.offer shelf ["x"] shelfMeasure false).1, bar.newLayer = false ∧
      ∃ front row row' back before behind,
        shelf.Shows shelfSurface shelfMeasure ["x"] bar front row back before behind ∧
        (shelf.moveTo {} ["x"] (bar.target .vertical)).layersOf mainContainerId =
          front ++ row' :: back ∧
        row'.children =
          insertAt (row.mergePlace before.length) [⟨"x", bar.align⟩] row.children := by
  obtain ⟨consistent, stacked, visible, selected⟩ := droppable_shelf
  have flat : shelf.childrenOf shelfSurface.canvas =
    Layers.flatten (shelf.layersOf shelfSurface.canvas) := by decide +kernel
  have packed : ∀ l ∈ shelf.layersOf shelfSurface.canvas, l.Packed := by decide +kernel
  refine ⟨consistent, stacked, flat, packed, visible, selected, ?_⟩
  have offered : (shelfSurface.offer shelf ["x"] shelfMeasure false).1.any (!·.newLayer) = true :=
    rfl
  obtain ⟨bar, mem, old⟩ := List.any_eq_true.mp offered
  have old : bar.newLayer = false := by simpa using old
  obtain ⟨front, row, row', back, before, behind, shows, -, layers, merged, -⟩ :=
    consistent.row_of_drop shelfSurface stacked flat packed shelfMeasure visible ["x"] selected {}
      false bar mem old
  exact ⟨bar, mem, old, front, row, row', back, before, behind, shows, layers, merged⟩

/-- On the shelf the last bar of the upper row stands behind the widget that fills it, but what is
dropped there stands before that widget in the layer, and behind it among the children. -/
theorem exists_bar_astray : shelf.Consistent ∧ shelf.Stacks shelfSurface.canvas ∧
    shelf.childrenOf shelfSurface.canvas = Layers.flatten (shelf.layersOf shelfSurface.canvas) ∧
    (∀ l ∈ shelf.layersOf shelfSurface.canvas, l.Packed) ∧
    shelf.Visible shelfMeasure shelfSurface.canvas ∧ shelf.Selected ["x"] shelfSurface.canvas ∧
    ∃ bar ∈ (shelfSurface.offer shelf ["x"] shelfMeasure false).1, bar.newLayer = false ∧
      shelf.Shows shelfSurface shelfMeasure ["x"] bar []
        ⟨[⟨"a", .start⟩, ⟨"b", .center⟩], true⟩ [] [⟨"a", .start⟩, ⟨"b", .center⟩] [] ∧
      (shelf.moveTo {} ["x"] (bar.target .vertical)).layersOf mainContainerId =
        [⟨[⟨"a", .start⟩, ⟨"x", .start⟩, ⟨"b", .center⟩], true⟩] ∧
      (shelf.moveTo {} ["x"] (bar.target .vertical)).childrenOf mainContainerId =
        ["a", "b", "x"] := by
  obtain ⟨consistent, stacked, visible, selected⟩ := droppable_shelf
  let container : Rect := ⟨0, 0, 100, 80⟩
  let filler : Rect := (⟨40, 0, 60, 40⟩ : Rect).relativeTo container.topLeft
  have last : (shelfSurface.offer shelf ["x"] shelfMeasure false).1[3]? =
    some ((shelfSurface.context shelfMeasure container).rowBar 0 0 2 .start filler.right filler) :=
    rfl
  refine ⟨consistent, stacked, by decide +kernel, by decide +kernel, visible, selected, _,
    List.mem_of_getElem? last, rfl, ⟨by decide +kernel, rfl, rfl, container, container, rfl, ?_⟩,
    by decide +kernel, by decide +kernel⟩
  show BarContext.Stands _ _ _ _ ([⟨"a", .start⟩] ++ [⟨"b", .center⟩]) []
  exact .behind (r := filler) rfl (by simp) rfl rfl

end AppBuilder.WidgetTree
