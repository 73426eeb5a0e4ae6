import AppBuilder.Proofs.Layout.Columns
import AppBuilder.Proofs.Layout.Run

/-!
Layers on top of each other.

A container is stacked (`Stacked`) when the widgets of each layer start right below the layers
before it, so that no layer reaches into another (`Stacked.below`). Laying a container out stacks
it (`stacked_layOut`). A move lays out the containers that it takes widgets from and the target
(`Relaid`), and then makes the bordered container around the target as high as its content. What
holds this container is not laid out again: it stays stacked just when the layer of the container
keeps its height or has no layer below it (`Stacked.iff_heights`).

Main statement: `stacked_moveTo_iff`.
-/

namespace AppBuilder.WidgetTree

/-! ### Heights -/

section Heights

variable (t : WidgetTree)

theorem rowsOf_nonneg (id : WidgetId) : 0 ≤ t.rowsOf id := by
  unfold rowsOf
  split
  · exact Int.le_max_right _ _
  · exact Int.le_refl 0

theorem rowsOf_le_layerHeight {l : FlexLayer} {x : WidgetId} (mem : x ∈ l.ids) :
    t.rowsOf x ≤ t.layerHeight l := by
  have run : ∀ (ids : List WidgetId) (height : Int), t.rowsOf x ≤ height ∨ x ∈ ids →
      t.rowsOf x ≤ ids.foldl (fun height id => max height (t.rowsOf id)) height := by
    intro ids
    induction ids with
    | nil => exact fun _ reached => reached.resolve_right List.not_mem_nil
    | cons id ids ih =>
      intro height reached
      refine ih _ ?_
      rcases reached with below | mem
      · exact .inl (Int.le_trans below (Int.le_max_left _ _))
      · rcases List.mem_cons.mp mem with rfl | mem
        · exact .inl (Int.le_max_right _ _)
        · exact .inr mem
  exact run l.ids 0 (.inr mem)

theorem layerHeight_nonneg (l : FlexLayer) : 0 ≤ t.layerHeight l := by
  have run : ∀ (ids : List WidgetId) (height : Int), 0 ≤ height →
      0 ≤ ids.foldl (fun height id => max height (t.rowsOf id)) height := by
    intro ids
    induction ids with
    | nil => exact fun _ nonneg => nonneg
    | cons id ids ih => exact fun _ nonneg => ih _ (Int.le_trans nonneg (Int.le_max_left _ _))
  exact run l.ids 0 (Int.le_refl 0)

/-- One of the widgets of a layer is as high as the layer. -/
theorem exists_rowsOf_eq {l : FlexLayer} (filled : l.children ≠ []) :
    ∃ id ∈ l.ids, t.rowsOf id = t.layerHeight l := by
  have run : ∀ (ids : List WidgetId) (height : Int),
      ids.foldl (fun height id => max height (t.rowsOf id)) height = height ∨
        ∃ id ∈ ids, t.rowsOf id = ids.foldl (fun height id => max height (t.rowsOf id)) height := by
    intro ids
    induction ids with
    | nil => exact fun _ => .inl rfl
    | cons id ids ih =>
      intro height
      rcases ih (max height (t.rowsOf id)) with same | ⟨id', hid', same⟩
      · rw [List.foldl_cons, same]
        rcases Int.le_total height (t.rowsOf id) with low | high
        · exact .inr ⟨id, List.mem_cons_self, (Int.max_eq_right low).symm⟩
        · exact .inl (Int.max_eq_left high)
      · exact .inr ⟨id', List.mem_cons_of_mem id hid', same⟩
  rcases run l.ids 0 with low | high
  · obtain ⟨id, hid⟩ := List.exists_mem_of_ne_nil _ (FlexLayer.children_ne_nil_iff.mp filled)
    have height : t.layerHeight l = 0 := low
    have bound := t.rowsOf_le_layerHeight hid
    have nonneg := t.rowsOf_nonneg id
    exact ⟨id, hid, by omega⟩
  · exact high

@[simp] theorem stackHeight_nil : t.stackHeight [] = 0 := rfl

@[simp] theorem stackHeight_cons (l : FlexLayer) (layers : List FlexLayer) :
    t.stackHeight (l :: layers) = t.layerHeight l + t.stackHeight layers := rfl

@[simp] theorem stackHeight_append (front back : List FlexLayer) :
    t.stackHeight (front ++ back) = t.stackHeight front + t.stackHeight back := by
  rw [stackHeight, List.map_append, List.sum_append]
  rfl

/-- Empty layers take no rows. -/
theorem stackHeight_filter (layers : List FlexLayer) :
    t.stackHeight (layers.filter fun l => !l.isEmpty) = t.stackHeight layers := by
  induction layers with
  | nil => rfl
  | cons l layers ih =>
    rw [List.filter_cons]
    by_cases bare : l.isEmpty = true
    · have childless : l.children = [] := List.isEmpty_iff.mp bare
      have low : t.layerHeight l = 0 := by simp [layerHeight, FlexLayer.ids, childless]
      simp [bare, low, ih]
    · simp [bare, ih]

theorem stackHeight_nonneg (layers : List FlexLayer) : 0 ≤ t.stackHeight layers := by
  induction layers with
  | nil => exact Int.le_refl 0
  | cons l layers ih => exact Int.add_nonneg (t.layerHeight_nonneg l) ih

end Heights

/-! ### Stacked containers -/

/-- The widgets of each layer of a container start below the padding and the layers before. -/
def Stacked (c : LayoutConfig) (t : WidgetTree) (id : WidgetId) : Prop :=
  ∀ front l back, t.layersOf id = front ++ l :: back →
    ∀ x ∈ l.ids, t.topOf x = c.containerPadding + t.stackHeight front

section Stacked

variable {c : LayoutConfig} {t s : WidgetTree} {id : WidgetId}

/-- No widget reaches down into a later layer. -/
theorem Stacked.below (h : t.Stacked c id) {front back : List FlexLayer} {l : FlexLayer}
    (split : t.layersOf id = front ++ l :: back) {x y : WidgetId} (mem : x ∈ l.ids)
    (later : y ∈ Layers.flatten back) : t.topOf x + t.rowsOf x ≤ t.topOf y := by
  obtain ⟨l', hl', mem'⟩ := List.mem_flatMap.mp later
  obtain ⟨between, rest, rfl⟩ := List.append_of_mem hl'
  have upper := h front l _ split x mem
  have lower := h (front ++ l :: between) l' rest (by rw [split]; simp) y mem'
  have own := t.rowsOf_le_layerHeight mem
  have nonneg := t.stackHeight_nonneg between
  rw [stackHeight_append, stackHeight_cons] at lower
  omega

theorem Stacked.congr (h : t.Stacked c id) (layers : s.layersOf id = t.layersOf id)
    (rows : ∀ x ∈ Layers.flatten (t.layersOf id), s.rowsOf x = t.rowsOf x)
    (tops : ∀ x ∈ Layers.flatten (t.layersOf id), s.topOf x = t.topOf x) : s.Stacked c id := by
  intro front l back split x hx
  rw [layers] at split
  have mem : ∀ l' ∈ front ++ l :: back, ∀ y ∈ l'.ids, y ∈ Layers.flatten (t.layersOf id) :=
    fun l' hl' y hy => List.mem_flatMap.mpr ⟨l', split ▸ hl', hy⟩
  have height : s.stackHeight front = t.stackHeight front :=
    stackHeight_congr fun l' hl' => layerHeight_congr fun y hy =>
      rows y (mem l' (List.mem_append_left _ hl') y hy)
  rw [tops x (mem l (by simp) x hx), height]
  exact h front l back split x hx

theorem Stacked.undisturbed (h : t.Stacked c id) (undisturbed : t.Undisturbed id s) :
    s.Stacked c id :=
  h.congr undisturbed.layersOf_eq (fun x _ => rowsOf_congr (undisturbed.placeOf?_eq x))
    fun x _ => topOf_congr (undisturbed.placeOf?_eq x)

theorem stacked_iff : t.Stacked c id ↔ ∀ i (inside : i < (t.layersOf id).length),
    ∀ x ∈ (t.layersOf id)[i].ids,
      t.topOf x = c.containerPadding + t.stackHeight ((t.layersOf id).take i) := by
  constructor
  · intro h i inside
    refine h _ _ ((t.layersOf id).drop (i + 1)) ?_
    rw [List.getElem_cons_drop, List.take_append_drop]
  · intro h front l back split x hx
    have own := h front.length (by simp [split]) x (by simpa [split] using hx)
    simpa [split] using own

instance (c : LayoutConfig) (t : WidgetTree) (id : WidgetId) : Decidable (t.Stacked c id) :=
  decidable_of_iff _ stacked_iff.symm

/-- Whether all containers are stacked can be told from the entries. -/
theorem forall_stacked_iff : (∀ id, t.Stacked c id) ↔ ∀ id ∈ t.entries.keys, t.Stacked c id := by
  refine ⟨fun all id _ => all id, fun all id => ?_⟩
  by_cases there : id ∈ t.entries.keys
  · exact all id there
  · have absent : t.get? id = none := by
      refine Option.eq_none_iff_forall_not_mem.mpr fun w hw => there ?_
      exact (Dict.mem_keys_iff _ _).mpr (contains_iff.mpr ⟨w, hw⟩)
    intro front l back split
    simp [layersOf, absent] at split

end Stacked

/-! ### Laying out -/

section LayingOut

variable (c : LayoutConfig) {t : WidgetTree} {parent id : WidgetId}

/-- Sharing columns moves no widget up or down. -/
theorem rows_shareAll (t : WidgetTree) (parent x : WidgetId) :
    (t.shareAll c parent).rowsOf x = t.rowsOf x ∧ (t.shareAll c parent).topOf x = t.topOf x := by
  have step : ∀ (t : WidgetTree) l,
      (t.shareColumns c l).rowsOf x = t.rowsOf x ∧ (t.shareColumns c l).topOf x = t.topOf x := by
    intro t l
    rw [rowsOf_eq, rowsOf_eq, topOf, topOf, placeOf?_shareColumns]
    split
    · rw [Option.map_map, Option.map_map]
      exact ⟨rfl, rfl⟩
    · exact ⟨rfl, rfl⟩
  rw [shareAll_eq]
  induction t.layersOf parent generalizing t with
  | nil => exact ⟨rfl, rfl⟩
  | cons l layers ih => exact ⟨(ih _).1.trans (step t l).1, (ih _).2.trans (step t l).2⟩

theorem rowsOf_layOut (t : WidgetTree) (parent x : WidgetId) :
    (t.layOut c parent).rowsOf x = t.rowsOf x :=
  ((placed_placeChildren c _ parent).rowsOf_eq x).trans (rows_shareAll c t parent x).1

/-- The children of a container are placed down to the height of its layers. -/
theorem placeChildren_snd (h : t.Tidy) (there : t.contains parent = true) :
    (t.placeChildren c parent).2 =
      c.containerPadding + t.stackHeight (t.effectiveLayers parent) := by
  rw [placeChildren_eq c there, foldl_placeLayer_snd, stackHeight_filter]
  intro x hx
  obtain ⟨l, hl, hx⟩ := List.mem_flatMap.mp hx
  refine h.there parent x (h.mem_effectiveLayers ?_)
  exact List.mem_flatMap.mpr ⟨l, (List.mem_filter.mp hl).1, hx⟩

/-- The widgets of each layer start below the layers before it once they are placed. -/
theorem stacked_placeChildren (h : t.Tidy) : (t.placeChildren c parent).1.Stacked c parent := by
  have placed := placed_placeChildren c t parent
  intro front l back split x hx
  rw [← placed.alike.layersOf_eq] at split
  have known : ∀ y ∈ Layers.flatten (t.layersOf parent), t.contains y = true := fun y hy =>
    h.there parent y (h.mem_childrenOf hy)
  have nodup := h.nodup_layers parent
  rw [stackHeight_congr fun l _ => layerHeight_congr fun y _ => placed.rowsOf_eq y,
    h.placeChildren_of_layered c (by simp [split])]
  rw [split] at nodup known ⊢
  exact topOf_foldl_placeLayer c (t, c.containerPadding) nodup known hx

/-- Laying a container out stacks it and keeps all others stacked. -/
theorem stacked_layOut (h : t.Tidy) (others : id ≠ parent → t.Stacked c id) :
    (t.layOut c parent).Stacked c id := by
  have shared := h.congr (alike_shareAll c t parent)
  by_cases own : id = parent
  · subst own
    exact stacked_placeChildren c shared
  · have layers := ((alike_layOut c t parent).layersOf_eq id).symm
    refine (others own).congr layers (fun x _ => rowsOf_layOut c t parent x) fun x hx => ?_
    have away : x ∉ Layers.flatten ((t.shareAll c parent).effectiveLayers parent) := by
      intro hx'
      rw [(alike_shareAll c t parent).layersOf_eq] at hx
      have child := shared.mem_childrenOf hx
      exact own (shared.sole id parent x child (shared.mem_effectiveLayers hx'))
    rw [layOut, topOf_congr ((placed_placeChildren c _ parent).apart x away)]
    exact (rows_shareAll c t parent x).2

theorem topOf_growContainer (t : WidgetTree) (canvas : WidgetId) (height : Int) (x : WidgetId) :
    (t.growContainer canvas height).topOf x = t.topOf x := by
  rcases t.placeOf?_growContainer canvas height x with same | ⟨-, grown⟩
  · exact topOf_congr same
  · rw [topOf, topOf, grown, Option.map_map]
    rfl

/-- Growing changes the height of the container around the canvas only. -/
theorem rowsOf_growContainer_of_ne {canvas : WidgetId} {height : Int} {x : WidgetId}
    (changed : (t.growContainer canvas height).rowsOf x ≠ t.rowsOf x) :
    t.IsFrame canvas x ∧ (t.growContainer canvas height).rowsOf x = max height 0 := by
  rcases t.placeOf?_growContainer canvas height x with same | ⟨framed, grown⟩
  · exact absurd (rowsOf_congr same) changed
  · refine ⟨framed, ?_⟩
    obtain ⟨-, w, hw, -⟩ := framed
    rw [rowsOf_eq, grown, placeOf?, hw]
    simp only [Option.map_some, Option.getD_some, GridPosition.rows]
    omega

end LayingOut

/-! ### Heights that change -/

section Changing

variable {c : LayoutConfig} {t s : WidgetTree} {id : WidgetId}

/-- A stacked container whose widgets start where they did stays stacked if and only if the layers
with others below keep their heights. -/
theorem Stacked.iff_heights (h : t.Stacked c id) (layers : s.layersOf id = t.layersOf id)
    (tops : ∀ x, s.topOf x = t.topOf x) (filled : ∀ l ∈ t.layersOf id, l.children ≠ []) :
    s.Stacked c id ↔ ∀ front l next back, s.layersOf id = front ++ l :: next :: back →
      s.layerHeight l = t.layerHeight l := by
  have members : ∀ l ∈ t.layersOf id, ∃ x, x ∈ l.ids := fun l hl =>
    List.exists_mem_of_ne_nil _ (FlexLayer.children_ne_nil_iff.mp (filled l hl))
  -- each layer starts where it did, so the layers before it are as high as they were
  have same_height : s.Stacked c id → ∀ front l back, s.layersOf id = front ++ l :: back →
      s.stackHeight front = t.stackHeight front := by
    intro stacked front l back split
    obtain ⟨x, hx⟩ := members l (by rw [← layers, split]; simp)
    have now := stacked front l back split x hx
    have before := h front l back (layers ▸ split) x hx
    rw [tops, before] at now
    omega
  constructor
  · intro stacked front l next back split
    have above := same_height stacked front l (next :: back) split
    have upTo := same_height stacked (front ++ [l]) next back (by simpa using split)
    simp only [stackHeight_append, stackHeight_cons, stackHeight_nil] at upTo
    omega
  · intro heights front l back split x hx
    have same : s.stackHeight front = t.stackHeight front := by
      refine stackHeight_congr fun l' hl' => ?_
      obtain ⟨before, between, rfl⟩ := List.append_of_mem hl'
      cases between with
      | nil => exact heights before l' l back (by simpa using split)
      | cons next between =>
        exact heights before l' next (between ++ l :: back) (by simpa using split)
    rw [tops, same]
    exact h front l back (layers ▸ split) x hx

end Changing

/-! ### Moving -/

section Moving

variable (c : LayoutConfig) {t : WidgetTree}

theorem rowsOf_handOverAll (t : WidgetTree) (moved : List WidgetId) (parent x : WidgetId) :
    (t.handOverAll c moved parent).rowsOf x = t.rowsOf x := by
  have run : ∀ (parents : List WidgetId) (t : WidgetTree),
      (parents.foldl (layOut c) t).rowsOf x = t.rowsOf x := by
    intro parents
    induction parents with
    | nil => exact fun t => rfl
    | cons parent parents ih => exact fun t => (ih _).trans (rowsOf_layOut c t parent x)
  exact (run _ _).trans (rowsOf_congr (placeOf?_foldl_handOver moved (t, .empty) x))

theorem rowsOf_settle_handOverAll (t : WidgetTree) (moved : List WidgetId) (d : DropTarget)
    (x : WidgetId) : ((t.handOverAll c moved d.parent).settle moved d).rowsOf x = t.rowsOf x :=
  (rowsOf_congr (placeOf?_settle _ moved d x)).trans (rowsOf_handOverAll c t moved d.parent x)

/-- Which container is around a canvas depends on the parent of the canvas and on types. -/
theorem IsFrame.of_kin {s : WidgetTree} {canvas frame : WidgetId}
    (framed : s.IsFrame canvas frame) (kin : t.Kin s)
    (recorded : s.parentOf? canvas = t.parentOf? canvas) : t.IsFrame canvas frame := by
  obtain ⟨up, w, hw, type, inner⟩ := framed
  obtain ⟨w', hw', id, type'⟩ := kin.exists_get? hw
  exact ⟨recorded.symm.trans up, w', hw', type'.trans type, id ▸ inner⟩

/-- A tree after a move into a container, short of growing what is around the container. -/
structure Relaid (c : LayoutConfig) (t : WidgetTree) (target : WidgetId) (u : WidgetTree) :
    Prop where
  wellFormed : u.WellFormed
  kin : t.Kin u
  parentOf?_eq : u.parentOf? target = t.parentOf? target
  rowsOf_eq : ∀ x, u.rowsOf x = t.rowsOf x
  stacked : ∀ id, u.Stacked c id

/-- A move changes nothing, or lays containers out and then makes what is around the target as high
as the layers of the target. -/
theorem WellFormed.exists_relaid (h : t.WellFormed) (stacked : ∀ id, t.Stacked c id)
    {selection : List WidgetId} {d : DropTarget} (droppable : t.Droppable selection d) :
    t.moveTo c selection d = t ∨ ∃ u, t.Relaid c d.parent u ∧ t.moveTo c selection d =
      u.growContainer d.parent
        (c.containerPadding + t.stackHeight (u.effectiveLayers d.parent)) := by
  refine (h.moveTo_cases c droppable).imp_right ?_
  rintro ⟨moved, fits, result⟩
  have handed := handed_handOverAll h.linked c fits.nodup (fits.exists_up h.rooted) d.parent
  have settled := h.settle handed fits
  have relaid : ∀ id, Stacked c (((t.handOverAll c moved d.parent).settle moved d).layOut c
      d.parent) id := fun id =>
    h.moveTo_relaid (P := fun s => s.Stacked c id)
      (fun undisturbed before => before.undisturbed undisturbed)
      (fun s parent => stacked_layOut c) (stacked id) fits
  have rows := rowsOf_settle_handOverAll c t moved d
  have kin := handed.kin_settle
  have stays : d.parent ∉ moved := fun mem => fits.apart d.parent mem .refl
  have recorded := handed.parentOf?_settle d.parent
  rw [if_neg stays] at recorded
  rw [rearrange_eq] at result
  generalize (t.handOverAll c moved d.parent).settle moved d = s at *
  have alike := alike_layOut c s d.parent
  have shared := alike_shareAll c s d.parent
  have height : ((s.shareAll c d.parent).placeChildren c d.parent).2 =
      c.containerPadding + t.stackHeight ((s.layOut c d.parent).effectiveLayers d.parent) := by
    have there : (s.shareAll c d.parent).contains d.parent = true := by
      rw [← shared.kin.contains_eq, ← kin.contains_eq]
      exact fits.target
    rw [placeChildren_snd c (settled.tidy.congr shared) there,
      (alike_placeChildren c _ d.parent).effectiveLayers_eq, ← layOut,
      stackHeight_congr fun l _ => layerHeight_congr fun x _ =>
        (rows_shareAll c s d.parent x).1.trans (rows x)]
  refine ⟨s.layOut c d.parent, ?_, height ▸ result⟩
  exact
    { wellFormed := settled.congr alike
      kin := kin.trans alike.kin
      parentOf?_eq := (alike.parentOf?_eq d.parent).symm.trans recorded
      rowsOf_eq := fun x => (rowsOf_layOut c s d.parent x).trans (rows x)
      stacked := relaid }

end Moving

/-- A move in a tree of stacked containers changes the height of no widget but the bordered
container around the target, which becomes as high as its content. A container is stacked
afterwards, with no layer reaching into a later one, if and only if all of its layers that have
another below kept their heights. -/
theorem WellFormed.stacked_moveTo_iff (c : LayoutConfig) {t : WidgetTree} (h : t.WellFormed)
    (stacked : ∀ id, t.Stacked c id) {selection : List WidgetId} {d : DropTarget}
    (droppable : t.Droppable selection d) :
    let t' := t.moveTo c selection d
    (∀ x, t'.rowsOf x ≠ t.rowsOf x → t.IsFrame d.parent x ∧ t'.rowsOf x =
        max (c.containerPadding + t.stackHeight (t'.effectiveLayers d.parent)) 0) ∧
      ∀ id, (t'.Stacked c id ↔ ∀ front l next back, t'.layersOf id = front ++ l :: next :: back →
          t'.layerHeight l = t.layerHeight l) ∧
        (t'.Stacked c id → ∀ front l back, t'.layersOf id = front ++ l :: back →
          ∀ x ∈ l.ids, ∀ y ∈ Layers.flatten back, t'.topOf x + t'.rowsOf x ≤ t'.topOf y) := by
  intro t'
  have below : ∀ id, t'.Stacked c id → ∀ front l back, t'.layersOf id = front ++ l :: back →
      ∀ x ∈ l.ids, ∀ y ∈ Layers.flatten back, t'.topOf x + t'.rowsOf x ≤ t'.topOf y :=
    fun id stacked front l back split x hx y hy => stacked.below split hx hy
  rcases h.exists_relaid c stacked droppable with same | ⟨u, relaid, result⟩
  · have same : t' = t := same
    rw [same] at below ⊢
    exact ⟨fun x changed => absurd rfl changed,
      fun id => ⟨⟨fun _ _ _ _ _ _ => rfl, fun _ => stacked id⟩, below id⟩⟩
  · have result : t' = _ := result
    have grown := alike_growContainer u d.parent
      (c.containerPadding + t.stackHeight (u.effectiveLayers d.parent))
    rw [result, ← grown.effectiveLayers_eq]
    rw [result] at below
    refine ⟨fun x changed => ?_, fun id => ⟨?_, below id⟩⟩
    · rw [← relaid.rowsOf_eq x] at changed
      obtain ⟨framed, rows⟩ := rowsOf_growContainer_of_ne changed
      exact ⟨framed.of_kin relaid.kin relaid.parentOf?_eq, rows⟩
    · have filled : ∀ l ∈ u.layersOf id, l.children ≠ [] := fun l hl =>
        (relaid.wellFormed.linked.arranged id (List.ne_nil_of_mem hl)).filled l hl
      rw [(relaid.stacked id).iff_heights (grown.layersOf_eq id).symm
        (topOf_growContainer u d.parent _) filled]
      simp only [layerHeight_congr fun x _ => relaid.rowsOf_eq x]

/-- A root canvas with three rows: a high widget, a low container and a text. -/
def lowBox : WidgetTree :=
  .ofList [
    { Widget.ofType mainContainerId canvasType with
      children := ["high", "box", "text"]
      layers := [⟨[⟨"high", .start⟩], false⟩, ⟨[⟨"box", .start⟩], false⟩,
        ⟨[⟨"text", .start⟩], false⟩] },
    { Widget.ofType "high" "TEXT_WIDGET" with
      parent := some mainContainerId
      position := ⟨0, 10, 0, 16⟩ },
    { Widget.ofType "box" containerType with
      parent := some mainContainerId
      children := ["inner"]
      position := ⟨10, 12, 0, 20⟩ },
    { Widget.ofType "inner" canvasType with parent := some "box" },
    { Widget.ofType "text" "TEXT_WIDGET" with
      parent := some mainContainerId
      position := ⟨12, 16, 0, 16⟩ }]

/-- The place inside the container. -/
def insideBox : DropTarget := ⟨"inner", 0, 0, 0, .start, true, .vertical⟩

theorem stacked_moveTo_iff_lowBox :
    lowBox.WellFormed ∧ (∀ id, lowBox.Stacked {} id) ∧ lowBox.Droppable ["text"] insideBox ∧
      (lowBox.moveTo {} ["text"] insideBox).Stacked {} mainContainerId := by
  have wellFormed : lowBox.WellFormed := by decide +kernel
  have stacked : ∀ id, lowBox.Stacked {} id := forall_stacked_iff.mpr (by decide +kernel)
  have droppable : lowBox.Droppable ["text"] insideBox := by decide +kernel
  have layers : (lowBox.moveTo {} ["text"] insideBox).layersOf mainContainerId =
      [⟨[⟨"high", .start⟩], false⟩, ⟨[⟨"box", .start⟩], false⟩] := by decide +kernel
  refine ⟨wellFormed, stacked, droppable, ?_⟩
  refine ((wellFormed.stacked_moveTo_iff {} stacked droppable).2 mainContainerId).1.mpr ?_
  -- the container grows, but its layer is the last one
  intro front l next back split
  rw [layers] at split
  rcases front with _ | ⟨first, _ | ⟨second, rest⟩⟩
  · obtain ⟨rfl, -⟩ := List.cons.inj split
    decide +kernel
  · simp at split
  · simp at split

/-- The move of a high widget into a container makes the container reach over the text below. -/
theorem not_stacked_moveTo_lowBox :
    lowBox.WellFormed ∧ (∀ id, lowBox.Stacked {} id) ∧ lowBox.Droppable ["high"] insideBox ∧
      let after := lowBox.moveTo {} ["high"] insideBox
      after.layersOf mainContainerId =
        [⟨[⟨"box", .start⟩], false⟩, ⟨[⟨"text", .start⟩], false⟩] ∧
      ¬ after.Stacked {} mainContainerId ∧
      after.topOf "text" < after.topOf "box" + after.rowsOf "box" :=
  ⟨by decide +kernel, forall_stacked_iff.mpr (by decide +kernel), by decide +kernel,
    by decide +kernel⟩

end AppBuilder.WidgetTree
