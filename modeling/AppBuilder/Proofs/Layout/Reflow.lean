import AppBuilder.Proofs.Layout.Packing
import AppBuilder.Proofs.Layout.Stacking

/-!
Where the children of a canvas stand once they are laid out.

A layer is placed from a row on when its widgets take rows from there and its buckets are aligned
(`RowPlaced`), and layers are when each is placed from the row below the one before (`Layered`).
Placing the children of a container brings this about and reads nothing that it changes, so it
places nothing a second time (`Layered.foldl_placeLayer_eq`). All that can be said about the rows
of the children follows from the pile that their layers make (`Piled`), and about their columns
from the buckets being spread over the grid (`Spread`).

Main statement: `reflowed_of_valid`.
-/

namespace AppBuilder.WidgetTree

/-! ### Rows -/

section Rows

variable {t : WidgetTree} {ids : List WidgetId} {top : Int}

/-- Widgets that have the rows of their layer are not placed again. -/
theorem placeRows_fst_eq (rows : ∀ id ∈ ids, t.topOf id = top ∧ t.bottomOf id = top + t.rowsOf id) :
    (t.placeRows ids top).1 = t := by
  have run : ∀ (ids : List WidgetId) (height : Int),
      (∀ id ∈ ids, t.topOf id = top ∧ t.bottomOf id = top + t.rowsOf id) →
      (ids.foldl (placeRow top) (t, height)).1 = t := by
    intro ids
    induction ids with
    | nil => exact fun _ _ => rfl
    | cons id ids ih =>
      intro height rows
      obtain ⟨own, rest⟩ := List.forall_mem_cons.mp rows
      have stays : placeRow top (t, height) id = (t, max height (t.rowsOf id)) := by
        rw [placeRow, reposition_eq_self]
        intro p hp
        have start : p.topRow = top := by simpa [topOf, hp] using own.1
        have stop : p.bottomRow = top + t.rowsOf id := by simpa [bottomOf, hp] using own.2
        dsimp only
        rw [← stop, ← start]
      rw [List.foldl_cons, stays]
      exact ih _ rest
  exact run _ 0 fun id hid => rows id (List.mem_filter.mp hid).1

end Rows

/-! ### Placed layers -/

/-- The widgets of a layer take rows from a row on, and its buckets are aligned. -/
structure RowPlaced (c : LayoutConfig) (t : WidgetTree) (l : FlexLayer) (top : Int) : Prop where
  rows : ∀ id ∈ l.ids, t.topOf id = top ∧ t.bottomOf id = top + t.rowsOf id
  aligned : t.Aligned c l.spread

/-- Layers are placed on top of each other from a row on. -/
def Layered (c : LayoutConfig) (t : WidgetTree) : List FlexLayer → Int → Prop
  | [], _ => True
  | l :: layers, top => t.RowPlaced c l top ∧ t.Layered c layers (top + t.layerHeight l)

section Layers

variable {c : LayoutConfig} {t s : WidgetTree} {l : FlexLayer} {layers : List FlexLayer} {top : Int}

theorem RowPlaced.placed (h : t.RowPlaced c l top) {others : List WidgetId}
    (placed : t.Placed others s) (apart : ∀ id ∈ l.ids, id ∉ others) : s.RowPlaced c l top where
  rows id hid := by
    have stays := placed.apart id (apart id hid)
    rw [topOf_congr stays, bottomOf_congr stays, placed.rowsOf_eq]
    exact h.rows id hid
  aligned := h.aligned.placed placed fun id hid => apart id (l.perm_ids_spread.mem_iff.mp hid)

theorem rowPlaced_placeLayer (c : LayoutConfig) (s : WidgetTree × Int) (nodup : l.ids.Nodup)
    (there : ∀ id ∈ l.ids, s.1.contains id = true) : (placeLayer c s l).1.RowPlaced c l s.2 where
  rows id hid := by
    obtain ⟨p, hp⟩ := exists_placeOf? (there id hid)
    rw [(placed_placeLayer c s l).rowsOf_eq, placeLayer, topOf_placeBuckets,
      bottomOf_placeBuckets, topOf, bottomOf, placeOf?_placeRows there s.2 hid, hp]
    exact ⟨rfl, rfl⟩
  aligned := by
    refine aligned_placeBuckets c (l.perm_ids_spread.nodup_iff.mpr nodup) fun id hid => ?_
    rw [← (alike_placeRows s.1 l.ids s.2).kin.contains_eq]
    exact there id (l.perm_ids_spread.mem_iff.mp hid)

theorem RowPlaced.placeLayer_eq (h : t.RowPlaced c l top)
    (there : ∀ id ∈ l.ids, t.contains id = true) :
    placeLayer c (t, top) l = (t, top + t.layerHeight l) := by
  have aligned := h.aligned.placeBuckets_eq fun id hid =>
    there id (l.perm_ids_spread.mem_iff.mp hid)
  rw [placeLayer, placeRows_fst_eq h.rows, aligned, placeRows_snd there, layerHeight]

theorem layered_foldl_placeLayer (c : LayoutConfig) (s : WidgetTree × Int)
    (nodup : (Layers.flatten layers).Nodup)
    (there : ∀ id ∈ Layers.flatten layers, s.1.contains id = true) :
    (layers.foldl (placeLayer c) s).1.Layered c layers s.2 := by
  induction layers generalizing s with
  | nil => trivial
  | cons l layers ih =>
    obtain ⟨own, rest, apart⟩ := List.nodup_append.mp nodup
    obtain ⟨here, below⟩ := List.forall_mem_append.mp there
    have first := placed_placeLayer c s l
    have later := placed_foldl_placeLayer c layers (placeLayer c s l)
    have height : (placeLayer c s l).2 = s.2 + (layers.foldl (placeLayer c)
        (placeLayer c s l)).1.layerHeight l := by
      rw [layerHeight_congr fun id _ => (later.rowsOf_eq id).trans (first.rowsOf_eq id)]
      simp only [placeLayer, placeRows_snd here, layerHeight]
    rw [List.foldl_cons, Layered, ← height]
    refine ⟨?_, ih _ rest fun id hid => first.alike.kin.contains_eq id ▸ below id hid⟩
    exact (rowPlaced_placeLayer c s own here).placed later fun id hid hid' =>
      apart id hid id hid' rfl

/-- Placed layers are not placed again. -/
theorem Layered.foldl_placeLayer_eq (h : t.Layered c layers top)
    (there : ∀ id ∈ Layers.flatten layers, t.contains id = true) :
    layers.foldl (placeLayer c) (t, top) = (t, top + t.stackHeight layers) := by
  induction layers generalizing top with
  | nil => simp
  | cons l layers ih =>
    obtain ⟨here, below⟩ := List.forall_mem_append.mp there
    rw [List.foldl_cons, h.1.placeLayer_eq here, ih h.2 below, stackHeight_cons, Int.add_assoc]

theorem Layered.rowPlaced (h : t.Layered c layers top) (hl : l ∈ layers) :
    ∃ top, t.RowPlaced c l top := by
  induction layers generalizing top with
  | nil => exact absurd hl List.not_mem_nil
  | cons first layers ih =>
    rcases List.mem_cons.mp hl with rfl | hl
    · exact ⟨top, h.1⟩
    · exact ih h.2 hl

end Layers

/-! ### Piles of layers -/

/-- The widgets of a layer start in one row and end by another, which the highest reaches. -/
structure Spans (t : WidgetTree) (l : FlexLayer) (top bottom : Int) : Prop where
  rows : ∀ id ∈ l.ids, t.topOf id = top ∧ top ≤ t.bottomOf id ∧ t.bottomOf id ≤ bottom
  reached : ∃ id ∈ l.ids, t.bottomOf id = bottom

/-- Layers make a pile from a row down to another: each starts where the highest widget of the one
before ends. -/
def Piled (t : WidgetTree) : List FlexLayer → Int → Int → Prop
  | [], top, bottom => top = bottom
  | l :: layers, top, bottom => ∃ middle, t.Spans l top middle ∧ t.Piled layers middle bottom

section Piles

variable {t : WidgetTree} {l : FlexLayer} {layers : List FlexLayer} {top bottom : Int}

theorem Spans.le (h : t.Spans l top bottom) : top ≤ bottom := by
  obtain ⟨id, hid, -⟩ := h.reached
  exact Int.le_trans (h.rows id hid).2.1 (h.rows id hid).2.2

namespace Piled

theorem le (h : t.Piled layers top bottom) : top ≤ bottom := by
  induction layers generalizing top with
  | nil => exact Int.le_of_eq h
  | cons l layers ih =>
    obtain ⟨middle, own, rest⟩ := h
    exact Int.le_trans own.le (ih rest)

theorem between (h : t.Piled layers top bottom) {id : WidgetId}
    (mem : id ∈ Layers.flatten layers) :
    top ≤ t.topOf id ∧ t.topOf id ≤ t.bottomOf id ∧ t.bottomOf id ≤ bottom := by
  induction layers generalizing top with
  | nil => exact absurd mem List.not_mem_nil
  | cons l layers ih =>
    obtain ⟨middle, own, rest⟩ := h
    rcases List.mem_append.mp mem with mem | mem
    · obtain ⟨start, stop, inside⟩ := own.rows id mem
      have below := rest.le
      omega
    · have above := own.le
      have inside := ih rest mem
      omega

/-- No two layers of a pile share a row. -/
theorem apart (h : t.Piled layers top bottom) : layers.Pairwise fun l l' =>
    ∀ id ∈ l.ids, ∀ id' ∈ l'.ids, t.bottomOf id ≤ t.topOf id' := by
  induction layers generalizing top with
  | nil => exact .nil
  | cons l layers ih =>
    obtain ⟨middle, own, rest⟩ := h
    refine .cons (fun l' hl' id hid id' hid' => ?_) (ih rest)
    have above := (own.rows id hid).2.2
    have below := (rest.between (List.mem_flatMap.mpr ⟨l', hl', hid'⟩)).1
    exact Int.le_trans above below

end Piled

theorem RowPlaced.spans {c : LayoutConfig} (h : t.RowPlaced c l top) (filled : l.children ≠ []) :
    t.Spans l top (top + t.layerHeight l) where
  rows id hid := by
    obtain ⟨start, stop⟩ := h.rows id hid
    have nonneg := t.rowsOf_nonneg id
    have bound := t.rowsOf_le_layerHeight hid
    omega
  reached := by
    obtain ⟨id, hid, highest⟩ := t.exists_rowsOf_eq filled
    exact ⟨id, hid, highest ▸ (h.rows id hid).2⟩

theorem Layered.piled {c : LayoutConfig} (h : t.Layered c layers top)
    (filled : ∀ l ∈ layers, l.children ≠ []) :
    t.Piled layers top (top + t.stackHeight layers) := by
  induction layers generalizing top with
  | nil => exact (Int.add_zero top).symm
  | cons l layers ih =>
    obtain ⟨own, rest⟩ := List.forall_mem_cons.mp filled
    refine ⟨top + t.layerHeight l, h.1.spans own, ?_⟩
    rw [stackHeight_cons, ← Int.add_assoc]
    exact ih h.2 rest

end Piles

/-! ### Buckets on the grid -/

/-- The buckets of a row are spread over the grid: each is closed up, the first starts at the left
edge, and as far as they fit, the center leaves the same on both sides, up to a column, and the last
ends at the right edge. -/
structure Spread (c : LayoutConfig) (t : WidgetTree) (b : Buckets) : Prop where
  abut : ∀ align, (b.get align).IsChain fun x y => t.rightOf x = t.leftOf y
  start : ∀ first, b.start.head? = some first → t.leftOf first = 0
  center : t.columnSum b.center ≤ c.gridColumns → ∀ first last, b.center.head? = some first →
    b.center.getLast? = some last → t.leftOf first ≤ c.gridColumns - t.rightOf last ∧
      c.gridColumns - t.rightOf last ≤ t.leftOf first + 1
  finish : t.columnSum b.finish ≤ c.gridColumns → ∀ last, b.finish.getLast? = some last →
    t.rightOf last = c.gridColumns
  apart : t.columnSum b.start + t.columnSum b.finish ≤ c.gridColumns →
    ∀ x ∈ b.start, ∀ y ∈ b.finish, t.rightOf x ≤ t.leftOf y
  inside : ∀ align, t.columnSum (b.get align) ≤ c.gridColumns → ∀ x ∈ b.get align,
    0 ≤ t.leftOf x ∧ t.leftOf x ≤ t.rightOf x ∧ t.rightOf x ≤ c.gridColumns

/-- Aligned buckets are spread over the grid. -/
theorem Aligned.spread {c : LayoutConfig} {t : WidgetTree} {b : Buckets} (h : t.Aligned c b) :
    t.Spread c b where
  abut align := (h align).isChain
  start first head := (h .start).leftOf_head? head
  center fits first last head tail := by
    have left : t.leftOf first = max ((c.gridColumns - t.columnSum b.center) / 2) 0 :=
      (h .center).leftOf_head? head
    have right : t.rightOf last = max ((c.gridColumns - t.columnSum b.center) / 2) 0 +
        t.columnSum b.center := (h .center).rightOf_getLast? tail
    omega
  finish fits last tail := by
    have right : t.rightOf last = max (c.gridColumns - t.columnSum b.finish) 0 +
        t.columnSum b.finish := (h .finish).rightOf_getLast? tail
    omega
  apart fits x hx y hy := by
    have left : t.rightOf x ≤ 0 + t.columnSum b.start := ((h .start).between hx).2.2
    have right : max (c.gridColumns - t.columnSum b.finish) 0 ≤ t.leftOf y :=
      ((h .finish).between hy).1
    omega
  inside align fits x hx := by
    have between := (h align).between hx
    have whole := bucketLeft_fits fits
    omega

/-- A widget of an aligned row is as wide as the columns that it takes. -/
theorem Aligned.rightOf_eq {c : LayoutConfig} {t : WidgetTree} {b : Buckets} (h : t.Aligned c b)
    {id : WidgetId} (mem : id ∈ b.ids) : t.rightOf id = t.leftOf id + t.columnsOf id := by
  obtain ⟨align, mem⟩ := Buckets.exists_mem_get mem
  exact (h align).rightOf_eq mem

/-! ### Laying out a canvas -/

/-- A canvas is laid out down to a row. Nothing but the places of its children is changed. They keep
their heights and, unless they fill their rows, their widths, where less than none counts as none.
The layers make a pile below the padding, and the buckets of each are spread over the grid. -/
structure Reflowed (c : LayoutConfig) (t : WidgetTree) (canvas : WidgetId) (s : WidgetTree)
    (total : Int) : Prop where
  alike : t.Alike s
  get?_eq : ∀ id, id ∉ t.childrenOf canvas → s.get? id = t.get? id
  sizes : ∀ id ∈ t.childrenOf canvas, ∃ p q, t.placeOf? id = some p ∧ s.placeOf? id = some q ∧
    q.rows = max p.rows 0 ∧ (t.isFill id = false → q.columns = max p.columns 0)
  between : ∀ id ∈ t.childrenOf canvas,
    c.containerPadding ≤ s.topOf id ∧ s.topOf id ≤ s.bottomOf id ∧ s.bottomOf id ≤ total
  apart : (t.layersOf canvas).Pairwise fun l l' =>
    ∀ id ∈ l.ids, ∀ id' ∈ l'.ids, s.bottomOf id ≤ s.topOf id'
  piled : s.Piled (t.layersOf canvas) c.containerPadding total
  spread : ∀ l ∈ t.layersOf canvas, s.Spread c l.spread

section LayingOut

variable {c : LayoutConfig} {t : WidgetTree} {canvas : WidgetId}

/-- The widgets of placed layers are as high and as wide as the rows and columns that they take. -/
theorem Layered.extents {layers : List FlexLayer} {top : Int} (h : t.Layered c layers top)
    {id : WidgetId} (mem : id ∈ Layers.flatten layers) :
    t.bottomOf id = t.topOf id + t.rowsOf id ∧ t.rightOf id = t.leftOf id + t.columnsOf id := by
  obtain ⟨l, hl, mem⟩ := List.mem_flatMap.mp mem
  obtain ⟨top, own⟩ := h.rowPlaced hl
  obtain ⟨start, stop⟩ := own.rows id mem
  exact ⟨start ▸ stop, own.aligned.rightOf_eq (l.perm_ids_spread.mem_iff.mpr mem)⟩

theorem columnsOf_shareAll_of_hug (parent : WidgetId) {id : WidgetId} (hug : t.isFill id = false) :
    (t.shareAll c parent).columnsOf id = t.columnsOf id := by
  rw [columnsOf_eq, columnsOf_eq, widthOf_congr (placeOf?_shareAll_of_hug c hug)]

variable (h : t.Tidy)
include h

/-- Laying a canvas out leaves all widgets but its children as they are. -/
theorem Tidy.get?_layOut {id : WidgetId} (away : id ∉ t.childrenOf canvas) :
    (t.layOut c canvas).get? id = t.get? id := by
  have shared := alike_shareAll c t canvas
  have apart : id ∉ Layers.flatten ((t.shareAll c canvas).effectiveLayers canvas) := fun mem =>
    away (h.mem_effectiveLayers (shared.effectiveLayers_eq canvas ▸ mem))
  have placed := (placed_placeChildren c (t.shareAll c canvas) canvas).apart id apart
  have sized := placeOf?_shareAll c t fun mem => away (h.mem_childrenOf mem)
  exact ((alike_layOut c t canvas).get?_eq (placed.trans sized).symm).symm

variable (layered : t.layersOf canvas ≠ [])
include layered

theorem Tidy.layered_placeChildren :
    (t.placeChildren c canvas).1.Layered c (t.layersOf canvas) c.containerPadding := by
  rw [h.placeChildren_of_layered c layered]
  exact layered_foldl_placeLayer c (t, c.containerPadding) (h.nodup_layers canvas) fun id hid =>
    h.there canvas id (h.mem_childrenOf hid)

theorem Tidy.layered_layOut :
    (t.layOut c canvas).Layered c (t.layersOf canvas) c.containerPadding := by
  have shared := alike_shareAll c t canvas
  rw [shared.layersOf_eq] at layered ⊢
  exact (h.congr shared).layered_placeChildren layered

/-- Placing goes down to the row below the layers. -/
theorem Tidy.total_layOut : ((t.shareAll c canvas).placeChildren c canvas).2 =
    c.containerPadding + (t.layOut c canvas).stackHeight (t.layersOf canvas) := by
  have shared := alike_shareAll c t canvas
  have placed := placed_placeChildren c (t.shareAll c canvas) canvas
  rw [layOut, stackHeight_congr fun l _ => layerHeight_congr fun id _ => placed.rowsOf_eq id]
  rw [shared.layersOf_eq] at layered ⊢
  rw [placeChildren_snd c (h.congr shared) (contains_of_layered layered),
    effectiveLayers_of_layered layered]

theorem Tidy.piled_layOut : (t.layOut c canvas).Piled (t.layersOf canvas) c.containerPadding
    ((t.shareAll c canvas).placeChildren c canvas).2 := by
  rw [h.total_layOut layered]
  exact (h.layered_layOut layered).piled (h.arranged canvas layered).filled

/-- Children keep their heights and, if they do not fill their rows, their widths. -/
theorem Tidy.sizes_layOut {id : WidgetId} (child : id ∈ t.childrenOf canvas) :
    ∃ p q, t.placeOf? id = some p ∧ (t.layOut c canvas).placeOf? id = some q ∧
      q.rows = max p.rows 0 ∧ (t.isFill id = false → q.columns = max p.columns 0) := by
  have there := h.there canvas id child
  obtain ⟨p, hp⟩ := exists_placeOf? there
  obtain ⟨q, hq⟩ := exists_placeOf? ((alike_layOut c t canvas).kin.contains_eq id ▸ there)
  obtain ⟨high, wide⟩ := (h.layered_layOut (c := c) layered).extents
    ((h.arranged canvas layered).perm.mem_iff.mpr child)
  simp only [topOf, bottomOf, leftOf, rightOf, hq, Option.map_some, Option.getD_some] at high wide
  refine ⟨p, q, hp, hq, ?_, fun hug => ?_⟩
  · have rows : (t.layOut c canvas).rowsOf id = max p.rows 0 := by
      rw [rowsOf_layOut, rowsOf_eq, hp]
      rfl
    rw [GridPosition.rows]
    omega
  · have columns : (t.layOut c canvas).columnsOf id = max p.columns 0 := by
      rw [layOut, (placed_placeChildren c _ canvas).columnsOf_eq,
        columnsOf_shareAll_of_hug canvas hug, columnsOf_eq, widthOf, hp]
      rfl
    rw [GridPosition.columns]
    omega

theorem Tidy.reflowed : t.Reflowed c canvas (t.layOut c canvas)
    ((t.shareAll c canvas).placeChildren c canvas).2 where
  alike := alike_layOut c t canvas
  get?_eq _ := h.get?_layOut
  sizes _ := h.sizes_layOut layered
  between _ child :=
    (h.piled_layOut layered).between ((h.arranged canvas layered).perm.mem_iff.mpr child)
  apart := (h.piled_layOut layered).apart
  piled := h.piled_layOut layered
  spread l hl := by
    obtain ⟨top, placed⟩ := (h.layered_layOut (c := c) layered).rowPlaced hl
    exact placed.aligned.spread

/-- Laying out a canvas that is laid out shares and places nothing. -/
theorem Tidy.layOut_again : ((t.layOut c canvas).shareAll c canvas).placeChildren c canvas =
    (t.shareAll c canvas).placeChildren c canvas := by
  have alike := alike_layOut c t canvas
  have tidy := h.congr alike
  have balanced : (t.layOut c canvas).Balanced c canvas :=
    balanced_layOut c h fun other => absurd rfl other
  have placed := h.layered_layOut (c := c) layered
  have total := h.total_layOut (c := c) layered
  rw [alike.layersOf_eq] at layered placed total
  rw [balanced.shareAll_eq, tidy.placeChildren_of_layered c layered,
    placed.foldl_placeLayer_eq fun id hid => tidy.there canvas id (tidy.mem_childrenOf hid),
    ← total]
  rfl

end LayingOut

/-- Sharing the columns of a valid canvas and placing its children changes nothing but the places of
the children, which make a pile of rows that are spread over the grid. Doing both once more changes
nothing at all. -/
theorem reflowed_of_valid (c : LayoutConfig) {t : WidgetTree}
    (keyed : ∀ id w, t.get? id = some w → w.id = id) (valid : t.violations = [])
    (nodup : ∀ id, (t.childrenOf id).Nodup) {canvas : WidgetId}
    (layered : t.layersOf canvas ≠ []) :
    let after := (t.shareAll c canvas).placeChildren c canvas
    t.Reflowed c canvas after.1 after.2 ∧
      (after.1.shareAll c canvas).placeChildren c canvas = after := by
  have tidy := ((violations_eq_nil_iff keyed nodup).mp valid).tidy nodup
  exact ⟨tidy.reflowed layered, tidy.layOut_again layered⟩

/-- A canvas with a row of widgets in each alignment, a row with two widgets that fill it, and a
widget that ends above its start. -/
def twoRows : WidgetTree :=
  .ofList [
    { Widget.ofType mainContainerId canvasType with
      children := ["a", "b", "c", "d", "e", "f"]
      layers := [⟨[⟨"a", .start⟩, ⟨"b", .center⟩, ⟨"c", .finish⟩], false⟩,
        ⟨[⟨"d", .finish⟩, ⟨"e", .start⟩, ⟨"f", .center⟩], true⟩] },
    { Widget.ofType "a" "TEXT_WIDGET" with
      parent := some mainContainerId
      sizing := .hug
      position := ⟨0, 10, 7, 16⟩ },
    { Widget.ofType "b" "TEXT_WIDGET" with
      parent := some mainContainerId
      sizing := .hug
      position := ⟨9, 2, 3, 18⟩ },
    { Widget.ofType "c" "TEXT_WIDGET" with
      parent := some mainContainerId
      sizing := .hug
      position := ⟨0, 4, 0, 20⟩ },
    { Widget.ofType "d" "TEXT_WIDGET" with
      parent := some mainContainerId
      sizing := .fill
      position := ⟨0, 4, 0, 20⟩ },
    { Widget.ofType "e" "TEXT_WIDGET" with
      parent := some mainContainerId
      sizing := .hug
      position := ⟨0, 4, 0, 21⟩ },
    { Widget.ofType "f" "TEXT_WIDGET" with
      parent := some mainContainerId
      sizing := .fill
      position := ⟨0, 6, 0, 20⟩ }]

theorem reflowed_of_valid_twoRows :
    (∀ id w, twoRows.get? id = some w → w.id = id) ∧ twoRows.violations = [] ∧
      (∀ id, (twoRows.childrenOf id).Nodup) ∧ twoRows.layersOf mainContainerId ≠ [] ∧
      let after := (twoRows.shareAll {} mainContainerId).placeChildren {} mainContainerId
      twoRows.Reflowed {} mainContainerId after.1 after.2 ∧ after.2 = 16 ∧
        after.1.leftOf "b" = 24 ∧ after.1.rightOf "c" = 64 ∧
        (after.1.shareAll {} mainContainerId).placeChildren {} mainContainerId = after := by
  have wellFormed : twoRows.WellFormed := by decide +kernel
  have layered : twoRows.layersOf mainContainerId ≠ [] := by decide +kernel
  have reflowed := reflowed_of_valid {} wellFormed.keyed wellFormed.valid wellFormed.nodup layered
  refine ⟨wellFormed.keyed, wellFormed.valid, wellFormed.nodup, layered, reflowed.1, ?_, ?_, ?_,
    reflowed.2⟩
  · decide +kernel
  · decide +kernel
  · decide +kernel

end AppBuilder.WidgetTree
