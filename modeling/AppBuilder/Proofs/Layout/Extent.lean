import AppBuilder.Proofs.Layout.Layer
import AppBuilder.Proofs.Layout.Place
import Mathlib.Algebra.Ring.Int.Defs

/-!
How wide widgets are, how high, and how far down they start.

Placing the children of a container (`Placed`) leaves the places of all others, keeps every height
and clips widths at zero. What starts where is told layer by layer: the widgets of a layer start in
the row below the layers before it (`topOf_foldl_placeLayer`).
-/

namespace AppBuilder.WidgetTree

/-! ### Places -/

/-- The place of a widget. -/
def placeOf? (t : WidgetTree) (id : WidgetId) : Option GridPosition := (t.get? id).map (·.position)

/-- The columns between the edges of a widget, less than none when they are swapped. -/
def widthOf (t : WidgetTree) (id : WidgetId) : Int := ((t.placeOf? id).map (·.columns)).getD 0

/-- The row that a widget starts in. -/
def topOf (t : WidgetTree) (id : WidgetId) : Int := ((t.placeOf? id).map (·.topRow)).getD 0

section Places

variable (t : WidgetTree) (id : WidgetId)

theorem columnsOf_eq : t.columnsOf id = max (t.widthOf id) 0 := by
  rw [columnsOf, widthOf, placeOf?]
  cases t.get? id <;> simp

theorem rowsOf_eq : t.rowsOf id = ((t.placeOf? id).map fun p => max p.rows 0).getD 0 := by
  rw [rowsOf, placeOf?]
  cases t.get? id <;> simp

theorem exists_placeOf? {t : WidgetTree} {id : WidgetId} (there : t.contains id = true) :
    ∃ p, t.placeOf? id = some p := by
  obtain ⟨w, hw⟩ := contains_iff.mp there
  exact ⟨w.position, by rw [placeOf?, hw, Option.map_some]⟩

theorem placeOf?_reposition (f : GridPosition → GridPosition) (x : WidgetId) :
    (t.reposition id f).placeOf? x =
      if id = x then (t.placeOf? x).map f else t.placeOf? x := by
  unfold reposition placeOf?
  split
  · rename_i w hw
    by_cases stays : f w.position = w.position
    · rw [if_pos stays]
      by_cases own : id = x
      · subst own
        simp [hw, stays]
      · rw [if_neg own]
    · rw [if_neg stays, get?_modify]
      by_cases own : id = x
      · rw [if_pos own, if_pos own, Option.map_map, Option.map_map]
        rfl
      · rw [if_neg own, if_neg own]
  · rename_i hw
    by_cases own : id = x
    · subst own
      simp [hw]
    · rw [if_neg own]

/-- A write that is not about places leaves them all. -/
theorem placeOf?_modify_of_same {f : Widget → Widget} (same : ∀ w, (f w).position = w.position)
    (x : WidgetId) : (t.modify id f).placeOf? x = t.placeOf? x :=
  map_get?_modify same x

end Places

/-- A widget whose place stays the same is not written. -/
theorem reposition_eq_self {t : WidgetTree} {id : WidgetId} {f : GridPosition → GridPosition}
    (same : ∀ p, t.placeOf? id = some p → f p = p) : t.reposition id f = t := by
  unfold reposition
  split
  · rename_i w hw
    rw [if_pos (same w.position (by rw [placeOf?, hw, Option.map_some]))]
  · rfl

/-- Widgets that are the same apart from their place are the same when they are at one place. -/
theorem Alike.get?_eq {t s : WidgetTree} (alike : t.Alike s) {id : WidgetId}
    (place : t.placeOf? id = s.placeOf? id) : t.get? id = s.get? id := by
  have same := alike id
  rw [placeOf?, placeOf?] at place
  cases hw : t.get? id with
  | none =>
    rw [hw, Option.map_none] at place
    exact (Option.map_eq_none_iff.mp place.symm).symm
  | some w =>
    rw [hw, Option.map_some] at place same
    obtain ⟨w', hw', position⟩ := Option.map_eq_some_iff.mp place.symm
    rw [hw', Option.map_some, Option.some.injEq] at same
    rw [hw', Option.some.injEq]
    cases w
    cases w'
    simp_all [Widget.unplaced]

theorem widthOf_congr {t s : WidgetTree} {id : WidgetId} (same : s.placeOf? id = t.placeOf? id) :
    s.widthOf id = t.widthOf id := by
  rw [widthOf, widthOf, same]

theorem rowsOf_congr {t s : WidgetTree} {id : WidgetId} (same : s.placeOf? id = t.placeOf? id) :
    s.rowsOf id = t.rowsOf id := by
  rw [rowsOf_eq, rowsOf_eq, same]

theorem topOf_congr {t s : WidgetTree} {id : WidgetId} (same : s.placeOf? id = t.placeOf? id) :
    s.topOf id = t.topOf id := by
  rw [topOf, topOf, same]

/-! ### Placing widgets -/

/-- Some widgets are placed: the others stay where they are, and all keep their height and, down
to none, their width. -/
structure Placed (t : WidgetTree) (ids : List WidgetId) (s : WidgetTree) : Prop where
  alike : t.Alike s
  apart : ∀ id, id ∉ ids → s.placeOf? id = t.placeOf? id
  widthOf_eq : ∀ id, s.widthOf id = t.widthOf id ∨ s.widthOf id = max (t.widthOf id) 0
  rowsOf_eq : ∀ id, s.rowsOf id = t.rowsOf id

namespace Placed

variable {t s r : WidgetTree} {ids ids' : List WidgetId}

theorem refl (t : WidgetTree) (ids : List WidgetId) : t.Placed ids t :=
  ⟨.refl t, fun _ _ => rfl, fun _ => .inl rfl, fun _ => rfl⟩

theorem trans (h : t.Placed ids s) (h' : s.Placed ids r) : t.Placed ids r where
  alike := h.alike.trans h'.alike
  apart id hid := (h'.apart id hid).trans (h.apart id hid)
  widthOf_eq id := by
    have first := h.widthOf_eq id
    have second := h'.widthOf_eq id
    omega
  rowsOf_eq id := (h'.rowsOf_eq id).trans (h.rowsOf_eq id)

theorem mono (h : t.Placed ids s) (sub : ids ⊆ ids') : t.Placed ids' s :=
  { h with apart := fun id hid => h.apart id fun mem => hid (sub mem) }

theorem columnsOf_eq (h : t.Placed ids s) (id : WidgetId) : s.columnsOf id = t.columnsOf id := by
  have := h.widthOf_eq id
  rw [WidgetTree.columnsOf_eq, WidgetTree.columnsOf_eq]
  omega

/-- A loop that places widgets of a list, whatever else it carries along. -/
theorem foldl {α : Type} {f : WidgetTree × α → WidgetId → WidgetTree × α}
    (step : ∀ (s : WidgetTree × α) id, id ∈ ids → s.1.Placed ids (f s id).1)
    (sub : ids' ⊆ ids) (s : WidgetTree × α) : s.1.Placed ids (ids'.foldl f s).1 := by
  induction ids' generalizing s with
  | nil => exact .refl s.1 ids
  | cons id ids' ih =>
    obtain ⟨mem, sub⟩ := List.cons_subset.mp sub
    exact (step s id mem).trans (ih sub (f s id))

end Placed

/-- Placing one widget. -/
theorem placed_reposition {t : WidgetTree} {id : WidgetId} {ids : List WidgetId} (mem : id ∈ ids)
    {f : GridPosition → GridPosition}
    (columns : ∀ p, t.placeOf? id = some p →
      (f p).columns = p.columns ∨ (f p).columns = max p.columns 0)
    (rows : ∀ p, t.placeOf? id = some p → max (f p).rows 0 = max p.rows 0) :
    t.Placed ids (t.reposition id f) where
  alike := alike_reposition t id f
  apart x hx := by
    have other : id ≠ x := fun same => hx (same ▸ mem)
    rw [placeOf?_reposition, if_neg other]
  widthOf_eq x := by
    rw [widthOf, widthOf, placeOf?_reposition]
    by_cases own : id = x
    · subst own
      cases hp : t.placeOf? id with
      | none => simp
      | some p => simpa using columns p hp
    · simp [own]
  rowsOf_eq x := by
    rw [WidgetTree.rowsOf_eq, WidgetTree.rowsOf_eq, placeOf?_reposition]
    by_cases own : id = x
    · subst own
      cases hp : t.placeOf? id with
      | none => simp
      | some p => simpa using rows p hp
    · simp [own]

section Operations

variable (c : LayoutConfig) (t : WidgetTree)

/-- Place a widget of a row that starts at a place, noting the greatest height so far. -/
def placeRow (top : Int) (s : WidgetTree × Int) (id : WidgetId) : WidgetTree × Int :=
  (s.1.reposition id fun p => { p with topRow := top, bottomRow := top + s.1.rowsOf id },
    max s.2 (s.1.rowsOf id))

/-- Place a widget of a row from a column on; the second part is the column behind it. -/
def packColumn (s : WidgetTree × Int) (id : WidgetId) : WidgetTree × Int :=
  (s.1.reposition id fun p =>
    { p with leftColumn := s.2, rightColumn := s.2 + s.1.columnsOf id }, s.2 + s.1.columnsOf id)

theorem placeRows_eq (ids : List WidgetId) (top : Int) :
    t.placeRows ids top = (ids.filter t.contains).foldl (placeRow top) (t, 0) := rfl

theorem placed_placeRow (top : Int) (s : WidgetTree × Int) {ids : List WidgetId} {id : WidgetId}
    (mem : id ∈ ids) : s.1.Placed ids (placeRow top s id).1 := by
  dsimp only [placeRow]
  refine placed_reposition mem ?_ ?_
  · exact fun p _ => .inl rfl
  · intro p hp
    have rows : s.1.rowsOf id = max p.rows 0 := by simp [rowsOf_eq, hp]
    simp only [GridPosition.rows, rows]
    omega

theorem placed_packColumn (s : WidgetTree × Int) {ids : List WidgetId} {id : WidgetId}
    (mem : id ∈ ids) : s.1.Placed ids (packColumn s id).1 := by
  dsimp only [packColumn]
  refine placed_reposition mem ?_ ?_
  · intro p hp
    have columns : s.1.columnsOf id = max p.columns 0 := by simp [columnsOf_eq, widthOf, hp]
    refine .inr ?_
    simp only [GridPosition.columns, columns]
    omega
  · exact fun p _ => rfl

theorem placed_placeRows (ids : List WidgetId) (top : Int) :
    t.Placed ids (t.placeRows ids top).1 :=
  Placed.foldl (fun s _ mem => placed_placeRow top s mem)
    (fun _ mem => (List.mem_filter.mp mem).1) (t, 0)

theorem placed_packColumns (ids : List WidgetId) (left : Int) :
    t.Placed ids (t.packColumns ids left) :=
  Placed.foldl (fun s _ mem => placed_packColumn s mem)
    (fun _ mem => (List.mem_filter.mp mem).1) (t, left)

theorem placed_placeBuckets (b : Buckets) : t.Placed b.ids (t.placeBuckets c b) := by
  have bucket : ∀ align, b.get align ⊆ b.ids := fun align _ => Buckets.mem_ids_of_mem_get
  exact (((placed_packColumns t _ _).mono (bucket .start)).trans
    ((placed_packColumns _ _ _).mono (bucket .center))).trans
    ((placed_packColumns _ _ _).mono (bucket .finish))

end Operations

/-! ### Rows and layers -/

/-- The height of the highest widget of a layer. -/
def layerHeight (t : WidgetTree) (l : FlexLayer) : Int :=
  l.ids.foldl (fun height id => max height (t.rowsOf id)) 0

/-- The height of layers on top of each other. -/
def stackHeight (t : WidgetTree) (layers : List FlexLayer) : Int := (layers.map t.layerHeight).sum

/-- Place the widgets of a layer from a row on; the second part is the row below. -/
def placeLayer (c : LayoutConfig) (s : WidgetTree × Int) (l : FlexLayer) : WidgetTree × Int :=
  ((s.1.placeRows l.ids s.2).1.placeBuckets c l.spread, s.2 + (s.1.placeRows l.ids s.2).2)

theorem layerHeight_congr {t s : WidgetTree} {l : FlexLayer}
    (same : ∀ id ∈ l.ids, s.rowsOf id = t.rowsOf id) : s.layerHeight l = t.layerHeight l :=
  List.foldl_ext _ _ _ fun height id hid => by rw [same id hid]

theorem stackHeight_congr {t s : WidgetTree} {layers : List FlexLayer}
    (same : ∀ l ∈ layers, s.layerHeight l = t.layerHeight l) :
    s.stackHeight layers = t.stackHeight layers := by
  rw [stackHeight, stackHeight, List.map_congr_left same]

theorem placeChildren_eq (c : LayoutConfig) {t : WidgetTree} {parent : WidgetId}
    (there : t.contains parent = true) : t.placeChildren c parent =
      ((t.effectiveLayers parent).filter fun l => !l.isEmpty).foldl (placeLayer c)
        (t, c.containerPadding) :=
  if_pos there

theorem effectiveLayers_of_layered {t : WidgetTree} {parent : WidgetId}
    (layered : t.layersOf parent ≠ []) : t.effectiveLayers parent = t.layersOf parent := by
  unfold effectiveLayers
  split
  · contradiction
  · rfl

/-- None of the layers of a container is skipped. -/
theorem Tidy.placeChildren_of_layered {t : WidgetTree} (h : t.Tidy) (c : LayoutConfig)
    {parent : WidgetId} (layered : t.layersOf parent ≠ []) : t.placeChildren c parent =
      (t.layersOf parent).foldl (placeLayer c) (t, c.containerPadding) := by
  rw [placeChildren_eq c (contains_of_layered layered), effectiveLayers_of_layered layered]
  refine congrArg (List.foldl _ _) (List.filter_eq_self.mpr fun l hl => ?_)
  simpa [FlexLayer.isEmpty] using (h.arranged parent layered).filled l hl

theorem placeOf?_foldl_placeRow (top : Int) (ids : List WidgetId) (s : WidgetTree × Int)
    (x : WidgetId) : (ids.foldl (placeRow top) s).1.placeOf? x =
      if x ∈ ids then (s.1.placeOf? x).map fun p =>
        { p with topRow := top, bottomRow := top + s.1.rowsOf x }
      else s.1.placeOf? x := by
  induction ids generalizing s with
  | nil => simp
  | cons id ids ih =>
    have step := placed_placeRow top s (List.mem_singleton_self id)
    rw [List.foldl_cons, ih, step.rowsOf_eq x, placeRow, placeOf?_reposition]
    by_cases own : id = x
    · subst own
      simp [Function.comp_def]
    · simp [own, Ne.symm own]

section Rows

variable {t : WidgetTree} {ids : List WidgetId} (there : ∀ id ∈ ids, t.contains id = true)
include there

/-- The widgets of a row keep their columns and take its rows. -/
theorem placeOf?_placeRows (top : Int) {x : WidgetId} (mem : x ∈ ids) :
    (t.placeRows ids top).1.placeOf? x =
      (t.placeOf? x).map fun p => { p with topRow := top, bottomRow := top + t.rowsOf x } := by
  rw [placeRows_eq, List.filter_eq_self.mpr there, placeOf?_foldl_placeRow, if_pos mem]

/-- A row is as high as the highest of its widgets. -/
theorem placeRows_snd (top : Int) :
    (t.placeRows ids top).2 = ids.foldl (fun height id => max height (t.rowsOf id)) 0 := by
  have run : ∀ (ids : List WidgetId) (s : WidgetTree × Int), (∀ x, s.1.rowsOf x = t.rowsOf x) →
      (ids.foldl (placeRow top) s).2 =
        ids.foldl (fun height id => max height (t.rowsOf id)) s.2 := by
    intro ids
    induction ids with
    | nil => exact fun s _ => rfl
    | cons id ids ih =>
      intro s same
      have step := placed_placeRow top s (List.mem_singleton_self id)
      rw [List.foldl_cons, List.foldl_cons, ih _ fun x => (step.rowsOf_eq x).trans (same x),
        placeRow, same id]
  rw [placeRows_eq, List.filter_eq_self.mpr there]
  exact run ids (t, 0) fun _ => rfl

/-- The widgets of a row start in it. -/
theorem topOf_placeRows (top : Int) {x : WidgetId} (mem : x ∈ ids) :
    (t.placeRows ids top).1.topOf x = top := by
  obtain ⟨p, hp⟩ := exists_placeOf? (there x mem)
  rw [topOf, placeOf?_placeRows there top mem, hp]
  rfl

end Rows

section Layers

variable (c : LayoutConfig)

/-- Packing changes columns only. -/
theorem map_placeOf?_packColumns {β : Type} {f : GridPosition → β}
    (same : ∀ p left right, f { p with leftColumn := left, rightColumn := right } = f p)
    (t : WidgetTree) (ids : List WidgetId) (left : Int) (x : WidgetId) :
    ((t.packColumns ids left).placeOf? x).map f = (t.placeOf? x).map f := by
  have run : ∀ (ids : List WidgetId) (s : WidgetTree × Int),
      ((ids.foldl packColumn s).1.placeOf? x).map f = (s.1.placeOf? x).map f := by
    intro ids
    induction ids with
    | nil => exact fun s => rfl
    | cons id ids ih =>
      intro s
      rw [List.foldl_cons, ih, packColumn, placeOf?_reposition]
      by_cases own : id = x
      · simp [own, Function.comp_def, same]
      · rw [if_neg own]
  exact run _ (t, left)

theorem map_placeOf?_placeBuckets {β : Type} {f : GridPosition → β}
    (same : ∀ p left right, f { p with leftColumn := left, rightColumn := right } = f p)
    (t : WidgetTree) (b : Buckets) (x : WidgetId) :
    ((t.placeBuckets c b).placeOf? x).map f = (t.placeOf? x).map f := by
  rw [placeBuckets, map_placeOf?_packColumns same, map_placeOf?_packColumns same,
    map_placeOf?_packColumns same]

theorem topOf_placeBuckets (t : WidgetTree) (b : Buckets) (x : WidgetId) :
    (t.placeBuckets c b).topOf x = t.topOf x := by
  rw [topOf, topOf, map_placeOf?_placeBuckets c fun _ _ _ => rfl]

theorem placed_placeLayer (s : WidgetTree × Int) (l : FlexLayer) :
    s.1.Placed l.ids (placeLayer c s l).1 :=
  (placed_placeRows s.1 l.ids s.2).trans
    ((placed_placeBuckets c _ l.spread).mono fun _ mem => l.perm_ids_spread.mem_iff.mp mem)

theorem placed_foldl_placeLayer (layers : List FlexLayer) (s : WidgetTree × Int) :
    s.1.Placed (Layers.flatten layers) (layers.foldl (placeLayer c) s).1 := by
  induction layers generalizing s with
  | nil => exact .refl s.1 _
  | cons l layers ih =>
    have first := (placed_placeLayer c s l).mono (List.subset_append_left _ (Layers.flatten layers))
    exact first.trans ((ih _).mono (List.subset_append_right l.ids _))

theorem placed_placeChildren (t : WidgetTree) (parent : WidgetId) :
    t.Placed (Layers.flatten (t.effectiveLayers parent)) (t.placeChildren c parent).1 := by
  by_cases there : t.contains parent = true
  · rw [placeChildren_eq c there]
    refine (placed_foldl_placeLayer c _ (t, c.containerPadding)).mono fun x hx => ?_
    obtain ⟨l, hl, hx⟩ := List.mem_flatMap.mp hx
    exact List.mem_flatMap.mpr ⟨l, (List.mem_filter.mp hl).1, hx⟩
  · rw [placeChildren, if_neg there]
    exact .refl t _

/-- The row below a stack of layers. -/
theorem foldl_placeLayer_snd (layers : List FlexLayer) (s : WidgetTree × Int)
    (there : ∀ x ∈ Layers.flatten layers, s.1.contains x = true) :
    (layers.foldl (placeLayer c) s).2 = s.2 + s.1.stackHeight layers := by
  induction layers generalizing s with
  | nil => simp [stackHeight]
  | cons l layers ih =>
    obtain ⟨own, rest⟩ := List.forall_mem_append.mp there
    have first := placed_placeLayer c s l
    rw [List.foldl_cons, ih _ fun x hx => first.alike.kin.contains_eq x ▸ rest x hx,
      stackHeight_congr fun l' _ => layerHeight_congr fun x _ => first.rowsOf_eq x]
    simp only [placeLayer, placeRows_snd own, stackHeight, List.map_cons, List.sum_cons,
      layerHeight]
    omega

/-- The widgets of a layer start below the layers before it. -/
theorem topOf_foldl_placeLayer {front back : List FlexLayer} {l : FlexLayer}
    (s : WidgetTree × Int) (nodup : (Layers.flatten (front ++ l :: back)).Nodup)
    (there : ∀ x ∈ Layers.flatten (front ++ l :: back), s.1.contains x = true)
    {x : WidgetId} (mem : x ∈ l.ids) :
    ((front ++ l :: back).foldl (placeLayer c) s).1.topOf x = s.2 + s.1.stackHeight front := by
  rw [Layers.flatten_append, Layers.flatten_cons] at nodup there
  obtain ⟨-, behind, -⟩ := List.nodup_append.mp nodup
  have apart : x ∉ Layers.flatten back := fun hx =>
    (List.nodup_append.mp behind).2.2 x mem x hx rfl
  obtain ⟨before, own⟩ := List.forall_mem_append.mp there
  have stays := (placed_foldl_placeLayer c front s).alike.kin
  rw [List.foldl_append, List.foldl_cons,
    topOf_congr ((placed_foldl_placeLayer c back _).apart x apart), placeLayer,
    topOf_placeBuckets, topOf_placeRows (fun y hy => ?_) _ mem,
    foldl_placeLayer_snd c front s before]
  exact stays.contains_eq y ▸ own y (List.mem_append_left _ hy)

end Layers

end AppBuilder.WidgetTree
