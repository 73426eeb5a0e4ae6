import AppBuilder.Proofs.Layout.Edits
import AppBuilder.Proofs.Layout.Screens
import Mathlib.Data.List.Flatten
import Mathlib.Data.List.ProdSigma

/-!
Writes that are not needless.

A place has edges along two axes, and one pass over the children of a container moves each of them
at most once along each axis, since no child is listed twice (`Spared`). So no widget is moved away
and back again, and the ones that were written are the ones that stand elsewhere (`Frugal`).
Stretching for a narrow screen may meet a widget twice, but finds it stretched already
(`Stretched`).

Main statement: `Frugal.mem_changedSince_iff`.
-/

namespace AppBuilder

/-! ### Edges along an axis -/

inductive Axis where
  | rows
  | columns

namespace GridPosition

/-- Where a place starts and ends along an axis. -/
def edges (p : GridPosition) : Axis → Int × Int
  | .rows => (p.topRow, p.bottomRow)
  | .columns => (p.leftColumn, p.rightColumn)

theorem ext_edges {p q : GridPosition} (same : ∀ axis, p.edges axis = q.edges axis) : p = q := by
  obtain ⟨top, bottom⟩ := Prod.mk.inj (same .rows)
  obtain ⟨left, right⟩ := Prod.mk.inj (same .columns)
  cases p
  cases q
  simp_all

/-- A function that moves edges along one axis only. -/
def MovesAlong (axis : Axis) (f : GridPosition → GridPosition) : Prop :=
  ∀ p other, other ≠ axis → (f p).edges other = p.edges other

theorem movesAlong_rows (top bottom : GridPosition → Int) :
    MovesAlong .rows fun p => { p with topRow := top p, bottomRow := bottom p } := by
  intro p other apart
  cases other with
  | rows => exact absurd rfl apart
  | columns => rfl

theorem movesAlong_columns (left right : GridPosition → Int) :
    MovesAlong .columns fun p => { p with leftColumn := left p, rightColumn := right p } := by
  intro p other apart
  cases other with
  | rows => rfl
  | columns => exact absurd rfl apart

end GridPosition

open GridPosition

namespace WidgetTree

theorem entries_reposition_of_ne {t : WidgetTree} {id x : WidgetId} (other : id ≠ x)
    (f : GridPosition → GridPosition) :
    (t.reposition id f).entries.get? x = t.entries.get? x := by
  unfold reposition
  split
  · rename_i w hw
    split
    · rfl
    · rw [modify_of_get? hw, write, Dict.get?_insert, if_neg other]
  · rfl

/-! ### Frugal passes -/

/-- Every widget is the entry it was or stands elsewhere. -/
def Frugal (t s : WidgetTree) : Prop :=
  ∀ id, s.entries.get? id = t.entries.get? id ∨ s.placeOf? id ≠ t.placeOf? id

/-- After a frugal pass the widgets that changed are those that stand elsewhere. -/
theorem Frugal.mem_changedSince_iff {t s : WidgetTree} (h : t.Frugal s) (issued : t.Issued)
    (edits : t.EditsTo s) {id : WidgetId} :
    id ∈ s.changedSince t ↔ s.placeOf? id ≠ t.placeOf? id := by
  constructor
  · intro changed
    refine (h id).resolve_left fun same => ?_
    exact WidgetTree.mem_changedSince_iff.mp changed (by rw [same])
  · intro moved
    refine ((Later.refl issued).editsTo edits).mem_changedSince issued fun same => moved ?_
    rw [placeOf?, placeOf?, same]

/-- A frugal pass that has moved edges along some axes of some widgets at most. -/
structure Spared (t : WidgetTree) (touched : List (Axis × WidgetId)) (s : WidgetTree) : Prop where
  frugal : t.Frugal s
  untouched : ∀ axis id, (axis, id) ∉ touched →
    (s.placeOf? id).map (·.edges axis) = (t.placeOf? id).map (·.edges axis)

namespace Spared

variable {t s : WidgetTree} {touched touched' : List (Axis × WidgetId)} {axis : Axis}
  {ids : List WidgetId}

theorem refl (t : WidgetTree) : t.Spared [] t := ⟨fun _ => .inl rfl, fun _ _ _ => rfl⟩

theorem mono (h : t.Spared touched s) (sub : touched ⊆ touched') : t.Spared touched' s :=
  ⟨h.frugal, fun axis id fresh => h.untouched axis id fun mem => fresh (sub mem)⟩

/-- The first move of a widget along an axis leaves it where it was or takes it elsewhere. -/
theorem reposition (h : t.Spared touched s) {id : WidgetId} (fresh : (axis, id) ∉ touched)
    {f : GridPosition → GridPosition} (along : MovesAlong axis f) :
    t.Spared ((axis, id) :: touched) (s.reposition id f) := by
  by_cases stays : ∀ p, s.placeOf? id = some p → f p = p
  · rw [reposition_eq_self stays]
    exact h.mono (List.subset_cons_self _ _)
  push Not at stays
  obtain ⟨p, place, moves⟩ := stays
  have there : ∀ x, (s.reposition id f).placeOf? x =
      if id = x then some (f p) else s.placeOf? x := by
    intro x
    rw [placeOf?_reposition]
    split
    · subst x
      rw [place, Option.map_some]
    · rfl
  refine ⟨fun x => ?_, fun other x apart => ?_⟩
  · by_cases own : id = x
    · subst x
      refine .inr fun back => moves (ext_edges fun other => ?_)
      rw [there, if_pos rfl] at back
      by_cases same : other = axis
      · subst other
        have before := h.untouched axis id fresh
        rw [place, ← back] at before
        exact (Option.some.inj before).symm
      · exact along p other same
    · rw [entries_reposition_of_ne own, there, if_neg own]
      exact h.frugal x
  · obtain ⟨apart, kept⟩ := not_or.mp (apart ∘ List.mem_cons.mpr)
    rw [← h.untouched other x kept, there]
    split
    · subst x
      have same : other ≠ axis := fun same => apart (by rw [same])
      rw [place, Option.map_some, Option.map_some, along p other same]
    · rfl

/-- A loop that moves widgets of a list, each once, along an axis, whatever else it carries
along. -/
theorem foldl {σ : Type} (tree : σ → WidgetTree) {step : σ → WidgetId → σ}
    (moves : ∀ u id, ∃ f, MovesAlong axis f ∧ tree (step u id) = (tree u).reposition id f)
    (chosen : WidgetId → Bool) {u : σ} (h : t.Spared touched (tree u)) (nodup : ids.Nodup)
    (fresh : ∀ id ∈ ids, (axis, id) ∉ touched) :
    t.Spared (touched ++ [axis] ×ˢ ids) (tree ((ids.filter chosen).foldl step u)) := by
  induction ids generalizing u touched with
  | nil => exact h.mono (List.subset_append_left _ _)
  | cons id ids ih =>
    obtain ⟨own, nodup⟩ := List.nodup_cons.mp nodup
    obtain ⟨here, rest⟩ := List.forall_mem_cons.mp fresh
    by_cases taken : chosen id = true
    · obtain ⟨f, along, moved⟩ := moves u id
      have next : t.Spared ((axis, id) :: touched) (tree (step u id)) :=
        moved ▸ h.reposition here along
      rw [List.filter_cons_of_pos taken, List.foldl_cons]
      refine (ih next nodup fun x hx => ?_).mono ?_
      · rw [List.mem_cons, not_or]
        exact ⟨fun same => own ((Prod.mk.inj same).2 ▸ hx), rest x hx⟩
      · rintro ⟨other, x⟩ mem
        simp only [List.mem_append, List.mem_cons, List.mem_product, Prod.mk.injEq] at mem ⊢
        tauto
    · rw [List.filter_cons_of_neg taken]
      refine (ih h nodup rest).mono ?_
      rintro ⟨other, x⟩ mem
      simp only [List.mem_append, List.mem_cons, List.mem_product] at mem ⊢
      tauto

/-! #### Sharing and placing -/

variable {l : FlexLayer} (c : LayoutConfig)

theorem shareColumns (h : t.Spared touched s) (nodup : l.ids.Nodup)
    (fresh : ∀ id ∈ l.ids, (.columns, id) ∉ touched) :
    t.Spared (touched ++ [.columns] ×ˢ l.ids) (s.shareColumns c l) := by
  unfold WidgetTree.shareColumns
  split
  · exact foldl (fun t => t) (fun u id => ⟨_, movesAlong_columns (·.leftColumn) _, rfl⟩) s.isFill h
      nodup fresh
  · exact h.mono (List.subset_append_left _ _)

theorem placeRows (h : t.Spared touched s) (nodup : ids.Nodup)
    (fresh : ∀ id ∈ ids, (.rows, id) ∉ touched) (top : Int) :
    t.Spared (touched ++ [.rows] ×ˢ ids) (s.placeRows ids top).1 := by
  rw [placeRows_eq]
  exact foldl Prod.fst
    (fun u id => ⟨_, movesAlong_rows (fun _ => top) fun _ => top + u.1.rowsOf id, rfl⟩)
    s.contains h nodup fresh

theorem packColumns (h : t.Spared touched s) (nodup : ids.Nodup)
    (fresh : ∀ id ∈ ids, (.columns, id) ∉ touched) (left : Int) :
    t.Spared (touched ++ [.columns] ×ˢ ids) (s.packColumns ids left) :=
  foldl Prod.fst
    (fun u id => ⟨_, movesAlong_columns (fun _ => u.2) fun _ => u.2 + u.1.columnsOf id, rfl⟩)
    s.contains h nodup fresh

/-- Packing widgets behind others that were packed. -/
theorem packColumns_append {front : List WidgetId}
    (h : t.Spared (touched ++ [.columns] ×ˢ front) s) (nodup : (front ++ ids).Nodup)
    (fresh : ∀ id ∈ front ++ ids, (.columns, id) ∉ touched) (left : Int) :
    t.Spared (touched ++ [.columns] ×ˢ (front ++ ids)) (s.packColumns ids left) := by
  obtain ⟨-, nodup, apart⟩ := List.nodup_append.mp nodup
  refine (h.packColumns nodup (fun id hid mem => ?_) left).mono ?_
  · rcases List.mem_append.mp mem with mem | mem
    · exact fresh id (List.mem_append_right _ hid) mem
    · exact apart id (List.mem_product.mp mem).2 id hid rfl
  · rintro ⟨other, x⟩ mem
    simp only [List.mem_append, List.mem_product] at mem ⊢
    tauto

/-- The buckets of a layer have no name twice, so each of their widgets is packed once. -/
theorem placeBuckets {b : Buckets} (h : t.Spared touched s) (nodup : b.ids.Nodup)
    (fresh : ∀ id ∈ b.ids, (.columns, id) ∉ touched) :
    t.Spared (touched ++ [.columns] ×ˢ b.ids) (s.placeBuckets c b) := by
  obtain ⟨front, -, -⟩ := List.nodup_append.mp nodup
  obtain ⟨start, -, -⟩ := List.nodup_append.mp front
  obtain ⟨fresh', -⟩ := List.forall_mem_append.mp fresh
  have first := h.packColumns start (List.forall_mem_append.mp fresh').1 0
  have second := first.packColumns_append front fresh'
    (max ((c.gridColumns - s.columnSum b.center) / 2) 0)
  exact second.packColumns_append nodup fresh (max (c.gridColumns - s.columnSum b.finish) 0)

theorem placeLayer {u : WidgetTree × Int} (h : t.Spared touched u.1) (nodup : l.ids.Nodup)
    (fresh : ∀ axis, ∀ id ∈ l.ids, (axis, id) ∉ touched) :
    t.Spared (touched ++ [.rows, .columns] ×ˢ l.ids) (WidgetTree.placeLayer c u l).1 := by
  have perm := l.perm_ids_spread
  have rows := h.placeRows nodup (fresh .rows) u.2
  refine (rows.placeBuckets c (perm.nodup_iff.mpr nodup) fun id hid mem => ?_).mono ?_
  · rcases List.mem_append.mp mem with mem | mem
    · exact fresh .columns id (perm.mem_iff.mp hid) mem
    · simp at mem
  · rintro ⟨other, x⟩ mem
    simp only [List.mem_append, List.mem_product, List.mem_cons, List.not_mem_nil, or_false,
      perm.mem_iff] at mem ⊢
    tauto

/-- Layers that have no widget twice are passed over one by one. -/
theorem foldl_layers {σ : Type} (tree : σ → WidgetTree) {step : σ → FlexLayer → σ}
    {axes : List Axis}
    (pass : ∀ {u l touched}, t.Spared touched (tree u) → l.ids.Nodup →
      (∀ axis ∈ axes, ∀ id ∈ l.ids, (axis, id) ∉ touched) →
      t.Spared (touched ++ axes ×ˢ l.ids) (tree (step u l)))
    {layers : List FlexLayer} {u : σ} (h : t.Spared touched (tree u))
    (nodup : (Layers.flatten layers).Nodup)
    (fresh : ∀ axis ∈ axes, ∀ id ∈ Layers.flatten layers, (axis, id) ∉ touched) :
    t.Spared (touched ++ axes ×ˢ Layers.flatten layers) (tree (layers.foldl step u)) := by
  induction layers generalizing u touched with
  | nil => exact h.mono (List.subset_append_left _ _)
  | cons l layers ih =>
    obtain ⟨own, rest, apart⟩ := List.nodup_append.mp nodup
    have first := pass h own fun axis ha id hid =>
      fresh axis ha id (List.mem_append_left _ hid)
    rw [List.foldl_cons]
    refine (ih first rest fun axis ha id hid mem => ?_).mono ?_
    · rcases List.mem_append.mp mem with mem | mem
      · exact fresh axis ha id (List.mem_append_right _ hid) mem
      · exact apart id (List.mem_product.mp mem).2 id hid rfl
    · rintro ⟨other, x⟩ mem
      simp only [Layers.flatten_cons, List.mem_append, List.mem_product] at mem ⊢
      tauto

end Spared

/-! ### Sharing and placing the children of a container -/

section Passes

variable {t : WidgetTree} (tidy : t.Tidy) (c : LayoutConfig) (parent : WidgetId)
include tidy

/-- No widget has two places in the layers that a container is laid out by. -/
theorem Tidy.nodup_effectiveLayers : (Layers.flatten (t.effectiveLayers parent)).Nodup := by
  unfold effectiveLayers
  split
  · have children := (tidy.nodup parent).filter t.contains
    simpa [FlexLayer.ids_ofChildren, Function.comp_def] using children
  · exact tidy.nodup_layers parent

theorem Tidy.frugal_shareAll : t.Frugal (t.shareAll c parent) := by
  have pass : ∀ {u : WidgetTree} {l : FlexLayer} {touched}, t.Spared touched u → l.ids.Nodup →
      (∀ axis ∈ [Axis.columns], ∀ id ∈ l.ids, (axis, id) ∉ touched) →
      t.Spared (touched ++ [.columns] ×ˢ l.ids) (u.shareColumns c l) := fun h nodup fresh =>
    h.shareColumns c nodup (fresh .columns (List.mem_singleton_self _))
  rw [shareAll_eq]
  exact (Spared.foldl_layers (fun t => t) pass (.refl t) (tidy.nodup_layers parent)
    fun _ _ _ _ => List.not_mem_nil).frugal

theorem Tidy.frugal_placeChildren : t.Frugal (t.placeChildren c parent).1 := by
  by_cases there : t.contains parent = true
  · have pass : ∀ {u : WidgetTree × Int} {l : FlexLayer} {touched}, t.Spared touched u.1 →
        l.ids.Nodup → (∀ axis ∈ [Axis.rows, .columns], ∀ id ∈ l.ids, (axis, id) ∉ touched) →
        t.Spared (touched ++ [.rows, .columns] ×ˢ l.ids) (placeLayer c u l).1 :=
      fun h nodup fresh => h.placeLayer c nodup fun axis => fresh axis (by cases axis <;> simp)
    have filled : (Layers.flatten ((t.effectiveLayers parent).filter fun l => !l.isEmpty)).Sublist
        (Layers.flatten (t.effectiveLayers parent)) := List.filter_sublist.flatMap FlexLayer.ids
    rw [placeChildren_eq c there]
    exact (Spared.foldl_layers Prod.fst pass (.refl t)
      ((tidy.nodup_effectiveLayers parent).sublist filled) fun _ _ _ _ => List.not_mem_nil).frugal
  · rw [placeChildren, if_neg there]
    exact fun _ => .inl rfl

end Passes

/-! ### Stretching for a narrow screen -/

/-- Every widget is the entry it was, or has been stretched and stands elsewhere. -/
def Stretched (c : LayoutConfig) (t s : WidgetTree) : Prop :=
  ∀ id, s.entries.get? id = t.entries.get? id ∨
    s.placeOf? id = (t.placeOf? id).map (fullRow c) ∧ s.placeOf? id ≠ t.placeOf? id

section Screens

variable {c : LayoutConfig} {t s : WidgetTree}

theorem Stretched.frugal (h : t.Stretched c s) : t.Frugal s := fun id => (h id).imp_right And.right

/-- A widget that has been stretched is not written again. -/
theorem Stretched.reposition (h : t.Stretched c s) (id : WidgetId) :
    t.Stretched c (s.reposition id (fullRow c)) := by
  by_cases stays : ∀ p, s.placeOf? id = some p → fullRow c p = p
  · rwa [reposition_eq_self stays]
  push Not at stays
  obtain ⟨p, place, moves⟩ := stays
  have before : t.placeOf? id = some p := by
    rcases h id with same | ⟨stretched, -⟩
    · rw [← place, placeOf?, placeOf?, get?, get?, same]
    · obtain ⟨q, -, rfl⟩ := Option.map_eq_some_iff.mp (stretched.symm.trans place)
      exact absurd (fullRow_fullRow c q) moves
  intro x
  rw [placeOf?_reposition]
  by_cases own : id = x
  · subst x
    rw [if_pos rfl, place, before, Option.map_some]
    exact .inr ⟨rfl, fun back => moves (Option.some.inj back)⟩
  · rw [if_neg own, entries_reposition_of_ne own]
    exact h x

theorem Stretched.stretchBelow (h : t.Stretched c s) (depth : Nat) (parent : WidgetId) :
    t.Stretched c (stretchBelow c depth s parent) := by
  induction depth generalizing s parent with
  | zero => exact h
  | succ depth ih =>
    rw [stretchBelow_succ]
    refine List.foldlRecOn _ _ h fun s h child _ => ?_
    unfold stretchChild
    split
    · exact (ih h child).reposition child
    · exact ih h child

theorem frugal_arrangeMobile (c : LayoutConfig) (t : WidgetTree) (parent : WidgetId) :
    t.Frugal (t.arrangeMobile c parent) :=
  (Stretched.stretchBelow (fun _ => .inl rfl) _ parent).frugal

end Screens

end WidgetTree

end AppBuilder
