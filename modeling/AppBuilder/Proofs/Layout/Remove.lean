import AppBuilder.Proofs.Layout.Layer
import AppBuilder.Proofs.Layout.Place

/-!
Removing widgets keeps a tree well formed.

A widget is first taken out of the children and the layers of its parent (`Unlinked`); then it
goes, and with it all that it is above. Whatever else is there keeps its parent, so the ways up
of those who stay meet none of those who go (`WellFormed.removeBelow`).
-/

namespace AppBuilder

/-- A widget that does not have a name among its children and in its layers. -/
def Widget.unlisted (t : WidgetTree) (id : WidgetId) (w : Widget) : Widget :=
  { w with children := w.children.filter (· ≠ id), layers := Layers.without t [id] w.layers }

namespace WidgetTree

theorem get?_foldl_remove (ids : List WidgetId) (t : WidgetTree) (id : WidgetId) :
    (ids.foldl remove t).get? id = if id ∈ ids then none else t.get? id := by
  induction ids generalizing t with
  | nil => simp
  | cons gone ids ih =>
    rw [List.foldl_cons, ih, get?_remove]
    by_cases hid : id ∈ ids
    · simp [hid]
    · by_cases same : gone = id
      · simp [same]
      · simp [hid, same, Ne.symm same]

/-- A widget goes with those below it. -/
theorem Linked.mem_doomed_iff {t : WidgetTree} (h : t.Linked) {id x : WidgetId} :
    x ∈ t.descendants id ++ [id] ↔ Relation.ReflTransGen t.Up x id := by
  rw [List.mem_append, h.mem_descendants_iff, List.mem_singleton,
    Relation.reflTransGen_iff_eq_or_transGen]
  exact or_comm.trans (or_congr_left eq_comm)

/-! ### Leaving the parent -/

/-- A widget goes out of the children and the layers of its parent, if it has one. -/
def unlink (c : LayoutConfig) (t : WidgetTree) (id : WidgetId) : WidgetTree :=
  match t.parentOf? id with
  | none => t
  | some parent =>
    (t.leaveLayer c id parent).modify parent fun w =>
      { w with children := w.children.filter (· ≠ id) }

theorem removeOne_of_there (c : LayoutConfig) {t : WidgetTree} {id : WidgetId}
    (there : t.contains id = true) (left : NameSet) : removeOne c (t, left) id =
      ((t.descendants id ++ [id]).foldl remove (t.unlink c id),
        ((t.parentOf? id).elim left left.insert).filter fun p =>
          !(t.descendants id ++ [id]).contains p) := by
  obtain ⟨w, hw⟩ := contains_iff.mp there
  rw [unlink, parentOf?_of_get? hw]
  simp only [removeOne, hw]
  cases w.parent <;> rfl

/-- The containers noted after a removal are those that lost a child and are still there. -/
theorem mem_noted_iff {t : WidgetTree} {id : WidgetId} {left : NameSet} {doomed : List WidgetId}
    {p : WidgetId} : p ∈ ((t.parentOf? id).elim left left.insert).filter
      (fun p => !doomed.contains p) ↔ (p ∈ left ∨ t.Up id p) ∧ p ∉ doomed := by
  have noted : p ∈ (t.parentOf? id).elim left left.insert ↔ p ∈ left ∨ t.Up id p := by
    rw [Up]
    cases t.parentOf? id with
    | none => simp
    | some parent => simp [NameSet.mem_insert, or_comm, eq_comm]
  rw [NameSet.mem_filter, noted]
  simp

theorem removeOne_of_missing (c : LayoutConfig) {s : WidgetTree × NameSet} {id : WidgetId}
    (missing : s.1.contains id = false) : removeOne c s id = s := by
  have absent : s.1.get? id = none := get?_eq_none_iff.mpr missing
  simp only [removeOne, absent]

/-- The tree with a name taken out of all children and layers, places aside. -/
def Unlinked (t : WidgetTree) (id : WidgetId) (s : WidgetTree) : Prop :=
  ∀ x, (s.get? x).map Widget.unplaced =
    (t.get? x).map fun w => (w.unlisted t id).unplaced

namespace Unlinked

variable {t s : WidgetTree} {id : WidgetId} (h : Unlinked t id s)
include h

theorem map_eq {β : Type} (f : Widget → β) (unplaced : ∀ w, f w.unplaced = f w) (x : WidgetId) :
    (s.get? x).map f = (t.get? x).map fun w => f (w.unlisted t id) := by
  have same := congrArg (Option.map f) (h x)
  simpa only [Option.map_map, Function.comp_def, unplaced] using same

theorem kin : t.Kin s := fun x => (h.map_eq (fun w => (w.id, w.type)) (fun _ => rfl) x).symm

theorem isFill_eq (x : WidgetId) : s.isFill x = t.isFill x := by
  rw [isFill_eq_getD, isFill_eq_getD, h.map_eq _ fun _ => rfl]
  rfl

theorem parentOf?_eq (x : WidgetId) : s.parentOf? x = t.parentOf? x := by
  rw [parentOf?_eq_join, parentOf?_eq_join, h.map_eq _ fun _ => rfl]
  rfl

theorem childrenOf_eq (x : WidgetId) : s.childrenOf x = (t.childrenOf x).filter (· ≠ id) := by
  rw [childrenOf_eq_getD, childrenOf_eq_getD, h.map_eq _ fun _ => rfl]
  cases t.get? x <;> rfl

theorem layersOf_eq (x : WidgetId) : s.layersOf x = Layers.without t [id] (t.layersOf x) := by
  rw [layersOf_eq_getD, layersOf_eq_getD, h.map_eq _ fun _ => rfl]
  cases t.get? x <;> rfl

theorem layered {x : WidgetId} (layered : s.layersOf x ≠ []) : t.layersOf x ≠ [] := by
  intro bare
  rw [h.layersOf_eq, bare] at layered
  exact layered rfl

theorem arranged (linked : t.Linked) {x : WidgetId} (layered : s.layersOf x ≠ []) :
    t.Arranges (s.layersOf x) ((t.childrenOf x).filter (· ≠ id)) := by
  have rest := Arranges.without (linked.arranged x (h.layered layered)).perm
    (fun c hc => contains_of_parentOf? (linked.up_of_mem x c hc)) [id]
  rw [h.layersOf_eq]
  exact rest.of_perm (.of_eq (List.filter_congr fun c _ => by simp))

end Unlinked

section Leaving

variable {t : WidgetTree} {id parent : WidgetId}

theorem Linked.unlisted_eq_self (linked : t.Linked) {x : WidgetId} {w : Widget}
    (hw : t.get? x = some w) (apart : ¬ t.Up id x) : w.unlisted t id = w := by
  have children : w.children.filter (· ≠ id) = w.children := by
    refine List.filter_eq_self.mpr fun c hc => decide_eq_true ?_
    rintro rfl
    exact apart (linked.up_of_mem x c (childrenOf_of_get? hw ▸ hc))
  have layers : Layers.without t [id] w.layers = w.layers := by
    rw [← layersOf_of_get? hw]
    exact linked.without_layersOf (by simpa using apart)
  rw [Widget.unlisted, children, layers]

/-- A widget leaves the layers of its parent, if it is in one of them. -/
theorem alike_leaveLayer (linked : t.Linked) (c : LayoutConfig) (up : t.Up id parent) :
    (t.setLayers parent (Layers.without t [id] (t.layersOf parent))).Alike
      (t.leaveLayer c id parent) := by
  unfold leaveLayer
  cases place : Layers.indexOf? (t.layersOf parent) id with
  | none =>
    -- a parent that has layers has the widget in one of them
    have bare : t.layersOf parent = [] := by
      by_contra layered
      obtain ⟨i, found⟩ :=
        (linked.arranged parent layered).exists_indexOf? (linked.mem_of_up _ _ up)
      rw [place] at found
      cases found
    intro x
    rw [setLayers, get?_modify, bare]
    split
    · subst x
      cases hw : t.get? parent with
      | none => rfl
      | some w =>
        rw [layersOf_of_get? hw] at bare
        exact congrArg (fun layers => some { w.unplaced with layers }) bare.symm
    · rfl
  | some i => exact alike_shareLayer c _ parent i

theorem unlinked_unlink (linked : t.Linked) (c : LayoutConfig) (id : WidgetId) :
    Unlinked t id (t.unlink c id) := by
  have apart : ∀ x, ¬ t.Up id x → (t.get? x).map Widget.unplaced =
      (t.get? x).map fun w => (w.unlisted t id).unplaced := by
    intro x apart
    refine Option.map_congr fun w hw => ?_
    rw [linked.unlisted_eq_self hw apart]
  intro x
  unfold unlink
  cases up : t.parentOf? id with
  | none => exact apart x (by simp [Up, up])
  | some parent =>
    have left := alike_leaveLayer linked c up
    dsimp only
    rw [get?_modify]
    by_cases own : parent = x
    · subst own
      have rest := left.map_eq (fun w => Widget.unplaced
        { w with children := w.children.filter (· ≠ id) }) (fun _ => rfl) parent
      rw [setLayers, get?_modify, if_pos rfl, Option.map_map] at rest
      rw [if_pos rfl, Option.map_map]
      refine rest.symm.trans (Option.map_congr fun w hw => ?_)
      rw [layersOf_of_get? hw]
      rfl
    · rw [if_neg own, ← left x, setLayers, get?_modify, if_neg own]
      exact apart x fun other => own (Option.some.inj (up.symm.trans other))

end Leaving

/-! ### Going -/

section Going

variable {t s : WidgetTree} {id : WidgetId} {doomed : List WidgetId} {x : WidgetId}

theorem get?_stays (stays : x ∉ doomed) : (doomed.foldl remove s).get? x = s.get? x := by
  rw [get?_foldl_remove, if_neg stays]

theorem stays_of_get? {w : Widget} (hw : (doomed.foldl remove s).get? x = some w) :
    x ∉ doomed ∧ s.get? x = some w := by
  rw [get?_foldl_remove] at hw
  by_cases gone : x ∈ doomed
  · rw [if_pos gone] at hw
    cases hw
  · rw [if_neg gone] at hw
    exact ⟨gone, hw⟩

theorem stays_of_contains (there : (doomed.foldl remove s).contains x = true) :
    x ∉ doomed ∧ s.contains x = true := by
  obtain ⟨w, hw⟩ := contains_iff.mp there
  obtain ⟨stays, hw⟩ := stays_of_get? hw
  exact ⟨stays, contains_iff.mpr ⟨w, hw⟩⟩

theorem layersOf_stays (stays : x ∉ doomed) :
    (doomed.foldl remove s).layersOf x = s.layersOf x := by
  rw [layersOf, get?_stays stays, ← layersOf]

theorem stays_of_layersOf (layered : (doomed.foldl remove s).layersOf x ≠ []) : x ∉ doomed := by
  intro gone
  simp [layersOf, get?_foldl_remove, gone] at layered

/-- Parents of those who stay, stay. -/
theorem parent_stays (mem : ∀ x, x ∈ doomed ↔ Relation.ReflTransGen t.Up x id)
    (stays : x ∉ doomed) {p : WidgetId} (up : t.Up x p) : p ∉ doomed :=
  fun gone => stays ((mem x).mpr (.head up ((mem p).mp gone)))

/-- Children of those who stay, other than the widget itself, stay. -/
theorem child_stays (mem : ∀ x, x ∈ doomed ↔ Relation.ReflTransGen t.Up x id) (linked : t.Linked)
    (stays : x ∉ doomed) {c : WidgetId} (hc : c ∈ (t.childrenOf x).filter (· ≠ id)) :
    c ∉ doomed := by
  obtain ⟨child, other⟩ := List.mem_filter.mp hc
  intro gone
  cases ((mem c).mp gone) using Relation.ReflTransGen.head_induction_on with
  | refl => simp at other
  | head step path =>
    obtain rfl := step.unique (linked.up_of_mem x c child)
    exact stays ((mem _).mpr path)

section Unlinked

variable (unlinked : Unlinked t id s)
include unlinked

theorem Unlinked.parentOf?_stays (stays : x ∉ doomed) :
    (doomed.foldl remove s).parentOf? x = t.parentOf? x := by
  rw [parentOf?, get?_stays stays, ← parentOf?, unlinked.parentOf?_eq]

theorem Unlinked.childrenOf_stays (stays : x ∉ doomed) :
    (doomed.foldl remove s).childrenOf x = (t.childrenOf x).filter (· ≠ id) := by
  rw [childrenOf, get?_stays stays, ← childrenOf, unlinked.childrenOf_eq]

variable (mem : ∀ x, x ∈ doomed ↔ Relation.ReflTransGen t.Up x id)
include mem

theorem Unlinked.linked_remove (linked : t.Linked) : (doomed.foldl remove s).Linked := by
  refine ⟨?_, ?_, ?_⟩
  · intro p c hc
    obtain ⟨stays, -⟩ := stays_of_contains (contains_of_mem_childrenOf hc)
    rw [unlinked.childrenOf_stays stays] at hc
    rw [Up, unlinked.parentOf?_stays (child_stays mem linked stays hc)]
    exact linked.up_of_mem p c (List.mem_filter.mp hc).1
  · intro p c up
    obtain ⟨stays, -⟩ := stays_of_contains (contains_of_parentOf? up)
    rw [Up, unlinked.parentOf?_stays stays] at up
    rw [unlinked.childrenOf_stays (parent_stays mem stays up)]
    refine List.mem_filter.mpr ⟨linked.mem_of_up p c up, decide_eq_true ?_⟩
    rintro rfl
    exact stays ((mem c).mpr .refl)
  · intro x layered
    have stays := stays_of_layersOf layered
    rw [layersOf_stays stays] at layered ⊢
    rw [unlinked.childrenOf_stays stays]
    refine (unlinked.arranged linked layered).congr fun c hc => ?_
    rw [← unlinked.isFill_eq, isFill, isFill, get?_stays (child_stays mem linked stays hc)]

theorem Unlinked.rooted_remove (rooted : t.Rooted) {parent : WidgetId} (up : t.Up id parent) :
    (doomed.foldl remove s).Rooted := by
  obtain ⟨root, top, chains⟩ := rooted
  obtain ⟨there, alone⟩ := (top root).mpr rfl
  have root_stays : root ∉ doomed := by
    intro gone
    cases ((mem root).mp gone) using Relation.ReflTransGen.head_induction_on with
    | refl => simp [Up, alone] at up
    | head step _ => simp [Up, alone] at step
  obtain ⟨w, hw⟩ := contains_iff.mp (unlinked.kin.contains_eq root ▸ there)
  refine rooted_of_chains (contains_iff.mpr ⟨w, (get?_stays root_stays).trans hw⟩)
    ((unlinked.parentOf?_stays root_stays).trans alone) fun x hx => ?_
  obtain ⟨stays, there⟩ := stays_of_contains hx
  have path := chains x ((unlinked.kin.contains_eq x).trans there)
  refine up_path_congr path fun y before => unlinked.parentOf?_stays fun gone => ?_
  exact stays ((mem x).mpr (before.trans ((mem y).mp gone)))

/-- A widget that left its parent can go with all that is below it. -/
theorem WellFormed.removeBelow (h : t.WellFormed) {parent : WidgetId} (up : t.Up id parent) :
    (doomed.foldl remove s).WellFormed := by
  refine .of_linked ?_ ?_ (unlinked.linked_remove mem h.linked)
    (unlinked.rooted_remove mem h.rooted up) ?_
  · intro x w hw
    exact unlinked.kin.keyed h.keyed x w (stays_of_get? hw).2
  · intro x
    by_cases gone : x ∈ doomed
    · simp [childrenOf, get?_foldl_remove, gone]
    · rw [unlinked.childrenOf_stays gone]
      exact (h.nodup x).filter _
  · intro x layered
    have stays := stays_of_layersOf layered
    rw [layersOf_stays stays] at layered
    obtain ⟨w, hw, canvas⟩ := unlinked.kin.isCanvas (h.layered x (unlinked.layered layered))
    exact ⟨w, (get?_stays stays).trans hw, canvas⟩

end Unlinked

end Going

/-! ### Removing -/

/-- Removing one widget that is not the root keeps a tree well formed; those that stay keep their
parents. -/
theorem WellFormed.removeOne {s : WidgetTree × NameSet} (h : s.1.WellFormed) (c : LayoutConfig)
    {id : WidgetId} (below : s.1.contains id = true → s.1.parentOf? id ≠ none) :
    (removeOne c s id).1.WellFormed ∧ ∀ x, (removeOne c s id).1.contains x = true →
      s.1.contains x = true ∧ (removeOne c s id).1.parentOf? x = s.1.parentOf? x := by
  obtain ⟨t, left⟩ := s
  cases there : t.contains id with
  | false =>
    rw [removeOne_of_missing c there]
    exact ⟨h, fun x hx => ⟨hx, rfl⟩⟩
  | true =>
    obtain ⟨parent, up⟩ := Option.ne_none_iff_exists'.mp (below there)
    have unlinked := unlinked_unlink h.linked c id
    rw [removeOne_of_there c there]
    refine ⟨h.removeBelow unlinked (fun x => h.linked.mem_doomed_iff) up, fun x hx => ?_⟩
    obtain ⟨stays, there⟩ := stays_of_contains hx
    exact ⟨(unlinked.kin.contains_eq x).trans there, unlinked.parentOf?_stays stays⟩

/-- Removing widgets other than the root keeps a tree well formed. -/
theorem WellFormed.removeWidgets {t : WidgetTree} (h : t.WellFormed) (c : LayoutConfig)
    {ids : List WidgetId} (below : ∀ id ∈ ids, t.contains id = true → t.parentOf? id ≠ none) :
    (t.removeWidgets c ids).WellFormed := by
  have all : ∀ (ids : List WidgetId) (s : WidgetTree × NameSet), s.1.WellFormed →
      (∀ id ∈ ids, s.1.contains id = true → s.1.parentOf? id ≠ none) →
      (ids.foldl (WidgetTree.removeOne c) s).1.WellFormed := by
    intro ids
    induction ids with
    | nil => exact fun s h _ => h
    | cons id ids ih =>
      intro s h below
      obtain ⟨h', kept⟩ := h.removeOne c (below id List.mem_cons_self)
      refine ih _ h' fun x hx there => ?_
      rw [(kept x there).2]
      exact below x (List.mem_cons_of_mem _ hx) (kept x there).1
  exact (all ids (t, .empty) h below).congr (alike_foldl_tree (alike_rearrange c) _ _)

end WidgetTree

end AppBuilder
