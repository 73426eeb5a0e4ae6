import AppBuilder.Proofs.Widget.WellFormed

/-!
Trees that differ in little.

Trees are kin (`Kin`) when the same widgets are in both, whatever became of their links,
sizing and places; they are alike (`Alike`) when only places differ. A tree stays well formed when
its layers change and still arrange the children (`WellFormed.relayer`), and all the more when only
places do (`WellFormed.congr`). What a single write does to the links and the layers of a tree is
told field by field (`parentOf?_modify` and those after it).
-/

namespace AppBuilder

/-- A widget without its place. -/
def Widget.unplaced (w : Widget) : Widget := { w with position := .zero }

namespace WidgetTree

/-! ### Links, layers and sizing as parts of a widget -/

section Parts

variable (t : WidgetTree) (id : WidgetId)

theorem parentOf?_eq_join : t.parentOf? id = ((t.get? id).map (·.parent)).join := by
  rw [parentOf?]
  cases t.get? id <;> rfl

theorem childrenOf_eq_getD : t.childrenOf id = ((t.get? id).map (·.children)).getD [] := by
  rw [childrenOf]
  cases t.get? id <;> rfl

theorem layersOf_eq_getD : t.layersOf id = ((t.get? id).map (·.layers)).getD [] := by
  rw [layersOf]
  cases t.get? id <;> rfl

theorem isFill_eq_getD : t.isFill id = ((t.get? id).map (·.isFill)).getD false := by
  rw [isFill]
  cases t.get? id <;> rfl

end Parts

/-! ### Kin and alike trees -/

/-- Two trees that hold the same widgets, up to links, sizing and places. -/
def Kin (t t' : WidgetTree) : Prop :=
  ∀ id, (t.get? id).map (fun w => (w.id, w.type)) = (t'.get? id).map fun w => (w.id, w.type)

/-- Two trees that differ in the places of widgets only. -/
def Alike (t t' : WidgetTree) : Prop :=
  ∀ id, (t.get? id).map Widget.unplaced = (t'.get? id).map Widget.unplaced

namespace Kin

variable {t t' t'' : WidgetTree}

theorem refl (t : WidgetTree) : t.Kin t := fun _ => rfl

theorem trans (h : t.Kin t') (h' : t'.Kin t'') : t.Kin t'' := fun id => (h id).trans (h' id)

theorem contains_eq (h : t.Kin t') (id : WidgetId) : t.contains id = t'.contains id := by
  have same := congrArg Option.isSome (h id)
  simpa [contains, Dict.contains, get?] using same

theorem exists_get? (h : t.Kin t') {id : WidgetId} {w' : Widget} (hw : t'.get? id = some w') :
    ∃ w, t.get? id = some w ∧ w.id = w'.id ∧ w.type = w'.type := by
  have same := h id
  rw [hw, Option.map_some, Option.map_eq_some_iff] at same
  obtain ⟨w, hw, pair⟩ := same
  exact ⟨w, hw, congrArg Prod.fst pair, congrArg Prod.snd pair⟩

theorem keyed (h : t.Kin t') (keyed : ∀ id w, t.get? id = some w → w.id = id) (id : WidgetId)
    (w' : Widget) (hw' : t'.get? id = some w') : w'.id = id := by
  obtain ⟨w, hw, same, -⟩ := h.exists_get? hw'
  exact same ▸ keyed id w hw

theorem isCanvas (h : t.Kin t') {id : WidgetId} (canvas : t.IsCanvas id) : t'.IsCanvas id := by
  obtain ⟨w, hw, isCanvas⟩ := canvas
  obtain ⟨w', hw'⟩ := contains_iff.mp (h.contains_eq id ▸ contains_iff.mpr ⟨w, hw⟩)
  obtain ⟨_, there, -, type⟩ := h.exists_get? hw'
  obtain rfl := Option.some.inj (hw.symm.trans there)
  exact ⟨w', hw', by simpa [Widget.isCanvas, type] using isCanvas⟩

end Kin

namespace Alike

variable {t t' t'' : WidgetTree}

theorem refl (t : WidgetTree) : t.Alike t := fun _ => rfl

theorem symm (h : t.Alike t') : t'.Alike t := fun id => (h id).symm

theorem trans (h : t.Alike t') (h' : t'.Alike t'') : t.Alike t'' := fun id => (h id).trans (h' id)

/-- What is read off a widget without its place is the same in both trees. -/
theorem map_eq {β : Type} (h : t.Alike t') (f : Widget → β)
    (unplaced : ∀ w, f w.unplaced = f w) (id : WidgetId) :
    (t.get? id).map f = (t'.get? id).map f := by
  have same := congrArg (Option.map f) (h id)
  simpa [Option.map_map, Function.comp_def, unplaced] using same

theorem kin (h : t.Alike t') : t.Kin t' := h.map_eq _ fun _ => rfl

theorem parentOf?_eq (h : t.Alike t') (id : WidgetId) : t.parentOf? id = t'.parentOf? id := by
  rw [parentOf?_eq_join, parentOf?_eq_join, h.map_eq _ fun _ => rfl]

theorem childrenOf_eq (h : t.Alike t') (id : WidgetId) : t.childrenOf id = t'.childrenOf id := by
  rw [childrenOf_eq_getD, childrenOf_eq_getD, h.map_eq _ fun _ => rfl]

theorem layersOf_eq (h : t.Alike t') (id : WidgetId) : t.layersOf id = t'.layersOf id := by
  rw [layersOf_eq_getD, layersOf_eq_getD, h.map_eq _ fun _ => rfl]

theorem isFill_eq (h : t.Alike t') (id : WidgetId) : t.isFill id = t'.isFill id := by
  rw [isFill_eq_getD, isFill_eq_getD, h.map_eq _ fun _ => rfl]

end Alike

/-! ### Well-formed trees -/

/-- Layers arrange their children as long as these keep their sizing. -/
theorem Arranges.congr {t t' : WidgetTree} {layers : List FlexLayer} {children : List WidgetId}
    (h : t.Arranges layers children) (same : ∀ c ∈ children, t.isFill c = t'.isFill c) :
    t'.Arranges layers children := by
  refine ⟨h.filled, fun l hl => ?_, h.perm⟩
  have own : ∀ c ∈ l.children, t'.isFill c.id = t.isFill c.id := fun c hc =>
    (same c.id (h.perm.mem_iff.mp
      (List.mem_flatMap.mpr ⟨l, hl, List.mem_map_of_mem hc⟩))).symm
  rw [← h.flagged l hl, Bool.eq_iff_iff]
  simp only [fills, List.any_eq_true]
  exact ⟨fun ⟨c, hc, hf⟩ => ⟨c, hc, own c hc ▸ hf⟩, fun ⟨c, hc, hf⟩ => ⟨c, hc, own c hc ▸ hf⟩⟩

/-- Layers may change in any way that keeps the children of canvases arranged. -/
theorem WellFormed.relayer {t t' : WidgetTree} (h : t.WellFormed) (kin : t.Kin t')
    (parents : ∀ id, t'.parentOf? id = t.parentOf? id)
    (children : ∀ id, t'.childrenOf id = t.childrenOf id)
    (layers : ∀ id, t'.layersOf id ≠ [] →
      t.IsCanvas id ∧ t'.Arranges (t'.layersOf id) (t.childrenOf id)) : t'.WellFormed := by
  have up : t'.Up = t.Up := by
    funext id parent
    rw [Up, Up, parents]
  have linked : t'.Linked := by
    refine ⟨?_, ?_, ?_⟩
    · intro p c hc
      exact up ▸ h.linked.up_of_mem p c (children p ▸ hc)
    · intro p c hup
      exact children p ▸ h.linked.mem_of_up p c (up ▸ hup)
    · intro id layered
      exact children id ▸ (layers id layered).2
  have rooted : t'.Rooted := by
    obtain ⟨root, top, chains⟩ := h.rooted
    refine ⟨root, ?_, ?_⟩
    · intro id
      rw [← kin.contains_eq, parents]
      exact top id
    · intro id hid
      exact up ▸ chains id (kin.contains_eq id ▸ hid)
  refine .of_linked (kin.keyed h.keyed) ?_ linked rooted ?_
  · intro id
    exact children id ▸ h.nodup id
  · intro id layered
    exact kin.isCanvas (layers id layered).1

/-- Places play no part in whether a tree is well formed. -/
theorem WellFormed.congr {t t' : WidgetTree} (alike : t.Alike t') (h : t.WellFormed) :
    t'.WellFormed := by
  refine h.relayer alike.kin (fun id => (alike.parentOf?_eq id).symm)
    (fun id => (alike.childrenOf_eq id).symm) fun id layered => ?_
  rw [← alike.layersOf_eq] at layered ⊢
  refine ⟨h.layered id layered, ?_⟩
  exact (h.linked.arranged id layered).congr fun c _ => alike.isFill_eq c

/-! ### Single writes -/

section Modify

variable {t : WidgetTree} {key : WidgetId} {f : Widget → Widget}

theorem parentOf?_modify {w : Widget} (hw : t.get? key = some w) (id : WidgetId) :
    (t.modify key f).parentOf? id = if key = id then (f w).parent else t.parentOf? id := by
  rw [parentOf?, get?_modify]
  split
  · subst key
    simp [hw]
  · rfl

theorem childrenOf_modify {w : Widget} (hw : t.get? key = some w) (id : WidgetId) :
    (t.modify key f).childrenOf id = if key = id then (f w).children else t.childrenOf id := by
  rw [childrenOf, get?_modify]
  by_cases own : key = id
  · subst key
    simp [hw]
  · simp [own, childrenOf]

theorem layersOf_modify {w : Widget} (hw : t.get? key = some w) (id : WidgetId) :
    (t.modify key f).layersOf id = if key = id then (f w).layers else t.layersOf id := by
  rw [layersOf, get?_modify]
  by_cases own : key = id
  · subst key
    simp [hw]
  · simp [own, layersOf]

/-- A write that leaves something about widgets alone leaves it alone throughout the tree. -/
theorem map_get?_modify {β : Type} {g : Widget → β} (same : ∀ w, g (f w) = g w) (id : WidgetId) :
    ((t.modify key f).get? id).map g = (t.get? id).map g := by
  rw [get?_modify]
  split
  · rw [Option.map_map]
    exact congrArg (Option.map · (t.get? id)) (funext same)
  · rfl

theorem kin_modify (id : ∀ w, (f w).id = w.id) (type : ∀ w, (f w).type = w.type) :
    t.Kin (t.modify key f) := fun k =>
  (map_get?_modify (fun w => by rw [id, type]) k).symm

theorem isFill_modify (same : ∀ w, (f w).sizing = w.sizing) (id : WidgetId) :
    (t.modify key f).isFill id = t.isFill id := by
  have fills : ∀ w, (f w).isFill = w.isFill := fun w => by rw [Widget.isFill, same, ← Widget.isFill]
  rw [isFill_eq_getD, isFill_eq_getD, map_get?_modify fills]

theorem parentOf?_modify_of_same (same : ∀ w, (f w).parent = w.parent) (id : WidgetId) :
    (t.modify key f).parentOf? id = t.parentOf? id := by
  rw [parentOf?_eq_join, parentOf?_eq_join, map_get?_modify same]

theorem childrenOf_modify_of_same (same : ∀ w, (f w).children = w.children) (id : WidgetId) :
    (t.modify key f).childrenOf id = t.childrenOf id := by
  rw [childrenOf_eq_getD, childrenOf_eq_getD, map_get?_modify same]

theorem layersOf_modify_of_same (same : ∀ w, (f w).layers = w.layers) (id : WidgetId) :
    (t.modify key f).layersOf id = t.layersOf id := by
  rw [layersOf_eq_getD, layersOf_eq_getD, map_get?_modify same]

end Modify

end WidgetTree

end AppBuilder
