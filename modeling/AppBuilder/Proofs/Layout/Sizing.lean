import AppBuilder.Proofs.Layout.Layer
import AppBuilder.Proofs.Layout.Place

/-!
Changing the layers of a tree whose links stay.

A canvas may get any layers that arrange its children, or none (`WellFormed.setLayers`). This
covers wrapping and unwrapping. A change of sizing can make one fill flag stale, that of the layer
with the widget, and this layer is refreshed (`Arranges.refresh`).
-/

namespace AppBuilder.WidgetTree

/-- A canvas gets layers that arrange its children, or none. -/
theorem WellFormed.setLayers {t : WidgetTree} (h : t.WellFormed) {id : WidgetId}
    {layers : List FlexLayer}
    (sound : layers ≠ [] → t.IsCanvas id ∧ t.Arranges layers (t.childrenOf id)) :
    (t.setLayers id layers).WellFormed := by
  refine h.relayer (kin_setLayers t id layers) (parentOf?_setLayers t id layers)
    (childrenOf_setLayers t id layers) fun x layered => ?_
  have same : ∀ c, t.isFill c = (t.setLayers id layers).isFill c := fun c =>
    (isFill_setLayers t id layers c).symm
  by_cases own : t.contains id = true ∧ id = x
  · obtain ⟨there, rfl⟩ := own
    rw [layersOf_setLayers layers there, if_pos rfl] at layered ⊢
    exact ⟨(sound layered).1, (sound layered).2.congr fun c _ => same c⟩
  · have kept : (t.setLayers id layers).layersOf x = t.layersOf x := by
      by_cases there : t.contains id = true
      · rw [layersOf_setLayers layers there, if_neg fun same => own ⟨there, same⟩]
      · have absent : t.get? id = none := Option.eq_none_iff_forall_not_mem.mpr fun w hw =>
          there (contains_iff.mpr ⟨w, hw⟩)
        simp [WidgetTree.setLayers, modify, absent]
    rw [kept] at layered ⊢
    exact ⟨h.layered x layered, (h.linked.arranged x layered).congr fun c _ => same c⟩

/-! ### Wrapping and unwrapping -/

/-- A canvas gets one layer for each of its children. -/
theorem WellFormed.wrapChildren {t : WidgetTree} (h : t.WellFormed) {owner : WidgetId}
    (canvas : t.IsCanvas owner) :
    (t.setLayers owner (Layers.wrap t (t.childrenOf owner))).WellFormed := by
  refine h.setLayers fun _ => ⟨canvas, .wrap fun child hc => ?_⟩
  exact contains_of_parentOf? (h.linked.up_of_mem owner child hc)

/-- Giving a canvas one layer for each of its children. -/
theorem WellFormed.wrapContainer {t : WidgetTree} (h : t.WellFormed) (c : LayoutConfig)
    {id : WidgetId} (canvas : ∀ owner, t.canvasOf? id = some owner → t.IsCanvas owner) :
    (t.wrapContainer c id).WellFormed := by
  unfold WidgetTree.wrapContainer
  cases found : t.canvasOf? id with
  | none => exact h
  | some owner =>
    dsimp only
    cases children : t.childrenOf owner with
    | nil => exact h
    | cons first rest =>
      have wrapped := h.wrapChildren (canvas owner found)
      rw [children] at wrapped
      exact wrapped.congr (alike_shareAll c _ owner)

/-- Taking all layers of a canvas away. -/
theorem WellFormed.unwrapContainer {t : WidgetTree} (h : t.WellFormed) (id : WidgetId) :
    (t.unwrapContainer id).WellFormed := by
  unfold WidgetTree.unwrapContainer
  cases t.canvasOf? id with
  | none => exact h
  | some canvas => exact h.setLayers fun layered => absurd rfl layered

/-! ### Sizing -/

/-- When one widget changes its sizing, refreshing its layer is enough. -/
theorem Arranges.refresh {t t' : WidgetTree} {layers : List FlexLayer} {children : List WidgetId}
    (h : t.Arranges layers children) (nodup : children.Nodup) {id : WidgetId} {i : Nat}
    (found : Layers.indexOf? layers id = some i) (same : ∀ x, x ≠ id → t.isFill x = t'.isFill x) :
    t'.Arranges (layers.modify i (FlexLayer.refresh t')) children := by
  obtain ⟨inside, held⟩ := Layers.mem_of_indexOf? found
  obtain ⟨others, split, modified⟩ := exists_perm_modify inside (FlexLayer.refresh t')
  generalize layers[i] = l at held split modified
  have front : t.Arranges (l :: others) children := h.of_layers_perm split
  have apart : id ∉ Layers.flatten others := by
    have once : (l.ids ++ Layers.flatten others).Nodup := front.perm.nodup_iff.mpr nodup
    exact fun hid => (List.nodup_append.mp once).2.2 id held id hid rfl
  have rest : t'.Arranges others (Layers.flatten others) := by
    refine front.tail.congr fun x hx => same x ?_
    rintro rfl
    exact apart hx
  have refreshed : t'.Arranges (l.refresh t' :: others) children := by
    refine ⟨?_, ?_, front.perm⟩
    · exact List.forall_mem_cons.mpr ⟨front.filled l List.mem_cons_self, rest.filled⟩
    · exact List.forall_mem_cons.mpr ⟨rfl, rest.flagged⟩
  exact refreshed.of_layers_perm modified.symm

/-- Trees that differ in the sizing of one widget only. -/
structure Resized (t : WidgetTree) (id : WidgetId) (s : WidgetTree) : Prop where
  kin : t.Kin s
  parentOf?_eq : ∀ x, s.parentOf? x = t.parentOf? x
  childrenOf_eq : ∀ x, s.childrenOf x = t.childrenOf x
  layersOf_eq : ∀ x, s.layersOf x = t.layersOf x
  isFill_eq : ∀ x, x ≠ id → t.isFill x = s.isFill x

theorem resized_modify (t : WidgetTree) (id : WidgetId) (sizing : Sizing) :
    Resized t id (t.modify id fun w => { w with sizing }) where
  kin := kin_modify (fun _ => rfl) fun _ => rfl
  parentOf?_eq := parentOf?_modify_of_same fun _ => rfl
  childrenOf_eq := childrenOf_modify_of_same fun _ => rfl
  layersOf_eq := layersOf_modify_of_same fun _ => rfl
  isFill_eq x other := by
    rw [WidgetTree.isFill, WidgetTree.isFill, get?_modify, if_neg (Ne.symm other)]

theorem canvasOf?_of_isCanvas {t : WidgetTree} {id : WidgetId}
    (keyed : ∀ id w, t.get? id = some w → w.id = id) (canvas : t.IsCanvas id) :
    t.canvasOf? id = some id := by
  obtain ⟨w, hw, isCanvas⟩ := canvas
  rw [canvasOf?, hw]
  simp [isCanvas, keyed id w hw]

/-- A widget is only in the layers of its parent. -/
theorem Linked.up_of_indexOf? {t : WidgetTree} (h : t.Linked) {id canvas : WidgetId} {i : Nat}
    (found : Layers.indexOf? (t.layersOf canvas) id = some i) : t.Up id canvas := by
  obtain ⟨inside, held⟩ := Layers.mem_of_indexOf? found
  have layered : t.layersOf canvas ≠ [] := by
    intro childless
    simp [childless] at inside
  refine h.up_of_mem canvas id ((h.arranged canvas layered).perm.mem_iff.mp ?_)
  exact List.mem_flatMap.mpr ⟨_, List.getElem_mem inside, held⟩

section Resizing

variable {t s : WidgetTree} {id parent : WidgetId} (resized : Resized t id s) (up : t.Up id parent)
include resized up

/-- No fill flag but those of the parent can become stale. -/
theorem Resized.arranges_other (linked : t.Linked) {x : WidgetId} (other : x ≠ parent)
    (layered : t.layersOf x ≠ []) : s.Arranges (t.layersOf x) (t.childrenOf x) := by
  refine (linked.arranged x layered).congr fun child hc => resized.isFill_eq child ?_
  rintro rfl
  exact other ((linked.up_of_mem x child hc).unique up)

theorem WellFormed.resize_unlayered (h : t.WellFormed) (bare : t.layersOf parent = []) :
    s.WellFormed := by
  refine h.relayer resized.kin resized.parentOf?_eq resized.childrenOf_eq fun x layered => ?_
  rw [resized.layersOf_eq] at layered ⊢
  refine ⟨h.layered x layered, resized.arranges_other up h.linked ?_ layered⟩
  rintro rfl
  exact layered bare

theorem WellFormed.resize_layered (h : t.WellFormed) {i : Nat}
    (found : Layers.indexOf? (t.layersOf parent) id = some i) :
    (s.setLayers parent ((t.layersOf parent).modify i (FlexLayer.refresh s))).WellFormed := by
  have layered : t.layersOf parent ≠ [] := by
    intro unlayered
    simp [unlayered, Layers.indexOf?] at found
  have child := contains_of_mem_childrenOf (h.linked.mem_of_up _ _ up)
  refine h.relayer (resized.kin.trans (kin_setLayers s parent _)) ?_ ?_
    ?_
  · intro x
    rw [parentOf?_setLayers, resized.parentOf?_eq]
  · intro x
    rw [childrenOf_setLayers, resized.childrenOf_eq]
  · intro x layered'
    rw [layersOf_setLayers _ (resized.kin.contains_eq parent ▸ child)] at layered' ⊢
    by_cases own : parent = x
    · subst own
      rw [if_pos rfl]
      have refreshed := (h.linked.arranged parent layered).refresh (h.nodup parent) found
        resized.isFill_eq
      exact ⟨h.layered parent layered,
        refreshed.congr fun y _ => (isFill_setLayers s parent _ y).symm⟩
    · rw [if_neg own, resized.layersOf_eq] at layered' ⊢
      have arranged := resized.arranges_other up h.linked (Ne.symm own) layered'
      exact ⟨h.layered x layered',
        arranged.congr fun y _ => (isFill_setLayers s parent _ y).symm⟩

end Resizing

/-- A change of sizing does nothing to a root, and only that to a widget in no layer; the layer of
any other widget is refreshed and shared. -/
theorem WellFormed.setSizing_cases {t : WidgetTree} (h : t.WellFormed) (c : LayoutConfig)
    (id : WidgetId) (sizing : Sizing) :
    let s := t.modify id fun w => { w with sizing }
    t.setSizing c id sizing = t ∨ ∃ parent, t.Up id parent ∧
      (t.layersOf parent = [] ∧ t.setSizing c id sizing = s ∨
        ∃ i, Layers.indexOf? (t.layersOf parent) id = some i ∧ t.setSizing c id sizing =
          (s.setLayers parent ((t.layersOf parent).modify i (FlexLayer.refresh s))).shareLayer c
            parent i) := by
  have resized := resized_modify t id sizing
  cases up : t.parentOf? id with
  | none => exact .inl (by simp [WidgetTree.setSizing, up])
  | some parent =>
    refine .inr ⟨parent, up, ?_⟩
    simp only [WidgetTree.setSizing, up]
    generalize t.modify id (fun w => { w with sizing }) = s at resized
    by_cases bare : t.layersOf parent = []
    · refine .inl ⟨bare, ?_⟩
      cases s.canvasOf? parent with
      | none => rfl
      | some canvas =>
        dsimp only
        cases found : Layers.indexOf? (s.layersOf canvas) id with
        | none => rfl
        | some i =>
          -- the widget is in no layer, since its parent has none
          rw [resized.layersOf_eq] at found
          obtain rfl := (h.linked.up_of_indexOf? found).unique up
          simp [bare, Layers.indexOf?] at found
    · have owner := canvasOf?_of_isCanvas (resized.kin.keyed h.keyed)
        (resized.kin.isCanvas (h.layered parent bare))
      obtain ⟨i, found⟩ := (h.linked.arranged parent bare).exists_indexOf?
        (h.linked.mem_of_up _ _ up)
      refine .inr ⟨i, found, ?_⟩
      simp only [owner, resized.layersOf_eq, found]

/-- Making a widget fill its row or hug its content keeps a tree well formed. -/
theorem WellFormed.setSizing {t : WidgetTree} (h : t.WellFormed) (c : LayoutConfig)
    (id : WidgetId) (sizing : Sizing) : (t.setSizing c id sizing).WellFormed := by
  have resized := resized_modify t id sizing
  rcases h.setSizing_cases c id sizing with same | ⟨parent, up, ⟨bare, same⟩ | ⟨i, found, same⟩⟩
  · rwa [same]
  · rw [same]
    exact h.resize_unlayered resized up bare
  · rw [same]
    exact (h.resize_layered resized up found).congr (alike_shareLayer c _ parent i)

end AppBuilder.WidgetTree
