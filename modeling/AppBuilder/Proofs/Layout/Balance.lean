import AppBuilder.Proofs.Layout.Columns
import AppBuilder.Proofs.Layout.Run

/-!
Runs of layout operations keep containers balanced.

An operation has to share columns again wherever layers change. A move does so in the containers
left (`Handed.mem_left`) and in the target, a removal in the containers left and still there
(`balanced_removeOne`), a change of sizing in the one layer that holds the widget. In all other
layers the widgets stay what they were. Only arranging for a narrow screen breaks the balance.

Main statement: `balanced_of_run`.
-/

namespace AppBuilder.WidgetTree

/-! ### Moving -/

theorem balanced_moveTo {c : LayoutConfig} {t : WidgetTree} (h : t.WellFormed)
    (balanced : ∀ id, t.Balanced c id) {selection : List WidgetId} {d : DropTarget}
    (droppable : t.Droppable selection d) (id : WidgetId) :
    (t.moveTo c selection d).Balanced c id := by
  rcases h.moveTo_cases c droppable with same | ⟨moved, fits, result⟩
  · rw [same]
    exact balanced id
  · have relaid := h.moveTo_relaid (P := fun s => s.Balanced c id)
      (fun undisturbed before => before.undisturbed undisturbed)
      (fun s parent => balanced_layOut c) (balanced id) fits
    rw [result, rearrange_eq]
    exact relaid.growContainer c d.parent _

/-! ### Removing -/

theorem placeOf?_setLayers (t : WidgetTree) (owner : WidgetId) (layers : List FlexLayer)
    (y : WidgetId) : (t.setLayers owner layers).placeOf? y = t.placeOf? y := by
  rw [setLayers, placeOf?_modify_of_same]
  exact fun _ => rfl

/-- A tree without widgets. -/
def Vacant (t : WidgetTree) : Prop := ∀ id, t.get? id = none

/-- A well-formed tree, or what is left of one without its root. -/
def Intact (t : WidgetTree) : Prop := t.WellFormed ∨ t.Vacant

theorem Vacant.layersOf_eq {t : WidgetTree} (h : t.Vacant) (id : WidgetId) :
    t.layersOf id = [] := by
  simp [layersOf, h id]

theorem Intact.tidy {t : WidgetTree} (h : t.Intact) : t.Tidy := by
  rcases h with wellFormed | vacant
  · exact wellFormed.tidy
  · have children : ∀ id, t.childrenOf id = [] := fun id => by simp [childrenOf, vacant id]
    exact ⟨by simp [vacant.layersOf_eq], by simp [children], by simp [children],
      by simp [children]⟩

section Removing

variable {c : LayoutConfig} {t : WidgetTree} {id : WidgetId}

/-- Leaving its parent, a widget has columns shared among its siblings only. -/
theorem placeOf?_unlink (linked : t.Linked) (c : LayoutConfig) (id x : WidgetId) :
    (t.unlink c id).placeOf? x = t.placeOf? x ∨
      (t.isFill x = true ∧ ∃ parent, t.Up id parent ∧ x ∈ Layers.flatten (t.layersOf parent)) ∧
        ∃ columns, (t.unlink c id).placeOf? x =
          (t.placeOf? x).map fun p => { p with rightColumn := p.leftColumn + columns } := by
  unfold unlink
  cases up : t.parentOf? id with
  | none => exact .inl rfl
  | some parent =>
    have kept : ((t.leaveLayer c id parent).modify parent fun w =>
        { w with children := w.children.filter (· ≠ id) }).placeOf? x =
          (t.leaveLayer c id parent).placeOf? x := by
      rw [placeOf?_modify_of_same]
      exact fun _ => rfl
    dsimp only
    rw [kept, leaveLayer]
    split
    · exact .inl rfl
    · rename_i i found
      have there := contains_of_mem_childrenOf (linked.mem_of_up _ _ up)
      have shared := placeOf?_shareLayer c (t.setLayers parent
        (Layers.without t [id] (t.layersOf parent))) parent i x
      rw [placeOf?_setLayers, isFill_setLayers, layersOf_setLayers _ there, if_pos rfl,
        Layers.flatten_without] at shared
      refine shared.imp_right (And.imp_left fun ⟨fill, mem⟩ => ⟨fill, parent, up, ?_⟩)
      exact (List.mem_filter.mp mem).1

/-- Without its root nothing is left of a tree. -/
theorem vacant_removeOne (h : t.WellFormed) (there : t.contains id = true)
    (top : t.parentOf? id = none) (left : NameSet) : (removeOne c (t, left) id).1.Vacant := by
  obtain ⟨root, alone, chains⟩ := h.rooted
  obtain rfl := (alone id).mp ⟨there, top⟩
  intro x
  rw [removeOne_of_there c there, get?_foldl_remove]
  by_cases known : t.contains x = true
  · exact if_pos (h.linked.mem_doomed_iff.mpr (chains x known))
  · split
    · rfl
    · refine Option.eq_none_iff_forall_not_mem.mpr fun w hw => known ?_
      exact (unlinked_unlink h.linked c id).kin.contains_eq x ▸ contains_iff.mpr ⟨w, hw⟩

/-- Containers that lost no child and are still there stay balanced. -/
theorem balanced_removeOne (h : t.WellFormed) (there : t.contains id = true) {left : NameSet}
    (balanced : ∀ x, x ∉ left → t.Balanced c x) {x : WidgetId}
    (hx : x ∉ (removeOne c (t, left) id).2) : (removeOne c (t, left) id).1.Balanced c x := by
  have mem : ∀ x, x ∈ t.descendants id ++ [id] ↔ Relation.ReflTransGen t.Up x id :=
    fun _ => h.linked.mem_doomed_iff
  have unlinked := unlinked_unlink h.linked c id
  rw [removeOne_of_there c there] at hx ⊢
  generalize t.descendants id ++ [id] = doomed at *
  by_cases gone : x ∈ doomed
  · exact .of_not_layered (by simp [layersOf, get?_foldl_remove, gone])
  · obtain ⟨before, other⟩ : x ∉ left ∧ ¬ t.Up id x :=
      not_or.mp fun noted => hx (mem_noted_iff.mpr ⟨noted, gone⟩)
    -- what the layers hold are children of another parent, and they stay
    have stays : ∀ y ∈ Layers.flatten (t.layersOf x), y ∉ doomed := by
      intro y hy
      have child := h.up_of_mem_flatten hy
      refine child_stays mem h.linked gone (List.mem_filter.mpr ⟨?_, decide_eq_true ?_⟩)
      · exact h.linked.mem_of_up x y child
      · rintro rfl
        exact other child
    refine (balanced x before).congr ?_ (fun y hy => ?_) fun y hy => .inl (widthOf_congr ?_)
    · rw [layersOf_stays gone, unlinked.layersOf_eq]
      exact h.linked.without_layersOf (by simpa using other)
    · rw [isFill, get?_stays (stays y hy), ← isFill, unlinked.isFill_eq]
    · rw [placeOf?, get?_stays (stays y hy), ← placeOf?]
      refine (placeOf?_unlink h.linked c id y).resolve_right ?_
      rintro ⟨⟨-, p, up, hy'⟩, -⟩
      exact other ((h.up_of_mem_flatten hy).unique (h.up_of_mem_flatten hy') ▸ up)

theorem intact_removeOne {s : WidgetTree × NameSet} (intact : s.1.Intact)
    (balanced : ∀ x, x ∉ s.2 → s.1.Balanced c x) (id : WidgetId) :
    (removeOne c s id).1.Intact ∧
      ∀ x, x ∉ (removeOne c s id).2 → (removeOne c s id).1.Balanced c x := by
  obtain ⟨t, left⟩ := s
  cases there : t.contains id with
  | false =>
    rw [removeOne_of_missing c there]
    exact ⟨intact, balanced⟩
  | true =>
    have wellFormed : t.WellFormed := intact.resolve_right fun vacant => by
      obtain ⟨w, hw⟩ := contains_iff.mp there
      rw [vacant id] at hw
      cases hw
    cases up : t.parentOf? id with
    | none =>
      have vacant := vacant_removeOne (c := c) wellFormed there up left
      exact ⟨.inr vacant, fun x _ => .of_not_layered (vacant.layersOf_eq x)⟩
    | some parent =>
      refine ⟨.inl (wellFormed.removeOne (s := (t, left)) c fun _ => ?_).1, fun x hx =>
        balanced_removeOne wellFormed there balanced hx⟩
      rw [up]
      exact Option.some_ne_none parent

theorem balanced_removeWidgets (intact : t.Intact) (balanced : ∀ x, t.Balanced c x)
    (ids : List WidgetId) :
    (t.removeWidgets c ids).Intact ∧ ∀ x, (t.removeWidgets c ids).Balanced c x := by
  have run : ∀ (ids : List WidgetId) (s : WidgetTree × NameSet), s.1.Intact →
      (∀ x, x ∉ s.2 → s.1.Balanced c x) → (ids.foldl (removeOne c) s).1.Intact ∧
        ∀ x, x ∉ (ids.foldl (removeOne c) s).2 → (ids.foldl (removeOne c) s).1.Balanced c x := by
    intro ids
    induction ids with
    | nil => exact fun s intact balanced => ⟨intact, balanced⟩
    | cons id ids ih =>
      intro s intact balanced
      obtain ⟨intact', balanced'⟩ := intact_removeOne intact balanced id
      exact ih _ intact' balanced'
  obtain ⟨removed, others⟩ := run ids (t, .empty) intact fun x _ => balanced x
  rw [removeWidgets]
  generalize ids.foldl (removeOne c) (t, .empty) = s at *
  refine ⟨?_, fun x => foldl_relaid (alike_rearrange c)
    (fun t parent => balanced_rearrange c) s.2.toList s.1 removed.tidy (others x)⟩
  have alike := alike_foldl_tree (alike_rearrange c) s.2.toList s.1
  exact removed.imp (WellFormed.congr alike) fun vacant x => by
    have same := alike x
    simpa [vacant x] using same.symm

end Removing

/-! ### Sizing and layers -/

section Layers

variable {c : LayoutConfig} {t : WidgetTree} {x : WidgetId}

/-- New layers of one container leave the balance of the others. -/
theorem Balanced.setLayers (h : t.Balanced c x) {owner : WidgetId} (other : x ≠ owner)
    (layers : List FlexLayer) : (t.setLayers owner layers).Balanced c x := by
  refine h.congr ?_ (fun y _ => isFill_setLayers t owner layers y)
    fun y _ => .inl (widthOf_congr (placeOf?_setLayers t owner layers y))
  rw [layersOf, WidgetTree.setLayers, get?_modify, if_neg (Ne.symm other), ← layersOf]

theorem balanced_wrapContainer (h : t.WellFormed) (balanced : ∀ x, t.Balanced c x)
    {id : WidgetId} (canvas : ∀ owner, t.canvasOf? id = some owner → t.IsCanvas owner)
    (x : WidgetId) : (t.wrapContainer c id).Balanced c x := by
  unfold wrapContainer
  cases found : t.canvasOf? id with
  | none => exact balanced x
  | some owner =>
    dsimp only
    cases children : t.childrenOf owner with
    | nil => exact balanced x
    | cons first rest =>
      have wrapped := h.wrapChildren (canvas owner found)
      rw [children] at wrapped
      exact balanced_shareAll c wrapped.tidy fun other => (balanced x).setLayers other _

theorem balanced_unwrapContainer (balanced : ∀ x, t.Balanced c x) (id x : WidgetId) :
    (t.unwrapContainer id).Balanced c x := by
  unfold unwrapContainer
  cases t.canvasOf? id with
  | none => exact balanced x
  | some owner =>
    by_cases own : x = owner
    · subst own
      refine .of_not_layered ?_
      dsimp only
      rw [layersOf, setLayers, get?_modify, if_pos rfl]
      cases t.get? x <;> rfl
    · exact (balanced x).setLayers own []

/-- Only the layer of a widget that is resized has to be shared again. -/
theorem balanced_resize_layered (h : t.WellFormed) (balanced : ∀ x, t.Balanced c x)
    {s : WidgetTree} {id parent : WidgetId} (resized : Resized t id s)
    (places : ∀ y, s.placeOf? y = t.placeOf? y) (up : t.Up id parent) {i : Nat}
    (found : Layers.indexOf? (t.layersOf parent) id = some i) (x : WidgetId) :
    ((s.setLayers parent ((t.layersOf parent).modify i (FlexLayer.refresh s))).shareLayer c
      parent i).Balanced c x := by
  have refreshed := h.resize_layered resized up found
  have there : s.contains parent = true := by
    rw [← resized.kin.contains_eq]
    exact contains_of_mem_childrenOf (h.linked.mem_of_up _ _ up)
  have layers := layersOf_setLayers ((t.layersOf parent).modify i (FlexLayer.refresh s)) there
  have fill := isFill_setLayers s parent ((t.layersOf parent).modify i (FlexLayer.refresh s))
  have still := placeOf?_setLayers s parent ((t.layersOf parent).modify i (FlexLayer.refresh s))
  obtain ⟨inside, held⟩ := Layers.mem_of_indexOf? found
  obtain ⟨others, split, modified⟩ := exists_perm_modify inside (FlexLayer.refresh s)
  have row : ((s.setLayers parent ((t.layersOf parent).modify i
      (FlexLayer.refresh s))).layersOf parent)[i]? = some ((t.layersOf parent)[i].refresh s) := by
    rw [layers, if_pos rfl, List.getElem?_modify_eq, List.getElem?_eq_getElem inside]
    rfl
  rw [shareLayer, row]
  generalize s.setLayers parent ((t.layersOf parent).modify i (FlexLayer.refresh s)) = r at *
  generalize (t.layersOf parent)[i] = l at *
  have mem : l ∈ t.layersOf parent := split.mem_iff.mpr List.mem_cons_self
  -- any other layer is one of before, with none of the widgets of this one
  have either : ∀ l' ∈ r.layersOf x, l' = l.refresh s ∨
      l' ∈ t.layersOf x ∧ ∀ y ∈ l'.ids, y ∉ l.ids := by
    intro l' hl'
    rw [layers, resized.layersOf_eq] at hl'
    by_cases own : parent = x
    · subst own
      rw [if_pos rfl] at hl'
      refine (List.mem_cons.mp (modified.mem_iff.mp hl')).imp_right fun other => ?_
      have nodup : (Layers.flatten (l :: others)).Nodup :=
        (split.flatMap_right FlexLayer.ids).nodup_iff.mp (h.tidy.nodup_layers parent)
      refine ⟨split.mem_iff.mpr (List.mem_cons_of_mem _ other), fun y hy hy' => ?_⟩
      exact (List.nodup_append.mp nodup).2.2 y hy' y (List.mem_flatMap.mpr ⟨l', other, hy⟩) rfl
    · rw [if_neg own] at hl'
      refine .inr ⟨hl', fun y hy hy' => own ?_⟩
      exact h.tidy.sole_layers (List.mem_flatMap.mpr ⟨l, mem, hy'⟩)
        (List.mem_flatMap.mpr ⟨l', hl', hy⟩)
  intro l' hl'
  rw [← (alike_shareColumns c r _).layersOf_eq] at hl'
  rcases either l' hl' with rfl | ⟨before, apart⟩
  · exact shares_shareColumns c (refreshed.tidy.flagged hl')
  · refine Shares.shareColumns c ((balanced x l' before).congr (fun y hy => ?_) fun y _ => ?_) apart
    · rw [fill]
      refine (resized.isFill_eq y ?_).symm
      rintro rfl
      exact apart y hy held
    · exact .inl (widthOf_congr ((still y).trans (places y)))

theorem balanced_setSizing (h : t.WellFormed) (balanced : ∀ x, t.Balanced c x) (id : WidgetId)
    (sizing : Sizing) (x : WidgetId) : (t.setSizing c id sizing).Balanced c x := by
  have resized := resized_modify t id sizing
  have places : ∀ y, (t.modify id fun w => { w with sizing }).placeOf? y = t.placeOf? y :=
    placeOf?_modify_of_same t id fun _ => rfl
  rcases h.setSizing_cases c id sizing with same | ⟨parent, up, ⟨bare, same⟩ | ⟨i, found, same⟩⟩
  · rw [same]
    exact balanced x
  · rw [same]
    refine (balanced x).congr (resized.layersOf_eq x) (fun y hy => ?_)
      fun y _ => .inl (widthOf_congr (places y))
    refine (resized.isFill_eq y ?_).symm
    rintro rfl
    obtain rfl := up.unique (h.up_of_mem_flatten hy)
    simp [bare] at hy
  · rw [same]
    exact balanced_resize_layered h balanced resized places up found x

/-- Sharing all layers below a container. -/
theorem balanced_shareBelow (depth : Nat) {t : WidgetTree} (tidy : t.Tidy)
    (balanced : ∀ x, t.Balanced c x) (parent x : WidgetId) :
    (shareBelow c depth t parent).Balanced c x := by
  induction depth generalizing t parent x with
  | zero => exact balanced x
  | succ depth ih =>
    have run : ∀ (children : List WidgetId) (t : WidgetTree), t.Tidy → (∀ x, t.Balanced c x) →
        (children.foldl (shareBelow c depth) t).Balanced c x := by
      intro children
      induction children with
      | nil => exact fun t _ balanced => balanced x
      | cons child children rest =>
        intro t tidy balanced
        exact rest _ (tidy.congr (alike_shareBelow c t depth child)) (ih tidy balanced child)
    unfold shareBelow
    split
    · exact balanced x
    · refine run _ _ (tidy.congr (alike_shareAll c t parent)) fun x => ?_
      exact balanced_shareAll c tidy fun _ => balanced x

end Layers

/-! ### Checking -/

instance (c : LayoutConfig) (t : WidgetTree) (l : FlexLayer) : Decidable (t.Shares c l) :=
  inferInstanceAs (Decidable (∀ id ∈ l.ids, t.isFill id = true →
    t.widthOf id = fillShare c t l.ids))

/-- Whether all containers are balanced can be told from the entries. -/
theorem forall_balanced_iff {c : LayoutConfig} {t : WidgetTree} : (∀ id, t.Balanced c id) ↔
    ∀ e ∈ t.entries.values, ∀ l ∈ e.widget.layers, t.Shares c l := by
  constructor
  · intro balanced e he
    obtain ⟨id, hw⟩ := mem_values_iff.mp ⟨e, he, rfl⟩
    exact layersOf_of_get? hw ▸ balanced id
  · intro all id l hl
    obtain ⟨w, hw⟩ := contains_iff.mp (contains_of_layered (List.ne_nil_of_mem hl))
    obtain ⟨e, he, rfl⟩ := mem_values_iff.mpr ⟨id, hw⟩
    exact all e he l (layersOf_of_get? hw ▸ hl)

end WidgetTree

/-! ### Runs -/

namespace LayoutEdit

open WidgetTree

/-- What an operation asks of a tree to keep it balanced: a move needs a target that it can drop
into, only canvases are wrapped, and the screen is not narrow. -/
def Sharing (t : WidgetTree) : LayoutEdit → Prop
  | move selection target => t.Droppable selection target
  | wrap container => ∀ owner ∈ t.canvasOf? container, t.IsCanvas owner
  | mobile _ => False
  | _ => True

/-- A run of operations that keep the tree balanced. -/
def SharingRun (c : LayoutConfig) : WidgetTree → List LayoutEdit → Prop
  | _, [] => True
  | t, e :: es => e.Sharing t ∧ SharingRun c (e.apply c t) es

instance decidableSharing (t : WidgetTree) : (e : LayoutEdit) → Decidable (e.Sharing t)
  | move selection target => inferInstanceAs (Decidable (t.Droppable selection target))
  | wrap container =>
    inferInstanceAs (Decidable (∀ owner ∈ t.canvasOf? container, t.IsCanvas owner))
  | mobile _ => inferInstanceAs (Decidable False)
  | remove _ | resize _ _ | unwrap _ | share _ | place _ | desktop _ =>
    inferInstanceAs (Decidable True)

instance decidableSharingRun (c : LayoutConfig) :
    (t : WidgetTree) → (es : List LayoutEdit) → Decidable (SharingRun c t es)
  | _, [] => inferInstanceAs (Decidable True)
  | t, e :: es =>
    have := decidableSharingRun c (e.apply c t) es
    inferInstanceAs (Decidable (_ ∧ _))

/-- No operation adds a widget to a tree without any. -/
theorem vacant_apply {t : WidgetTree} (h : t.Vacant) (c : LayoutConfig) (e : LayoutEdit) :
    (e.apply c t).Vacant := by
  have bare : ∀ id, t.contains id = false := fun id => by
    rw [Bool.eq_false_iff, ne_eq, contains_iff, h id]
    simp
  have alike : ∀ {s : WidgetTree}, t.Alike s → s.Vacant := fun {s} alike id => by
    simpa [h id] using (alike id).symm
  cases e with
  | move selection target => simpa [apply, moveTo, bare] using h
  | remove ids =>
    have same : ids.foldl (removeOne c) (t, .empty) = (t, .empty) := by
      induction ids with
      | nil => rfl
      | cons id ids ih => simpa [removeOne, h id] using ih
    rw [apply, removeWidgets, same]
    exact h
  | resize id sizing => simpa [apply, setSizing, parentOf?, h id] using h
  | wrap container => simpa [apply, wrapContainer, canvasOf?, h container] using h
  | unwrap container => simpa [apply, unwrapContainer, canvasOf?, h container] using h
  | share parent => exact alike (alike_shareAll c t parent)
  | place parent => exact alike (alike_placeChildren c t parent)
  | mobile parent => exact alike (alike_stretchBelow c t _ parent)
  | desktop parent => exact alike (alike_shareBelow c t _ parent)

/-- Every operation but arranging for a narrow screen keeps containers balanced. -/
theorem balanced_apply {c : LayoutConfig} {t : WidgetTree} (h : t.WellFormed)
    (balanced : ∀ id, t.Balanced c id) {e : LayoutEdit} (sharing : e.Sharing t) :
    (e.apply c t).Intact ∧ ∀ id, (e.apply c t).Balanced c id := by
  cases e with
  | move selection target =>
    exact ⟨.inl (h.moveTo c sharing), balanced_moveTo h balanced sharing⟩
  | remove ids => exact balanced_removeWidgets (.inl h) balanced ids
  | resize id sizing =>
    exact ⟨.inl (h.setSizing c id sizing), balanced_setSizing h balanced id sizing⟩
  | wrap container =>
    exact ⟨.inl (h.wrapContainer c sharing), balanced_wrapContainer h balanced sharing⟩
  | unwrap container =>
    exact ⟨.inl (h.unwrapContainer container), balanced_unwrapContainer balanced container⟩
  | share parent =>
    exact ⟨.inl (h.congr (alike_shareAll c t parent)),
      fun id => balanced_shareAll c h.tidy fun _ => balanced id⟩
  | place parent =>
    exact ⟨.inl (h.congr (alike_placeChildren c t parent)),
      fun id => (balanced id).placed (placed_placeChildren c t parent)⟩
  | mobile parent => exact sharing.elim
  | desktop parent =>
    exact ⟨.inl (h.congr (alike_shareBelow c t _ parent)),
      balanced_shareBelow _ h.tidy balanced parent⟩

theorem intact_of_run {c : LayoutConfig} {t : WidgetTree} (h : t.Intact)
    (balanced : ∀ id, t.Balanced c id) {es : List LayoutEdit} (run : SharingRun c t es) :
    (es.foldl (apply c) t).Intact ∧ ∀ id, (es.foldl (apply c) t).Balanced c id := by
  induction es generalizing t with
  | nil => exact ⟨h, balanced⟩
  | cons e es ih =>
    rcases h with wellFormed | vacant
    · obtain ⟨intact, balanced'⟩ := balanced_apply wellFormed balanced run.1
      exact ih intact balanced' run.2
    · have vacant' := vacant_apply vacant c e
      exact ih (.inr vacant') (fun id => .of_not_layered (vacant'.layersOf_eq id)) run.2

/-- Every run of operations that share columns leads from a tree in which each filling widget has
its share to another such tree. There a layer that its other widgets do not overflow stays within
the columns, and leaves fewer of them unused than it has filling widgets. -/
theorem balanced_of_run (c : LayoutConfig) {t : WidgetTree} (h : t.WellFormed)
    (balanced : ∀ id, ∀ l ∈ t.layersOf id, t.Shares c l) {es : List LayoutEdit}
    (run : SharingRun c t es) :
    let t' := es.foldl (apply c) t
    ∀ id, ∀ l ∈ t'.layersOf id, t'.Shares c l ∧
      (l.ids.filter t'.isFill ≠ [] →
        t'.columnSum (l.ids.filter fun child => !t'.isFill child) ≤ c.gridColumns →
        t'.columnSum l.ids ≤ c.gridColumns ∧
          c.gridColumns - t'.columnSum l.ids < (l.ids.filter t'.isFill).length) := by
  intro t' id l hl
  have shares := (intact_of_run (.inl h) balanced run).2 id l hl
  exact ⟨shares, fun filled room => shares.columnSum_le filled room⟩

/-- A root canvas with two rows: one widget fills what another leaves, and a container. -/
def sharedRows : WidgetTree :=
  .ofList [
    { Widget.ofType mainContainerId canvasType with
      children := ["wide", "narrow", "box"]
      layers := [⟨[⟨"wide", .start⟩, ⟨"narrow", .start⟩], true⟩, ⟨[⟨"box", .start⟩], false⟩] },
    { Widget.ofType "wide" "TEXT_WIDGET" with
      parent := some mainContainerId
      sizing := .fill
      position := ⟨0, 4, 0, 48⟩ },
    { Widget.ofType "narrow" "TEXT_WIDGET" with
      parent := some mainContainerId
      position := ⟨0, 4, 48, 64⟩ },
    { Widget.ofType "box" containerType with
      parent := some mainContainerId
      children := ["inner"]
      position := ⟨4, 8, 0, 20⟩ },
    { Widget.ofType "inner" canvasType with parent := some "box" }]

/-- Both widgets come to fill the row, one leaves for the inner canvas, and the other is
removed. -/
def spread : List LayoutEdit :=
  [.resize "narrow" .fill, .move ["wide"] ⟨"inner", 0, 0, 0, .start, true, .vertical⟩,
    .wrap "box", .remove ["narrow"]]

theorem balanced_of_run_spread :
    sharedRows.WellFormed ∧ (∀ id, ∀ l ∈ sharedRows.layersOf id, sharedRows.Shares {} l) ∧
      SharingRun {} sharedRows spread ∧
      ∀ l ∈ (spread.foldl (apply {}) sharedRows).layersOf "inner",
        (spread.foldl (apply {}) sharedRows).Shares {} l := by
  have start : sharedRows.WellFormed := by decide +kernel
  have balanced : ∀ id, ∀ l ∈ sharedRows.layersOf id, sharedRows.Shares {} l :=
    forall_balanced_iff.mpr (by decide +kernel)
  have run : SharingRun {} sharedRows spread := by decide +kernel
  exact ⟨start, balanced, run, fun l hl =>
    (balanced_of_run {} start balanced run "inner" l hl).1⟩

end LayoutEdit

end AppBuilder
