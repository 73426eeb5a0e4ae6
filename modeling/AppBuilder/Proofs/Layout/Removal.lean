import AppBuilder.Proofs.Layout.Agreement
import AppBuilder.Proofs.Layout.Balance
import AppBuilder.Proofs.Layout.Drop
import AppBuilder.Proofs.Widget.LayerRule

/-!
What removing widgets leaves of a tree.

One removal takes a widget out with all that is below it, shares the columns of one layer of its
parent, and notes the parent if that is still there. What is left does not depend on the order of
removals (`Trimmed`, `Trimmed.trans`), but for the right edges of widgets that fill a layer of a
container noted (`Pending`). All of these are laid out in the end, and that settles the edges.

Main statement: `Consistent.restricts_removeWidgets`.
-/

namespace AppBuilder

/-- A widget with those of its children that are in a tree; layers left empty are dropped, and the
others have the fill flags of the tree. -/
def Widget.within (t : WidgetTree) (w : Widget) : Widget :=
  { w with children := w.children.filter t.contains, layers := Layers.without t [] w.layers }

theorem Widget.within_congr {s r : WidgetTree} (contains : ∀ x, s.contains x = r.contains x)
    (isFill : ∀ x, s.isFill x = r.isFill x) (w : Widget) : w.within s = w.within r := by
  rw [within, within, funext contains, Layers.without_congr contains isFill]

/-- What is left of a widget in a tree is left of what a larger tree left of it. -/
theorem Widget.within_within {s r : WidgetTree} (w : Widget)
    (finer : ∀ x, r.contains x = true → s.contains x = true) :
    (w.within s).within r = w.within r := by
  have children : (w.children.filter s.contains).filter r.contains =
      w.children.filter r.contains := by
    rw [List.filter_filter]
    exact List.filter_congr fun c _ => Bool.and_eq_left_iff_imp.mpr (finer c)
  have layers : Layers.without r [] (Layers.without s [] w.layers) = Layers.without r [] w.layers :=
    Layers.without_without fun x _ => finer x
  simp only [within, children, layers]

namespace WidgetTree

/-! ### Restricted trees -/

/-- A tree with some of the widgets of another one, each with those of its children that are left;
places aside. -/
def Restricts (t s : WidgetTree) : Prop :=
  ∀ x w', s.get? x = some w' → ∃ w, t.get? x = some w ∧ w'.unplaced = (w.within s).unplaced

theorem Linked.within_eq_self {t : WidgetTree} (linked : t.Linked) {x : WidgetId} {w : Widget}
    (hw : t.get? x = some w) : w.within t = w := by
  have children : w.children.filter t.contains = w.children := by
    refine List.filter_eq_self.mpr fun c hc => contains_of_parentOf? (linked.up_of_mem x c ?_)
    exact childrenOf_of_get? hw ▸ hc
  have layers : Layers.without t [] w.layers = w.layers := by
    rw [← layersOf_of_get? hw]
    exact linked.without_layersOf (by simp)
  rw [Widget.within, children, layers]

theorem Linked.restricts_self {t : WidgetTree} (linked : t.Linked) : t.Restricts t :=
  fun _ w hw => ⟨w, hw, by rw [linked.within_eq_self hw]⟩

namespace Restricts

variable {t s r : WidgetTree} (h : t.Restricts s)
include h

theorem contains {x : WidgetId} (there : s.contains x = true) : t.contains x = true := by
  obtain ⟨w', hw'⟩ := contains_iff.mp there
  obtain ⟨w, hw, -⟩ := h x w' hw'
  exact contains_iff.mpr ⟨w, hw⟩

theorem map_eq {β : Type} (f : Widget → β) (unplaced : ∀ w, f w.unplaced = f w) {x : WidgetId}
    (there : s.contains x = true) :
    (s.get? x).map f = (t.get? x).map fun w => f (w.within s) := by
  obtain ⟨w', hw'⟩ := contains_iff.mp there
  obtain ⟨w, hw, same⟩ := h x w' hw'
  rw [hw, hw', Option.map_some, Option.map_some, ← unplaced w', same, unplaced]

theorem isFill_eq {x : WidgetId} (there : s.contains x = true) : s.isFill x = t.isFill x := by
  rw [isFill_eq_getD, isFill_eq_getD, h.map_eq _ (fun _ => rfl) there]
  rfl

theorem parentOf?_eq {x : WidgetId} (there : s.contains x = true) :
    s.parentOf? x = t.parentOf? x := by
  rw [parentOf?_eq_join, parentOf?_eq_join, h.map_eq _ (fun _ => rfl) there]
  rfl

theorem childrenOf_eq {x : WidgetId} (there : s.contains x = true) :
    s.childrenOf x = (t.childrenOf x).filter s.contains := by
  rw [childrenOf_eq_getD, childrenOf_eq_getD, h.map_eq _ (fun _ => rfl) there]
  cases t.get? x <;> rfl

theorem flatten_layersOf {x : WidgetId} (there : s.contains x = true) :
    Layers.flatten (s.layersOf x) = (Layers.flatten (t.layersOf x)).filter s.contains := by
  have layers : s.layersOf x = Layers.without s [] (t.layersOf x) := by
    rw [layersOf_eq_getD, layersOf_eq_getD, h.map_eq _ (fun _ => rfl) there]
    cases t.get? x <;> rfl
  rw [layers, Layers.flatten_without]
  simp

theorem up {x p : WidgetId} (up : s.Up x p) : t.Up x p := by
  rw [Up, ← h.parentOf?_eq (contains_of_parentOf? up)]
  exact up

theorem nodup (nodup : ∀ x, (t.childrenOf x).Nodup) (x : WidgetId) : (s.childrenOf x).Nodup := by
  by_cases there : s.contains x = true
  · rw [h.childrenOf_eq there]
    exact (nodup x).filter _
  · have childless : s.childrenOf x = [] := List.eq_nil_iff_forall_not_mem.mpr fun c hc =>
      there (contains_of_mem_childrenOf hc)
    rw [childless]
    exact .nil

theorem trans (h' : s.Restricts r) : t.Restricts r := by
  intro x w'' hw''
  obtain ⟨w', hw', later⟩ := h' x w'' hw''
  obtain ⟨w, hw, earlier⟩ := h x w' hw'
  refine ⟨w, hw, ?_⟩
  calc w''.unplaced = (w'.unplaced.within r).unplaced := later
    _ = ((w.within s).within r).unplaced := by
      rw [earlier]
      rfl
    _ = (w.within r).unplaced := by rw [w.within_within fun _ => h'.contains]

omit h in
/-- What is left of a tree is determined, places aside, by the names left. -/
theorem alike (h : t.Restricts s) (h' : t.Restricts r)
    (same : ∀ x, s.contains x = r.contains x) : s.Alike r := by
  have fill : ∀ x, s.isFill x = r.isFill x := by
    intro x
    cases there : s.contains x with
    | false =>
      rw [isFill, isFill, get?_eq_none_iff.mpr there, get?_eq_none_iff.mpr (same x ▸ there)]
    | true => rw [h.isFill_eq there, h'.isFill_eq (same x ▸ there)]
  intro x
  cases there : s.contains x with
  | false => rw [get?_eq_none_iff.mpr there, get?_eq_none_iff.mpr (same x ▸ there)]
  | true =>
    rw [h.map_eq _ (fun _ => rfl) there, h'.map_eq _ (fun _ => rfl) (same x ▸ there)]
    simp only [Widget.within_congr same fill]

/-- Placing what is left does not matter. -/
theorem congr (alike : s.Alike r) : t.Restricts r := by
  intro x w'' hw''
  have same := alike x
  rw [hw'', Option.map_some, Option.map_eq_some_iff] at same
  obtain ⟨w', hw', place⟩ := same
  obtain ⟨w, hw, left⟩ := h x w' hw'
  refine ⟨w, hw, ?_⟩
  rw [← place, left, w.within_congr alike.kin.contains_eq alike.isFill_eq]

end Restricts

/-! ### What a run of removals leaves -/

/-- Those above a widget of a linked tree are in the tree. -/
theorem Linked.contains_of_path {t : WidgetTree} (linked : t.Linked) {x y : WidgetId}
    (there : t.contains x = true) (path : Relation.ReflTransGen t.Up x y) :
    t.contains y = true := by
  cases path with
  | refl => exact there
  | tail _ up => exact contains_of_mem_childrenOf (linked.mem_of_up _ _ up)

/-- Widgets whose right edge is still open: they fill a layer of a container that lost a child. -/
def Pending (s : WidgetTree × NameSet) (x : WidgetId) : Prop :=
  s.1.isFill x = true ∧ ∃ p ∈ s.2, x ∈ Layers.flatten (s.1.layersOf p)

/-- What is left after some removals: the tree without these widgets and all that is below them,
and the containers left that lost a child. -/
structure Trimmed (s : WidgetTree × NameSet) (ids : List WidgetId) (r : WidgetTree × NameSet) :
    Prop where
  restricts : s.1.Restricts r.1
  contains_iff : ∀ x, r.1.contains x = true ↔
    s.1.contains x = true ∧ ¬ ∃ id ∈ ids, Relation.ReflTransGen s.1.Up x id
  mem_iff : ∀ p, p ∈ r.2 ↔ r.1.contains p = true ∧ (p ∈ s.2 ∨ ∃ id ∈ ids, s.1.Up id p)
  placed : ∀ x, r.1.contains x = true → r.1.placeOf? x = s.1.placeOf? x ∨
    Pending r x ∧ (r.1.placeOf? x).map GridPosition.edgeless =
      (s.1.placeOf? x).map GridPosition.edgeless

namespace Trimmed

variable {s r q : WidgetTree × NameSet} {ids ids' : List WidgetId}

/-- Removing widgets that are not there. -/
theorem of_missing (linked : s.1.Linked) (known : ∀ p ∈ s.2, s.1.contains p = true)
    (missing : ∀ id ∈ ids, s.1.contains id = false) : Trimmed s ids s where
  restricts := linked.restricts_self
  contains_iff x := by
    refine (and_iff_left_of_imp fun there => ?_).symm
    rintro ⟨id, hid, path⟩
    have there' := linked.contains_of_path there path
    rw [missing id hid] at there'
    cases there'
  mem_iff p := by
    have spared : ¬ ∃ id ∈ ids, s.1.Up id p := by
      rintro ⟨id, hid, up⟩
      have there := contains_of_parentOf? up
      rw [missing id hid] at there
      cases there
    rw [or_iff_left spared]
    exact (and_iff_right_of_imp (known p)).symm
  placed x _ := .inl rfl

variable (h : Trimmed s ids r)
include h

theorem edgeless_eq {x : WidgetId} (there : r.1.contains x = true) :
    (r.1.placeOf? x).map GridPosition.edgeless = (s.1.placeOf? x).map GridPosition.edgeless := by
  rcases h.placed x there with same | ⟨-, edges⟩
  · rw [same]
  · exact edges

/-- A container that is left lost a child to the first removals or to the others. -/
theorem lost_iff {p : WidgetId} (there : r.1.contains p = true) :
    ((∃ id ∈ ids, s.1.Up id p) ∨ ∃ id ∈ ids', r.1.Up id p) ↔ ∃ id ∈ ids ++ ids', s.1.Up id p := by
  constructor
  · rintro (⟨id, hid, up⟩ | ⟨id, hid, up⟩)
    · exact ⟨id, List.mem_append_left _ hid, up⟩
    · exact ⟨id, List.mem_append_right _ hid, h.restricts.up up⟩
  · rintro ⟨id, hid, up⟩
    by_cases left : r.1.contains id = true
    · have up' : r.1.Up id p := (h.restricts.parentOf?_eq left).trans up
      rcases List.mem_append.mp hid with hid | hid
      · exact .inl ⟨id, hid, up⟩
      · exact .inr ⟨id, hid, up'⟩
    · -- the child went first, and with it nothing above
      rw [h.contains_iff, and_iff_right (contains_of_parentOf? up), not_not] at left
      obtain ⟨id', hid', path⟩ := left
      cases path using Relation.ReflTransGen.head_induction_on with
      | refl => exact .inl ⟨id, hid', up⟩
      | head step path =>
        obtain rfl := step.unique up
        exact absurd ⟨id', hid', path⟩ ((h.contains_iff _).mp there).2

variable (linked : s.1.Linked)
include linked

/-- Those who are above a widget that is left are left. -/
theorem contains_of_path {x y : WidgetId} (there : r.1.contains x = true)
    (path : Relation.ReflTransGen s.1.Up x y) : r.1.contains y = true := by
  obtain ⟨before, stays⟩ := (h.contains_iff x).mp there
  refine (h.contains_iff y).mpr ⟨linked.contains_of_path before path, ?_⟩
  rintro ⟨id, hid, rest⟩
  exact stays ⟨id, hid, path.trans rest⟩

theorem path_iff {x y : WidgetId} (there : r.1.contains x = true) :
    Relation.ReflTransGen r.1.Up x y ↔ Relation.ReflTransGen s.1.Up x y := by
  constructor
  · exact Relation.ReflTransGen.mono (fun _ _ => h.restricts.up) x y
  · exact fun path => up_path_congr path fun z before =>
      h.restricts.parentOf?_eq (h.contains_of_path linked there before)

/-- Widgets stay pending as long as they are left. -/
theorem pending {x : WidgetId} (there : r.1.contains x = true) (pending : Pending s x) :
    Pending r x := by
  obtain ⟨fill, p, lost, mem⟩ := pending
  have left := h.contains_of_path linked there (.single (linked.up_of_mem_flatten mem))
  refine ⟨(h.restricts.isFill_eq there).trans fill, p, (h.mem_iff p).mpr ⟨left, .inl lost⟩, ?_⟩
  rw [h.restricts.flatten_layersOf left]
  exact List.mem_filter.mpr ⟨mem, there⟩

/-- Removals one after the other. -/
theorem trans (linked' : r.1.Linked) (h' : Trimmed r ids' q) : Trimmed s (ids ++ ids') q where
  restricts := h.restricts.trans h'.restricts
  contains_iff x := by
    rw [h'.contains_iff, h.contains_iff, and_assoc]
    refine and_congr_right fun first => ?_
    constructor
    · rintro ⟨stays, stays'⟩ ⟨id, hid, path⟩
      have there := (h.contains_iff x).mpr ⟨first, stays⟩
      rcases List.mem_append.mp hid with hid | hid
      · exact stays ⟨id, hid, path⟩
      · exact stays' ⟨id, hid, (h.path_iff linked there).mpr path⟩
    · intro stays
      have stays' : ¬ ∃ id ∈ ids, Relation.ReflTransGen s.1.Up x id := by
        rintro ⟨id, hid, path⟩
        exact stays ⟨id, List.mem_append_left _ hid, path⟩
      have there := (h.contains_iff x).mpr ⟨first, stays'⟩
      refine ⟨stays', ?_⟩
      rintro ⟨id, hid, path⟩
      exact stays ⟨id, List.mem_append_right _ hid, (h.path_iff linked there).mp path⟩
  mem_iff p := by
    rw [h'.mem_iff, h.mem_iff]
    refine and_congr_right fun there => ?_
    have before := h'.restricts.contains there
    rw [and_iff_right before, or_assoc, h.lost_iff before]
  placed x there := by
    have before := h'.restricts.contains there
    have edges := (h'.edgeless_eq there).trans (h.edgeless_eq before)
    rcases h'.placed x there with same' | ⟨pending, -⟩
    · rcases h.placed x before with same | ⟨pending, -⟩
      · exact .inl (same'.trans same)
      · exact .inr ⟨h'.pending linked' there pending, edges⟩
    · exact .inr ⟨pending, edges⟩

end Trimmed

/-! ### One removal -/

section Step

variable {t s : WidgetTree} {id : WidgetId} {doomed : List WidgetId}
  (unlinked : Unlinked t id s)
  (mem : ∀ x, x ∈ doomed ↔ Relation.ReflTransGen t.Up x id)
include unlinked

theorem Unlinked.contains_stays_iff {x : WidgetId} :
    (doomed.foldl remove s).contains x = true ↔ t.contains x = true ∧ x ∉ doomed := by
  constructor
  · intro there
    obtain ⟨stays, there⟩ := stays_of_contains there
    exact ⟨unlinked.kin.contains_eq x ▸ there, stays⟩
  · rintro ⟨there, stays⟩
    rw [contains_iff, get?_stays stays, ← contains_iff, ← unlinked.kin.contains_eq]
    exact there

include mem

/-- Once all below an unlinked widget is gone, the others have those of their children that are
left. -/
theorem Unlinked.restricts (linked : t.Linked) : t.Restricts (doomed.foldl remove s) := by
  intro x w' hw'
  obtain ⟨stays, hw'⟩ := stays_of_get? hw'
  have same := unlinked x
  rw [hw', Option.map_some, eq_comm, Option.map_eq_some_iff] at same
  obtain ⟨w, hw, same⟩ := same
  refine ⟨w, hw, same.symm.trans (congrArg Widget.unplaced ?_)⟩
  have child : ∀ c ∈ t.childrenOf x, c ≠ id → c ∉ doomed := fun c hc other =>
    child_stays mem linked stays (List.mem_filter.mpr ⟨hc, decide_eq_true other⟩)
  have left : ∀ c ∈ t.childrenOf x, (doomed.foldl remove s).contains c = decide (c ≠ id) := by
    intro c hc
    rw [Bool.eq_iff_iff, unlinked.contains_stays_iff, decide_eq_true_iff]
    refine ⟨?_, fun other => ⟨contains_of_parentOf? (linked.up_of_mem x c hc), child c hc other⟩⟩
    rintro ⟨-, stays⟩ rfl
    exact stays ((mem c).mpr .refl)
  have held : ∀ c ∈ Layers.flatten w.layers, c ∈ t.childrenOf x := fun c hc =>
    linked.mem_of_up x c (linked.up_of_mem_flatten (layersOf_of_get? hw ▸ hc))
  have children : w.children.filter (· ≠ id) =
      w.children.filter (doomed.foldl remove s).contains := by
    rw [← childrenOf_of_get? hw]
    exact List.filter_congr fun c hc => (left c hc).symm
  have layers : Layers.without t [id] w.layers =
      Layers.without (doomed.foldl remove s) [] w.layers := by
    refine Layers.without_ext (fun c hc => ?_) fun c hc _ other => ?_
    · rw [left c (held c hc), contains_of_parentOf? (linked.up_of_mem x c (held c hc))]
      simp
    · have stays := child c (held c hc) (by simpa using other)
      rw [← unlinked.isFill_eq, isFill, isFill, get?_stays stays]
  rw [Widget.unlisted, Widget.within, children, layers]

end Step

/-- One removal leaves all but the widget and what is below it. -/
theorem trimmed_removeOne {t : WidgetTree} (linked : t.Linked) (c : LayoutConfig) (id : WidgetId)
    {left : NameSet} (known : ∀ p ∈ left, t.contains p = true) :
    Trimmed (t, left) [id] (removeOne c (t, left) id) ∧ (removeOne c (t, left) id).1.Linked := by
  cases there : t.contains id with
  | false =>
    rw [removeOne_of_missing c there]
    exact ⟨.of_missing linked known (by simpa using there), linked⟩
  | true =>
    have mem : ∀ x, x ∈ t.descendants id ++ [id] ↔ Relation.ReflTransGen t.Up x id :=
      fun _ => linked.mem_doomed_iff
    have unlinked := unlinked_unlink linked c id
    have edges := placeOf?_unlink linked c id
    rw [removeOne_of_there c there]
    generalize t.descendants id ++ [id] = doomed at *
    generalize t.unlink c id = s at *
    have restricts := unlinked.restricts mem linked
    have left_iff : ∀ p, p ∈ left ∨ t.Up id p →
        ((doomed.foldl remove s).contains p = true ↔ p ∉ doomed) := by
      intro p lost
      have there : t.contains p = true :=
        lost.elim (known p) fun up => contains_of_mem_childrenOf (linked.mem_of_up p id up)
      rw [unlinked.contains_stays_iff, and_iff_right there]
    refine ⟨⟨restricts, fun x => ?_, fun p => ?_, fun x there => ?_⟩,
      unlinked.linked_remove mem linked⟩
    · simp [unlinked.contains_stays_iff, mem]
    · rw [mem_noted_iff, and_comm, ← and_congr_left (left_iff p)]
      simp
    · obtain ⟨-, stays⟩ := unlinked.contains_stays_iff.mp there
      have still : (doomed.foldl remove s).placeOf? x = s.placeOf? x := by
        rw [placeOf?, get?_stays stays, ← placeOf?]
      rw [still]
      refine (edges x).imp_right ?_
      rintro ⟨⟨fill, p, up, held⟩, columns, place⟩
      constructor
      · -- a sibling of the widget stays, so their parent does
        have stays' := parent_stays mem stays (linked.up_of_mem_flatten held)
        refine ⟨(restricts.isFill_eq there).trans fill, p, mem_noted_iff.mpr ⟨.inr up, stays'⟩, ?_⟩
        rw [restricts.flatten_layersOf ((left_iff p (.inr up)).mpr stays')]
        exact List.mem_filter.mpr ⟨held, there⟩
      · rw [place, Option.map_map]
        rfl

/-! ### Any removals -/

theorem trimmed_foldl {s : WidgetTree × NameSet} (linked : s.1.Linked)
    (known : ∀ p ∈ s.2, s.1.contains p = true) (c : LayoutConfig) (ids : List WidgetId) :
    Trimmed s ids (ids.foldl (removeOne c) s) ∧ (ids.foldl (removeOne c) s).1.Linked := by
  induction ids generalizing s with
  | nil => exact ⟨.of_missing linked known (by simp), linked⟩
  | cons id ids ih =>
    obtain ⟨first, linked'⟩ := trimmed_removeOne linked c id known
    obtain ⟨rest, linked''⟩ := ih linked' fun p lost => ((first.mem_iff p).mp lost).1
    exact ⟨first.trans linked linked' rest, linked''⟩

/-- Removals of the same widgets leave the same, but for the edges that are open. -/
theorem Trimmed.agreesBut {s r q : WidgetTree × NameSet} {ids ids' : List WidgetId}
    (h : Trimmed s ids r) (h' : Trimmed s ids' q) (same : ∀ x, x ∈ ids' ↔ x ∈ ids) :
    AgreesBut (Pending r) r.1 q.1 ∧ r.2 = q.2 := by
  have contains : ∀ x, r.1.contains x = q.1.contains x := by
    intro x
    rw [Bool.eq_iff_iff, h.contains_iff, h'.contains_iff]
    simp only [same]
  have alike := h.restricts.alike h'.restricts contains
  have lost : r.2 = q.2 := by
    refine NameSet.ext_mem fun p => ?_
    rw [h.mem_iff, h'.mem_iff, contains]
    simp only [same]
  have pending : ∀ x, Pending q x ↔ Pending r x := fun x => by
    simp only [Pending, alike.isFill_eq, alike.layersOf_eq, lost]
  have missing : ∀ x, r.1.contains x = false → r.1.placeOf? x = q.1.placeOf? x := by
    intro x gone
    rw [placeOf?, placeOf?, get?_eq_none_iff.mpr gone, get?_eq_none_iff.mpr (contains x ▸ gone)]
  refine ⟨⟨alike, fun x settled => ?_, fun x => ?_⟩, lost⟩
  · cases there : r.1.contains x with
    | false => exact missing x there
    | true =>
      have before := (h.placed x there).resolve_right fun open' => settled open'.1
      have after := (h'.placed x (contains x ▸ there)).resolve_right fun open' =>
        settled ((pending x).mp open'.1)
      exact before.trans after.symm
  · cases there : r.1.contains x with
    | false => rw [missing x there]
    | true => exact (h.edgeless_eq there).trans (h'.edgeless_eq (contains x ▸ there)).symm

theorem removeWidgets_eq (c : LayoutConfig) (t : WidgetTree) (ids : List WidgetId) :
    t.removeWidgets c ids = (ids.foldl (removeOne c) (t, .empty)).2.toList.foldl (rearrange c)
      (ids.foldl (removeOne c) (t, .empty)).1 := rfl

/-- Removing widgets takes away those named and all that is below them, and nothing else. The
others are what they were, apart from their places and from the children that are gone. The order
of the names and repetitions among them do not matter, not even for places. -/
theorem Consistent.restricts_removeWidgets {t : WidgetTree} (h : t.Consistent) (c : LayoutConfig)
    (ids : List WidgetId) :
    (∀ x, (t.removeWidgets c ids).contains x = true ↔
      t.contains x = true ∧ ¬ ∃ id ∈ ids, Relation.ReflTransGen t.Up x id) ∧
    t.Restricts (t.removeWidgets c ids) ∧
    ∀ ids', (∀ x, x ∈ ids' ↔ x ∈ ids) →
      (t.removeWidgets c ids').widgets = (t.removeWidgets c ids).widgets := by
  have run := trimmed_foldl (s := (t, .empty)) h.linked
    (fun p never => absurd never (NameSet.mem_empty p)) c
  obtain ⟨trimmed, linked⟩ := run ids
  have alike := alike_foldl_tree (alike_rearrange c) (ids.foldl (removeOne c) (t, .empty)).2.toList
    (ids.foldl (removeOne c) (t, .empty)).1
  rw [← removeWidgets_eq] at alike
  refine ⟨fun x => ?_, trimmed.restricts.congr alike, fun ids' same => ?_⟩
  · rw [← alike.kin.contains_eq]
    exact trimmed.contains_iff x
  · obtain ⟨agrees, lost⟩ := trimmed.agreesBut (run ids').1 same
    have settled := agrees.foldl_rearrange c (linked.tidy (trimmed.restricts.nodup h.nodup))
      fun x pending => pending
    rw [removeWidgets_eq, removeWidgets_eq, ← lost]
    exact settled.widgets_eq.symm

/-- The inner canvas is removed with the filling widget in it, a sibling of that one before or after
it; the container around the canvas stays. -/
theorem restricts_removeWidgets_nested : nested.Consistent ∧
    (nested.removeWidgets {} ["c", "in", "a"]).contains "b" = false ∧
    (nested.removeWidgets {} ["c", "in", "a"]).contains "box" = true ∧
    nested.Restricts (nested.removeWidgets {} ["c", "in", "a"]) ∧
    (nested.removeWidgets {} ["in", "a", "c", "a"]).widgets =
      (nested.removeWidgets {} ["c", "in", "a"]).widgets := by
  have consistent : nested.Consistent := WellFormed.consistent (by decide +kernel)
  obtain ⟨left, restricts, same⟩ := consistent.restricts_removeWidgets {} ["c", "in", "a"]
  simp only [← isAncestorOrSelf_iff] at left
  refine ⟨consistent, ?_, ?_, restricts, same ["in", "a", "c", "a"] (by simp; tauto)⟩
  · rw [← Bool.not_eq_true, left]
    decide +kernel
  · rw [left]
    decide +kernel

end WidgetTree

end AppBuilder
