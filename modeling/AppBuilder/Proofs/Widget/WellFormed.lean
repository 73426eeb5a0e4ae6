import AppBuilder.Layout.Layer
import AppBuilder.Proofs.Search.Preorder
import Mathlib.Data.List.Nodup
import Mathlib.Data.List.Perm.Subperm

/-!
Well-formed widget trees.

A tree without violations is one whose links agree at both ends and whose layers arrange the
children of their container (`violations_eq_nil_iff`). In a well-formed tree every way up ends
at the one root, so no widget is above itself (`not_up_self`).

In every tree, well formed or not, climbing meets all that is above a widget (`climb_iff`), and the
descendants of a widget are what the children lists lead down to (`mem_descendants_iff`). Where the
links agree, these are the widgets that it is above (`Linked.mem_descendants_iff`).
-/

namespace AppBuilder.WidgetTree

/-! ### Looking up -/

theorem contains_iff {t : WidgetTree} {id : WidgetId} :
    t.contains id = true ↔ ∃ w, t.get? id = some w := by
  simp only [contains, Dict.contains, get?, Option.isSome_iff_exists, Option.map_eq_some_iff]
  constructor
  · rintro ⟨e, he⟩
    exact ⟨e.widget, e, he, rfl⟩
  · rintro ⟨_, e, he, -⟩
    exact ⟨e, he⟩

theorem get?_eq_none_iff {t : WidgetTree} {id : WidgetId} :
    t.get? id = none ↔ t.contains id = false := by
  rw [← Bool.not_eq_true, contains_iff, Option.eq_none_iff_forall_ne_some, not_exists]

theorem mem_values_iff {t : WidgetTree} {w : Widget} :
    (∃ e ∈ t.entries.values, e.widget = w) ↔ ∃ id, t.get? id = some w := by
  simp only [Dict.values, List.mem_map, Prod.exists, Dict.mem_entries_iff, get?,
    Option.map_eq_some_iff]
  constructor
  · rintro ⟨e, ⟨id, _, he, rfl⟩, hw⟩
    exact ⟨id, _, he, hw⟩
  · rintro ⟨id, e, he, hw⟩
    exact ⟨e, ⟨id, e, he, rfl⟩, hw⟩

theorem parentOf?_of_get? {t : WidgetTree} {id : WidgetId} {w : Widget}
    (h : t.get? id = some w) : t.parentOf? id = w.parent := by
  simp [parentOf?, h]

theorem childrenOf_of_get? {t : WidgetTree} {id : WidgetId} {w : Widget}
    (h : t.get? id = some w) : t.childrenOf id = w.children := by
  simp [childrenOf, h]

theorem layersOf_of_get? {t : WidgetTree} {id : WidgetId} {w : Widget}
    (h : t.get? id = some w) : t.layersOf id = w.layers := by
  simp [layersOf, h]

theorem contains_of_parentOf? {t : WidgetTree} {id p : WidgetId} (h : t.parentOf? id = some p) :
    t.contains id = true := by
  obtain ⟨w, hw, -⟩ := Option.bind_eq_some_iff.mp h
  exact contains_iff.mpr ⟨w, hw⟩

theorem contains_of_mem_childrenOf {t : WidgetTree} {id p : WidgetId} (h : id ∈ t.childrenOf p) :
    t.contains p = true := by
  unfold childrenOf at h
  split at h
  · exact contains_iff.mpr ⟨_, ‹_›⟩
  · simp at h

theorem contains_of_layered {t : WidgetTree} {id : WidgetId} (layered : t.layersOf id ≠ []) :
    t.contains id = true := by
  unfold layersOf at layered
  split at layered
  · exact contains_iff.mpr ⟨_, ‹_›⟩
  · exact absurd rfl layered

/-! ### Links and layers -/

/-- A widget records another one as its parent. -/
def Up (t : WidgetTree) (id parent : WidgetId) : Prop := t.parentOf? id = some parent

/-- Layers that hold each of some children once, none of them empty or with a stale flag. -/
structure Arranges (t : WidgetTree) (layers : List FlexLayer) (children : List WidgetId) :
    Prop where
  filled : ∀ l ∈ layers, l.children ≠ []
  flagged : ∀ l ∈ layers, t.fills l.children = l.hasFill
  perm : (Layers.flatten layers).Perm children

/-- Links that agree at both ends, and layers that arrange the children. -/
structure Linked (t : WidgetTree) : Prop where
  up_of_mem : ∀ p c, c ∈ t.childrenOf p → t.Up c p
  mem_of_up : ∀ p c, t.Up c p → c ∈ t.childrenOf p
  arranged : ∀ id, t.layersOf id ≠ [] → t.Arranges (t.layersOf id) (t.childrenOf id)

theorem placesIn_eq_count (layers : List FlexLayer) (id : WidgetId) :
    placesIn layers id = (Layers.flatten layers).count id := by
  have names : Layers.flatten layers = (layers.flatMap (·.children)).map (·.id) :=
    List.map_flatMap.symm
  rw [names, placesIn, List.count_eq_length_filter, List.filter_map, List.length_map]
  rfl

section Violations

variable {t : WidgetTree}

theorem childViolation?_eq_none_iff {w : Widget} {c : WidgetId} :
    t.childViolation? w c = none ↔ t.Up c w.id := by
  unfold childViolation? Up parentOf?
  cases t.get? c with
  | none => simp
  | some cw => simp

theorem parentViolation?_eq_none_iff {w : Widget} :
    t.parentViolation? w = none ↔ ∀ p, w.parent = some p → w.id ∈ t.childrenOf p := by
  unfold parentViolation?
  cases w.parent with
  | none => simp
  | some p => simp

theorem layerViolations_eq_nil_iff {w : Widget} {index : Nat} {l : FlexLayer} :
    t.layerViolations w index l = [] ↔ l.children ≠ [] ∧ t.fills l.children = l.hasFill ∧
      ∀ id ∈ l.ids, id ∈ w.children := by
  simp only [layerViolations, List.append_eq_nil_iff, ite_eq_right_iff, imp_false,
    List.isEmpty_iff, ite_eq_left_iff, Classical.not_not, List.cons_ne_nil, List.map_eq_nil_iff,
    List.filter_eq_nil_iff, Bool.not_eq_true', Bool.not_eq_false, List.contains_iff_mem,
    FlexLayer.ids, List.forall_mem_map, and_assoc, ne_eq]

/-- Nothing is wrong with the layers of a widget when none is empty or has a stale flag and they
have each child once and nothing else. -/
theorem allLayerViolations_eq_nil_iff_count {w : Widget} :
    t.allLayerViolations w = [] ↔ (w.layers ≠ [] →
      (∀ l ∈ w.layers, l.children ≠ [] ∧ t.fills l.children = l.hasFill) ∧
        ∀ id, (Layers.flatten w.layers).count id = if id ∈ w.children then 1 else 0) := by
  unfold allLayerViolations
  by_cases unlayered : w.layers = []
  · simp [unlayered]
  have layers : w.layers.isEmpty = false := by simpa using unlayered
  simp only [layers, Bool.false_eq_true, if_false, List.append_eq_nil_iff,
    List.flatMap_eq_nil_iff, layerViolations_eq_nil_iff, List.filterMap_eq_nil_iff,
    ite_eq_left_iff, reduceCtorEq, imp_false, Classical.not_not, placesIn_eq_count, unlayered,
    ne_eq, not_false_eq_true, true_imp_iff]
  have each : ∀ {P : FlexLayer → Prop}, (∀ l ∈ w.layers.zipIdx, P l.1) ↔ ∀ l ∈ w.layers, P l := by
    intro P
    constructor
    · intro h l hl
      obtain ⟨i, hi, rfl⟩ := List.mem_iff_getElem.mp hl
      exact h (w.layers[i], i) (List.mk_mem_zipIdx_iff_getElem?.mpr (by simp))
    · intro h l hl
      exact h _ (List.fst_mem_of_mem_zipIdx hl)
  rw [each (P := fun l => l.children ≠ [] ∧ t.fills l.children = l.hasFill ∧
    ∀ id ∈ l.ids, id ∈ w.children)]
  constructor
  · rintro ⟨sound, once⟩
    refine ⟨fun l hl => ⟨(sound l hl).1, (sound l hl).2.1⟩, fun id => ?_⟩
    split
    · exact once id ‹_›
    · rename_i hid
      refine List.count_eq_zero_of_not_mem fun held => hid ?_
      obtain ⟨l, hl, hid'⟩ := List.mem_flatMap.mp held
      exact (sound l hl).2.2 id hid'
  · rintro ⟨sound, count⟩
    refine ⟨fun l hl => ⟨(sound l hl).1, (sound l hl).2, fun id hid => ?_⟩, fun id hid => ?_⟩
    · by_contra foreign
      have absent := count id
      rw [if_neg foreign, List.count_eq_zero] at absent
      exact absent (List.mem_flatMap.mpr ⟨l, hl, hid⟩)
    · rw [count, if_pos hid]

theorem allLayerViolations_eq_nil_iff {w : Widget} (nodup : w.children.Nodup) :
    t.allLayerViolations w = [] ↔ (w.layers ≠ [] → t.Arranges w.layers w.children) := by
  have once : ∀ id, w.children.count id = if id ∈ w.children then 1 else 0 := fun id => nodup.count
  rw [allLayerViolations_eq_nil_iff_count]
  refine imp_congr_right fun _ => ⟨fun ⟨sound, count⟩ => ?_, fun arranged => ⟨?_, fun id => ?_⟩⟩
  · refine ⟨fun l hl => (sound l hl).1, fun l hl => (sound l hl).2, List.perm_iff_count.mpr ?_⟩
    exact fun id => (count id).trans (once id).symm
  · exact fun l hl => ⟨arranged.filled l hl, arranged.flagged l hl⟩
  · rw [arranged.perm.count_eq, once]

/-- Nothing is wrong with a tree when nothing is wrong with any of its widgets. -/
theorem violations_eq_nil_iff_forall :
    t.violations = [] ↔ ∀ id w, t.get? id = some w → t.widgetViolations w = [] := by
  rw [violations, List.flatMap_eq_nil_iff]
  constructor
  · intro h id w hw
    obtain ⟨e, he, rfl⟩ := mem_values_iff.mpr ⟨id, hw⟩
    exact h e he
  · intro h e he
    obtain ⟨id, hw⟩ := mem_values_iff.mp ⟨e, he, rfl⟩
    exact h id _ hw

/-- Nothing is wrong with a tree when its links agree and its layers arrange the children. -/
theorem violations_eq_nil_iff (keyed : ∀ id w, t.get? id = some w → w.id = id)
    (nodup : ∀ id, (t.childrenOf id).Nodup) : t.violations = [] ↔ t.Linked := by
  have own : ∀ id w, t.get? id = some w → (t.widgetViolations w = [] ↔
      (∀ c ∈ t.childrenOf id, t.Up c id) ∧ (∀ p, t.Up id p → id ∈ t.childrenOf p) ∧
        (t.layersOf id ≠ [] → t.Arranges (t.layersOf id) (t.childrenOf id))) := by
    intro id w hw
    have unique : w.children.Nodup := childrenOf_of_get? hw ▸ nodup id
    simp only [widgetViolations, List.append_eq_nil_iff, List.filterMap_eq_nil_iff,
      childViolation?_eq_none_iff, Option.toList_eq_nil_iff, parentViolation?_eq_none_iff,
      allLayerViolations_eq_nil_iff unique, keyed id w hw, Up, parentOf?_of_get? hw,
      childrenOf_of_get? hw, layersOf_of_get? hw, and_assoc]
  rw [violations_eq_nil_iff_forall]
  constructor
  · intro h
    refine ⟨?_, ?_, ?_⟩
    · intro p c hc
      obtain ⟨w, hw⟩ := contains_iff.mp (contains_of_mem_childrenOf hc)
      exact ((own p w hw).mp (h p w hw)).1 c hc
    · intro p c hup
      obtain ⟨w, hw⟩ := contains_iff.mp (contains_of_parentOf? hup)
      exact ((own c w hw).mp (h c w hw)).2.1 p hup
    · intro id layered
      obtain ⟨w, hw⟩ := contains_iff.mp (contains_of_layered layered)
      exact ((own id w hw).mp (h id w hw)).2.2 layered
  · intro h id w hw
    exact (own id w hw).mpr ⟨h.up_of_mem id, fun p => h.mem_of_up p id, h.arranged id⟩

end Violations

/-! ### Roots -/

/-- One widget has no parent, and every way up ends there. -/
def Rooted (t : WidgetTree) : Prop :=
  ∃ root, (∀ id, t.contains id = true ∧ t.parentOf? id = none ↔ id = root) ∧
    ∀ id, t.contains id = true → Relation.ReflTransGen t.Up id root

/-- There is a canvas of a name. -/
def IsCanvas (t : WidgetTree) (id : WidgetId) : Prop := ∃ w, t.get? id = some w ∧ w.isCanvas = true

/-- Every widget stands under its own name, nothing is wrong, no child is listed twice, every way
up ends at the only root, and only canvases have layers. -/
structure WellFormed (t : WidgetTree) : Prop where
  keyed : ∀ id w, t.get? id = some w → w.id = id
  valid : t.violations = []
  nodup : ∀ id, (t.childrenOf id).Nodup
  rooted : t.Rooted
  layered : ∀ id, t.layersOf id ≠ [] → t.IsCanvas id

/-- A tree with agreeing links is well formed when the rest is. -/
theorem WellFormed.of_linked {t : WidgetTree} (keyed : ∀ id w, t.get? id = some w → w.id = id)
    (nodup : ∀ id, (t.childrenOf id).Nodup) (linked : t.Linked) (rooted : t.Rooted)
    (layered : ∀ id, t.layersOf id ≠ [] → t.IsCanvas id) : t.WellFormed :=
  ⟨keyed, (violations_eq_nil_iff keyed nodup).mpr linked, nodup, rooted, layered⟩

theorem WellFormed.linked {t : WidgetTree} (h : t.WellFormed) : t.Linked :=
  (violations_eq_nil_iff h.keyed h.nodup).mp h.valid

/-- Every widget stands under its own name, nothing is wrong, no child is listed twice and every
way up ends at the only root. -/
structure Consistent (t : WidgetTree) : Prop where
  keyed : ∀ id w, t.get? id = some w → w.id = id
  valid : t.violations = []
  nodup : ∀ id, (t.childrenOf id).Nodup
  rooted : t.Rooted

theorem WellFormed.consistent {t : WidgetTree} (h : t.WellFormed) : t.Consistent :=
  ⟨h.keyed, h.valid, h.nodup, h.rooted⟩

theorem Consistent.linked {t : WidgetTree} (h : t.Consistent) : t.Linked :=
  (violations_eq_nil_iff h.keyed h.nodup).mp h.valid

theorem Up.unique {t : WidgetTree} {id p q : WidgetId} (h : t.Up id p) (h' : t.Up id q) : p = q :=
  Option.some.inj (h.symm.trans h')

/-- A way up is one in every tree that records the same parents along it. -/
theorem up_path_congr {t t' : WidgetTree} {id top : WidgetId}
    (path : Relation.ReflTransGen t.Up id top)
    (same : ∀ x, Relation.ReflTransGen t.Up id x → t'.parentOf? x = t.parentOf? x) :
    Relation.ReflTransGen t'.Up id top := by
  induction path using Relation.ReflTransGen.head_induction_on with
  | refl => exact .refl
  | head step _ ih =>
    have step' := (same _ .refl).trans step
    exact .head step' (ih fun x path => same x (.head step path))

/-- The ways up to a root end there. -/
theorem rooted_of_chains {t : WidgetTree} {root : WidgetId} (there : t.contains root = true)
    (top : t.parentOf? root = none)
    (chains : ∀ id, t.contains id = true → Relation.ReflTransGen t.Up id root) : t.Rooted := by
  refine ⟨root, fun id => ⟨fun ⟨hid, alone⟩ => ?_, fun h => h ▸ ⟨there, top⟩⟩, chains⟩
  cases chains id hid using Relation.ReflTransGen.head_induction_on with
  | refl => rfl
  | head step _ => simp [Up, alone] at step

/-- No widget is above itself. -/
theorem Rooted.not_up_self {t : WidgetTree} (h : t.Rooted) (id : WidgetId) :
    ¬ Relation.TransGen t.Up id id := by
  obtain ⟨root, top, chains⟩ := h
  intro loop
  obtain ⟨p, step, -⟩ := Relation.TransGen.head'_iff.mp loop
  have path := chains id (contains_of_parentOf? step)
  clear step
  induction path using Relation.ReflTransGen.head_induction_on with
  | refl =>
    obtain ⟨q, step, -⟩ := Relation.TransGen.head'_iff.mp loop
    simp [Up, ((top root).mpr rfl).2] at step
  | head step _ ih =>
    -- a loop goes through the parent, so the parent is on it
    obtain ⟨q, step', back⟩ := Relation.TransGen.head'_iff.mp loop
    obtain rfl := step.unique step'
    exact ih (Relation.TransGen.tail' back step)

/-! ### Climbing -/

/-- There are no more names of widgets than widgets. -/
theorem length_le_size {t : WidgetTree} {ids : List WidgetId} (nodup : ids.Nodup)
    (known : ∀ id ∈ ids, t.contains id = true) : ids.length ≤ t.size := by
  have sub : ids ⊆ t.entries.keys := fun id hid => (Dict.mem_keys_iff _ _).mpr (known id hid)
  simpa [size, Dict.size, Dict.keys] using (nodup.subperm sub).length_le

/-- There are as many widgets as names of widgets. -/
theorem size_eq_length {t : WidgetTree} {ids : List WidgetId} (nodup : ids.Nodup)
    (known : ∀ id, t.contains id = true ↔ id ∈ ids) : t.size = ids.length := by
  have keys : t.entries.keys.Nodup := (Dict.pairwise_keys _).imp String.ne_of_lt
  have perm : t.entries.keys.Perm ids := (List.perm_ext_iff_of_nodup keys nodup).mpr fun id =>
    (Dict.mem_keys_iff _ _).trans (known id)
  simpa [size, Dict.size, Dict.keys] using perm.length_eq

/-- The tree as a network from each widget to its parent. -/
def toParents (t : WidgetTree) : Network WidgetId :=
  ⟨t.entries.keys, fun id => (t.parentOf? id).toList⟩

theorem mem_successors_toParents {t : WidgetTree} {id parent : WidgetId} :
    parent ∈ t.toParents.successors id ↔ t.Up id parent := by
  unfold Network.successors
  split
  · rw [toParents, Option.mem_toList, Up]
  · rename_i missing
    refine iff_of_false List.not_mem_nil fun up => missing ?_
    exact (Dict.mem_keys_iff _ _).mpr (contains_of_parentOf? up)

theorem climb_succ_iff {t : WidgetTree} {candidate id : WidgetId} {steps : Nat} :
    isAncestorOrSelf.climb t candidate (steps + 1) id = true ↔ id = candidate ∨
      ∃ parent, t.Up id parent ∧ isAncestorOrSelf.climb t candidate steps parent = true := by
  rw [isAncestorOrSelf.climb]
  by_cases same : id = candidate
  · simp [same]
  · cases up : t.parentOf? id <;> simp [same, Up, up]

/-- With some widgets met before, a climb that has as many steps as there are others, and one more,
meets all that can be reached without them: every step but the last meets a further widget. -/
theorem climb_of_reachesOutside {t : WidgetTree} {candidate id : WidgetId} (seen : List WidgetId)
    (nodup : seen.Nodup) (known : ∀ s ∈ seen, t.contains s = true) (fresh : id ∉ seen)
    (path : t.toParents.ReachesOutside seen id candidate) :
    isAncestorOrSelf.climb t candidate (t.size + 1 - seen.length) id = true := by
  induction left : t.size + 1 - seen.length generalizing id seen with
  | zero =>
    have := length_le_size nodup known
    omega
  | succ left ih =>
    by_cases same : candidate = id
    · exact climb_succ_iff.mpr (.inl same.symm)
    obtain ⟨parent, step, fresh', path'⟩ := path.leaves same
    have up : t.Up id parent := mem_successors_toParents.mp step
    have known' : ∀ s ∈ id :: seen, t.contains s = true :=
      List.forall_mem_cons.mpr ⟨contains_of_parentOf? up, known⟩
    refine climb_succ_iff.mpr (.inr ⟨parent, up, ?_⟩)
    exact ih (id :: seen) (List.nodup_cons.mpr ⟨fresh, nodup⟩) known' fresh' path'
      (by rw [List.length_cons]; omega)

theorem up_of_climb {t : WidgetTree} {candidate id : WidgetId} {steps : Nat}
    (met : isAncestorOrSelf.climb t candidate steps id = true) :
    Relation.ReflTransGen t.Up id candidate := by
  induction steps generalizing id with
  | zero => simp [isAncestorOrSelf.climb] at met
  | succ steps ih =>
    rcases climb_succ_iff.mp met with rfl | ⟨parent, up, above⟩
    · exact .refl
    · exact .head up (ih above)

/-- A climb that goes on meets what was met. -/
theorem climb_mono {t : WidgetTree} {candidate id : WidgetId} {steps more : Nat}
    (le : steps ≤ more) (met : isAncestorOrSelf.climb t candidate steps id = true) :
    isAncestorOrSelf.climb t candidate more id = true := by
  induction steps generalizing id more with
  | zero => simp [isAncestorOrSelf.climb] at met
  | succ steps ih =>
    obtain ⟨more, rfl⟩ := Nat.exists_eq_add_one.mpr (Nat.zero_lt_of_lt le)
    rcases climb_succ_iff.mp met with same | ⟨parent, up, above⟩
    · exact climb_succ_iff.mpr (.inl same)
    · exact climb_succ_iff.mpr (.inr ⟨parent, up, ih (Nat.le_of_succ_le_succ le) above⟩)

/-- More steps than there are widgets meet all that is above a widget, whatever the parents are. -/
theorem climb_iff {t : WidgetTree} {candidate id : WidgetId} {steps : Nat}
    (room : t.size < steps) : isAncestorOrSelf.climb t candidate steps id = true ↔
      Relation.ReflTransGen t.Up id candidate := by
  refine ⟨up_of_climb, fun path => climb_mono room ?_⟩
  refine climb_of_reachesOutside [] .nil (by simp) List.not_mem_nil ?_
  simpa only [Network.reachesOutside_nil, Network.Reaches, mem_successors_toParents] using path

/-- What is met on the way up is all that is above a widget. -/
theorem isAncestorOrSelf_iff {t : WidgetTree} {candidate id : WidgetId} :
    t.isAncestorOrSelf candidate id = true ↔ Relation.ReflTransGen t.Up id candidate :=
  climb_iff (Nat.lt_succ_self _)

/-! ### Below a widget -/

theorem successors_toChildren (t : WidgetTree) (id : WidgetId) :
    t.toChildren.successors id = t.childrenOf id := by
  refine ite_eq_left_iff.mpr fun hid => ?_
  refine (List.eq_nil_iff_forall_not_mem.mpr fun c hc => hid ?_).symm
  exact (Dict.mem_keys_iff _ _).mpr (contains_of_mem_childrenOf hc)

/-- A widget lists another one as its child. -/
def Down (t : WidgetTree) (id child : WidgetId) : Prop := child ∈ t.childrenOf id

/-- The descendants of a widget are what the children lists lead down to from it. -/
theorem mem_descendants_iff {t : WidgetTree} {id c : WidgetId} :
    c ∈ t.descendants id ↔ Relation.TransGen t.Down id c := by
  simp only [descendants, Network.mem_preorder_iff, Network.Reaches, successors_toChildren,
    Relation.TransGen.head'_iff]
  rfl

theorem Linked.down_eq {t : WidgetTree} (h : t.Linked) : t.Down = Function.swap t.Up := by
  funext p c
  exact propext ⟨h.up_of_mem p c, h.mem_of_up p c⟩

/-- The widgets below a widget are those that it is above. -/
theorem Linked.mem_descendants_iff {t : WidgetTree} (h : t.Linked) {id c : WidgetId} :
    c ∈ t.descendants id ↔ Relation.TransGen t.Up c id := by
  rw [WidgetTree.mem_descendants_iff, h.down_eq, Relation.transGen_swap]

/-! ### Checking -/

section Checking

variable {t : WidgetTree}

theorem forall_childrenOf_iff {P : List WidgetId → Prop} (bare : P []) :
    (∀ id, P (t.childrenOf id)) ↔ ∀ e ∈ t.entries.values, P e.widget.children := by
  constructor
  · intro all e he
    obtain ⟨id, hw⟩ := mem_values_iff.mp ⟨e, he, rfl⟩
    exact childrenOf_of_get? hw ▸ all id
  · intro all id
    cases hw : t.get? id with
    | none => simpa [childrenOf, hw] using bare
    | some w =>
      obtain ⟨e, he, rfl⟩ := mem_values_iff.mpr ⟨id, hw⟩
      exact childrenOf_of_get? hw ▸ all e he

theorem rooted_iff : t.Rooted ↔ ∃ root ∈ t.entries.keys, t.parentOf? root = none ∧
    ∀ id ∈ t.entries.keys, t.isAncestorOrSelf root id = true := by
  constructor
  · intro rooted
    obtain ⟨root, top, chains⟩ := rooted
    obtain ⟨there, alone⟩ := (top root).mpr rfl
    refine ⟨root, (Dict.mem_keys_iff _ _).mpr there, alone, fun id hid => ?_⟩
    exact isAncestorOrSelf_iff.mpr (chains id ((Dict.mem_keys_iff _ _).mp hid))
  · rintro ⟨root, there, alone, below⟩
    refine rooted_of_chains ((Dict.mem_keys_iff _ _).mp there) alone fun id hid => ?_
    exact up_of_climb (below id ((Dict.mem_keys_iff _ _).mpr hid))

/-- Whether a tree is well formed can be told from its entries. -/
theorem wellFormed_iff : t.WellFormed ↔
    (∀ e ∈ t.entries.entries, e.2.widget.id = e.1) ∧ t.violations = [] ∧
    (∀ e ∈ t.entries.values, e.widget.children.Nodup) ∧
    (∃ root ∈ t.entries.keys, t.parentOf? root = none ∧
      ∀ id ∈ t.entries.keys, t.isAncestorOrSelf root id = true) ∧
    ∀ e ∈ t.entries.values, e.widget.layers ≠ [] → e.widget.isCanvas = true := by
  have keyed : (∀ id w, t.get? id = some w → w.id = id) ↔
      ∀ e ∈ t.entries.entries, e.2.widget.id = e.1 := by
    simp only [Prod.forall, Dict.mem_entries_iff, get?, Option.map_eq_some_iff]
    constructor
    · intro h id e he
      exact h id e.widget ⟨e, he, rfl⟩
    · rintro h id w ⟨e, he, rfl⟩
      exact h id e he
  have layered : (∀ id, t.layersOf id ≠ [] → t.IsCanvas id) ↔
      ∀ e ∈ t.entries.values, e.widget.layers ≠ [] → e.widget.isCanvas = true := by
    constructor
    · intro all e he filled
      obtain ⟨id, hw⟩ := mem_values_iff.mp ⟨e, he, rfl⟩
      obtain ⟨w, hw', canvas⟩ := all id (layersOf_of_get? hw ▸ filled)
      exact Option.some.inj (hw.symm.trans hw') ▸ canvas
    · intro all id filled
      obtain ⟨w, hw⟩ := contains_iff.mp (contains_of_layered filled)
      obtain ⟨e, he, rfl⟩ := mem_values_iff.mpr ⟨id, hw⟩
      exact ⟨_, hw, all e he (layersOf_of_get? hw ▸ filled)⟩
  rw [← keyed, ← forall_childrenOf_iff (P := List.Nodup) .nil, ← rooted_iff, ← layered]
  constructor
  · intro h
    exact ⟨h.keyed, h.valid, h.nodup, h.rooted, h.layered⟩
  · rintro ⟨keyed, valid, nodup, rooted, layered⟩
    exact ⟨keyed, valid, nodup, rooted, layered⟩

instance (id : WidgetId) : Decidable (t.IsCanvas id) :=
  decidable_of_iff ((t.get? id).any Widget.isCanvas = true) (by simp [IsCanvas, Option.any_eq_true])

instance : Decidable t.WellFormed := decidable_of_iff _ wellFormed_iff.symm

end Checking

end AppBuilder.WidgetTree
