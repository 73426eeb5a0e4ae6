import AppBuilder.Proofs.Widget.WellFormed

/-!
The rule that the layers of a whole tree obey.

What is checked of a widget concerns that widget, its children and its parent. Put together, the
checks keep the whole tree in order (`Ordered`): a name has one place in one layer of one
container at most, since the container is the one parent that the widget records, and in the
layers of a container each child is counted once.

Main statement: `violations_eq_nil_iff_ordered`.
-/

namespace AppBuilder

/-! ### Places in layers -/

namespace Layers

/-- The name at a place in a layer. -/
def nameAt? (layers : List FlexLayer) (layer place : Nat) : Option WidgetId :=
  layers[layer]?.bind fun l => l.ids[place]?

theorem nameAt?_eq_some_iff {layers : List FlexLayer} {i j : Nat} {id : WidgetId} :
    nameAt? layers i j = some id ↔ ∃ l, layers[i]? = some l ∧ l.ids[j]? = some id :=
  Option.bind_eq_some_iff

/-- Layers hold the names at their places. -/
theorem mem_flatten_iff {layers : List FlexLayer} {id : WidgetId} :
    id ∈ flatten layers ↔ ∃ i j, nameAt? layers i j = some id := by
  simp only [nameAt?_eq_some_iff, flatten, List.mem_flatMap]
  constructor
  · rintro ⟨l, hl, hid⟩
    obtain ⟨i, hi⟩ := List.mem_iff_getElem?.mp hl
    obtain ⟨j, hj⟩ := List.mem_iff_getElem?.mp hid
    exact ⟨i, j, l, hi, hj⟩
  · rintro ⟨i, j, l, hi, hj⟩
    exact ⟨l, List.mem_of_getElem? hi, List.mem_of_getElem? hj⟩

/-- No name is twice in layers when different places hold different names. -/
theorem nodup_flatten_iff {layers : List FlexLayer} : (flatten layers).Nodup ↔
    ∀ i j i' j' id, nameAt? layers i j = some id → nameAt? layers i' j' = some id →
      i = i' ∧ j = j' := by
  simp only [nameAt?_eq_some_iff]
  rw [flatten, List.nodup_flatMap, List.pairwise_iff_getElem]
  constructor
  · rintro ⟨each, apart⟩ i j i' j' id ⟨l, hi, hj⟩ ⟨l', hi', hj'⟩
    obtain ⟨inside, rfl⟩ := List.getElem?_eq_some_iff.mp hi
    obtain ⟨inside', rfl⟩ := List.getElem?_eq_some_iff.mp hi'
    have mem := List.mem_of_getElem? hj
    have mem' := List.mem_of_getElem? hj'
    rcases Nat.lt_trichotomy i i' with below | rfl | above
    · exact absurd mem' (apart i i' inside inside' below mem)
    · have once := each _ (List.getElem_mem inside)
      refine ⟨rfl, (List.getElem?_inj ?_ once).mp (hj.trans hj'.symm)⟩
      exact (List.getElem?_eq_some_iff.mp hj).1
    · exact absurd mem (apart i' i inside' inside above mem')
  · intro sole
    refine ⟨fun l hl => ?_, fun i i' inside inside' below id hid hid' => ?_⟩
    · obtain ⟨i, hi⟩ := List.mem_iff_getElem?.mp hl
      rw [List.nodup_iff_getElem?_ne_getElem?]
      intro j j' before inside same
      have held := List.getElem?_eq_getElem inside
      have := (sole i j i j' _ ⟨l, hi, same.trans held⟩ ⟨l, hi, held⟩).2
      omega
    · obtain ⟨j, hj⟩ := List.mem_iff_getElem?.mp hid
      obtain ⟨j', hj'⟩ := List.mem_iff_getElem?.mp hid'
      have := (sole i j i' j' id ⟨_, List.getElem?_eq_getElem inside, hj⟩
        ⟨_, List.getElem?_eq_getElem inside', hj'⟩).1
      omega

end Layers

namespace WidgetTree

/-- A place in a layer of a container. -/
structure Slot where
  container : WidgetId
  layer : Nat
  place : Nat
deriving DecidableEq

/-- The name that a tree has in a slot. -/
def slotted? (t : WidgetTree) (s : Slot) : Option WidgetId :=
  Layers.nameAt? (t.layersOf s.container) s.layer s.place

/-! ### Order throughout a tree -/

/-- A tree whose layers and links are in order: no name is in two slots, and none in a slot of a
container that it does not record; layers hold the children of their container and nothing else;
children exist and record the only widget that lists them; recorded parents exist and list the
widget; and no layer is empty or has a stale flag. -/
structure Ordered (t : WidgetTree) : Prop where
  slot_unique : ∀ s s' id, t.slotted? s = some id → t.slotted? s' = some id → s = s'
  up_of_slotted : ∀ s id, t.slotted? s = some id → t.Up id s.container
  slotted_iff : ∀ p id, t.layersOf p ≠ [] →
    ((∃ s, s.container = p ∧ t.slotted? s = some id) ↔ id ∈ t.childrenOf p)
  child : ∀ p id, id ∈ t.childrenOf p →
    t.contains id = true ∧ t.Up id p ∧ ∀ q, id ∈ t.childrenOf q → q = p
  parent : ∀ id p, t.Up id p → t.contains p = true ∧ id ∈ t.childrenOf p
  sound : ∀ p, ∀ l ∈ t.layersOf p, l.children ≠ [] ∧ t.fills l.children = l.hasFill

section Ordered

variable {t : WidgetTree}

/-- The slots of a container hold what its layers hold. -/
theorem exists_slotted_iff {p id : WidgetId} :
    (∃ s : Slot, s.container = p ∧ t.slotted? s = some id) ↔
      id ∈ Layers.flatten (t.layersOf p) := by
  rw [Layers.mem_flatten_iff]
  constructor
  · rintro ⟨⟨_, i, j⟩, rfl, h⟩
    exact ⟨i, j, h⟩
  · rintro ⟨i, j, h⟩
    exact ⟨⟨p, i, j⟩, rfl, h⟩

/-- Links that agree at both ends, and layers that count each child once and nothing else, keep
the whole tree in order. -/
theorem Ordered.of_links (up_of_mem : ∀ p c, c ∈ t.childrenOf p → t.Up c p)
    (mem_of_up : ∀ p c, t.Up c p → c ∈ t.childrenOf p)
    (sound : ∀ p, ∀ l ∈ t.layersOf p, l.children ≠ [] ∧ t.fills l.children = l.hasFill)
    (count : ∀ p, t.layersOf p ≠ [] → ∀ id,
      (Layers.flatten (t.layersOf p)).count id = if id ∈ t.childrenOf p then 1 else 0) :
    t.Ordered := by
  have held : ∀ p id, t.layersOf p ≠ [] →
      (id ∈ Layers.flatten (t.layersOf p) ↔ id ∈ t.childrenOf p) := by
    intro p id layered
    rw [← List.count_pos_iff, count p layered]
    split <;> simp [*]
  have layered : ∀ {p id}, id ∈ Layers.flatten (t.layersOf p) → t.layersOf p ≠ [] := by
    intro p id mem unlayered
    simp [unlayered, Layers.flatten] at mem
  have recorded : ∀ s id, t.slotted? s = some id → t.Up id s.container := by
    intro s id hs
    have mem := exists_slotted_iff.mp ⟨s, rfl, hs⟩
    exact up_of_mem _ _ ((held _ id (layered mem)).mp mem)
  refine ⟨?_, recorded, ?_, ?_, ?_, sound⟩
  · -- the container is the parent recorded, and in its layers the name is counted once
    rintro ⟨p, i, j⟩ ⟨p', i', j'⟩ id hs hs'
    obtain rfl := (recorded _ id hs).unique (recorded _ id hs')
    have filled := layered (exists_slotted_iff.mp ⟨_, rfl, hs⟩)
    have nodup : (Layers.flatten (t.layersOf p)).Nodup := by
      refine List.nodup_iff_count_le_one.mpr fun x => ?_
      rw [count p filled]
      split <;> simp
    obtain ⟨rfl, rfl⟩ := Layers.nodup_flatten_iff.mp nodup i j i' j' id hs hs'
    rfl
  · intro p id filled
    rw [exists_slotted_iff, held p id filled]
  · intro p id mem
    have up := up_of_mem p id mem
    exact ⟨contains_of_parentOf? up, up, fun q mem' => (up_of_mem q id mem').unique up⟩
  · intro id p up
    have mem := mem_of_up p id up
    exact ⟨contains_of_mem_childrenOf mem, mem⟩

/-- In a tree in order the layers of a container count each child once and nothing else. -/
theorem Ordered.count_eq (h : t.Ordered) {p : WidgetId} (layered : t.layersOf p ≠ [])
    (id : WidgetId) :
    (Layers.flatten (t.layersOf p)).count id = if id ∈ t.childrenOf p then 1 else 0 := by
  have nodup : (Layers.flatten (t.layersOf p)).Nodup := by
    refine Layers.nodup_flatten_iff.mpr fun i j i' j' id hi hi' => ?_
    have same := h.slot_unique ⟨p, i, j⟩ ⟨p, i', j'⟩ id hi hi'
    exact ⟨congrArg Slot.layer same, congrArg Slot.place same⟩
  rw [nodup.count]
  simp only [← exists_slotted_iff, h.slotted_iff p id layered]

/-- A tree in which every widget stands under its own name passes all checks just when its layers
and links are in order throughout. -/
theorem violations_eq_nil_iff_ordered (keyed : ∀ id w, t.get? id = some w → w.id = id) :
    t.violations = [] ↔ t.Ordered := by
  have own : ∀ id w, t.get? id = some w → (t.widgetViolations w = [] ↔
      (∀ c ∈ t.childrenOf id, t.Up c id) ∧ (∀ p, t.Up id p → id ∈ t.childrenOf p) ∧
        (t.layersOf id ≠ [] →
          (∀ l ∈ t.layersOf id, l.children ≠ [] ∧ t.fills l.children = l.hasFill) ∧
          ∀ c, (Layers.flatten (t.layersOf id)).count c =
            if c ∈ t.childrenOf id then 1 else 0)) := by
    intro id w hw
    simp only [widgetViolations, List.append_eq_nil_iff, List.filterMap_eq_nil_iff,
      childViolation?_eq_none_iff, Option.toList_eq_nil_iff, parentViolation?_eq_none_iff,
      allLayerViolations_eq_nil_iff_count, keyed id w hw, Up, parentOf?_of_get? hw,
      childrenOf_of_get? hw, layersOf_of_get? hw, and_assoc]
  rw [violations_eq_nil_iff_forall]
  constructor
  · intro clean
    have each := fun id w hw => (own id w hw).mp (clean id w hw)
    have layers : ∀ p, t.layersOf p ≠ [] →
        (∀ l ∈ t.layersOf p, l.children ≠ [] ∧ t.fills l.children = l.hasFill) ∧
        ∀ c, (Layers.flatten (t.layersOf p)).count c =
          if c ∈ t.childrenOf p then 1 else 0 := by
      intro p layered
      cases hw : t.get? p with
      | none => simp [layersOf, hw] at layered
      | some w => exact (each p w hw).2.2 layered
    refine .of_links ?_ ?_ ?_ fun p layered => (layers p layered).2
    · intro p c hc
      obtain ⟨w, hw⟩ := contains_iff.mp (contains_of_mem_childrenOf hc)
      exact (each p w hw).1 c hc
    · intro p c up
      obtain ⟨w, hw⟩ := contains_iff.mp (contains_of_parentOf? up)
      exact (each c w hw).2.1 p up
    · intro p l hl
      exact (layers p (List.ne_nil_of_mem hl)).1 l hl
  · intro ordered id w hw
    refine (own id w hw).mpr ⟨?_, ?_, fun layered => ⟨ordered.sound id, ?_⟩⟩
    · exact fun c hc => (ordered.child id c hc).2.1
    · exact fun p up => (ordered.parent id p up).2
    · exact ordered.count_eq layered

/-- A canvas with a bordered container in its second layer, and in that a canvas with layers of its
own. -/
def nested : WidgetTree :=
  .ofList [
    { Widget.ofType mainContainerId canvasType with
      children := ["a", "box"]
      layers := [⟨[⟨"a", .start⟩], false⟩, ⟨[⟨"box", .start⟩], false⟩] },
    { Widget.ofType "a" "TEXT_WIDGET" with parent := some mainContainerId },
    { Widget.ofType "box" containerType with parent := some mainContainerId, children := ["in"] },
    { Widget.ofType "in" canvasType with
      parent := some "box"
      children := ["c", "b"]
      layers := [⟨[⟨"b", .start⟩, ⟨"c", .finish⟩], true⟩] },
    { Widget.ofType "b" "TEXT_WIDGET" with parent := some "in", sizing := .fill },
    { Widget.ofType "c" "TEXT_WIDGET" with parent := some "in" }]

theorem violations_eq_nil_iff_ordered_nested : nested.violations = [] ∧ nested.Ordered := by
  have keyed : ∀ id w, nested.get? id = some w → w.id = id := WellFormed.keyed (by decide +kernel)
  have clean : nested.violations = [] := by decide +kernel
  exact ⟨clean, (violations_eq_nil_iff_ordered keyed).mp clean⟩

end Ordered

end WidgetTree

end AppBuilder
