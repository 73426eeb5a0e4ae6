import AppBuilder.Proofs.Layout.Move

/-!
What a drop does to a vertical container.

Widgets that are dropped into a container come out of all its layers first. Then they make a
layer of their own (`Consistent.layersOf_moveTo_of_new`) or are merged into a bucket of a layer
that is left (`Consistent.layersOf_moveTo_of_merged`), and they stand together among its children
(`Consistent.childrenOf_moveTo`). A layer whose children stand in the order of their buckets
keeps that order, the dropped widgets being inserted in it (`FlexLayer.Packed.children_merged`).
-/

namespace AppBuilder

/-! ### Inserting into a list -/

section InsertAt

variable {α : Type} (place : Nat) (items xs ys : List α)

theorem map_insertAt {β : Type} (f : α → β) :
    (insertAt place items xs).map f = insertAt place (items.map f) (xs.map f) := by
  simp [insertAt, List.map_take, List.map_drop]

theorem insertAt_min : insertAt (min place xs.length) items xs = insertAt place items xs := by
  rcases Nat.le_total place xs.length with le | le
  · rw [Nat.min_eq_left le]
  · simp [insertAt, Nat.min_eq_right le, List.take_of_length_le le, List.drop_eq_nil_of_le le]

variable {xs} in
theorem insertAt_append_right {front : Nat} (length : xs.length = front) :
    insertAt (front + place) items (xs ++ ys) = xs ++ insertAt place items ys := by
  subst length
  simp [insertAt, List.take_append, List.drop_append, List.take_of_length_le]

variable {place xs} in
theorem insertAt_append_left (inside : place ≤ xs.length) :
    insertAt place items (xs ++ ys) = insertAt place items xs ++ ys := by
  simp [insertAt, List.take_append_of_le_length inside, List.drop_append_of_le_length inside]

variable {items xs} in
/-- New items stand at the place where they were inserted and at no other. -/
theorem insertAt_eq_insertAt_iff [DecidableEq α] (nonempty : items ≠ [])
    (apart : ∀ x ∈ items, x ∉ xs) {i j : Nat} (hi : i ≤ xs.length) (hj : j ≤ xs.length) :
    insertAt i items xs = insertAt j items xs ↔ i = j := by
  obtain ⟨x, rest, rfl⟩ := List.exists_cons_of_ne_nil nonempty
  have first : ∀ {k}, k ≤ xs.length → (insertAt k (x :: rest) xs).idxOf x = k := by
    intro k hk
    have out : x ∉ xs.take k := fun h => apart x List.mem_cons_self (List.mem_of_mem_take h)
    rw [insertAt, List.append_assoc, List.idxOf_append_of_notMem out]
    simp [hk]
  refine ⟨fun same => ?_, fun same => same ▸ rfl⟩
  rw [← first hi, same, first hj]

end InsertAt

/-! ### Buckets as parts of a layer -/

namespace Buckets

/-- How many names stand before the bucket of an alignment. -/
def offset (b : Buckets) : Alignment → Nat
  | .start => 0
  | .center => b.start.length
  | .finish => b.start.length + b.center.length

theorem children_ofChildren (cs : List LayerChild) : (ofChildren cs).children =
    cs.filter (·.align = .start) ++ cs.filter (·.align = .center) ++
      cs.filter (·.align = .finish) := by
  have own : ∀ align : Alignment, (aligned cs align).map (fun id => (⟨id, align⟩ : LayerChild)) =
      cs.filter (·.align = align) := by
    intro align
    rw [aligned, List.map_map]
    refine (List.map_congr_left fun c hc => ?_).trans (List.map_id _)
    obtain ⟨-, same⟩ := List.mem_filter.mp hc
    cases c
    simp_all
  rw [children, ofChildren, own, own, own]

theorem perm_children_ofChildren (cs : List LayerChild) : (ofChildren cs).children.Perm cs := by
  rw [children_ofChildren]
  induction cs with
  | nil => exact .nil
  | cons c cs ih =>
    obtain ⟨id, align⟩ := c
    refine .trans ?_ (ih.cons ⟨id, align⟩)
    cases align with
    | start => simp
    | center => simp [List.perm_middle]
    | finish => simp [-List.append_assoc, List.perm_middle]

/-- Names inserted into a bucket stand at that place behind the buckets before it. -/
theorem children_modify (b : Buckets) (align : Alignment) (row : Nat) (names : List WidgetId) :
    (b.modify align (insertAt row names)).children =
      insertAt (b.offset align + min row (b.get align).length) (names.map (⟨·, align⟩))
        b.children := by
  have inside : ∀ ids : List WidgetId,
      min row ids.length ≤ (ids.map fun id => (⟨id, align⟩ : LayerChild)).length := by
    intro ids
    rw [List.length_map]
    exact Nat.min_le_right ..
  cases align with
  | start =>
    simp only [modify, children, map_insertAt, offset, get, Nat.zero_add, List.append_assoc]
    rw [← insertAt_min, List.length_map, insertAt_append_left _ _ (inside _)]
  | center =>
    simp only [modify, children, map_insertAt, offset, get, List.append_assoc]
    rw [insertAt_append_right _ _ _ (List.length_map _),
      insertAt_append_left _ _ (inside _), ← insertAt_min row, List.length_map]
  | finish =>
    simp only [modify, children, map_insertAt, offset, get]
    rw [insertAt_append_right _ _ _ (by simp), ← insertAt_min row, List.length_map]

end Buckets

/-! ### Merged layers -/

namespace FlexLayer

/-- A layer with names merged into a bucket. -/
def merged (t : WidgetTree) (names : List WidgetId) (align : Alignment) (row : Nat)
    (l : FlexLayer) : FlexLayer :=
  .ofBuckets t ((Buckets.ofChildren l.children).modify align (insertAt row names))

/-- The children stand in the order of their buckets. -/
def Packed (l : FlexLayer) : Prop := (Buckets.ofChildren l.children).children = l.children

instance (l : FlexLayer) : Decidable l.Packed :=
  inferInstanceAs (Decidable ((Buckets.ofChildren l.children).children = l.children))

/-- The layer of children that are all there. -/
theorem ofChildren_of_there {t : WidgetTree} {children : List LayerChild}
    (there : ∀ c ∈ children, t.contains c.id = true) :
    ofChildren t children = ⟨children, t.fills children⟩ := by
  rw [ofChildren, List.filter_eq_self.mpr there]
  rfl

/-- The widgets of a layer that are left are there and not among the names. -/
theorem there_of_mem_without {t : WidgetTree} {names : List WidgetId} {l : FlexLayer}
    {id : WidgetId} (mem : id ∈ (l.without t names).ids) : t.contains id = true ∧ id ∉ names := by
  rw [ids_without, List.mem_filter] at mem
  simpa using mem.2

theorem Packed.without {l : FlexLayer} (packed : l.Packed) (t : WidgetTree)
    (names : List WidgetId) : (l.without t names).Packed := by
  have filtered : ∀ (p : LayerChild → Bool) (cs : List LayerChild),
      (Buckets.ofChildren (cs.filter p)).children = (Buckets.ofChildren cs).children.filter p := by
    intro p cs
    simp only [Buckets.children_ofChildren, List.filter_append, List.filter_filter, Bool.and_comm]
  have same : (Buckets.ofChildren l.children).children = l.children := packed
  simp only [Packed, FlexLayer.without, ofChildren, refresh, filtered, same]

theorem Packed.children_eq {l : FlexLayer} (packed : l.Packed) : l.children =
    l.children.filter (·.align = .start) ++ l.children.filter (·.align = .center) ++
      l.children.filter (·.align = .finish) := by
  have same : (Buckets.ofChildren l.children).children = l.children := packed
  rw [← Buckets.children_ofChildren, same]

/-- Where names come to stand that are merged into a packed layer at a place: there, but no further
than the start-aligned children when a child fills the row. -/
def mergePlace (l : FlexLayer) (place : Nat) : Nat :=
  if l.hasFill then min place (l.children.countP (·.align = .start)) else place

theorem mergePlace_le (l : FlexLayer) (place : Nat) : l.mergePlace place ≤ place := by
  unfold mergePlace
  split_ifs
  · exact Nat.min_le_left ..
  · exact Nat.le_refl _

section MergePlace

variable {l : FlexLayer} (packed : l.Packed) {before behind : List LayerChild}
  (split : l.children = before ++ behind)
include packed split

/-- Names are merged in right behind the first children of a layer, unless a child fills the row
and one of these is not start-aligned. -/
theorem Packed.mergePlace_eq_iff : l.mergePlace before.length = before.length ↔
    (l.hasFill = true → ∀ c ∈ before, c.align = .start) := by
  have inside : before <+: l.children := split ▸ List.prefix_append ..
  have starts : l.children.filter (·.align = .start) <+: l.children := by
    nth_rewrite 2 [packed.children_eq]
    rw [List.append_assoc]
    exact List.prefix_append ..
  unfold mergePlace
  split_ifs with fill
  · have bound : ∀ n, min before.length n = before.length ↔ before.length ≤ n := by omega
    rw [bound, List.countP_eq_length_filter]
    refine ⟨fun short _ c hc => ?_, fun all => ?_⟩
    · have own := (List.prefix_of_prefix_length_le inside starts short).subset hc
      simpa using (List.mem_filter.mp own).2
    · have own : before.filter (·.align = .start) = before :=
        List.filter_eq_self.mpr fun c hc => by simpa using all fill c hc
      rw [← own]
      exact (inside.sublist.filter _).length_le
  · simp [fill]

/-- New items inserted there stand right behind these children only then. -/
theorem Packed.insertAt_mergePlace_iff {α : Type} [DecidableEq α] (f : LayerChild → α)
    {items : List α} (nonempty : items ≠ []) (apart : ∀ x ∈ items, x ∉ l.children.map f) :
    insertAt (l.mergePlace before.length) items (l.children.map f) =
        before.map f ++ items ++ behind.map f ↔
      (l.hasFill = true → ∀ c ∈ before, c.align = .start) := by
  have inside : before.length ≤ (l.children.map f).length := by simp [split]
  have there : insertAt before.length items (l.children.map f) =
      before.map f ++ items ++ behind.map f := by
    simp [insertAt, split]
  rw [← there, insertAt_eq_insertAt_iff nonempty apart
    (Nat.le_trans (l.mergePlace_le _) inside) inside, packed.mergePlace_eq_iff split]

end MergePlace

section Merged

variable {t : WidgetTree} {names : List WidgetId} {l : FlexLayer}
  (there : ∀ m ∈ names, t.contains m = true) (known : ∀ id ∈ l.ids, t.contains id = true)
  (align : Alignment) (row : Nat)
include there known

theorem children_merged : (l.merged t names align row).children =
    insertAt ((Buckets.ofChildren l.children).offset align +
        min row ((Buckets.ofChildren l.children).get align).length)
      (names.map (⟨·, align⟩)) (Buckets.ofChildren l.children).children := by
  rw [merged, ofBuckets, Buckets.children_modify, ofChildren_of_there]
  intro c hc
  rcases List.mem_append.mp ((perm_insertAt _ _ _).mem_iff.mp hc) with hc | hc
  · obtain ⟨m, hm, rfl⟩ := List.mem_map.mp hc
    exact there m hm
  · exact known c.id (List.mem_map_of_mem ((Buckets.perm_children_ofChildren _).mem_iff.mp hc))

/-- A merged layer holds its children and the names merged in. -/
theorem perm_children_merged : (l.merged t names align row).children.Perm
    (l.children ++ names.map (⟨·, align⟩)) := by
  rw [children_merged there known]
  refine (perm_insertAt _ _ _).trans (List.perm_append_comm.trans ?_)
  exact (Buckets.perm_children_ofChildren l.children).append_right _

/-- Names are merged into a bucket at their place, at its end when it is shorter. -/
theorem Packed.children_merged (packed : l.Packed) : (l.merged t names align row).children =
    insertAt ((Buckets.ofChildren l.children).offset align +
        min row ((Buckets.ofChildren l.children).get align).length)
      (names.map (⟨·, align⟩)) l.children := by
  have same : (Buckets.ofChildren l.children).children = l.children := packed
  rw [FlexLayer.children_merged there known, same]

end Merged

end FlexLayer

namespace WidgetTree

/-! ### Selections -/

/-- Widgets that can be dropped into a container: there are some, each is named once, and none of
them is the container or above it. -/
structure Selected (t : WidgetTree) (dragged : List WidgetId) (parent : WidgetId) : Prop where
  nonempty : dragged ≠ []
  nodup : dragged.Nodup
  there : ∀ m ∈ dragged, t.contains m = true
  apart : ∀ m ∈ dragged, ¬ Relation.ReflTransGen t.Up parent m

/-- The widgets of a selection that can be moved can be dropped when there are any. -/
theorem selected_movable {t : WidgetTree} {selection : List WidgetId} (nodup : selection.Nodup)
    {parent : WidgetId} (nonempty : t.movable selection parent ≠ []) :
    t.Selected (t.movable selection parent) parent where
  nonempty := nonempty
  nodup := nodup.filter _
  there m hm := ((mem_movable_iff t selection parent m).mp hm).2.1
  apart m hm := ((mem_movable_iff t selection parent m).mp hm).2.2

/-- A move takes along only what can be moved. -/
theorem moveTo_movable (c : LayoutConfig) (t : WidgetTree) (selection : List WidgetId)
    (d : DropTarget) :
    t.moveTo c (t.movable selection d.parent) d = t.moveTo c selection d := by
  have again : t.movable (t.movable selection d.parent) d.parent =
      t.movable selection d.parent := by
    rw [movable, movable, List.filter_filter]
    simp only [Bool.and_self]
  rw [moveTo, moveTo, again]

/-! ### The target of a drop -/

section Drop

variable {t : WidgetTree} (h : t.Consistent) {dragged : List WidgetId} {d : DropTarget}
  (selected : t.Selected dragged d.parent) (target : t.contains d.parent = true) (c : LayoutConfig)
include h selected target

/-- A drop hands its widgets over and settles them in the target. -/
theorem Consistent.exists_handed : ∃ s, Handed t dragged d.parent dragged s ∧
    t.moveTo c dragged d = (s.settle dragged d).rearrange c d.parent := by
  have all : t.movable dragged d.parent = dragged := List.filter_eq_self.mpr fun m hm => by
    have apart := selected.apart m hm
    rw [← isAncestorOrSelf_iff] at apart
    simpa [selected.there m hm] using apart
  have up : ∀ m ∈ dragged, ∃ before, t.Up m before := fun m hm =>
    h.rooted.exists_up target (selected.there m hm) (selected.apart m hm)
  refine ⟨_, handed_handOverAll h.linked c selected.nodup up d.parent, ?_⟩
  rw [moveTo, if_pos target, all]
  cases dragged with
  | nil => exact absurd rfl selected.nonempty
  | cons m rest => rfl

/-- Whatever became of the layers, the links after a drop agree at both ends if nothing is
wrong. -/
theorem Consistent.linked_moveTo (valid : (t.moveTo c dragged d).violations = []) :
    (t.moveTo c dragged d).Linked := by
  obtain ⟨s, handed, moved⟩ := h.exists_handed selected target c
  have alike := alike_rearrange c (s.settle dragged d) d.parent
  refine (violations_eq_nil_iff ?_ fun id => ?_).mp valid
  · rw [moved]
    exact (handed.kin_settle.trans alike.kin).keyed h.keyed
  · rw [moved, ← alike.childrenOf_eq]
    exact handed.nodup_settle h.nodup selected.nodup target id

/-- The widgets dropped stand together among the children that the target keeps. -/
theorem Consistent.childrenOf_moveTo : (t.moveTo c dragged d).childrenOf d.parent =
    insertAt d.index dragged
      ((t.childrenOf d.parent).filter fun child => !dragged.contains child) := by
  obtain ⟨s, handed, moved⟩ := h.exists_handed selected target c
  rw [moved, ← (alike_rearrange c _ d.parent).childrenOf_eq, handed.childrenOf_settle target,
    if_pos rfl]

/-- The layers of a vertical target. -/
theorem Consistent.layersOf_moveTo (vertical : d.direction = .vertical) :
    (t.moveTo c dragged d).layersOf d.parent =
      let rest := Layers.without t dragged (t.layersOf d.parent)
      if d.newLayer = true ∨ rest.length ≤ d.layer then
        Layers.insertLayer rest (.ofChildren t (dragged.map (⟨·, d.align⟩))) d.layer
      else Layers.mergeInto t dragged d.layer d.align d.row rest := by
  obtain ⟨s, handed, moved⟩ := h.exists_handed selected target c
  have there := handed.kin.contains_eq
  have fill : ∀ id, t.isFill id = s.isFill id := fun id => (handed.isFill_eq id).symm
  have layers : s.layersOf d.parent = t.layersOf d.parent :=
    handed.layersOf_kept d.parent (.inl rfl)
  rw [moved, ← (alike_rearrange c _ d.parent).layersOf_eq, handed.layersOf_settle target,
    if_pos rfl, layersAfter]
  simp only [vertical, layers, Layers.without_congr there fill, Layers.mergeInto,
    FlexLayer.ofBuckets, FlexLayer.ofChildren_congr there fill]

/-- A drop between layers makes a new one of the widgets dropped. -/
theorem Consistent.layersOf_moveTo_of_new (vertical : d.direction = .vertical)
    (new : d.newLayer = true) : (t.moveTo c dragged d).layersOf d.parent =
      insertAt d.layer [⟨dragged.map (⟨·, d.align⟩), t.fills (dragged.map (⟨·, d.align⟩))⟩]
        (Layers.without t dragged (t.layersOf d.parent)) := by
  have there : ∀ child ∈ dragged.map fun m => (⟨m, d.align⟩ : LayerChild),
      t.contains child.id = true := by
    rw [List.forall_mem_map]
    exact selected.there
  rw [h.layersOf_moveTo selected target c vertical]
  simp [new, Layers.insertLayer, FlexLayer.ofChildren_of_there there, FlexLayer.isEmpty,
    selected.nonempty]

/-- A drop into a layer that is left merges the widgets into one of its buckets. -/
theorem Consistent.layersOf_moveTo_of_merged (vertical : d.direction = .vertical)
    (old : d.newLayer = false) {front back : List FlexLayer} {row : FlexLayer}
    (split : Layers.without t dragged (t.layersOf d.parent) = front ++ row :: back)
    (place : front.length = d.layer) : (t.moveTo c dragged d).layersOf d.parent =
      front ++ row.merged t dragged d.align d.row :: back := by
  rw [h.layersOf_moveTo selected target c vertical]
  simp only [old, split, ← place, Bool.false_eq_true, false_or, List.length_append,
    List.length_cons]
  rw [if_neg (by omega), Layers.mergeInto, List.modify_eq_take_cons_drop (by simp)]
  simp [FlexLayer.merged]

end Drop

end WidgetTree

end AppBuilder
