import AppBuilder.Layout.Move
import AppBuilder.Proofs.Widget.Alike

/-!
Layers that arrange the children of a container.

Each operation on layers is described by the names it leaves in them: names are taken out
(`Arranges.without`), put in as a layer of their own (`Arranges.insertLayer`) or merged into a
layer (`Arranges.mergeInto`). A layer gets its fill flag from the tree whenever it is built, so
that flags are right by construction. `arranges_layersAfter` puts these together for the drop of
widgets into a container.
-/

namespace AppBuilder

/-! ### Lists -/

theorem perm_insertAt {α : Type} (place : Nat) (items xs : List α) :
    (insertAt place items xs).Perm (items ++ xs) := by
  have swap : (xs.take place ++ items ++ xs.drop place).Perm
      (items ++ xs.take place ++ xs.drop place) := List.perm_append_comm.append_right _
  rwa [List.append_assoc items, List.take_append_drop] at swap

/-- Changing one item of a list, up to the order of the list. -/
theorem exists_perm_modify {α : Type} {xs : List α} {i : Nat} (inside : i < xs.length)
    (f : α → α) :
    ∃ others, xs.Perm (xs[i] :: others) ∧ (xs.modify i f).Perm (f xs[i] :: others) := by
  refine ⟨xs.take i ++ xs.drop (i + 1), ?_, ?_⟩
  · have split : xs.take i ++ xs[i] :: xs.drop (i + 1) = xs := by simp
    exact (List.Perm.of_eq split.symm).trans List.perm_middle
  · rw [List.modify_eq_take_cons_drop inside]
    exact List.perm_middle

namespace Buckets

variable (b : Buckets)

/-- The names in the buckets. -/
def ids : List WidgetId := b.start ++ b.center ++ b.finish

@[simp] theorem ids_children : b.children.map (·.id) = b.ids := by
  simp [children, ids, Function.comp_def]

variable {b} in
theorem mem_ids_of_mem_get {align : Alignment} {id : WidgetId} (mem : id ∈ b.get align) :
    id ∈ b.ids := by
  cases align <;> simp_all [ids, get]

variable {b} in
theorem exists_mem_get {id : WidgetId} (mem : id ∈ b.ids) : ∃ align, id ∈ b.get align := by
  rcases List.mem_append.mp mem with mem | mem
  · rcases List.mem_append.mp mem with mem | mem
    · exact ⟨.start, mem⟩
    · exact ⟨.center, mem⟩
  · exact ⟨.finish, mem⟩

variable {b} in
theorem nodup_get (nodup : b.ids.Nodup) (align : Alignment) : (b.get align).Nodup := by
  simp only [ids, List.nodup_append] at nodup
  cases align <;> simp only [get, nodup]

variable {b} in
/-- No name is in two buckets, if none is there twice. -/
theorem apart (nodup : b.ids.Nodup) (align align' : Alignment) (other : align ≠ align') :
    ∀ id ∈ b.get align, id ∉ b.get align' := by
  intro id mem mem'
  simp only [ids, List.nodup_append, List.mem_append] at nodup
  cases align <;> cases align' <;> grind [get]

theorem perm_ofChildren (cs : List LayerChild) : (ofChildren cs).ids.Perm (cs.map (·.id)) := by
  induction cs with
  | nil => exact .nil
  | cons c cs ih =>
    obtain ⟨id, align⟩ := c
    have grow : (ofChildren (⟨id, align⟩ :: cs)).ids.Perm (id :: (ofChildren cs).ids) := by
      cases align with
      | start => exact .refl _
      | center => simp [ids, ofChildren, aligned, List.perm_middle]
      | finish => simp [ids, ofChildren, aligned, -List.append_assoc, List.perm_middle]
    exact grow.trans (ih.cons id)

theorem perm_modify (align : Alignment) (row : Nat) (names : List WidgetId) :
    (b.modify align (insertAt row names)).ids.Perm (names ++ b.ids) := by
  cases align with
  | start =>
    have front := (perm_insertAt row names b.start).append_right (b.center ++ b.finish)
    simpa [ids, modify] using front
  | center =>
    have middle := ((perm_insertAt row names b.center).append_left b.start).append_right b.finish
    refine middle.trans ?_
    have swap : (b.start ++ names).Perm (names ++ b.start) := List.perm_append_comm
    simpa [ids] using swap.append_right (b.center ++ b.finish)
  | finish =>
    have last := (perm_insertAt row names b.finish).append_left (b.start ++ b.center)
    refine last.trans ?_
    have swap : (b.start ++ b.center ++ names).Perm (names ++ (b.start ++ b.center)) :=
      List.perm_append_comm
    simpa [ids] using swap.append_right b.finish

end Buckets

/-! ### Names in layers -/

namespace FlexLayer

variable (t : WidgetTree)

theorem ids_ofChildren (cs : List LayerChild) :
    (ofChildren t cs).ids = (cs.map (·.id)).filter t.contains := by
  simp [ids, ofChildren, refresh, List.filter_map, Function.comp_def]

theorem ids_without (names : List WidgetId) (l : FlexLayer) :
    (l.without t names).ids = l.ids.filter fun id => t.contains id && !names.contains id := by
  rw [without, ids_ofChildren, ids, List.filter_map, List.filter_map, List.filter_filter]
  rfl

variable {t} in
/-- Only the widgets that are there and those that fill their row matter. -/
theorem ofChildren_congr {t' : WidgetTree} (contains : ∀ id, t.contains id = t'.contains id)
    (isFill : ∀ id, t.isFill id = t'.isFill id) : ofChildren t = ofChildren t' := by
  funext children
  simp only [ofChildren, refresh, WidgetTree.fills, contains, isFill]

theorem children_ne_nil_iff {l : FlexLayer} : l.children ≠ [] ↔ l.ids ≠ [] := by
  simp [ids]

theorem children_without (names : List WidgetId) (l : FlexLayer) : (l.without t names).children =
    l.children.filter fun c => t.contains c.id && !names.contains c.id :=
  List.filter_filter ..

section Without

variable {t} {s : WidgetTree} {names names' : List WidgetId} {l : FlexLayer}

/-- What is left of a layer depends on the names left and on which of these fill their row. -/
theorem without_ext
    (stay : ∀ x ∈ l.ids,
      (t.contains x && !names.contains x) = (s.contains x && !names'.contains x))
    (fill : ∀ x ∈ l.ids, t.contains x = true → x ∉ names → t.isFill x = s.isFill x) :
    l.without t names = l.without s names' := by
  have children : (l.without t names).children = (l.without s names').children := by
    rw [children_without, children_without]
    exact List.filter_congr fun c hc => stay c.id (List.mem_map_of_mem hc)
  have flags : t.fills (l.without t names).children = s.fills (l.without t names).children := by
    rw [children_without, WidgetTree.fills, WidgetTree.fills, Bool.eq_iff_iff,
      List.any_eq_true, List.any_eq_true]
    refine exists_congr fun c => and_congr_right fun hc => ?_
    obtain ⟨mem, left⟩ := List.mem_filter.mp hc
    obtain ⟨there, other⟩ : t.contains c.id = true ∧ c.id ∉ names := by simpa using left
    rw [fill c.id (List.mem_map_of_mem mem) there other]
  rw [children] at flags
  exact congrArg₂ FlexLayer.mk children ((congrArg t.fills children).trans flags)

theorem without_without (finer : ∀ x ∈ l.ids, s.contains x = true → t.contains x = true) :
    (l.without t names).without s names' = l.without s (names ++ names') := by
  have children : ((l.without t names).without s names').children =
      (l.without s (names ++ names')).children := by
    rw [children_without, children_without, children_without, List.filter_filter]
    refine List.filter_congr fun c hc => ?_
    have known := finer c.id (List.mem_map_of_mem hc)
    by_cases there : s.contains c.id = true
    · simp [there, known there, Bool.and_comm]
    · simp [there]
  exact congrArg₂ FlexLayer.mk children (congrArg s.fills children)

end Without

/-- The buckets of a row hold what the row holds. -/
theorem perm_ids_spread (l : FlexLayer) : l.spread.ids.Perm l.ids := by
  unfold spread
  split
  · simp [Buckets.ids]
  · exact Buckets.perm_ofChildren l.children

end FlexLayer

namespace Layers

@[simp] theorem flatten_nil : flatten [] = [] := rfl

@[simp] theorem flatten_append (front back : List FlexLayer) :
    flatten (front ++ back) = flatten front ++ flatten back := List.flatMap_append

@[simp] theorem flatten_cons (l : FlexLayer) (layers : List FlexLayer) :
    flatten (l :: layers) = l.ids ++ flatten layers := rfl

theorem without_cons (t : WidgetTree) (names : List WidgetId) (l : FlexLayer)
    (layers : List FlexLayer) : without t names (l :: layers) =
      (if (l.without t names).isEmpty then [] else [l.without t names]) ++
        without t names layers := by
  rw [without, List.map_cons, List.filter_cons]
  cases (l.without t names).isEmpty <;> rfl

theorem flatten_without (t : WidgetTree) (names : List WidgetId) (layers : List FlexLayer) :
    flatten (without t names layers) =
      (flatten layers).filter fun id => t.contains id && !names.contains id := by
  induction layers with
  | nil => rfl
  | cons l layers ih =>
    rw [flatten_cons, List.filter_append, ← FlexLayer.ids_without, ← ih, without_cons]
    split
    · -- a layer left empty is dropped, and it had no names to give
      have empty : (l.without t names).ids = [] := by
        simp_all [FlexLayer.isEmpty, FlexLayer.ids]
      rw [empty, List.nil_append, List.nil_append]
    · simp

section Without

variable {t s : WidgetTree} {names names' : List WidgetId} {layers : List FlexLayer}

theorem without_ext
    (stay : ∀ x ∈ flatten layers,
      (t.contains x && !names.contains x) = (s.contains x && !names'.contains x))
    (fill : ∀ x ∈ flatten layers, t.contains x = true → x ∉ names → t.isFill x = s.isFill x) :
    without t names layers = without s names' layers := by
  have held : ∀ l ∈ layers, ∀ x ∈ l.ids, x ∈ flatten layers := fun l hl x hx =>
    List.mem_flatMap.mpr ⟨l, hl, hx⟩
  refine congrArg (List.filter _) (List.map_congr_left fun l hl => ?_)
  exact FlexLayer.without_ext (fun x hx => stay x (held l hl x hx))
    fun x hx => fill x (held l hl x hx)

theorem without_congr (contains : ∀ id, t.contains id = s.contains id)
    (isFill : ∀ id, t.isFill id = s.isFill id) (names : List WidgetId)
    (layers : List FlexLayer) : without t names layers = without s names layers :=
  without_ext (fun x _ => by rw [contains]) fun x _ _ _ => isFill x

/-- Names taken out one after the other, from a tree that may have lost more widgets, are taken
out together. -/
theorem without_without
    (finer : ∀ x ∈ flatten layers, s.contains x = true → t.contains x = true) :
    without s names' (without t names layers) = without s (names ++ names') layers := by
  induction layers with
  | nil => rfl
  | cons l layers ih =>
    have own : (l.without t names).without s names' = l.without s (names ++ names') :=
      FlexLayer.without_without fun x hx => finer x (List.mem_append_left _ hx)
    have rest := ih fun x hx => finer x (List.mem_append_right _ hx)
    rw [without_cons, without_cons]
    split
    · rename_i empty
      have bare : (l.without t names).children = [] := List.isEmpty_iff.mp empty
      have empty' : (l.without s (names ++ names')).isEmpty = true := by
        rw [← own, FlexLayer.isEmpty, FlexLayer.children_without, bare]
        rfl
      rw [if_pos empty', List.nil_append, List.nil_append, rest]
    · rw [List.singleton_append, without_cons, own, rest]

end Without

/-- Layers get their fill flags from the tree when names are taken out of them. -/
theorem flagged_without {t : WidgetTree} {names : List WidgetId} {layers : List FlexLayer}
    {l : FlexLayer} (hl : l ∈ without t names layers) : t.fills l.children = l.hasFill := by
  obtain ⟨own, -, rfl⟩ := List.mem_map.mp (List.mem_filter.mp hl).1
  rfl

theorem flatten_singleRow (t : WidgetTree) (layers : List FlexLayer) :
    (singleRow t layers).ids = (flatten layers).filter t.contains := by
  rw [singleRow, FlexLayer.ids_ofChildren, List.map_flatMap]
  rfl

end Layers

/-- A layer that is found by a name holds it. -/
theorem Layers.mem_of_indexOf? {layers : List FlexLayer} {id : WidgetId} {i : Nat}
    (found : indexOf? layers id = some i) : ∃ inside : i < layers.length, id ∈ layers[i].ids := by
  obtain ⟨inside, held, -⟩ := List.findIdx?_eq_some_iff_getElem.mp found
  exact ⟨inside, by simpa [FlexLayer.contains] using held⟩

namespace WidgetTree

/-! ### Replacing layers -/

section SetLayers

variable (t : WidgetTree) (id : WidgetId) (layers : List FlexLayer)

theorem kin_setLayers : t.Kin (t.setLayers id layers) :=
  kin_modify (fun _ => rfl) fun _ => rfl

theorem isFill_setLayers (x : WidgetId) : (t.setLayers id layers).isFill x = t.isFill x := by
  rw [setLayers, isFill_modify]
  exact fun _ => rfl

theorem parentOf?_setLayers (x : WidgetId) :
    (t.setLayers id layers).parentOf? x = t.parentOf? x := by
  rw [setLayers, parentOf?_modify_of_same]
  exact fun _ => rfl

theorem childrenOf_setLayers (x : WidgetId) :
    (t.setLayers id layers).childrenOf x = t.childrenOf x := by
  rw [setLayers, childrenOf_modify_of_same]
  exact fun _ => rfl

variable {t id} in
theorem layersOf_setLayers (there : t.contains id = true) (x : WidgetId) :
    (t.setLayers id layers).layersOf x = if id = x then layers else t.layersOf x := by
  obtain ⟨w, hw⟩ := contains_iff.mp there
  exact layersOf_modify hw x

end SetLayers

/-! ### Arranging children -/

variable {t : WidgetTree} {layers : List FlexLayer} {children : List WidgetId}

namespace Arranges

theorem nil (t : WidgetTree) : t.Arranges [] [] :=
  ⟨by simp, by simp, .nil⟩

theorem of_perm (h : t.Arranges layers children) {children' : List WidgetId}
    (perm : children.Perm children') : t.Arranges layers children' :=
  ⟨h.filled, h.flagged, h.perm.trans perm⟩

/-- Layers hold each child that they arrange. -/
theorem exists_indexOf? (h : t.Arranges layers children) {id : WidgetId} (mem : id ∈ children) :
    ∃ i, Layers.indexOf? layers id = some i := by
  obtain ⟨l, hl, hid⟩ := List.mem_flatMap.mp (h.perm.mem_iff.mpr mem)
  refine Option.isSome_iff_exists.mp ?_
  rw [Layers.indexOf?, List.findIdx?_isSome, List.any_eq_true]
  exact ⟨l, hl, by simpa [FlexLayer.contains] using hid⟩

/-- Names that layers do not hold cannot be taken out of them. -/
theorem without_eq_self (h : t.Arranges layers children)
    (there : ∀ c ∈ children, t.contains c = true) {names : List WidgetId}
    (apart : ∀ c ∈ children, c ∉ names) : Layers.without t names layers = layers := by
  have own : ∀ l ∈ layers, l.without t names = l := by
    intro l hl
    have children : (l.without t names).children = l.children := by
      rw [FlexLayer.children_without]
      refine List.filter_eq_self.mpr fun c hc => ?_
      have child := h.perm.mem_iff.mp (List.mem_flatMap.mpr ⟨l, hl, List.mem_map_of_mem hc⟩)
      simp [there c.id child, apart c.id child]
    exact congrArg₂ FlexLayer.mk children ((congrArg t.fills children).trans (h.flagged l hl))
  rw [Layers.without, (List.map_congr_left own).trans (List.map_id _)]
  exact List.filter_eq_self.mpr fun l hl => by simpa [FlexLayer.isEmpty] using h.filled l hl

/-- All layers but the first arrange what they hold. -/
theorem tail {l : FlexLayer} (h : t.Arranges (l :: layers) children) :
    t.Arranges layers (Layers.flatten layers) :=
  ⟨fun l' hl' => h.filled l' (List.mem_cons_of_mem _ hl'),
    fun l' hl' => h.flagged l' (List.mem_cons_of_mem _ hl'), .refl _⟩

/-- A layer built from the tree, in front of layers that arrange other children. -/
theorem cons (h : t.Arranges layers children) {cs : List LayerChild} {names : List WidgetId}
    (nonempty : names ≠ []) (perm : ((cs.map (·.id)).filter t.contains).Perm names) :
    t.Arranges (.ofChildren t cs :: layers) (names ++ children) := by
  have own : (FlexLayer.ofChildren t cs).ids.Perm names := FlexLayer.ids_ofChildren t cs ▸ perm
  refine ⟨List.forall_mem_cons.mpr ⟨?_, h.filled⟩, List.forall_mem_cons.mpr ⟨rfl, h.flagged⟩,
    own.append h.perm⟩
  rw [FlexLayer.children_ne_nil_iff]
  intro bare
  rw [bare] at own
  exact nonempty (List.nil_perm.mp own)

/-- Layers in another order arrange the children as well. -/
theorem of_layers_perm (h : t.Arranges layers children) {layers' : List FlexLayer}
    (perm : layers.Perm layers') : t.Arranges layers' children :=
  ⟨fun l hl => h.filled l (perm.mem_iff.mpr hl), fun l hl => h.flagged l (perm.mem_iff.mpr hl),
    (perm.symm.flatMap_right FlexLayer.ids).trans h.perm⟩

/-- Taking names out of layers takes them out of what the layers arrange. -/
theorem without (perm : (Layers.flatten layers).Perm children)
    (there : ∀ c ∈ children, t.contains c = true) (names : List WidgetId) :
    t.Arranges (Layers.without t names layers)
      (children.filter fun c => !names.contains c) := by
  refine ⟨?_, fun l => Layers.flagged_without, ?_⟩
  · intro l hl
    have filled := (List.mem_filter.mp hl).2
    simpa [FlexLayer.isEmpty] using filled
  · rw [Layers.flatten_without]
    refine (perm.filter _).trans (List.Perm.of_eq (List.filter_congr fun c hc => ?_))
    simp [there c hc]

variable {moved : List WidgetId}

theorem filter_contains (there : ∀ m ∈ moved, t.contains m = true) :
    moved.filter t.contains = moved :=
  List.filter_eq_self.mpr there

/-- Widgets as a layer of their own, at any place. -/
theorem insertLayer (h : t.Arranges layers children) (nonempty : moved ≠ [])
    (there : ∀ m ∈ moved, t.contains m = true) (align : Alignment) (place : Nat) :
    t.Arranges (Layers.insertLayer layers (.ofChildren t (moved.map (⟨·, align⟩))) place)
      (moved ++ children) := by
  have names : (((moved.map fun m => (⟨m, align⟩ : LayerChild)).map (·.id)).filter
      t.contains).Perm moved := by
    simp [Function.comp_def, filter_contains there]
  have first := h.cons nonempty names
  have filled : (FlexLayer.ofChildren t (moved.map (⟨·, align⟩))).isEmpty = false := by
    simpa [FlexLayer.isEmpty] using first.filled _ List.mem_cons_self
  rw [Layers.insertLayer, filled]
  exact first.of_layers_perm (perm_insertAt place [_] layers).symm

/-- Widgets in a bucket of one of the layers. -/
theorem mergeInto (h : t.Arranges layers children) {place : Nat} (inside : place < layers.length)
    (known : ∀ c ∈ children, t.contains c = true) (nonempty : moved ≠ [])
    (there : ∀ m ∈ moved, t.contains m = true) (align : Alignment) (row : Nat) :
    t.Arranges (Layers.mergeInto t moved place align row layers) (moved ++ children) := by
  let own : FlexLayer → FlexLayer := fun l =>
    .ofBuckets t ((Buckets.ofChildren l.children).modify align (insertAt row moved))
  obtain ⟨others, split, modified⟩ := exists_perm_modify inside own
  generalize layers[place] = l at split modified
  have front : t.Arranges (l :: others) children := h.of_layers_perm split
  have held : ∀ c ∈ moved ++ l.ids, t.contains c = true := by
    intro c hc
    rcases List.mem_append.mp hc with hc | hc
    · exact there c hc
    · exact known c (front.perm.mem_iff.mp (List.mem_append_left _ hc))
  have names : ((((Buckets.ofChildren l.children).modify align (insertAt row moved)).children.map
      (·.id)).filter t.contains).Perm (moved ++ l.ids) := by
    have all := (Buckets.perm_modify _ align row moved).trans
      ((Buckets.perm_ofChildren l.children).append_left moved)
    rw [Buckets.ids_children]
    exact (all.filter _).trans (.of_eq (List.filter_eq_self.mpr held))
  have merged : t.Arranges (own l :: others) (moved ++ l.ids ++ Layers.flatten others) :=
    front.tail.cons (by simp [nonempty]) names
  refine (merged.of_layers_perm modified.symm).of_perm ?_
  rw [List.append_assoc]
  exact front.perm.append_left moved

/-- One layer for each of the children. -/
theorem wrap (there : ∀ c ∈ children, t.contains c = true) :
    t.Arranges (Layers.wrap t children) children := by
  rw [Layers.wrap, List.filter_eq_self.mpr there]
  induction children with
  | nil => exact .nil t
  | cons c children ih =>
    obtain ⟨own, rest⟩ := List.forall_mem_cons.mp there
    have single : (([(⟨c, .start⟩ : LayerChild)].map (·.id)).filter t.contains).Perm [c] := by
      simp [own]
    exact (ih rest).cons (by simp) single

end Arranges

/-! ### Children in their layers -/

/-- Layers arrange the children, and no widget is a child twice. That is all about the links that
placing and sharing rely on, and it also holds while widgets are on their way to a new parent. -/
structure Tidy (t : WidgetTree) : Prop where
  arranged : ∀ id, t.layersOf id ≠ [] → t.Arranges (t.layersOf id) (t.childrenOf id)
  nodup : ∀ id, (t.childrenOf id).Nodup
  there : ∀ id, ∀ x ∈ t.childrenOf id, t.contains x = true
  sole : ∀ id id' x, x ∈ t.childrenOf id → x ∈ t.childrenOf id' → id = id'

namespace Tidy

variable {t s : WidgetTree}

theorem congr (h : t.Tidy) (alike : t.Alike s) : s.Tidy where
  arranged id layered := by
    rw [← alike.layersOf_eq] at layered ⊢
    rw [← alike.childrenOf_eq]
    exact (h.arranged id layered).congr fun x _ => alike.isFill_eq x
  nodup id := alike.childrenOf_eq id ▸ h.nodup id
  there id x hx := alike.kin.contains_eq x ▸ h.there id x (alike.childrenOf_eq id ▸ hx)
  sole id id' := by
    rw [← alike.childrenOf_eq, ← alike.childrenOf_eq]
    exact h.sole id id'

/-- The layers of a container hold its children. -/
theorem mem_childrenOf (h : t.Tidy) {id x : WidgetId}
    (mem : x ∈ Layers.flatten (t.layersOf id)) : x ∈ t.childrenOf id := by
  refine (h.arranged id fun unlayered => ?_).perm.mem_iff.mp mem
  simp [unlayered] at mem

theorem nodup_layers (h : t.Tidy) (id : WidgetId) : (Layers.flatten (t.layersOf id)).Nodup := by
  by_cases bare : t.layersOf id = []
  · simp [bare]
  · exact (h.arranged id bare).perm.nodup_iff.mpr (h.nodup id)

theorem flagged (h : t.Tidy) {id : WidgetId} {l : FlexLayer} (hl : l ∈ t.layersOf id) :
    t.fills l.children = l.hasFill :=
  (h.arranged id (List.ne_nil_of_mem hl)).flagged l hl

/-- No widget has places in the layers of two containers. -/
theorem sole_layers (h : t.Tidy) {id id' x : WidgetId}
    (mem : x ∈ Layers.flatten (t.layersOf id)) (mem' : x ∈ Layers.flatten (t.layersOf id')) :
    id = id' :=
  h.sole id id' x (h.mem_childrenOf mem) (h.mem_childrenOf mem')

end Tidy

/-- A container without layers is laid out as one row of its children. -/
theorem Tidy.mem_effectiveLayers {t : WidgetTree} (h : t.Tidy) {parent x : WidgetId}
    (mem : x ∈ Layers.flatten (t.effectiveLayers parent)) : x ∈ t.childrenOf parent := by
  unfold effectiveLayers at mem
  split at mem
  · have child : x ∈ t.childrenOf parent ∧ t.contains x = true := by
      simpa [FlexLayer.ids_ofChildren] using mem
    exact child.1
  · exact h.mem_childrenOf mem

theorem Alike.effectiveLayers_eq {t s : WidgetTree} (alike : t.Alike s) (parent : WidgetId) :
    t.effectiveLayers parent = s.effectiveLayers parent := by
  rw [effectiveLayers, effectiveLayers, alike.layersOf_eq, alike.childrenOf_eq,
    FlexLayer.ofChildren_congr alike.kin.contains_eq alike.isFill_eq]

/-- The layers of a container are not changed by names of widgets that are not below it. -/
theorem Linked.without_layersOf {t : WidgetTree} (linked : t.Linked) {id : WidgetId}
    {names : List WidgetId} (apart : ∀ x ∈ names, ¬ t.Up x id) :
    Layers.without t names (t.layersOf id) = t.layersOf id := by
  by_cases bare : t.layersOf id = []
  · rw [bare]
    rfl
  · have up := linked.up_of_mem id
    exact (linked.arranged id bare).without_eq_self (fun c hc => contains_of_parentOf? (up c hc))
      fun c hc mem => apart c mem (up c hc)

theorem Linked.tidy {t : WidgetTree} (linked : t.Linked) (nodup : ∀ id, (t.childrenOf id).Nodup) :
    t.Tidy where
  arranged := linked.arranged
  nodup := nodup
  there id x hx := contains_of_parentOf? (linked.up_of_mem id x hx)
  sole id id' x hx hx' := (linked.up_of_mem id x hx).unique (linked.up_of_mem id' x hx')

theorem WellFormed.tidy {t : WidgetTree} (h : t.WellFormed) : t.Tidy := h.linked.tidy h.nodup

/-- Widgets in the layers of a container record it. -/
theorem Linked.up_of_mem_flatten {t : WidgetTree} (linked : t.Linked) {id x : WidgetId}
    (mem : x ∈ Layers.flatten (t.layersOf id)) : t.Up x id := by
  have layered : t.layersOf id ≠ [] := fun unlayered => by simp [unlayered] at mem
  exact linked.up_of_mem id x ((linked.arranged id layered).perm.mem_iff.mp mem)

theorem WellFormed.up_of_mem_flatten {t : WidgetTree} (h : t.WellFormed) {id x : WidgetId}
    (mem : x ∈ Layers.flatten (t.layersOf id)) : t.Up x id :=
  h.linked.up_of_mem_flatten mem

/-! ### Dropping into a container -/

/-- The layers of a drop target arrange the widgets dropped and the children that it keeps. A
vertical target without layers may keep none; a horizontal one without layers stays so. -/
theorem arranges_layersAfter {d : DropTarget} {moved : List WidgetId} (nonempty : moved ≠ [])
    (there : ∀ m ∈ moved, t.contains m = true)
    (known : ∀ c ∈ t.childrenOf d.parent, t.contains c = true)
    (perm : t.layersOf d.parent ≠ [] →
      (Layers.flatten (t.layersOf d.parent)).Perm (t.childrenOf d.parent))
    (free : d.direction = .vertical → t.layersOf d.parent = [] →
      ∀ c ∈ t.childrenOf d.parent, c ∈ moved)
    (layered : t.layersAfter moved d ≠ []) :
    t.Arranges (t.layersAfter moved d)
      (moved ++ (t.childrenOf d.parent).filter fun c => !moved.contains c) := by
  have kept : ∀ c ∈ (t.childrenOf d.parent).filter (fun c => !moved.contains c),
      t.contains c = true := fun c hc => known c (List.mem_filter.mp hc).1
  unfold layersAfter at layered ⊢
  cases direction : d.direction with
  | vertical =>
    simp only [direction] at layered ⊢
    have rest : t.Arranges (Layers.without t moved (t.layersOf d.parent))
        ((t.childrenOf d.parent).filter fun c => !moved.contains c) := by
      by_cases bare : t.layersOf d.parent = []
      · have alone : (t.childrenOf d.parent).filter (fun c => !moved.contains c) = [] := by
          simpa [List.filter_eq_nil_iff] using free direction bare
        rw [alone, bare]
        exact .nil t
      · exact .without (perm bare) known moved
    by_cases new :
        d.newLayer = true ∨ (Layers.without t moved (t.layersOf d.parent)).length ≤ d.layer
    · rw [if_pos new]
      exact rest.insertLayer nonempty there d.align d.layer
    · rw [if_neg new]
      exact rest.mergeInto (by omega) kept nonempty there d.align d.row
  | horizontal =>
    simp only [direction] at layered ⊢
    by_cases bare : (t.layersOf d.parent).isEmpty = true
    · rw [if_pos bare] at layered
      exact absurd rfl layered
    · have row : (Layers.flatten [Layers.singleRow t (t.layersOf d.parent)]).Perm
          (t.childrenOf d.parent) := by
        have all := (perm (by simpa using bare)).filter t.contains
        rw [List.filter_eq_self.mpr known] at all
        simpa [Layers.flatten_singleRow] using all
      have rest := Arranges.without row known moved
      rw [if_neg bare]
      cases left : Layers.without t moved [Layers.singleRow t (t.layersOf d.parent)] with
      | nil =>
        rw [left] at rest
        exact rest.insertLayer nonempty there d.align 0
      | cons first more =>
        rw [left] at rest
        exact rest.mergeInto (Nat.succ_pos _) kept nonempty there d.align d.row

end WidgetTree

end AppBuilder
