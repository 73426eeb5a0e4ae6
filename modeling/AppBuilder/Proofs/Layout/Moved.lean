import AppBuilder.Proofs.Layout.Drop
import AppBuilder.Proofs.Widget.LayerRule

/-!
All that a move changes, and what it leaves alone.

A move touches links, layers and places only (`profile_moveTo`). The moved widgets get the target
as their parent and come out of all other children lists and layers; what is left of these keeps
its order (`Moves`). In the target they make a row of their own or stand together in one of the
rows, between children that keep their order in each alignment (`Lands`).

Main statement: `Consistent.moves_moveTo`.
-/

namespace AppBuilder

/-- A widget without its links, its layers and its place. -/
def Widget.profile (w : Widget) : Widget :=
  { w.unplaced with parent := none, children := [], layers := [] }

/-! ### Rows -/

namespace Layers

/-- The children of layers. -/
def rows (layers : List FlexLayer) : List (List LayerChild) := layers.map (·.children)

/-- Rows without some names; a row left empty is dropped. -/
def pruned (names : List WidgetId) (rows : List (List LayerChild)) : List (List LayerChild) :=
  (rows.map fun row => row.filter fun c => !names.contains c.id).filter fun row => !row.isEmpty

theorem rows_eq_nil_iff {layers : List FlexLayer} : rows layers = [] ↔ layers = [] :=
  List.map_eq_nil_iff

/-- Taking names out of layers prunes their rows. -/
theorem rows_without {t : WidgetTree} {layers : List FlexLayer}
    (there : ∀ id ∈ flatten layers, t.contains id = true) (names : List WidgetId) :
    rows (without t names layers) = pruned names (rows layers) := by
  have own : ∀ l ∈ layers, (l.without t names).children =
      l.children.filter fun c => !names.contains c.id := by
    intro l hl
    refine List.filter_eq_self.mpr fun c hc => there c.id ?_
    exact List.mem_flatMap.mpr ⟨l, hl, List.mem_map_of_mem (List.mem_filter.mp hc).1⟩
  have each : (rows layers).map (fun row => row.filter fun c => !names.contains c.id) =
      (layers.map (FlexLayer.without t names)).map (·.children) := by
    rw [rows, List.map_map, List.map_map]
    exact List.map_congr_left fun l hl => (own l hl).symm
  rw [pruned, each, List.filter_map]
  rfl

/-- Rows are not changed by names that are not in them. -/
theorem pruned_eq_self {names : List WidgetId} {rows : List (List LayerChild)}
    (filled : ∀ row ∈ rows, row ≠ []) (apart : ∀ row ∈ rows, ∀ c ∈ row, c.id ∉ names) :
    pruned names rows = rows := by
  have same : ∀ row ∈ rows, row.filter (fun c => !names.contains c.id) = row := fun row hrow =>
    List.filter_eq_self.mpr fun c hc => by simpa using apart row hrow c hc
  rw [pruned, (List.map_congr_left same).trans (List.map_id _)]
  exact List.filter_eq_self.mpr fun row hrow => by simpa using filled row hrow

/-- All children of layers as one row. -/
theorem rows_singleRow {t : WidgetTree} {layers : List FlexLayer}
    (there : ∀ id ∈ flatten layers, t.contains id = true) :
    rows [singleRow t layers] = [(rows layers).flatten] := by
  have all : (layers.flatMap (·.children)).filter (fun c => t.contains c.id) =
      layers.flatMap (·.children) := by
    refine List.filter_eq_self.mpr fun c hc => there c.id ?_
    obtain ⟨l, hl, hc⟩ := List.mem_flatMap.mp hc
    exact List.mem_flatMap.mpr ⟨l, hl, List.mem_map_of_mem hc⟩
  exact congrArg (fun row => [row]) (all.trans (List.flatMap_def ..))

section Flags

variable {t : WidgetTree} {layers : List FlexLayer}
  (flagged : ∀ l ∈ layers, t.fills l.children = l.hasFill)
include flagged

theorem flagged_insertLayer (cs : List LayerChild) (place : Nat) :
    ∀ l ∈ insertLayer layers (.ofChildren t cs) place, t.fills l.children = l.hasFill := by
  intro l hl
  unfold insertLayer at hl
  split at hl
  · exact flagged l hl
  · rcases List.mem_append.mp ((perm_insertAt _ _ _).mem_iff.mp hl) with own | old
    · obtain rfl := List.mem_singleton.mp own
      rfl
    · exact flagged l old

theorem flagged_mergeInto (names : List WidgetId) (place : Nat) (align : Alignment) (row : Nat) :
    ∀ l ∈ mergeInto t names place align row layers, t.fills l.children = l.hasFill := by
  intro l hl
  obtain ⟨i, hi⟩ := List.mem_iff_getElem?.mp hl
  rw [mergeInto, List.getElem?_modify] at hi
  obtain ⟨old, held, rfl⟩ := Option.map_eq_some_iff.mp hi
  split
  · rfl
  · exact flagged old (List.mem_of_getElem? held)

end Flags

end Layers

/-- Sorting children into buckets keeps the order in each alignment. -/
theorem Buckets.filter_children_ofChildren (cs : List LayerChild) (a : Alignment) :
    (ofChildren cs).children.filter (·.align = a) = cs.filter (·.align = a) := by
  have own : ∀ b : Alignment, (cs.filter (·.align = b)).filter (·.align = a) =
      if b = a then cs.filter (·.align = a) else [] := by
    intro b
    split
    · rename_i same
      simp only [same, List.filter_filter, Bool.and_self]
    · rename_i other
      refine List.filter_eq_nil_iff.mpr fun c hc => ?_
      have align := (List.mem_filter.mp hc).2
      simp_all
  simp only [children_ofChildren, List.filter_append, own]
  cases a <;> simp

/-- Rows that take some names in, side by side and in their order: as a row of their own, or in
one of the rows, whose children keep their order in each alignment. -/
inductive Lands (names : List WidgetId) (align : Alignment) (rows : List (List LayerChild)) :
    List (List LayerChild) → Prop
  | own (front back : List (List LayerChild)) (split : rows = front ++ back) :
      Lands names align rows (front ++ names.map (⟨·, align⟩) :: back)
  | among (front back : List (List LayerChild)) (row before behind : List LayerChild)
      (split : rows = front ++ row :: back)
      (kept : ∀ a : Alignment, (before ++ behind).filter (·.align = a) = row.filter (·.align = a)) :
      Lands names align rows (front ++ (before ++ names.map (⟨·, align⟩) ++ behind) :: back)

section Lands

variable {t : WidgetTree} {names : List WidgetId} {align : Alignment} {layers : List FlexLayer}

/-- Widgets inserted as a layer land in a row of their own. -/
theorem Lands.insertLayer (nonempty : names ≠ []) (there : ∀ m ∈ names, t.contains m = true)
    (place : Nat) : Lands names align (Layers.rows layers) (Layers.rows
      (Layers.insertLayer layers (.ofChildren t (names.map (⟨·, align⟩))) place)) := by
  have children : ∀ c ∈ names.map fun m => (⟨m, align⟩ : LayerChild), t.contains c.id = true := by
    rw [List.forall_mem_map]
    exact there
  have filled : (FlexLayer.mk (names.map (⟨·, align⟩)) (t.fills (names.map (⟨·, align⟩)))).isEmpty =
      false := by simpa [FlexLayer.isEmpty] using nonempty
  rw [FlexLayer.ofChildren_of_there children, Layers.insertLayer, filled]
  have own : Lands names align (Layers.rows layers) (Layers.rows (layers.take place) ++
      names.map (⟨·, align⟩) :: Layers.rows (layers.drop place)) := by
    refine .own _ _ ?_
    simp only [Layers.rows, ← List.map_append, List.take_append_drop]
  simpa [insertAt, Layers.rows] using own

/-- Widgets merged into a layer land among its children. -/
theorem Lands.mergeInto (there : ∀ m ∈ names, t.contains m = true)
    (known : ∀ id ∈ Layers.flatten layers, t.contains id = true) {place : Nat}
    (inside : place < layers.length) (row : Nat) : Lands names align (Layers.rows layers)
      (Layers.rows (Layers.mergeInto t names place align row layers)) := by
  obtain ⟨front, l, back, split, length⟩ : ∃ front l back, layers = front ++ l :: back ∧
      front.length = place :=
    ⟨layers.take place, layers[place], layers.drop (place + 1), by simp, by simp; omega⟩
  subst length split
  have merged := FlexLayer.children_merged (l := l) there
    (fun id hid => known id (by simp [hid])) align row
  have rows : Layers.rows (Layers.mergeInto t names front.length align row (front ++ l :: back)) =
      Layers.rows front ++ (l.merged t names align row).children :: Layers.rows back := by
    rw [Layers.mergeInto, List.modify_eq_take_cons_drop (by simp)]
    simp [FlexLayer.merged, Layers.rows]
  rw [rows, merged, insertAt]
  refine .among _ _ l.children _ _ (by simp [Layers.rows]) fun a => ?_
  rw [List.take_append_drop, Buckets.filter_children_ofChildren]

theorem Lands.ne_nil {rows rows' : List (List LayerChild)} (lands : Lands names align rows rows') :
    rows' ≠ [] := by
  cases lands <;> simp

end Lands

namespace WidgetTree

/-! ### Widgets apart from their links -/

section Profile

variable {t t' : WidgetTree} (id : WidgetId)

theorem Alike.profile_eq (h : t.Alike t') :
    (t.get? id).map Widget.profile = (t'.get? id).map Widget.profile :=
  h.map_eq _ (fun _ => rfl) id

theorem profile_handOver (moved : List WidgetId) (parent : WidgetId) (s : WidgetTree × NameSet)
    (m : WidgetId) : ((handOver moved parent s m).1.get? id).map Widget.profile =
      (s.1.get? id).map Widget.profile := by
  obtain ⟨t, left⟩ := s
  unfold handOver
  dsimp only
  split
  · rfl
  · split
    · rfl
    · rw [map_get?_modify, dropChildren, map_get?_modify]
      · exact fun _ => rfl
      · exact fun _ => rfl

theorem profile_handOverAll (c : LayoutConfig) (t : WidgetTree) (moved : List WidgetId)
    (parent : WidgetId) : ((t.handOverAll c moved parent).get? id).map Widget.profile =
      (t.get? id).map Widget.profile := by
  have run : ∀ (ms : List WidgetId) (s : WidgetTree × NameSet),
      ((ms.foldl (handOver moved parent) s).1.get? id).map Widget.profile =
        (s.1.get? id).map Widget.profile := by
    intro ms
    induction ms with
    | nil => exact fun s => rfl
    | cons m ms ih => exact fun s => (ih _).trans (profile_handOver id moved parent s m)
  have alike := alike_foldl_tree (f := fun t id => ((t.shareAll c id).placeChildren c id).1)
    fun t id => (alike_shareAll c t id).trans (alike_placeChildren c _ id)
  exact ((alike _ _).profile_eq id).symm.trans (run moved (t, .empty))

/-- A move touches links, layers and places only. -/
theorem profile_moveTo (c : LayoutConfig) (t : WidgetTree) (selection : List WidgetId)
    (d : DropTarget) : ((t.moveTo c selection d).get? id).map Widget.profile =
      (t.get? id).map Widget.profile := by
  unfold moveTo
  split
  · split
    · rfl
    · rw [← (alike_rearrange c _ d.parent).profile_eq, settle, map_get?_modify,
        profile_handOverAll]
      exact fun _ => rfl
  · rfl

end Profile

/-! ### Layers after a move -/

/-- The rows that a target offers to what is moved into it: those of its layers, or for a
horizontal one all of them as a single row. -/
def rowsFor (t : WidgetTree) (d : DropTarget) : List (List LayerChild) :=
  match d.direction with
  | .vertical => Layers.rows (t.layersOf d.parent)
  | .horizontal => [(Layers.rows (t.layersOf d.parent)).flatten]

section LayersAfter

variable {t : WidgetTree} {moved : List WidgetId} {d : DropTarget}

/-- Widgets that are moved land among the rows that the target keeps, unless it is horizontal and
has no layers. -/
theorem lands_layersAfter (nonempty : moved ≠ []) (there : ∀ m ∈ moved, t.contains m = true)
    (known : ∀ id ∈ Layers.flatten (t.layersOf d.parent), t.contains id = true)
    (layered : d.direction = .horizontal → t.layersOf d.parent ≠ []) :
    Lands moved d.align (Layers.pruned moved (t.rowsFor d))
      (Layers.rows (t.layersAfter moved d)) := by
  have left : ∀ {layers : List FlexLayer},
      ∀ id ∈ Layers.flatten (Layers.without t moved layers), t.contains id = true := by
    intro layers id hid
    rw [Layers.flatten_without, List.mem_filter, Bool.and_eq_true] at hid
    exact hid.2.1
  unfold layersAfter rowsFor
  cases direction : d.direction with
  | vertical =>
    dsimp only
    rw [← Layers.rows_without known]
    split
    · exact .insertLayer nonempty there d.layer
    · exact .mergeInto there left (by omega) d.row
  | horizontal =>
    have known' : ∀ id ∈ Layers.flatten [Layers.singleRow t (t.layersOf d.parent)],
        t.contains id = true := by
      intro id hid
      rw [Layers.flatten_cons, Layers.flatten_nil, List.append_nil, Layers.flatten_singleRow] at hid
      exact (List.mem_filter.mp hid).2
    have bare : (t.layersOf d.parent).isEmpty = false := by simpa using layered direction
    dsimp only
    rw [← Layers.rows_singleRow known, ← Layers.rows_without known', bare]
    cases rest : Layers.without t moved [Layers.singleRow t (t.layersOf d.parent)] with
    | nil => exact .insertLayer nonempty there 0
    | cons first more => exact .mergeInto there (rest ▸ left) (Nat.succ_pos _) d.row

/-- The layers of a target have right fill flags: each layer is built from the tree. -/
theorem flagged_layersAfter : ∀ l ∈ t.layersAfter moved d, t.fills l.children = l.hasFill := by
  unfold layersAfter
  dsimp only
  split
  · split
    · exact Layers.flagged_insertLayer (fun l => Layers.flagged_without) _ _
    · exact Layers.flagged_mergeInto (fun l => Layers.flagged_without) _ _ _ _
  · split
    · simp
    · split
      · exact Layers.flagged_insertLayer (by simp) _ _
      · exact Layers.flagged_mergeInto (fun l => Layers.flagged_without) _ _ _ _

end LayersAfter

section Settling

variable {t s : WidgetTree} {moved : List WidgetId}

/-- What is left of the layers of a container other than the target. -/
theorem Handed.rows_eq {parent : WidgetId} (handed : Handed t moved parent moved s)
    (linked : t.Linked) {id : WidgetId} (other : id ≠ parent) : Layers.rows (s.layersOf id) =
      Layers.pruned moved (Layers.rows (t.layersOf id)) := by
  by_cases left : ∃ m ∈ moved, t.Up m id
  · rw [handed.layersOf_left id other left]
    exact Layers.rows_without
      (fun x hx => contains_of_parentOf? (linked.up_of_mem_flatten hx)) moved
  · have apart : ∀ m ∈ moved, ¬ t.Up m id := fun m hm up => left ⟨m, hm, up⟩
    rw [handed.layersOf_kept id (.inr apart)]
    refine (Layers.pruned_eq_self ?_ ?_).symm
    · rw [Layers.rows, List.forall_mem_map]
      exact fun l hl => (linked.arranged id (List.ne_nil_of_mem hl)).filled l hl
    · rw [Layers.rows, List.forall_mem_map]
      intro l hl c hc hm
      refine apart c.id hm (linked.up_of_mem_flatten ?_)
      exact List.mem_flatMap.mpr ⟨l, hl, List.mem_map_of_mem hc⟩

variable {d : DropTarget} (handed : Handed t moved d.parent moved s) (linked : t.Linked)
  (target : t.contains d.parent = true)
include handed linked target

/-- All layers have right fill flags once the moved widgets are in the target. -/
theorem Handed.flagged_settle (id : WidgetId) :
    ∀ l ∈ (s.settle moved d).layersOf id, t.fills l.children = l.hasFill := by
  have fill : ∀ cs, s.fills cs = t.fills cs := fun cs => by
    simp only [fills, handed.isFill_eq]
  intro l hl
  rw [handed.layersOf_settle target] at hl
  split at hl
  · rw [← fill]
    exact flagged_layersAfter l hl
  · rename_i other
    exact (handed.arranges_other linked (Ne.symm other) (List.ne_nil_of_mem hl)).2.flagged l hl

variable (nonempty : moved ≠ []) (there : ∀ m ∈ moved, t.contains m = true)
include nonempty there

/-- The moved widgets land in the layers of the target, unless it is horizontal and has none. -/
theorem Handed.lands_settle (layered : d.direction = .horizontal → t.layersOf d.parent ≠ []) :
    Lands moved d.align (Layers.pruned moved (t.rowsFor d))
      (Layers.rows ((s.settle moved d).layersOf d.parent)) := by
  have own : s.layersOf d.parent = t.layersOf d.parent := handed.layersOf_kept d.parent (.inl rfl)
  have rows : t.rowsFor d = s.rowsFor d := by rw [rowsFor, rowsFor, own]
  rw [handed.layersOf_settle target, if_pos rfl, rows]
  refine lands_layersAfter nonempty ?_ ?_ (own ▸ layered)
  · exact fun m hm => handed.kin.contains_eq m ▸ there m hm
  · intro id hid
    rw [own] at hid
    exact handed.kin.contains_eq id ▸ contains_of_parentOf? (linked.up_of_mem_flatten hid)

theorem Handed.layersOf_settle_eq_nil_iff : (s.settle moved d).layersOf d.parent = [] ↔
    d.direction = .horizontal ∧ t.layersOf d.parent = [] := by
  constructor
  · intro gone
    by_contra layered
    have lands := handed.lands_settle linked target nonempty there
      fun direction bare => layered ⟨direction, bare⟩
    exact lands.ne_nil (Layers.rows_eq_nil_iff.mpr gone)
  · rintro ⟨direction, bare⟩
    have own : s.layersOf d.parent = [] := (handed.layersOf_kept d.parent (.inl rfl)).trans bare
    rw [handed.layersOf_settle target, if_pos rfl, layersAfter]
    simp [direction, own]

end Settling

/-! ### Moves -/

/-- A tree after a move of some widgets to a target: widgets keep all but their links, layers and
places; the moved widgets are children of the target, in their order at the place asked for, and
of nothing else; other containers keep their other children and the rows of these; and the layers
of the target, if it has any, take the moved widgets in. -/
structure Moves (t : WidgetTree) (moved : List WidgetId) (d : DropTarget) (t' : WidgetTree) :
    Prop where
  profile_eq : ∀ id, (t'.get? id).map Widget.profile = (t.get? id).map Widget.profile
  parentOf?_eq : ∀ id, t'.parentOf? id = if id ∈ moved then some d.parent else t.parentOf? id
  childrenOf_eq : ∀ id, let rest := (t.childrenOf id).filter fun c => !moved.contains c
    t'.childrenOf id =
      if id = d.parent then insertAt (min d.index rest.length) moved rest else rest
  rows_eq : ∀ id, id ≠ d.parent →
    Layers.rows (t'.layersOf id) = Layers.pruned moved (Layers.rows (t.layersOf id))
  flagged : ∀ id, ∀ l ∈ t'.layersOf id, t'.fills l.children = l.hasFill
  bare_iff : t'.layersOf d.parent = [] ↔ d.direction = .horizontal ∧ t.layersOf d.parent = []
  lands : t'.layersOf d.parent ≠ [] → Lands moved d.align (Layers.pruned moved (t.rowsFor d))
    (Layers.rows (t'.layersOf d.parent))

/-- Widgets that are handed over and settle in have moved, wherever widgets are placed then. -/
theorem Handed.moves {t s t' : WidgetTree} {moved : List WidgetId} {d : DropTarget}
    (handed : Handed t moved d.parent moved s) (linked : t.Linked)
    (target : t.contains d.parent = true) (nonempty : moved ≠ [])
    (there : ∀ m ∈ moved, t.contains m = true)
    (profile : ∀ id, (t'.get? id).map Widget.profile = (t.get? id).map Widget.profile)
    (alike : (s.settle moved d).Alike t') : t.Moves moved d t' where
  profile_eq := profile
  parentOf?_eq id := by rw [← alike.parentOf?_eq, handed.parentOf?_settle]
  childrenOf_eq id := by
    intro rest
    rw [← alike.childrenOf_eq, handed.childrenOf_settle target, insertAt_min]
    simp only [eq_comm, rest]
  rows_eq id other := by
    rw [← alike.layersOf_eq, handed.layersOf_settle target, if_neg (Ne.symm other),
      handed.rows_eq linked other]
  flagged id l hl := by
    rw [← alike.layersOf_eq] at hl
    have own := handed.flagged_settle linked target id l hl
    simpa only [fills, ← alike.isFill_eq, handed.isFill_settle] using own
  bare_iff := by
    rw [← alike.layersOf_eq, handed.layersOf_settle_eq_nil_iff linked target nonempty there]
  lands layered := by
    rw [← alike.layersOf_eq] at layered ⊢
    refine handed.lands_settle linked target nonempty there fun direction bare => layered ?_
    exact (handed.layersOf_settle_eq_nil_iff linked target nonempty there).mpr ⟨direction, bare⟩

/-- A move takes along the widgets of its selection that are there and not above the target. When
there are none, or no target, it changes nothing; otherwise these widgets move, and all else stays
in its order. -/
theorem Consistent.moves_moveTo {t : WidgetTree} (h : t.Consistent) (c : LayoutConfig)
    {selection : List WidgetId} (nodup : selection.Nodup) (d : DropTarget) :
    ∃ moved, moved.Sublist selection ∧
      (∀ m, m ∈ moved ↔ m ∈ selection ∧ t.contains m = true ∧
        ¬ Relation.ReflTransGen t.Up d.parent m) ∧
      (t.contains d.parent = false ∨ moved = [] → t.moveTo c selection d = t) ∧
      (t.contains d.parent = true → moved ≠ [] → t.Moves moved d (t.moveTo c selection d)) := by
  refine ⟨t.movable selection d.parent, List.filter_sublist,
    mem_movable_iff t selection d.parent, ?_, fun target nonempty => ?_⟩
  · rintro (missing | idle)
    · rw [moveTo, missing, if_neg Bool.false_ne_true]
    · rw [moveTo, idle, ite_self]
  · have selected := selected_movable nodup nonempty
    obtain ⟨s, handed, result⟩ := h.exists_handed selected target c
    rw [moveTo_movable] at result
    refine handed.moves h.linked target nonempty selected.there
      (fun id => profile_moveTo id c t _ d) ?_
    rw [result]
    exact alike_rearrange c _ d.parent

/-- A text and a filling widget move into the inner canvas, the container around it does not. -/
theorem moves_moveTo_nested : nested.Consistent ∧ ["box", "a", "ghost", "b"].Nodup ∧
    ∃ moved, "a" ∈ moved ∧ "box" ∉ moved ∧
      nested.Moves moved ⟨"in", 1, 0, 0, .finish, false, .vertical⟩
        (nested.moveTo {} ["box", "a", "ghost", "b"]
          ⟨"in", 1, 0, 0, .finish, false, .vertical⟩) := by
  have consistent : nested.Consistent := WellFormed.consistent (by decide +kernel)
  have nodup : ["box", "a", "ghost", "b"].Nodup := by decide
  obtain ⟨moved, -, mem, -, moves⟩ :=
    consistent.moves_moveTo {} nodup ⟨"in", 1, 0, 0, .finish, false, .vertical⟩
  have first : "a" ∈ moved := by
    rw [mem, ← isAncestorOrSelf_iff]
    decide +kernel
  have around : "box" ∉ moved := by
    rw [mem, ← isAncestorOrSelf_iff]
    decide +kernel
  exact ⟨consistent, nodup, moved, first, around,
    moves (by decide +kernel) (List.ne_nil_of_mem first)⟩

end WidgetTree

end AppBuilder
