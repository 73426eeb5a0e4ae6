import AppBuilder.Proofs.Search.DepthFirst
import AppBuilder.Proofs.Widget.LayerRule

/-!
Ways up and down in trees of any kind.

Nothing here asks for a sound tree. Parents may lead around in a circle, to the widget itself or to
a name without a widget; children may be shared, listed twice or missing.

A climb of one step more than there are widgets meets all that is above a widget
(`meets_all_above`), and of that number none can be spared (`ladder_bound`). The search below a
widget ends with each name that the children lists lead to, and it is the depth-first listing where
the children lists form a forest (`lists_all_below`), which they do in a consistent tree
(`Consistent.forest`).
-/

namespace AppBuilder.WidgetTree

/-! ### Up -/

/-- A widget is another one or above it exactly when the climb meets it. A longer climb meets no
more, whatever the parents are. -/
theorem meets_all_above (t : WidgetTree) (candidate id : WidgetId) :
    (t.isAncestorOrSelf candidate id = true ↔ Relation.ReflTransGen t.Up id candidate) ∧
    ∀ more, isAncestorOrSelf.climb t candidate (t.size + 1 + more) id =
      t.isAncestorOrSelf candidate id := by
  have met : t.isAncestorOrSelf candidate id = true ↔ Relation.ReflTransGen t.Up id candidate :=
    climb_iff (Nat.lt_succ_self _)
  refine ⟨met, fun more => Bool.eq_iff_iff.mpr ?_⟩
  rw [met]
  exact climb_iff (by omega)

/-- Two widgets that are each other's parents, and one that is its own. -/
def tangled : WidgetTree :=
  .ofList [
    { Widget.ofType "a" containerType with parent := some "b" },
    { Widget.ofType "b" containerType with parent := some "a" },
    { Widget.ofType "c" containerType with parent := some "c" }]

example : tangled.isAncestorOrSelf "b" "a" = true ∧ tangled.isAncestorOrSelf "a" "c" = false := by
  decide +kernel

/-- The names of a ladder. -/
def rung (i : Nat) : WidgetId := .ofList (List.replicate i 'i')

/-- A ladder of so many widgets: the parent of each is the next one, that of the last is missing. -/
def ladder : Nat → WidgetTree
  | 0 => .empty
  | n + 1 => (ladder n).insert { Widget.ofType (rung n) containerType with parent := rung (n + 1) }

theorem rung_inj {i j : Nat} : rung i = rung j ↔ i = j := by
  refine ⟨fun same => ?_, congrArg rung⟩
  simpa [rung] using congrArg (fun name : String => name.toList.length) same

theorem get?_ladder_succ (n : Nat) (id : WidgetId) : (ladder (n + 1)).get? id =
    if rung n = id then some { Widget.ofType (rung n) containerType with parent := rung (n + 1) }
    else (ladder n).get? id :=
  get?_write _ _ _ _

theorem parentOf?_ladder (n i : Nat) :
    (ladder n).parentOf? (rung i) = if i < n then some (rung (i + 1)) else none := by
  induction n with
  | zero => rfl
  | succ n ih =>
    rw [parentOf?] at ih ⊢
    rw [get?_ladder_succ]
    by_cases last : n = i
    · simp [last]
    · rw [if_neg (mt rung_inj.mp last), ih]
      simp only [show i < n + 1 ↔ i < n by omega]

theorem contains_ladder {n : Nat} {id : WidgetId} :
    (ladder n).contains id = true ↔ id ∈ (List.range n).map rung := by
  induction n with
  | zero => simp [ladder, contains, empty, Dict.contains, Dict.get?_empty]
  | succ n ih =>
    rw [contains_iff] at ih ⊢
    rw [List.range_succ, List.map_append, List.mem_append, ← ih, get?_ladder_succ]
    by_cases last : rung n = id
    · simp [last]
    · simp [last, Ne.symm last]

theorem size_ladder (n : Nat) : (ladder n).size = n := by
  have nodup : ((List.range n).map rung).Nodup :=
    List.nodup_range.map fun _ _ => rung_inj.mp
  have size := size_eq_length nodup fun id => contains_ladder
  simpa using size

/-- On a ladder the climb to the missing parent takes one step more than there are widgets. -/
theorem climb_ladder {n steps i : Nat} (le : i ≤ n) :
    isAncestorOrSelf.climb (ladder n) (rung n) steps (rung i) = decide (n < i + steps) := by
  induction steps generalizing i with
  | zero => simpa [isAncestorOrSelf.climb] using le
  | succ steps ih =>
    rw [isAncestorOrSelf.climb, parentOf?_ladder]
    rcases Nat.eq_or_lt_of_le le with rfl | lt
    · simp
    · rw [if_neg (mt rung_inj.mp (Nat.ne_of_lt lt)), if_pos lt]
      simp only [ih lt, show i + 1 + steps = i + (steps + 1) by omega]

/-- As many steps as there are widgets are one too few. -/
theorem ladder_bound (n : Nat) : (ladder n).size = n ∧
    isAncestorOrSelf.climb (ladder n) (rung n) n (rung 0) = false ∧
    (ladder n).isAncestorOrSelf (rung n) (rung 0) = true := by
  refine ⟨size_ladder n, ?_, ?_⟩
  · simp [climb_ladder]
  · rw [isAncestorOrSelf, size_ladder, climb_ladder (Nat.zero_le n)]
    simp

/-! ### Down -/

/-- The children lists of a consistent tree form a forest. -/
theorem Consistent.forest {t : WidgetTree} (h : t.Consistent) : Forest t.childrenOf where
  nodup := h.nodup
  unique p q c hp hq := (h.linked.up_of_mem p c hp).unique (h.linked.up_of_mem q c hq)
  acyclic id loop := by
    have loop : Relation.TransGen t.Down id id := loop
    rw [h.linked.down_eq, Relation.transGen_swap] at loop
    exact h.rooted.not_up_self id loop

/-- The search below a widget ends, with each name put on its stack taken off once. It has listed
once each name that the children lists lead to from there, and in a forest in depth-first order. -/
theorem lists_all_below (t : WidgetTree) (id : WidgetId) :
    (∃ taken, Trace t.toChildren.Pops ⟨[], t.childrenOf id⟩ taken
        ⟨(t.descendants id).reverse, []⟩ ∧
      taken.Perm (t.childrenOf id ++ (t.descendants id).flatMap t.childrenOf)) ∧
    (t.descendants id).Nodup ∧
    (∀ c, c ∈ t.descendants id ↔ Relation.TransGen t.Down id c) ∧
    (Forest t.childrenOf → ∀ listed,
      Unfolds t.childrenOf (t.childrenOf id) listed ↔ listed = t.descendants id) := by
  have successors : t.toChildren.successors = t.childrenOf := funext t.successors_toChildren
  refine ⟨?_, t.toChildren.nodup_search _ _, fun c => mem_descendants_iff, fun forest listed => ?_⟩
  · obtain ⟨taken, run, perm⟩ := t.toChildren.exists_trace_search (t.childrenOf id) []
    rw [List.append_nil] at run
    rw [successors] at perm
    exact ⟨taken, run, perm⟩
  · have unfolds : Unfolds t.childrenOf (t.childrenOf id) (t.descendants id) := by
      have unfolds := Network.unfolds_preorder (successors.symm ▸ forest) id
      rwa [successors] at unfolds
    exact ⟨fun h => h.unique unfolds, fun h => h ▸ unfolds⟩

/-- The inner canvas and what is in it come behind the container around them. -/
theorem lists_all_below_nested : Forest nested.childrenOf ∧
    ["a", "box", "in", "c", "b"] = nested.descendants mainContainerId := by
  have forest : Forest nested.childrenOf :=
    Consistent.forest (WellFormed.consistent (by decide +kernel))
  have lists : nested.childrenOf mainContainerId = ["a", "box"] ∧
      nested.childrenOf "box" = ["in"] ∧ nested.childrenOf "in" = ["c", "b"] ∧
      ∀ id ∈ ["a", "b", "c"], nested.childrenOf id = [] := by decide +kernel
  obtain ⟨root, box, inner, childless⟩ := lists
  have leaf : ∀ id ∈ ["a", "b", "c"], Unfolds nested.childrenOf (nested.childrenOf id) [] := by
    intro id hid
    rw [childless id hid]
    exact .nil
  have inside : Unfolds nested.childrenOf (nested.childrenOf "in") ["c", "b"] := by
    rw [inner]
    exact .cons (leaf "c" (by simp)) (.cons (leaf "b" (by simp)) .nil)
  have boxed : Unfolds nested.childrenOf (nested.childrenOf "box") ["in", "c", "b"] := by
    rw [box]
    exact .cons inside .nil
  have unfolds : Unfolds nested.childrenOf (nested.childrenOf mainContainerId)
      ["a", "box", "in", "c", "b"] := by
    rw [root]
    exact .cons (leaf "a" (by simp)) (.cons boxed .nil)
  obtain ⟨-, -, -, inOrder⟩ := lists_all_below nested mainContainerId
  exact ⟨forest, (inOrder forest _).mp unfolds⟩

end AppBuilder.WidgetTree
