import AppBuilder.Proofs.Dependency.Sound
import Mathlib.Data.Finset.Sort
import Mathlib.Data.Finset.Prod
import Mathlib.Data.String.Basic

/-!
Dependency graphs refine a finite relation on a finite set of paths.

`PathRelation` is the plain account of a graph: its paths and its edges, with no keys.
Each call on a graph answers and does what its counterpart on the relation does
(`Refines.edit`), so the graph that a run of calls makes reads as the relation that the
same run makes. What the graph keeps to get there, a key for each path and two lists of
keys for each node, never refers to a node that is gone: the generation of a slot rises
by one when its node is removed and never falls, so the key of a removed node stays dead
when the slot is filled again, for as many calls as the generations can count.
-/

namespace AppBuilder

/-- A finite set of paths and the pairs of a path and one that it depends on. -/
structure PathRelation where
  paths : Finset String
  edges : Finset (String × String)
deriving DecidableEq

namespace PathRelation

/-- The relation on no path. -/
def empty : PathRelation := ⟨∅, ∅⟩

/-- What a path depends on. -/
def row (m : PathRelation) (p : String) : Finset String :=
  (m.edges.filter (·.1 = p)).image (·.2)

/-- What depends on a path. -/
def column (m : PathRelation) (q : String) : Finset String :=
  (m.edges.filter (·.2 = q)).image (·.1)

/-- Add a path. -/
def add (m : PathRelation) (p : String) : PathRelation := { m with paths := insert p m.paths }

/-- Replace the row of a path. -/
def withRow (m : PathRelation) (p : String) (row : Finset String) : PathRelation :=
  { m with edges := m.edges.filter (·.1 ≠ p) ∪ row.image fun q => (p, q) }

/-- Add a path and make its row those of the targets that are paths. The first part tells
whether the row changed. -/
def setDependencies (m : PathRelation) (p : String) (targets : List String) :
    Bool × PathRelation :=
  let row := (m.add p).paths.filter (· ∈ targets)
  (m.row p ≠ row, (m.add p).withRow p row)

/-- Delete a path and every pair that it is part of. -/
def remove (m : PathRelation) (p : String) : PathRelation :=
  ⟨m.paths.erase p, m.edges.filter fun e => e.1 ≠ p ∧ e.2 ≠ p⟩

/-- The relation after a call. -/
def edit (m : PathRelation) : DependencyGraph.Edit → PathRelation
  | .add p => m.add p
  | .setDependencies p targets => (m.setDependencies p targets).2
  | .remove p => m.remove p

/-- The relation that a sequence of calls makes from the one on no path. -/
def ofEdits (es : List DependencyGraph.Edit) : PathRelation := es.foldl edit empty

@[simp] theorem mem_row {m : PathRelation} {p q : String} : q ∈ m.row p ↔ (p, q) ∈ m.edges := by
  simp [row]

@[simp] theorem mem_column {m : PathRelation} {p q : String} :
    p ∈ m.column q ↔ (p, q) ∈ m.edges := by
  simp [column]

@[simp] theorem mem_paths_add {m : PathRelation} {p q : String} :
    q ∈ (m.add p).paths ↔ q = p ∨ q ∈ m.paths := Finset.mem_insert

theorem mem_edges_withRow {m : PathRelation} {p : String} {row : Finset String} {q r : String} :
    (q, r) ∈ (m.withRow p row).edges ↔ if q = p then r ∈ row else (q, r) ∈ m.edges := by
  simp only [withRow, Finset.mem_union, Finset.mem_filter, Finset.mem_image, Prod.mk.injEq]
  by_cases hq : q = p
  · simp [hq]
  · simp [hq, Ne.symm hq]

theorem mem_edges_remove {m : PathRelation} {p q r : String} :
    (q, r) ∈ (m.remove p).edges ↔ q ≠ p ∧ r ≠ p ∧ (q, r) ∈ m.edges := by
  simp only [remove, Finset.mem_filter]
  exact ⟨fun h => ⟨h.2.1, h.2.2, h.1⟩, fun h => ⟨h.2.2, h.1, h.2.1⟩⟩

end PathRelation

namespace DependencyGraph

/-! ### One call -/

/-- A graph has the paths and the edges of a relation. -/
structure Refines (g : DependencyGraph) (m : PathRelation) : Prop where
  sound : g.Sound
  contains_iff : ∀ p, g.contains p = true ↔ p ∈ m.paths
  mem_dependencies_iff : ∀ p q, q ∈ g.dependencies p ↔ (p, q) ∈ m.edges

theorem Refines.empty : Refines empty PathRelation.empty where
  sound := .empty
  contains_iff p := by simp [PathRelation.empty]
  mem_dependencies_iff p q := by simp [PathRelation.empty]

namespace Refines

variable {g : DependencyGraph} {m : PathRelation} (h : g.Refines m)
include h

theorem contains_add_iff (p q : String) :
    (g.add p).contains q = true ↔ q ∈ (m.add p).paths := by
  rw [contains_add, Bool.or_eq_true, decide_eq_true_iff, h.contains_iff,
    PathRelation.mem_paths_add, eq_comm]

theorem add (p : String) : (g.add p).Refines (m.add p) where
  sound := h.sound.add p
  contains_iff := h.contains_add_iff p
  mem_dependencies_iff q r := by
    rw [mem_dependencies_add h.sound, h.mem_dependencies_iff]
    rfl

theorem setDependencies (p : String) (targets : List String) :
    (g.setDependencies p targets).2.Refines (m.setDependencies p targets).2 where
  sound := h.sound.setDependencies p targets
  contains_iff q := by
    rw [contains_setDependencies, ← contains_add]
    exact h.contains_add_iff p q
  mem_dependencies_iff q r := by
    rw [mem_dependencies_setDependencies h.sound, h.contains_add_iff, h.mem_dependencies_iff]
    simp only [PathRelation.setDependencies, PathRelation.mem_edges_withRow, Finset.mem_filter,
      and_comm]
    rfl

/-- Replacing a row answers whether the row of the relation changed. -/
theorem setDependencies_fst (p : String) (targets : List String) :
    (g.setDependencies p targets).1 = (m.setDependencies p targets).1 := by
  have old : ∀ q, q ∈ g.dependencies p ↔ q ∈ m.row p := fun q => by
    rw [h.mem_dependencies_iff, PathRelation.mem_row]
  have new : ∀ q, q ∈ (g.setDependencies p targets).2.dependencies p ↔
      q ∈ (m.add p).paths.filter (· ∈ targets) := fun q => by
    rw [mem_dependencies_setDependencies h.sound, if_pos rfl, h.contains_add_iff,
      Finset.mem_filter, and_comm]
  rw [DependencyGraph.setDependencies_fst h.sound, PathRelation.setDependencies, decide_eq_decide]
  refine not_congr ⟨fun same => Finset.ext fun q => ?_, fun same => NameSet.ext_mem fun q => ?_⟩
  · rw [← old, ← new, same]
  · rw [old, new, same]

theorem remove (p : String) : (g.remove p).Refines (m.remove p) where
  sound := h.sound.remove p
  contains_iff q := by
    rw [contains_remove, Bool.and_eq_true, h.contains_iff, decide_eq_true_iff]
    exact (and_congr_left' ne_comm).trans Finset.mem_erase.symm
  mem_dependencies_iff q r := by
    rw [mem_dependencies_remove h.sound, h.mem_dependencies_iff, PathRelation.mem_edges_remove]

/-- A call does to a graph what it does to the relation. -/
theorem edit (e : Edit) : (g.edit e).Refines (m.edit e) := by
  cases e with
  | add p => exact h.add p
  | setDependencies p targets => exact h.setDependencies p targets
  | remove p => exact h.remove p

end Refines

/-! ### Keys -/

/-- The live keys are those in the index. -/
theorem Sound.mem_keys_iff {g : DependencyGraph} (h : g.Sound) {k : Key} :
    k ∈ g.nodes.keys ↔ ∃ p, g.index.get? p = some k := by
  simp only [Arena.mem_keys_iff, h.index_iff, ← Option.isSome_iff_exists, Option.isSome_map]

/-- The index gives each live key to one path. -/
theorem Sound.index_perm_keys {g : DependencyGraph} (h : g.Sound) :
    (g.paths.map g.index.get?).Perm (g.nodes.keys.map some) := by
  have indexed : ∀ p ∈ g.paths, ∃ k, g.index.get? p = some k := fun p hp =>
    contains_iff.mp ((g.index.mem_keys_iff p).mp hp)
  have pathsNodup : (g.paths.map g.index.get?).Nodup := by
    refine List.Nodup.map_on (fun p hp q _ same => ?_) (g.index.pairwise_keys.imp ne_of_lt)
    obtain ⟨k, hk⟩ := indexed p hp
    exact h.index_injective hk (same ▸ hk)
  have keysNodup := g.nodes.nodup_keys.map (Option.some_injective _)
  refine (List.perm_ext_iff_of_nodup pathsNodup keysNodup).mpr fun o => ?_
  simp only [List.mem_map, h.mem_keys_iff]
  constructor
  · rintro ⟨p, hp, rfl⟩
    obtain ⟨k, hk⟩ := indexed p hp
    exact ⟨k, ⟨p, hk⟩, hk.symm⟩
  · rintro ⟨k, ⟨p, hk⟩, rfl⟩
    exact ⟨p, (g.index.mem_keys_iff p).mpr (contains_iff.mpr ⟨k, hk⟩), hk⟩

/-- Every key that a graph keeps is that of a node which is there: the index gives each
node under its path, and the keys in a node are those of its neighbours. -/
structure Resolves (g : DependencyGraph) (m : PathRelation) : Prop where
  index : ∀ p k, g.index.get? p = some k ↔ ∃ n, g.nodes.get? k = some n ∧ n.path = p
  dependencies : ∀ k n, g.nodes.get? k = some n → ∀ l,
    l ∈ n.dependencies ↔ ∃ q, g.index.get? q = some l ∧ (n.path, q) ∈ m.edges
  dependents : ∀ k n, g.nodes.get? k = some n → ∀ l,
    l ∈ n.dependents ↔ ∃ q, g.index.get? q = some l ∧ (q, n.path) ∈ m.edges

theorem Refines.resolves {g : DependencyGraph} {m : PathRelation} (h : g.Refines m) :
    g.Resolves m where
  index p k := by rw [h.sound.index_iff, Option.map_eq_some_iff]
  dependencies k n hn l := by
    have hk := (h.sound.index_iff n.path k).mpr (by simp [hn])
    have keys : g.dependencyKeys k = n.dependencies := by simp [dependencyKeys_eq, hn]
    constructor
    · intro hl
      rw [← keys] at hl
      obtain ⟨q, hq⟩ := h.sound.exists_path_of_dependent hl
      refine ⟨q, hq, ?_⟩
      rwa [← h.mem_dependencies_iff, ← h.sound.mem_dependencyKeys_iff hk hq]
    · rintro ⟨q, hq, edge⟩
      rwa [← h.mem_dependencies_iff, ← h.sound.mem_dependencyKeys_iff hk hq, keys] at edge
  dependents k n hn l := by
    have hk := (h.sound.index_iff n.path k).mpr (by simp [hn])
    have keys : g.dependentKeys k = n.dependents := by simp [dependentKeys_eq, hn]
    rw [← keys, ← h.sound.symmetric]
    constructor
    · intro hl
      obtain ⟨q, hq⟩ := h.sound.exists_path_of_dependency hl
      refine ⟨q, hq, ?_⟩
      rwa [← h.mem_dependencies_iff, ← h.sound.mem_dependencyKeys_iff hq hk]
    · rintro ⟨q, hq, edge⟩
      rwa [← h.mem_dependencies_iff, ← h.sound.mem_dependencyKeys_iff hq hk] at edge

/-! ### Slots that are filled again -/

theorem generation_rewire (g : DependencyGraph) (k : Key) (targets : List Key) (slot : Nat) :
    (g.rewire k targets).nodes.generation slot = g.nodes.generation slot := by
  simp only [rewire, dropDependent, addDependent, Arena.generation_modify,
    Arena.generation_foldl_modify]

theorem generation_add (g : DependencyGraph) (p : String) (slot : Nat) :
    (g.add p).nodes.generation slot = g.nodes.generation slot := by
  unfold add
  split
  · rfl
  · exact Arena.generation_insert _ _ _

theorem generation_remove {g : DependencyGraph} (h : g.Sound) {p : String} {k : Key}
    (hk : g.index.get? p = some k) (slot : Nat) : (g.remove p).nodes.generation slot =
      if k.slot = slot then k.generation + 1 else g.nodes.generation slot := by
  obtain ⟨n, hn, -⟩ := h.exists_node hk
  simp only [remove, hk, dropDependent, dropDependency, Arena.generation_foldl_modify,
    Arena.generation_remove hn]

/-- A call leaves the generation of a slot or raises it by one. -/
theorem generation_edit {g : DependencyGraph} (h : g.Sound) (e : Edit) (slot : Nat) :
    g.nodes.generation slot ≤ (g.edit e).nodes.generation slot ∧
      (g.edit e).nodes.generation slot ≤ g.nodes.generation slot + 1 := by
  cases e with
  | add p => simp [edit, generation_add]
  | setDependencies p targets =>
    obtain ⟨k, -, ⟨eq, -⟩ | ⟨eq, -⟩⟩ := setDependencies_cases g p targets
    · simp [edit, eq, generation_add]
    · simp [edit, eq, generation_rewire, generation_add]
  | remove p =>
    cases hk : g.index.get? p with
    | none => simp [edit, remove_of_index_none hk]
    | some k =>
      obtain ⟨n, hn, -⟩ := h.exists_node hk
      rw [edit, generation_remove h hk]
      split
      · rename_i same
        subst same
        rw [Arena.generation_of_get? hn]
        omega
      · omega

/-- Calls raise the generation of a slot by as many as they are, at most. -/
theorem generation_foldl {g : DependencyGraph} (h : g.Sound) (es : List Edit) (slot : Nat) :
    g.nodes.generation slot ≤ (es.foldl edit g).nodes.generation slot ∧
      (es.foldl edit g).nodes.generation slot ≤ g.nodes.generation slot + es.length := by
  induction es generalizing g with
  | nil => simp
  | cons e es ih =>
    have first := generation_edit h e slot
    have rest := ih (h.edit e)
    rw [List.foldl_cons, List.length_cons]
    omega

/-- A key that takes the slot of a removed node differs from the key of that node, also where
generations are counted modulo a number that is larger than there are calls from the removal on. -/
theorem generation_mod_ne {g : DependencyGraph} (h : g.Sound) {p : String} {k l : Key}
    {n : DependencyNode} (hk : g.index.get? p = some k) {later : List Edit} {modulus : Nat}
    (room : later.length + 1 < modulus)
    (hl : (later.foldl edit (g.remove p)).nodes.get? l = some n) (same : l.slot = k.slot) :
    l.generation % modulus ≠ k.generation % modulus := by
  intro wrapped
  have removed : (g.remove p).nodes.generation k.slot = k.generation + 1 := by
    rw [generation_remove h hk, if_pos rfl]
  have bounds := generation_foldl (h.remove p) later k.slot
  rw [removed, ← same, Arena.generation_of_get? hl] at bounds
  have whole : modulus ∣ l.generation - k.generation :=
    Nat.dvd_of_mod_eq_zero (Nat.sub_mod_eq_zero_of_mod_eq wrapped)
  have apart := Nat.le_of_dvd (by omega) whole
  omega

/-! ### Reading -/

/-- What the reading calls of a graph tell is what a relation tells. -/
structure ReadsAs (g : DependencyGraph) (m : PathRelation) : Prop where
  contains : ∀ p, g.contains p = decide (p ∈ m.paths)
  paths : g.paths = m.paths.sort
  size : g.size = m.paths.card
  dependencies : ∀ p, (g.dependencies p).toList = (m.row p).sort
  dependents : ∀ p, (g.dependents p).toList = (m.column p).sort
  inverse : ∀ p, (g.inverse.get? p).map NameSet.toList =
    if m.column p = ∅ then none else some (m.column p).sort

/-- A list of names in increasing order is the sorting of the set of its members. -/
theorem eq_sort_of_pairwise {ps : List String} {s : Finset String} (rising : ps.Pairwise (· < ·))
    (mem : ∀ p, p ∈ ps ↔ p ∈ s) : ps = s.sort := by
  have sorted : s.sort.Pairwise (· < ·) := s.sortedLT_sort.pairwise
  have perm : ps.Perm s.sort :=
    (List.perm_ext_iff_of_nodup (rising.imp ne_of_lt) (sorted.imp ne_of_lt)).mpr fun p => by
      rw [mem, Finset.mem_sort]
  exact perm.eq_of_pairwise (fun a b _ _ hab hba => absurd hab hba.asymm) rising sorted

namespace Refines

variable {g : DependencyGraph} {m : PathRelation} (h : g.Refines m)
include h

theorem mem_dependents_iff (p q : String) : p ∈ g.dependents q ↔ (p, q) ∈ m.edges := by
  rw [h.sound.mem_dependents_iff, h.mem_dependencies_iff]

theorem paths_eq : g.paths = m.paths.sort :=
  eq_sort_of_pairwise g.index.pairwise_keys fun p => by
    rw [← h.contains_iff]
    exact g.index.mem_keys_iff p

theorem dependents_eq (q : String) : (g.dependents q).toList = (m.column q).sort :=
  eq_sort_of_pairwise (g.dependents q).ordered fun p => by
    rw [PathRelation.mem_column]
    exact h.mem_dependents_iff p q

/-- The nodes are as many as the paths: the index gives each live key once. -/
theorem size_eq : g.size = m.paths.card := by
  have count := h.sound.index_perm_keys.length_eq
  rw [List.length_map, List.length_map, Arena.length_keys, h.paths_eq, Finset.length_sort] at count
  exact count.symm

theorem reads : g.ReadsAs m where
  contains p := by
    rw [Bool.eq_iff_iff, decide_eq_true_iff]
    exact h.contains_iff p
  paths := h.paths_eq
  size := h.size_eq
  dependencies p := eq_sort_of_pairwise (g.dependencies p).ordered fun q => by
    rw [PathRelation.mem_row]
    exact h.mem_dependencies_iff p q
  dependents := h.dependents_eq
  inverse p := by
    have kept : g.inverse.get? p = if (g.dependents p).isEmpty then none else
        (g.index.get? p).map fun _ => g.dependents p := by
      rw [DependencyGraph.inverse, Dict.get?_filter, Dict.get?_map]
      cases g.index.get? p <;> cases he : (g.dependents p).isEmpty <;> simp [he]
    by_cases free : m.column p = ∅
    · have bare : (g.dependents p).toList = [] := by simp [h.dependents_eq, free]
      simp [kept, NameSet.isEmpty, bare, free]
    · obtain ⟨q, hq⟩ := Finset.nonempty_iff_ne_empty.mpr free
      have hp := (h.mem_dependents_iff q p).mpr (PathRelation.mem_column.mp hq)
      have full : (g.dependents p).isEmpty = false := by
        rw [NameSet.isEmpty, List.isEmpty_eq_false_iff]
        exact List.ne_nil_of_mem hp
      obtain ⟨k, hk⟩ := DependencyGraph.contains_iff.mp
        (h.sound.contains_of_mem_dependencies ((h.sound.mem_dependents_iff).mp hp)).2
      simp [kept, full, hk, free, h.dependents_eq]

end Refines

/-! ### Runs of calls -/

theorem refines_ofEdits (es : List Edit) : (ofEdits es).Refines (PathRelation.ofEdits es) := by
  have run : ∀ (es : List Edit) (g : DependencyGraph) (m : PathRelation), g.Refines m →
      (es.foldl edit g).Refines (es.foldl PathRelation.edit m) := by
    intro es
    induction es with
    | nil => exact fun _ _ h => h
    | cons e es ih => exact fun _ _ h => ih _ _ (h.edit e)
  exact run es empty .empty .empty

/-- The edges of a relation that a graph refines lie on its paths. -/
theorem Refines.edges_subset {g : DependencyGraph} {m : PathRelation} (h : g.Refines m) :
    m.edges ⊆ m.paths ×ˢ m.paths := by
  rintro ⟨p, q⟩ edge
  obtain ⟨hp, hq⟩ := h.sound.contains_of_mem_dependencies ((h.mem_dependencies_iff p q).mpr edge)
  exact Finset.mem_product.mpr ⟨(h.contains_iff p).mp hp, (h.contains_iff q).mp hq⟩

/-- A graph that calls made behaves as the relation that the same calls make. The next
call replacing dependencies gives the same answer on both, what the graph tells is what
the relation tells, and the dependents are the dependencies turned round. Each key that
the graph keeps is that of a node which is there, and the key of a node that is removed
stays dead: a key that takes its slot differs from it in the generation, also where
generations are counted modulo a number, as long as fewer calls than that were made from the
removal on. -/
theorem ofEdits_behaves (es : List Edit) :
    let g := ofEdits es
    let m := PathRelation.ofEdits es
    m.edges ⊆ m.paths ×ˢ m.paths ∧
    (∀ p targets, (g.setDependencies p targets).1 = (m.setDependencies p targets).1) ∧
    g.ReadsAs m ∧
    (∀ p q, q ∈ g.dependents p ↔ p ∈ g.dependencies q) ∧
    g.Resolves m ∧
    ∀ p k, g.index.get? p = some k →
      ∀ (later : List Edit) (modulus : Nat), later.length + 1 < modulus →
        ∀ l n, (later.foldl edit (g.remove p)).nodes.get? l = some n → l.slot = k.slot →
          l.generation % modulus ≠ k.generation % modulus := by
  intro g m
  have h : g.Refines m := refines_ofEdits es
  exact ⟨h.edges_subset, h.setDependencies_fst, h.reads, fun p q => h.sound.mem_dependents_iff,
    h.resolves, fun p k hk later modulus room l n hl same =>
      generation_mod_ne h.sound hk room hl same⟩

end DependencyGraph

end AppBuilder
