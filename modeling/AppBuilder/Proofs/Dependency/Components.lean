import AppBuilder.Dependency.Order
import AppBuilder.Proofs.Dependency.Sound
import AppBuilder.Proofs.Search.Components

/-!
The components of a dependency graph.

The graph is searched as a network of keys. In a sound graph the steps of that network are the
dependencies, which lead from live keys to live keys, so its components are the strongly
connected components of the live keys.

Main statement: `components_spec`.
-/

namespace AppBuilder.DependencyGraph

/-- A key depends directly on another one. -/
def Reads (g : DependencyGraph) (k l : Key) : Prop := l ∈ g.dependencyKeys k

/-- A key is another one or depends on it, directly or through others. -/
abbrev ReadsAll (g : DependencyGraph) : Key → Key → Prop := Relation.ReflTransGen g.Reads

/-- The keys of a list are strongly connected, and none outside it is with them. -/
def IsComponent (g : DependencyGraph) (c : List Key) : Prop :=
  c ≠ [] ∧ ∀ k ∈ c, ∀ l, l ∈ c ↔ g.ReadsAll k l ∧ g.ReadsAll l k

theorem mem_values_iff {g : DependencyGraph} {k : Key} :
    k ∈ g.index.values ↔ ∃ p, g.index.get? p = some k := by
  simp [Dict.values, Dict.mem_entries_iff]

variable {g : DependencyGraph} (h : g.Sound)
include h

theorem successors_toDependencies (k : Key) :
    g.toDependencies.successors k = g.dependencyKeys k := by
  refine ite_eq_left_iff.mpr fun hk => ?_
  refine (List.eq_nil_iff_forall_not_mem.mpr fun l hl => hk ?_).symm
  exact mem_values_iff.mpr (h.exists_path_of_dependency hl)

theorem successors_toDependents (k : Key) : g.toDependents.successors k = g.dependentKeys k := by
  refine ite_eq_left_iff.mpr fun hk => ?_
  refine (List.eq_nil_iff_forall_not_mem.mpr fun l hl => hk ?_).symm
  exact mem_values_iff.mpr (h.exists_path_of_dependent ((h.symmetric l k).mpr hl))

theorem reaches_toDependencies {k l : Key} : g.toDependencies.Reaches k l ↔ g.ReadsAll k l := by
  unfold Network.Reaches
  simp only [successors_toDependencies h]
  rfl

/-- A step among the dependents is a dependency turned round. -/
theorem mem_successors_toDependents {k l : Key} :
    l ∈ g.toDependents.successors k ↔ g.Reads l k := by
  rw [successors_toDependents h, ← h.symmetric]
  rfl

theorem reaches_toDependents {k l : Key} : g.toDependents.Reaches l k ↔ g.ReadsAll k l := by
  unfold Network.Reaches
  simp only [mem_successors_toDependents h]
  exact Relation.reflTransGen_swap

/-- A key that a live key depends on is live. -/
theorem live_of_readsAll {k l : Key} (path : g.ReadsAll k l) (hk : k ∈ g.index.values) :
    l ∈ g.index.values := by
  cases path with
  | refl => exact hk
  | tail _ step => exact mem_values_iff.mpr (h.exists_path_of_dependent step)

/-- The components are the strongly connected components of the live keys, each listed once
and after every other that it depends on. -/
theorem components_spec :
    g.components.flatten.Nodup ∧ (∀ k, k ∈ g.components.flatten ↔ k ∈ g.index.values) ∧
      (∀ c ∈ g.components, g.IsComponent c) ∧
      g.components.Pairwise fun c d => ∀ k ∈ c, ∀ l ∈ d, ¬ g.ReadsAll k l := by
  obtain ⟨found, reached⟩ := g.toDependencies.components_spec
  refine ⟨found.nodup, ?_, ?_, ?_⟩
  · intro k
    rw [components, reached]
    constructor
    · rintro ⟨r, hr, path⟩
      exact live_of_readsAll h ((reaches_toDependencies h).mp path) hr
    · intro hk
      exact ⟨k, hk, .refl⟩
  · intro c hc
    obtain ⟨nonempty, members⟩ := found.isComponent c hc
    refine ⟨nonempty, fun k hk l => ?_⟩
    rw [members k hk l, Network.Mutual, reaches_toDependencies h, reaches_toDependencies h]
  · refine found.ordered.imp fun apart k hk l hl path => ?_
    exact apart k hk l hl ((reaches_toDependencies h).mpr path)

end AppBuilder.DependencyGraph
