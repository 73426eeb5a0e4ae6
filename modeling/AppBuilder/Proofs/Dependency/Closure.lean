import AppBuilder.Proofs.Dependency.Order
import AppBuilder.Proofs.Search.Worklist

/-!
What depends on some paths.

The closure of some paths is found by a search along the dependents. In whatever order the search
takes the keys that are waiting, a queue, a stack or any other, it comes to an end, and what it has
found by then are the given paths that are nodes and all that depends on them.

Main statement: `closure_ofEdits`.
-/

namespace AppBuilder.DependencyGraph

/-- The closure holds those of the given paths that are nodes and all that depends on them. -/
theorem Sound.mem_closure_iff_dependsOnAll {g : DependencyGraph} (h : g.Sound)
    {paths : List String} {p : String} : p ∈ g.closure paths ↔
      (p ∈ paths ∧ g.contains p = true) ∨ ∃ q ∈ paths, g.DependsOnAll p q := by
  rw [mem_closure_iff h]
  constructor
  · rintro ⟨q, hq, node, path⟩
    rcases Relation.reflTransGen_iff_eq_or_transGen.mp path with rfl | path
    · exact .inl ⟨hq, node⟩
    · exact .inr ⟨q, hq, path⟩
  · rintro (⟨hp, node⟩ | ⟨q, hq, path⟩)
    · exact ⟨p, hp, node, .refl⟩
    · exact ⟨q, hq, (contains_of_dependsOnAll h path).2, path.to_reflTransGen⟩

/-- A search along the dependents that has ended has found the closure of its starts. -/
theorem Sound.pathsOf_found {g : DependencyGraph} (h : g.Sound) {paths : List String}
    {w : Worklist Key} (searches : g.toDependents.Searches (g.keysOf paths) w)
    (idle : w.waiting = []) : g.pathsOf w.found = g.closure paths := by
  refine NameSet.ext_mem fun p => ?_
  simp only [closure, h.mem_pathsOf_iff, searches.mem_found_iff idle, Network.mem_preorder_iff]

/-- In every graph that calls make, cycles or not, the closure of some paths, unknown and repeated
ones among them, holds those that are nodes and every node that depends on one of them. Each search
for it along the dependents ends, whatever it takes next: there is no endless run of visits, it goes
on as long as a key is waiting, and then it has found each key of the closure once. -/
theorem closure_ofEdits (es : List Edit) (paths : List String) :
    let g := ofEdits es
    (∀ p, p ∈ g.closure paths ↔
      (p ∈ paths ∧ g.contains p = true) ∨ ∃ q ∈ paths, Relation.TransGen g.DependsOn p q) ∧
    (WellFounded fun after before => g.toDependents.Visits before after) ∧
    ∀ w, Relation.ReflTransGen g.toDependents.Visits ⟨[], g.keysOf paths⟩ w →
      (w.waiting ≠ [] → ∃ w', g.toDependents.Visits w w') ∧
      (w.waiting = [] → w.found.Nodup ∧ g.pathsOf w.found = g.closure paths) := by
  intro g
  have sound : g.Sound := sound_ofEdits es
  refine ⟨fun p => sound.mem_closure_iff_dependsOnAll, g.toDependents.wellFounded_visits,
    fun w run => ⟨Network.exists_visits, fun idle => ?_⟩⟩
  have searches := Network.Searches.of_run run
  exact ⟨searches.nodup, sound.pathsOf_found searches idle⟩

end AppBuilder.DependencyGraph
