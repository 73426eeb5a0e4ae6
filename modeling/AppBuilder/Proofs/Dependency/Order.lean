import AppBuilder.Proofs.Dependency.Components

/-!
The order of a dependency graph.

`Sorts` says that a list of paths holds the nodes on no cycle, each once and after all that it
depends on. The order of a sound graph is such a list together with the nodes on a cycle
(`sorts_order`, `mem_cyclic_iff`), and so is that of every graph made by calls.

Main statement: `order_components_ofEdits`.
-/

namespace AppBuilder.DependencyGraph

/-- A path depends directly on another one. -/
def DependsOn (g : DependencyGraph) (p q : String) : Prop := q ∈ g.dependencies p

/-- A path depends on another one, directly or through others. -/
abbrev DependsOnAll (g : DependencyGraph) : String → String → Prop := Relation.TransGen g.DependsOn

/-- A list of the nodes on no cycle, each once and after all that it depends on. -/
structure Sorts (g : DependencyGraph) (sorted : List String) : Prop where
  nodup : sorted.Nodup
  mem_iff : ∀ p, p ∈ sorted ↔ g.contains p = true ∧ ¬ g.DependsOnAll p p
  later : sorted.Pairwise fun p q => ¬ g.DependsOnAll p q

/-- In a list without later members that one is related to, what it is related to comes
before it. -/
theorem idxOf_lt_of_pairwise {r : String → String → Prop} {ps : List String}
    (later : ps.Pairwise fun p q => ¬ r p q) {p q : String} (hp : p ∈ ps) (hq : q ∈ ps)
    (other : ¬ r p p) (rel : r p q) : ps.idxOf q < ps.idxOf p := by
  have hp' := List.idxOf_lt_length_of_mem hp
  have hq' := List.idxOf_lt_length_of_mem hq
  rcases Nat.lt_trichotomy (ps.idxOf p) (ps.idxOf q) with lt | eq | gt
  · have := List.pairwise_iff_getElem.mp later _ _ hp' hq' lt
    simp only [List.getElem_idxOf] at this
    exact absurd rel this
  · rw [List.idxOf_inj hp] at eq
    exact absurd (eq ▸ rel) other
  · exact gt

/-- What a path of a sorted list depends on comes before it. -/
theorem Sorts.idxOf_lt {g : DependencyGraph} {sorted : List String} (h : g.Sorts sorted)
    {p q : String} (hp : p ∈ sorted) (hq : q ∈ sorted) (path : g.DependsOnAll p q) :
    sorted.idxOf q < sorted.idxOf p :=
  idxOf_lt_of_pairwise h.later hp hq ((h.mem_iff p).mp hp).2 path

/-- A graph whose paths depend on lesser ones has no cycle. -/
theorem Sound.not_dependsOnAll_self_of_lt {g : DependencyGraph} (h : g.Sound)
    (lesser : ∀ p ∈ g.paths, ∀ q ∈ (g.dependencies p).toList, q < p) (p : String) :
    ¬ g.DependsOnAll p p := by
  have step : ∀ {p q}, g.DependsOn p q → q < p := fun {p q} edge =>
    lesser p ((g.index.mem_keys_iff p).mpr (h.contains_of_mem_dependencies edge).1) q edge
  have all : ∀ {p q}, g.DependsOnAll p q → q < p := by
    intro p q path
    induction path with
    | single edge => exact step edge
    | tail _ edge ih => exact String.lt_trans (step edge) ih
  exact fun path => String.lt_irrefl p (all path)

/-! ### Paths and keys -/

/-- A path depends on another one when the key of the one does on that of the other. -/
theorem Sound.dependsOnAll_iff {g : DependencyGraph} (h : g.Sound) {p q : String} :
    g.DependsOnAll p q ↔ ∃ k l, g.index.get? p = some k ∧ g.index.get? q = some l ∧
      Relation.TransGen g.Reads k l := by
  constructor
  · intro path
    induction path with
    | single step =>
      obtain ⟨k, l, hk, hl, edge⟩ := h.mem_dependencies_iff.mp step
      exact ⟨k, l, hk, hl, .single edge⟩
    | tail _ step ih =>
      obtain ⟨k, l, hk, hl, path⟩ := ih
      obtain ⟨l', m, hl', hm, edge⟩ := h.mem_dependencies_iff.mp step
      obtain rfl := Option.some.inj (hl.symm.trans hl')
      exact ⟨k, m, hk, hm, path.tail edge⟩
  · rintro ⟨k, l, hk, hl, path⟩
    induction path generalizing q with
    | single edge => exact .single (h.mem_dependencies_iff.mpr ⟨k, _, hk, hl, edge⟩)
    | tail _ edge ih =>
      obtain ⟨r, hr⟩ := h.exists_path_of_dependency edge
      exact (ih hr).tail (h.mem_dependencies_iff.mpr ⟨_, _, hr, hl, edge⟩)

/-- A component is a cycle when its keys depend on themselves. -/
theorem isCycle_iff {g : DependencyGraph} {c : List Key} (h : g.IsComponent c) (nodup : c.Nodup)
    {k : Key} (hk : k ∈ c) : g.isCycle c = true ↔ Relation.TransGen g.Reads k k := by
  match c, h, nodup, hk with
  | [k'], h, _, hk =>
    obtain rfl := List.mem_singleton.mp hk
    simp only [isCycle, decide_eq_true_eq]
    refine ⟨fun edge => .single edge, fun path => ?_⟩
    obtain ⟨l, edge, back⟩ := Relation.TransGen.head'_iff.mp path
    have hl : l ∈ [k] := (h.2 k hk l).mpr ⟨.single edge, back⟩
    exact List.mem_singleton.mp hl ▸ edge
  | k₁ :: k₂ :: ks, h, nodup, hk =>
    simp only [isCycle, List.length_cons, decide_eq_true_eq]
    refine iff_of_true (by omega) ?_
    have other : ∃ l ∈ k₁ :: k₂ :: ks, l ≠ k := by
      by_cases h₁ : k₁ = k
      · refine ⟨k₂, by simp, fun h₂ => ?_⟩
        exact (List.nodup_cons.mp nodup).1 (by simp [h₁, h₂])
      · exact ⟨k₁, by simp, h₁⟩
    obtain ⟨l, hl, hne⟩ := other
    obtain ⟨there, back⟩ := (h.2 k hk l).mp hl
    rcases Relation.reflTransGen_iff_eq_or_transGen.mp there with eq | path
    · exact absurd eq hne
    · exact path.trans_left back

/-- A path is another one or depends on it when the key of the one is that of the other or
depends on it. -/
theorem Sound.dependsOnOrEq_iff {g : DependencyGraph} (h : g.Sound) {p q : String} {l : Key}
    (hq : g.index.get? q = some l) : Relation.ReflTransGen g.DependsOn p q ↔
      ∃ k, g.index.get? p = some k ∧ g.ReadsAll k l := by
  simp only [ReadsAll, Relation.reflTransGen_iff_eq_or_transGen]
  constructor
  · rintro (rfl | path)
    · exact ⟨l, hq, .inl rfl⟩
    · obtain ⟨k, l', hk, hl, path⟩ := h.dependsOnAll_iff.mp path
      obtain rfl := Option.some.inj (hq.symm.trans hl)
      exact ⟨k, hk, .inr path⟩
  · rintro ⟨k, hk, rfl | path⟩
    · exact .inl (h.index_injective hq hk)
    · exact .inr (h.dependsOnAll_iff.mpr ⟨k, l, hk, hq, path⟩)

/-- The closure of some paths holds those that are nodes and all that depends on them. -/
theorem mem_closure_iff {g : DependencyGraph} (h : g.Sound) {paths : List String} {p : String} :
    p ∈ g.closure paths ↔
      ∃ q ∈ paths, g.contains q = true ∧ Relation.ReflTransGen g.DependsOn p q := by
  simp only [closure, h.mem_pathsOf_iff, Network.mem_preorder_iff, mem_keysOf_iff,
    reaches_toDependents h, contains_iff]
  constructor
  · rintro ⟨k, ⟨l, ⟨q, hq, hl⟩, path⟩, hk⟩
    exact ⟨q, hq, ⟨l, hl⟩, (h.dependsOnOrEq_iff hl).mpr ⟨k, hk, path⟩⟩
  · rintro ⟨q, hq, ⟨l, hl⟩, path⟩
    obtain ⟨k, hk, path⟩ := (h.dependsOnOrEq_iff hl).mp path
    exact ⟨k, ⟨l, ⟨q, hq, hl⟩, path⟩, hk⟩

/-! ### The order -/

/-- The components on no cycle. -/
def singles (g : DependencyGraph) : List (List Key) := g.components.filter fun c => !g.isCycle c

/-- The components on a cycle. -/
def cycles (g : DependencyGraph) : List (List Key) := g.components.filter g.isCycle

theorem order_eq (g : DependencyGraph) : g.order =
    ⟨g.singles.flatten.filterMap fun k => (g.nodes.get? k).map (·.path),
      g.pathsOf g.cycles.flatten⟩ := by
  simp [order, List.partition_eq_filter_filter, singles, cycles, Function.comp_def]

section Order

variable {g : DependencyGraph} (h : g.Sound)
include h

theorem nodup_of_mem_components {c : List Key} (hc : c ∈ g.components) : c.Nodup :=
  (List.nodup_flatten.mp (components_spec h).1).1 c hc

theorem mem_singles_flatten_iff {k : Key} : k ∈ g.singles.flatten ↔
    k ∈ g.index.values ∧ ¬ Relation.TransGen g.Reads k k := by
  obtain ⟨-, live, components, -⟩ := components_spec h
  simp only [← live, List.mem_flatten, singles, List.mem_filter, Bool.not_eq_true']
  constructor
  · rintro ⟨c, ⟨hc, single⟩, hk⟩
    rw [← isCycle_iff (components c hc) (nodup_of_mem_components h hc) hk]
    exact ⟨⟨c, hc, hk⟩, by simp [single]⟩
  · rintro ⟨⟨c, hc, hk⟩, acyclic⟩
    rw [← isCycle_iff (components c hc) (nodup_of_mem_components h hc) hk] at acyclic
    exact ⟨c, ⟨hc, by simpa using acyclic⟩, hk⟩

theorem mem_cycles_flatten_iff {k : Key} : k ∈ g.cycles.flatten ↔
    k ∈ g.index.values ∧ Relation.TransGen g.Reads k k := by
  obtain ⟨-, live, components, -⟩ := components_spec h
  simp only [← live, List.mem_flatten, cycles, List.mem_filter]
  constructor
  · rintro ⟨c, ⟨hc, cycle⟩, hk⟩
    exact ⟨⟨c, hc, hk⟩,
      (isCycle_iff (components c hc) (nodup_of_mem_components h hc) hk).mp cycle⟩
  · rintro ⟨⟨c, hc, hk⟩, cyclic⟩
    exact ⟨c, ⟨hc, (isCycle_iff (components c hc) (nodup_of_mem_components h hc) hk).mpr cyclic⟩,
      hk⟩

/-- Of two keys on no cycle, the one listed first does not depend on the other. -/
theorem pairwise_singles_flatten :
    g.singles.flatten.Pairwise fun k l => ¬ Relation.TransGen g.Reads k l := by
  obtain ⟨-, -, components, ordered⟩ := components_spec h
  refine List.pairwise_flatten.mpr ⟨?_, ?_⟩
  · intro c hc
    obtain ⟨hc, single⟩ := List.mem_filter.mp hc
    match c, single with
    | [], _ => exact .nil
    | [k], _ => exact List.pairwise_singleton _ _
    | _ :: _ :: _, single => simp [isCycle] at single
  · exact (ordered.filter _).imp fun apart k hk l hl path => apart k hk l hl path.to_reflTransGen

/-- The nodes on no cycle are listed in order. -/
theorem sorts_order : g.Sorts g.order.sorted := by
  have listed : ∀ {k p}, (g.nodes.get? k).map (·.path) = some p ↔ g.index.get? p = some k :=
    fun {k p} => (h.index_iff p k).symm
  rw [order_eq]
  refine ⟨?_, ?_, ?_⟩
  · refine List.Nodup.filterMap (fun k l p hk hl => ?_) ?_
    · exact Option.some.inj ((listed.mp hk).symm.trans (listed.mp hl))
    · obtain ⟨each, apart⟩ := List.nodup_flatten.mp (components_spec h).1
      exact List.nodup_flatten.mpr
        ⟨fun c hc => each c (List.mem_filter.mp hc).1, apart.filter _⟩
  · intro p
    simp only [List.mem_filterMap, listed, mem_singles_flatten_iff h, h.dependsOnAll_iff,
      contains_iff]
    constructor
    · rintro ⟨k, ⟨-, acyclic⟩, hk⟩
      refine ⟨⟨k, hk⟩, ?_⟩
      rintro ⟨l, m, hl, hm, path⟩
      obtain rfl := Option.some.inj (hk.symm.trans hl)
      obtain rfl := Option.some.inj (hk.symm.trans hm)
      exact acyclic path
    · rintro ⟨⟨k, hk⟩, acyclic⟩
      exact ⟨k, ⟨mem_values_iff.mpr ⟨p, hk⟩, fun path => acyclic ⟨k, k, hk, hk, path⟩⟩, hk⟩
  · refine List.Pairwise.filterMap _ (fun k l apart p hp q hq => ?_) (pairwise_singles_flatten h)
    rw [h.dependsOnAll_iff]
    rintro ⟨k', l', hk, hl, path⟩
    obtain rfl := Option.some.inj ((listed.mp hp).symm.trans hk)
    obtain rfl := Option.some.inj ((listed.mp hq).symm.trans hl)
    exact apart path

/-- The nodes on a cycle are those that depend on themselves. -/
theorem mem_cyclic_iff {p : String} : p ∈ g.order.cyclic ↔ g.DependsOnAll p p := by
  rw [order_eq, h.mem_pathsOf_iff, h.dependsOnAll_iff]
  simp only [mem_cycles_flatten_iff h]
  constructor
  · rintro ⟨k, ⟨-, path⟩, hk⟩
    exact ⟨k, k, hk, hk, path⟩
  · rintro ⟨k, l, hk, hl, path⟩
    obtain rfl := Option.some.inj (hk.symm.trans hl)
    exact ⟨k, ⟨mem_values_iff.mpr ⟨p, hk⟩, path⟩, hk⟩

theorem contains_of_dependsOnAll {p q : String} (path : g.DependsOnAll p q) :
    g.contains p = true ∧ g.contains q = true := by
  obtain ⟨k, l, hk, hl, -⟩ := h.dependsOnAll_iff.mp path
  exact ⟨contains_iff.mpr ⟨k, hk⟩, contains_iff.mpr ⟨l, hl⟩⟩

end Order

/-- In every graph that calls make, each node has one place: among the cyclic nodes when it
depends on itself, otherwise in the order, behind all that it depends on. The components are
the strongly connected components of the keys, each once and after those it depends on. -/
theorem order_components_ofEdits (es : List Edit) :
    let g := ofEdits es
    (g.order.sorted.Nodup ∧
      (∀ p, g.contains p = true ↔ p ∈ g.order.sorted ∨ p ∈ g.order.cyclic) ∧
      (∀ p ∈ g.order.sorted, p ∉ g.order.cyclic)) ∧
    (∀ p, p ∈ g.order.cyclic ↔ Relation.TransGen g.DependsOn p p) ∧
    (∀ a ∈ g.order.sorted, ∀ b ∈ g.order.sorted, Relation.TransGen g.DependsOn a b →
      g.order.sorted.idxOf b < g.order.sorted.idxOf a) ∧
    (g.components.flatten.Nodup ∧
      (∀ k, k ∈ g.components.flatten ↔ ∃ p, g.index.get? p = some k) ∧
      (∀ c ∈ g.components, c ≠ [] ∧ ∀ k ∈ c, ∀ l, l ∈ c ↔
        Relation.ReflTransGen g.Reads k l ∧ Relation.ReflTransGen g.Reads l k) ∧
      g.components.Pairwise fun c d => ∀ k ∈ c, ∀ l ∈ d, ¬ Relation.ReflTransGen g.Reads k l) := by
  intro g
  have h : g.Sound := sound_ofEdits es
  have sorts := sorts_order h
  obtain ⟨nodup, live, components, ordered⟩ := components_spec h
  refine ⟨⟨sorts.nodup, ?_, ?_⟩, fun p => mem_cyclic_iff h,
    fun a ha b hb path => sorts.idxOf_lt ha hb path, nodup, ?_, components, ordered⟩
  · intro p
    rw [sorts.mem_iff, mem_cyclic_iff h]
    constructor
    · intro hc
      by_cases path : g.DependsOnAll p p
      · exact .inr path
      · exact .inl ⟨hc, path⟩
    · rintro (⟨hc, -⟩ | path)
      · exact hc
      · exact (contains_of_dependsOnAll h path).1
  · intro p hp hc
    exact ((sorts.mem_iff p).mp hp).2 ((mem_cyclic_iff h).mp hc)
  · intro k
    rw [live, mem_values_iff]

end AppBuilder.DependencyGraph
