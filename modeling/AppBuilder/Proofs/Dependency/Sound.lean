import AppBuilder.Dependency.Graph
import AppBuilder.Proofs.Arena

/-!
Dependency graphs as finite sets of paths with a relation on them.

A graph is sound when its index names each live key by its path and every edge is kept at
both ends. The empty graph is sound, and adding, removing and rewiring keep that
(`sound_ofEdits`). On a sound graph each operation reads as one on the relation: `add` adds
a path without edges, `remove` drops a path with all its edges, `setDependencies` replaces
the row of a path by those of the given paths that are nodes.
-/

namespace AppBuilder.DependencyGraph

/-- Keys and paths name the same nodes, and every edge is kept at both its ends. -/
structure Sound (g : DependencyGraph) : Prop where
  arena : g.nodes.Sound
  index_iff : ∀ p k, g.index.get? p = some k ↔ (g.nodes.get? k).map (·.path) = some p
  symmetric : ∀ k l, l ∈ g.dependencyKeys k ↔ k ∈ g.dependentKeys l

/-! ### Keys -/

theorem dependencyKeys_eq (g : DependencyGraph) (k : Key) :
    g.dependencyKeys k = ((g.nodes.get? k).map (·.dependencies)).getD [] := by
  unfold dependencyKeys
  split <;> simp [*]

theorem dependentKeys_eq (g : DependencyGraph) (k : Key) :
    g.dependentKeys k = ((g.nodes.get? k).map (·.dependents)).getD [] := by
  unfold dependentKeys
  split <;> simp [*]

theorem insertKey_idem (k : Key) (ks : List Key) :
    insertKey k (insertKey k ks) = insertKey k ks := by
  induction ks with
  | nil => simp [insertKey, Key.before]
  | cons x xs ih =>
    by_cases hb : k.before x = true
    · have self : k.before k = false := by simp [Key.before]
      simp [insertKey, hb, self]
    · by_cases hx : x = k
      · subst hx
        simp [insertKey, hb]
      · simp [insertKey, hb, hx, ih]

theorem filter_ne_eq_self {k : Key} {ks : List Key} (hk : k ∉ ks) : ks.filter (· ≠ k) = ks :=
  List.filter_eq_self.mpr fun x hx => by
    simp only [ne_eq, decide_not, Bool.not_eq_true', decide_eq_false_iff_not]
    exact fun hxk => hk (hxk ▸ hx)

namespace Sound

variable {g : DependencyGraph}

/-- Keys that are no dependency have the key not among their dependents. -/
theorem filter_dependents (h : g.Sound) {k l : Key} {n : DependencyNode}
    (hn : g.nodes.get? l = some n) (hl : l ∉ g.dependencyKeys k) :
    n.dependents.filter (· ≠ k) = n.dependents :=
  filter_ne_eq_self fun hk => hl ((h.symmetric k l).mpr (by simpa [dependentKeys_eq, hn]))

/-- Keys that are no dependent have the key not among their dependencies. -/
theorem filter_dependencies (h : g.Sound) {k l : Key} {n : DependencyNode}
    (hn : g.nodes.get? l = some n) (hl : l ∉ g.dependentKeys k) :
    n.dependencies.filter (· ≠ k) = n.dependencies :=
  filter_ne_eq_self fun hk => hl ((h.symmetric l k).mp (by simpa [dependencyKeys_eq, hn]))

/-- The key of a path is live. -/
theorem exists_node (h : g.Sound) {p : String} {k : Key} (hk : g.index.get? p = some k) :
    ∃ n, g.nodes.get? k = some n ∧ n.path = p :=
  Option.map_eq_some_iff.mp ((h.index_iff p k).mp hk)

theorem index_injective (h : g.Sound) {p q : String} {k : Key} (hp : g.index.get? p = some k)
    (hq : g.index.get? q = some k) : p = q := by
  have hp := (h.index_iff p k).mp hp
  rw [(h.index_iff q k).mp hq] at hp
  exact (Option.some.inj hp).symm

/-- A key with a dependency is the key of a path. -/
theorem exists_path_of_dependency (h : g.Sound) {k l : Key} (hl : l ∈ g.dependencyKeys k) :
    ∃ p, g.index.get? p = some k := by
  rw [dependencyKeys_eq] at hl
  cases hn : g.nodes.get? k with
  | none => simp [hn] at hl
  | some n => exact ⟨n.path, (h.index_iff _ _).mpr (by simp [hn])⟩

/-- A key with a dependent is the key of a path. -/
theorem exists_path_of_dependent (h : g.Sound) {k l : Key} (hl : l ∈ g.dependencyKeys k) :
    ∃ p, g.index.get? p = some l := by
  rw [h.symmetric, dependentKeys_eq] at hl
  cases hn : g.nodes.get? l with
  | none => simp [hn] at hl
  | some n => exact ⟨n.path, (h.index_iff _ _).mpr (by simp [hn])⟩

theorem mem_pathsOf_iff (h : g.Sound) {ks : List Key} {p : String} :
    p ∈ g.pathsOf ks ↔ ∃ k ∈ ks, g.index.get? p = some k := by
  simp only [pathsOf, NameSet.mem_ofList, List.mem_filterMap, h.index_iff]

/-- The dependencies of a path, read off the keys. -/
theorem mem_dependencies_iff (h : g.Sound) {p q : String} :
    q ∈ g.dependencies p ↔ ∃ k l, g.index.get? p = some k ∧ g.index.get? q = some l ∧
      l ∈ g.dependencyKeys k := by
  unfold dependencies
  cases hk : g.index.get? p with
  | none => simp
  | some k => simp [h.mem_pathsOf_iff, and_comm]

/-- The keys of two nodes tell whether one depends on the other. -/
theorem mem_dependencyKeys_iff (h : g.Sound) {p q : String} {k l : Key}
    (hp : g.index.get? p = some k) (hq : g.index.get? q = some l) :
    l ∈ g.dependencyKeys k ↔ q ∈ g.dependencies p := by
  rw [h.mem_dependencies_iff]
  simp [hp, hq]

/-- The dependents are the dependencies turned round. -/
theorem mem_dependents_iff (h : g.Sound) {p q : String} :
    q ∈ g.dependents p ↔ p ∈ g.dependencies q := by
  rw [h.mem_dependencies_iff]
  unfold dependents
  cases hk : g.index.get? p with
  | none => simp
  | some k =>
    simp only [h.mem_pathsOf_iff, Option.some.injEq, ← h.symmetric]
    constructor
    · rintro ⟨l, hl, hq⟩
      exact ⟨l, k, hq, rfl, hl⟩
    · rintro ⟨l, _, hq, rfl, hl⟩
      exact ⟨l, hl, hq⟩

/-- Dependencies lead from nodes to nodes. -/
theorem contains_of_mem_dependencies (h : g.Sound) {p q : String} (hq : q ∈ g.dependencies p) :
    g.contains p = true ∧ g.contains q = true := by
  obtain ⟨k, l, hp, hq, -⟩ := h.mem_dependencies_iff.mp hq
  simp [contains, Dict.contains, hp, hq]

end Sound

theorem contains_iff {g : DependencyGraph} {p : String} :
    g.contains p = true ↔ ∃ k, g.index.get? p = some k :=
  Option.isSome_iff_exists

/-! ### The empty graph -/

theorem Sound.empty : Sound empty where
  arena := .empty
  index_iff := by simp [DependencyGraph.empty]
  symmetric := by simp [DependencyGraph.empty, dependencyKeys_eq, dependentKeys_eq]

@[simp] theorem contains_empty (p : String) : empty.contains p = false := rfl

@[simp] theorem not_mem_dependencies_empty (p q : String) : q ∉ empty.dependencies p :=
  NameSet.mem_empty q

/-! ### Adding -/

theorem add_of_contains {g : DependencyGraph} {p : String} (hp : g.contains p = true) :
    g.add p = g := if_pos hp

theorem add_of_not_contains {g : DependencyGraph} {p : String} (hp : g.contains p ≠ true) :
    g.add p = ⟨g.nodes.insert ⟨p, [], []⟩, g.index.insert p g.nodes.nextKey⟩ := if_neg hp

theorem contains_add (g : DependencyGraph) (p q : String) :
    (g.add p).contains q = (p = q || g.contains q) := by
  by_cases hp : g.contains p = true
  · rw [add_of_contains hp]
    by_cases hq : p = q
    · simp [← hq, hp]
    · simp [hq]
  · rw [add_of_not_contains hp]
    by_cases hq : p = q <;> simp [contains, Dict.contains, Dict.get?_insert, hq]

section Add

variable {g : DependencyGraph} (h : g.Sound) (p : String)
include h

/-- A new node has no edges at either end. -/
theorem row_add (row : DependencyNode → List Key) (bare : row ⟨p, [], []⟩ = []) (k : Key) :
    (((g.add p).nodes.get? k).map row).getD [] = ((g.nodes.get? k).map row).getD [] := by
  by_cases hp : g.contains p = true
  · rw [add_of_contains hp]
  · simp only [add_of_not_contains hp, Arena.get?_insert h.arena]
    by_cases hk : k = g.nodes.nextKey
    · simp [hk, Arena.get?_nextKey h.arena, bare]
    · simp [hk]

theorem dependencyKeys_add (k : Key) : (g.add p).dependencyKeys k = g.dependencyKeys k := by
  rw [dependencyKeys_eq, dependencyKeys_eq, row_add h p _ rfl]

theorem dependentKeys_add (k : Key) : (g.add p).dependentKeys k = g.dependentKeys k := by
  rw [dependentKeys_eq, dependentKeys_eq, row_add h p _ rfl]

theorem Sound.add : (g.add p).Sound where
  arena := by
    unfold DependencyGraph.add
    split
    · exact h.arena
    · exact h.arena.insert _
  index_iff := by
    intro q k
    by_cases hp : g.contains p = true
    · rw [add_of_contains hp]
      exact h.index_iff q k
    have unused : ∀ k, g.index.get? p ≠ some k := fun k hk => hp (contains_iff.mpr ⟨k, hk⟩)
    simp only [add_of_not_contains hp, Dict.get?_insert, Arena.get?_insert h.arena]
    by_cases hk : k = g.nodes.nextKey
    · subst hk
      by_cases hq : p = q
      · simp [hq]
      · simp [hq, h.index_iff, Arena.get?_nextKey h.arena]
    · by_cases hq : p = q
      · subst hq
        simp [hk, Ne.symm hk, ← h.index_iff, unused]
      · simp only [if_neg hk, if_neg hq]
        exact h.index_iff q k
  symmetric := by
    intro k l
    rw [dependencyKeys_add h, dependentKeys_add h]
    exact h.symmetric k l

theorem mem_dependencies_add {q r : String} :
    r ∈ (g.add p).dependencies q ↔ r ∈ g.dependencies q := by
  by_cases hp : g.contains p = true
  · rw [add_of_contains hp]
  have kept : ∀ {s k l}, l ∈ g.dependencyKeys k ∨ k ∈ g.dependencyKeys l →
      ((g.add p).index.get? s = some k ↔ g.index.get? s = some k) := by
    intro s k l hl
    have hlive : ∃ t, g.index.get? t = some k := by
      rcases hl with hl | hl
      · exact h.exists_path_of_dependency hl
      · exact h.exists_path_of_dependent hl
    obtain ⟨t, ht⟩ := hlive
    obtain ⟨n, hn, -⟩ := h.exists_node ht
    have hk : k ≠ g.nodes.nextKey := by
      rintro rfl
      simp [Arena.get?_nextKey h.arena] at hn
    rw [(h.add p).index_iff, h.index_iff, add_of_not_contains hp, Arena.get?_insert h.arena,
      if_neg hk]
  rw [(h.add p).mem_dependencies_iff, h.mem_dependencies_iff]
  simp only [dependencyKeys_add h]
  constructor
  · rintro ⟨k, l, hq, hr, hl⟩
    exact ⟨k, l, (kept (.inl hl)).mp hq, (kept (.inr hl)).mp hr, hl⟩
  · rintro ⟨k, l, hq, hr, hl⟩
    exact ⟨k, l, (kept (.inl hl)).mpr hq, (kept (.inr hl)).mpr hr, hl⟩

end Add

/-! ### Edges at other nodes -/

theorem get?_dropDependent (k : Key) (nodes : Arena DependencyNode) (ks : List Key) (l : Key) :
    (dropDependent k nodes ks).get? l = if l ∈ ks then (nodes.get? l).map fun n =>
      { n with dependents := n.dependents.filter (· ≠ k) } else nodes.get? l :=
  Arena.get?_foldl_modify _ (by simp) ks nodes l

theorem get?_dropDependency (k : Key) (nodes : Arena DependencyNode) (ks : List Key) (l : Key) :
    (dropDependency k nodes ks).get? l = if l ∈ ks then (nodes.get? l).map fun n =>
      { n with dependencies := n.dependencies.filter (· ≠ k) } else nodes.get? l :=
  Arena.get?_foldl_modify _ (by simp) ks nodes l

theorem get?_addDependent (k : Key) (nodes : Arena DependencyNode) (ks : List Key) (l : Key) :
    (addDependent k nodes ks).get? l = if l ∈ ks then (nodes.get? l).map fun n =>
      { n with dependents := insertKey k n.dependents } else nodes.get? l :=
  Arena.get?_foldl_modify _ (by simp [insertKey_idem]) ks nodes l

/-! ### Removing -/

theorem remove_of_index_none {g : DependencyGraph} {p : String} (hp : g.index.get? p = none) :
    g.remove p = g := by
  simp [remove, hp]

theorem contains_remove (g : DependencyGraph) (p q : String) :
    (g.remove p).contains q = (p ≠ q && g.contains q) := by
  cases hk : g.index.get? p with
  | none =>
    rw [remove_of_index_none hk]
    by_cases hq : p = q
    · subst hq
      simp [contains, Dict.contains, hk]
    · simp [hq]
  | some k =>
    have erased : (g.remove p).index = g.index.erase p := by simp [remove, hk]
    simp only [contains, Dict.contains, erased, Dict.get?_erase]
    by_cases hq : p = q <;> simp [hq]

section Remove

variable {g : DependencyGraph} (h : g.Sound) {p : String} {k : Key}
  (hk : g.index.get? p = some k)
include h hk

theorem nodes_get?_remove (l : Key) :
    (g.remove p).nodes.get? l = if l = k then none else (g.nodes.get? l).map fun n =>
      { n with
        dependencies := n.dependencies.filter (· ≠ k)
        dependents := n.dependents.filter (· ≠ k) } := by
  simp only [remove, hk, get?_dropDependency, get?_dropDependent, Arena.get?_remove]
  by_cases hl : l = k
  · simp [hl]
  simp only [if_neg hl, if_neg (Ne.symm hl)]
  cases hn : g.nodes.get? l with
  | none => simp
  | some n =>
    by_cases h1 : l ∈ g.dependentKeys k
    · by_cases h2 : l ∈ g.dependencyKeys k
      · simp [h1, h2]
      · simp only [if_pos h1, if_neg h2, Option.map_some, h.filter_dependents hn h2]
    · by_cases h2 : l ∈ g.dependencyKeys k
      · simp only [if_neg h1, if_pos h2, Option.map_some, h.filter_dependencies hn h1]
      · simp only [if_neg h1, if_neg h2, Option.map_some, h.filter_dependencies hn h1,
          h.filter_dependents hn h2]

theorem dependencyKeys_remove (l : Key) : (g.remove p).dependencyKeys l =
    if l = k then [] else (g.dependencyKeys l).filter (· ≠ k) := by
  rw [dependencyKeys_eq, dependencyKeys_eq, nodes_get?_remove h hk]
  by_cases hl : l = k
  · simp [hl]
  · cases hn : g.nodes.get? l <;> simp [hl]

theorem dependentKeys_remove (l : Key) : (g.remove p).dependentKeys l =
    if l = k then [] else (g.dependentKeys l).filter (· ≠ k) := by
  rw [dependentKeys_eq, dependentKeys_eq, nodes_get?_remove h hk]
  by_cases hl : l = k
  · simp [hl]
  · cases hn : g.nodes.get? l <;> simp [hl]

end Remove

section Remove

variable {g : DependencyGraph} (h : g.Sound) (p : String)
include h

theorem Sound.remove : (g.remove p).Sound := by
  cases hk : g.index.get? p with
  | none =>
    rw [remove_of_index_none hk]
    exact h
  | some k =>
    constructor
    · simp only [DependencyGraph.remove, hk]
      exact ((h.arena.remove k).foldl_modify _ _).foldl_modify _ _
    · intro q l
      have erased : (g.remove p).index.get? q = if p = q then none else g.index.get? q := by
        simp [DependencyGraph.remove, hk, Dict.get?_erase]
      rw [erased, nodes_get?_remove h hk]
      by_cases hl : l = k
      · subst hl
        by_cases hq : p = q
        · simp [hq]
        · simp only [if_neg hq, if_true, Option.map_none, reduceCtorEq, iff_false]
          exact fun hq' => hq (h.index_injective hk hq')
      · rw [if_neg hl, Option.map_map]
        by_cases hq : p = q
        · subst hq
          simp only [if_true, reduceCtorEq, false_iff]
          intro hl'
          exact hl (Option.some.inj (((h.index_iff p l).mpr hl').symm.trans hk))
        · rw [if_neg hq]
          exact h.index_iff q l
    · intro l m
      rw [dependencyKeys_remove h hk, dependentKeys_remove h hk]
      by_cases hl : l = k <;> by_cases hm : m = k <;> simp [hl, hm, h.symmetric]

/-- Removing a path drops every edge at it and no other. -/
theorem mem_dependencies_remove {q r : String} :
    r ∈ (g.remove p).dependencies q ↔ q ≠ p ∧ r ≠ p ∧ r ∈ g.dependencies q := by
  cases hk : g.index.get? p with
  | none =>
    rw [remove_of_index_none hk]
    refine ⟨fun hr => ?_, fun hr => hr.2.2⟩
    have hc := h.contains_of_mem_dependencies hr
    refine ⟨?_, ?_, hr⟩ <;> rintro rfl <;> simp [contains, Dict.contains, hk] at hc
  | some k =>
    have erased : ∀ q, (g.remove p).index.get? q = if p = q then none else g.index.get? q := by
      simp [DependencyGraph.remove, hk, Dict.get?_erase]
    rw [(h.remove p).mem_dependencies_iff, h.mem_dependencies_iff]
    simp only [erased, dependencyKeys_remove h hk]
    constructor
    · rintro ⟨l, m, hq, hr, hm⟩
      by_cases hpq : p = q
      · simp [hpq] at hq
      by_cases hpr : p = r
      · simp [hpr] at hr
      rw [if_neg hpq] at hq
      rw [if_neg hpr] at hr
      by_cases hl : l = k
      · simp [hl] at hm
      · rw [if_neg hl] at hm
        exact ⟨Ne.symm hpq, Ne.symm hpr, l, m, hq, hr, (List.mem_filter.mp hm).1⟩
    · rintro ⟨hpq, hpr, l, m, hq, hr, hm⟩
      have hl : l ≠ k := fun hl => hpq (h.index_injective (hl ▸ hq) hk)
      have hmk : m ≠ k := fun hl => hpr (h.index_injective (hl ▸ hr) hk)
      exact ⟨l, m, by simp [Ne.symm hpq, hq], by simp [Ne.symm hpr, hr], by simp [hl, hm, hmk]⟩

end Remove

/-! ### Rewiring -/

/-- The dependents of a node once a key depends on some targets instead of old ones. -/
def relinked (k : Key) (old targets : List Key) (l : Key) (n : DependencyNode) : DependencyNode :=
  { n with
    dependents :=
      if l ∈ targets then if l ∈ old then n.dependents else insertKey k n.dependents
      else n.dependents.filter (· ≠ k) }

theorem get?_relinked {g : DependencyGraph} (h : g.Sound) (k : Key) (targets : List Key) (l : Key) :
    (addDependent k (dropDependent k g.nodes ((g.dependencyKeys k).filter (· ∉ targets)))
      (targets.filter (· ∉ g.dependencyKeys k))).get? l =
      (g.nodes.get? l).map (relinked k (g.dependencyKeys k) targets l) := by
  simp only [get?_addDependent, get?_dropDependent, List.mem_filter, decide_not,
    Bool.not_eq_true', decide_eq_false_iff_not]
  cases hn : g.nodes.get? l with
  | none => simp
  | some n =>
    by_cases h1 : l ∈ targets
    · by_cases h2 : l ∈ g.dependencyKeys k <;> simp [relinked, h1, h2]
    · by_cases h2 : l ∈ g.dependencyKeys k
      · simp [relinked, h1, h2]
      · simp only [relinked, h1, h2, false_and, if_false, Option.map_some,
          h.filter_dependents hn h2]

section Rewire

variable {g : DependencyGraph} (h : g.Sound) {p : String} {k : Key}
  (hk : g.index.get? p = some k) {targets : List Key}
  (live : ∀ t ∈ targets, ∃ q, g.index.get? q = some t)
include h

theorem nodes_get?_rewire (l : Key) : (g.rewire k targets).nodes.get? l =
    (g.nodes.get? l).map fun n =>
      { relinked k (g.dependencyKeys k) targets l n with
        dependencies := if k = l then targets else n.dependencies } := by
  simp only [rewire, Arena.get?_modify, get?_relinked h]
  by_cases hl : k = l
  · simp [hl, Function.comp_def]
  · simp only [if_neg hl]
    rfl

include hk in
theorem dependencyKeys_rewire (l : Key) :
    (g.rewire k targets).dependencyKeys l = if k = l then targets else g.dependencyKeys l := by
  rw [dependencyKeys_eq, dependencyKeys_eq, nodes_get?_rewire h]
  by_cases hl : k = l
  · subst hl
    obtain ⟨n, hn, -⟩ := h.exists_node hk
    simp [hn]
  · cases hn : g.nodes.get? l <;> simp [hl]

include live in
theorem mem_dependentKeys_rewire (l m : Key) : m ∈ (g.rewire k targets).dependentKeys l ↔
    if k = m then l ∈ targets else m ∈ g.dependentKeys l := by
  rw [dependentKeys_eq, dependentKeys_eq, nodes_get?_rewire h]
  cases hn : g.nodes.get? l with
  | none =>
    have hl : l ∉ targets := by
      intro hl
      obtain ⟨q, hq⟩ := live l hl
      obtain ⟨n, hn', -⟩ := h.exists_node hq
      simp [hn] at hn'
    simp [hl]
  | some n =>
    have edge : l ∈ g.dependencyKeys k ↔ k ∈ n.dependents := by
      rw [h.symmetric, dependentKeys_eq, hn]
      rfl
    by_cases hm : k = m
    · subst hm
      by_cases h1 : l ∈ targets <;> by_cases h2 : l ∈ g.dependencyKeys k <;>
        simp [relinked, h1, h2, mem_insertKey, ← edge]
    · by_cases h1 : l ∈ targets <;> by_cases h2 : l ∈ g.dependencyKeys k <;>
        simp [relinked, h1, h2, mem_insertKey, hm, Ne.symm hm]

include hk live in
theorem Sound.rewire : (g.rewire k targets).Sound where
  arena := ((h.arena.foldl_modify _ _).foldl_modify _ _).modify _ _
  index_iff := by
    intro q l
    rw [nodes_get?_rewire h, Option.map_map]
    exact h.index_iff q l
  symmetric := by
    intro l m
    rw [dependencyKeys_rewire h hk, mem_dependentKeys_rewire h live]
    by_cases hl : k = l
    · simp [hl]
    · simp only [if_neg hl]
      exact h.symmetric l m

end Rewire

/-! ### Replacing dependencies -/

theorem sameKeys_iff {ks ls : List Key} : sameKeys ks ls = true ↔ ∀ k, k ∈ ks ↔ k ∈ ls := by
  simp only [sameKeys, Bool.and_eq_true, List.all_eq_true, decide_eq_true_eq]
  exact ⟨fun h k => ⟨h.1 k, h.2 k⟩, fun h => ⟨fun k => (h k).mp, fun k => (h k).mpr⟩⟩

theorem mem_keysOf_iff {g : DependencyGraph} {paths : List String} {k : Key} :
    k ∈ g.keysOf paths ↔ ∃ p ∈ paths, g.index.get? p = some k :=
  List.mem_filterMap

/-- The key of a path is among those of some paths when the path is a node among them. -/
theorem Sound.exists_key_iff {g : DependencyGraph} (h : g.Sound) {keys : List Key}
    {paths : List String} (same : ∀ k, k ∈ keys ↔ k ∈ g.keysOf paths) {p : String} :
    (∃ k, g.index.get? p = some k ∧ k ∈ keys) ↔ p ∈ paths ∧ g.contains p = true := by
  constructor
  · rintro ⟨k, hp, hk⟩
    obtain ⟨q, hq, hq'⟩ := mem_keysOf_iff.mp ((same k).mp hk)
    exact ⟨h.index_injective hp hq' ▸ hq, contains_iff.mpr ⟨k, hp⟩⟩
  · rintro ⟨hp, hc⟩
    obtain ⟨k, hk⟩ := contains_iff.mp hc
    exact ⟨k, hk, (same k).mpr (mem_keysOf_iff.mpr ⟨p, hp, hk⟩)⟩

theorem index_rewire (g : DependencyGraph) (k : Key) (targets : List Key) :
    (g.rewire k targets).index = g.index := rfl

theorem contains_setDependencies (g : DependencyGraph) (p : String) (targets : List String)
    (q : String) : (g.setDependencies p targets).2.contains q = (p = q || g.contains q) := by
  rw [← contains_add]
  unfold setDependencies
  dsimp only
  split
  · rfl
  · split <;> rfl

section SetDependencies

variable {g : DependencyGraph} (h : g.Sound) (p : String) (targets : List String)

/-- Replacing dependencies either changes nothing, the keys being those of the targets, or
rewires the node of the path. -/
theorem setDependencies_cases (g : DependencyGraph) (p : String) (targets : List String) :
    ∃ k, (g.add p).index.get? p = some k ∧
    ((g.setDependencies p targets = (false, g.add p) ∧
      ∀ l, l ∈ (g.add p).dependencyKeys k ↔ l ∈ (g.add p).keysOf targets) ∨
    (g.setDependencies p targets =
        (true, (g.add p).rewire k (sortKeys ((g.add p).keysOf targets))) ∧
      ¬ ∀ l, l ∈ (g.add p).dependencyKeys k ↔ l ∈ (g.add p).keysOf targets)) := by
  obtain ⟨k, hk⟩ := contains_iff.mp (show (g.add p).contains p = true by simp [contains_add])
  refine ⟨k, hk, ?_⟩
  simp only [setDependencies, hk]
  by_cases same : sameKeys ((g.add p).dependencyKeys k) (sortKeys ((g.add p).keysOf targets)) = true
  · rw [if_pos same]
    refine .inl ⟨rfl, fun l => ?_⟩
    rw [sameKeys_iff.mp same, mem_sortKeys]
  · rw [if_neg same]
    refine .inr ⟨rfl, fun all => same (sameKeys_iff.mpr fun l => ?_)⟩
    rw [all, mem_sortKeys]

theorem live_sortKeys {g : DependencyGraph} (targets : List String) :
    ∀ t ∈ sortKeys (g.keysOf targets), ∃ q, g.index.get? q = some t := by
  intro t ht
  obtain ⟨q, -, hq⟩ := mem_keysOf_iff.mp (mem_sortKeys.mp ht)
  exact ⟨q, hq⟩

include h

theorem Sound.setDependencies : (g.setDependencies p targets).2.Sound := by
  obtain ⟨k, hk, ⟨eq, -⟩ | ⟨eq, -⟩⟩ := setDependencies_cases g p targets
  · rw [eq]
    exact h.add p
  · rw [eq]
    exact (h.add p).rewire hk (live_sortKeys targets)

/-- Replacing dependencies gives the path those of the targets that are nodes, itself
included, and leaves all other paths as they are. -/
theorem mem_dependencies_setDependencies {q r : String} :
    r ∈ (g.setDependencies p targets).2.dependencies q ↔
      if q = p then r ∈ targets ∧ (g.add p).contains r = true else r ∈ g.dependencies q := by
  have sound := h.add p
  obtain ⟨k, hk, cases⟩ := setDependencies_cases g p targets
  rcases cases with ⟨eq, same⟩ | ⟨eq, -⟩
  · rw [eq]
    by_cases hq : q = p
    · subst hq
      rw [if_pos rfl, sound.mem_dependencies_iff, ← sound.exists_key_iff same]
      simp [hk]
    · rw [if_neg hq]
      exact mem_dependencies_add h p
  · rw [eq, (sound.rewire hk (live_sortKeys targets)).mem_dependencies_iff, index_rewire]
    simp only [dependencyKeys_rewire sound hk]
    by_cases hq : q = p
    · subst hq
      rw [if_pos rfl, ← sound.exists_key_iff fun l => mem_sortKeys]
      simp [hk]
    · rw [if_neg hq, ← mem_dependencies_add h p, sound.mem_dependencies_iff]
      refine exists_congr fun l => exists_congr fun m => and_congr_right fun hl => ?_
      have hkl : k ≠ l := fun hkl => hq (sound.index_injective hl (hkl ▸ hk))
      rw [if_neg hkl]

/-- Replacing dependencies tells whether they changed. -/
theorem setDependencies_fst : (g.setDependencies p targets).1 =
    decide ((g.setDependencies p targets).2.dependencies p ≠ g.dependencies p) := by
  have sound := h.add p
  obtain ⟨k, hk, ⟨eq, -⟩ | ⟨eq, differ⟩⟩ := setDependencies_cases g p targets
  · have same : (g.add p).dependencies p = g.dependencies p :=
      NameSet.ext_mem fun r => mem_dependencies_add h p
    simp [eq, same]
  · rw [eq, eq_comm, decide_eq_true_iff]
    intro same
    refine differ fun l => ?_
    have kept : ∀ {r}, (g.add p).index.get? r = some l →
        (l ∈ (g.add p).dependencyKeys k ↔ l ∈ (g.add p).keysOf targets) := by
      intro r hr
      have after := (sound.rewire hk (live_sortKeys targets)).mem_dependencyKeys_iff
        (p := p) (q := r) hk hr
      rw [dependencyKeys_rewire sound hk, if_pos rfl, mem_sortKeys] at after
      rw [after, same, sound.mem_dependencyKeys_iff hk hr, mem_dependencies_add h p]
    constructor
    · intro hl
      obtain ⟨r, hr⟩ := sound.exists_path_of_dependent hl
      exact (kept hr).mp hl
    · intro hl
      obtain ⟨r, -, hr⟩ := mem_keysOf_iff.mp hl
      exact (kept hr).mpr hl

end SetDependencies

/-! ### Runs of edits -/

/-- A call that changes a graph. -/
inductive Edit where
  | add (path : String)
  | setDependencies (path : String) (targets : List String)
  | remove (path : String)
deriving DecidableEq, Repr

/-- The graph after a call. -/
def edit (g : DependencyGraph) : Edit → DependencyGraph
  | .add path => g.add path
  | .setDependencies path targets => (g.setDependencies path targets).2
  | .remove path => g.remove path

/-- The graph that a sequence of calls makes from the empty one. -/
def ofEdits (es : List Edit) : DependencyGraph := es.foldl edit empty

theorem Sound.edit {g : DependencyGraph} (h : g.Sound) (e : Edit) : (g.edit e).Sound := by
  cases e with
  | add path => exact h.add path
  | setDependencies path targets => exact h.setDependencies path targets
  | remove path => exact h.remove path

/-- Every graph that calls make is sound. -/
theorem sound_ofEdits (es : List Edit) : (ofEdits es).Sound := by
  have run : ∀ (es : List Edit) (g : DependencyGraph), g.Sound →
      (es.foldl DependencyGraph.edit g).Sound := by
    intro es
    induction es with
    | nil => exact fun g h => h
    | cons e es ih => exact fun g h => ih _ (h.edit e)
  exact run es empty .empty

end AppBuilder.DependencyGraph
