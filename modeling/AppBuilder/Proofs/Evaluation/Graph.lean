import AppBuilder.Proofs.Dependency.Order
import AppBuilder.Proofs.Entity.Difference
import AppBuilder.Proofs.Evaluation.References

/-!
The dependency graph that an evaluator keeps.

`Kept` is what every pass leaves behind: the graph has the data of the last tree as its nodes
and their edges as its dependencies, and the order kept is one of that graph. A first pass
makes it so whatever there was before (`kept_createFirst`).
-/

namespace AppBuilder

/-! ### Orders of a graph -/

namespace DependencyGraph

/-- An order of a graph: the acyclic nodes sorted, and the cyclic ones. -/
structure Orders (g : DependencyGraph) (order : Order) : Prop where
  sorts : g.Sorts order.sorted
  mem_cyclic_iff : ∀ p, p ∈ order.cyclic ↔ g.DependsOnAll p p

theorem orders_order {g : DependencyGraph} (h : g.Sound) : g.Orders g.order :=
  ⟨sorts_order h, fun _ => mem_cyclic_iff h⟩

/-- An order stays one as long as nodes and dependencies do. -/
theorem Orders.congr {g g' : DependencyGraph} {order : Order} (h : g.Orders order)
    (contains : ∀ p, g'.contains p = g.contains p)
    (dependencies : ∀ p, g'.dependencies p = g.dependencies p) : g'.Orders order := by
  have same : g'.DependsOn = g.DependsOn := by
    funext p q
    rw [DependsOn, DependsOn, dependencies]
  have all : g'.DependsOnAll = g.DependsOnAll := by rw [DependsOnAll, DependsOnAll, same]
  refine ⟨⟨h.sorts.nodup, ?_, ?_⟩, ?_⟩
  · intro p
    rw [contains, all]
    exact h.sorts.mem_iff p
  · rw [all]
    exact h.sorts.later
  · intro p
    rw [all]
    exact h.mem_cyclic_iff p

theorem Orders.cyclic_eq_nil {g : DependencyGraph} {order : Order} (h : g.Orders order)
    (acyclic : ∀ p, ¬ g.DependsOnAll p p) : order.cyclic.toList = [] :=
  List.eq_nil_iff_forall_not_mem.mpr fun p hp => acyclic p ((h.mem_cyclic_iff p).mp hp)

theorem mem_paths_iff {g : DependencyGraph} {p : String} : p ∈ g.paths ↔ g.contains p = true :=
  Dict.mem_keys_iff _ _

section AddAll

variable {g : DependencyGraph} (h : g.Sound) (paths : List String)

theorem contains_addAll (p : String) :
    (paths.foldl add g).contains p = (decide (p ∈ paths) || g.contains p) := by
  induction paths generalizing g with
  | nil => simp
  | cons path paths ih =>
    rw [List.foldl_cons, ih, contains_add]
    by_cases hp : p = path
    · simp [hp]
    · simp [hp, Ne.symm hp]

include h

theorem sound_addAll : (paths.foldl add g).Sound := by
  induction paths generalizing g with
  | nil => exact h
  | cons path paths ih => exact ih (h.add path)

theorem mem_dependencies_addAll {p q : String} :
    q ∈ (paths.foldl add g).dependencies p ↔ q ∈ g.dependencies p := by
  induction paths generalizing g with
  | nil => rfl
  | cons path paths ih => rw [List.foldl_cons, ih (h.add path), mem_dependencies_add h]

end AddAll

/-- Graphs with the same nodes and dependencies have the same dependents. -/
theorem inverse_congr {g g' : DependencyGraph} (h : g.Sound) (h' : g'.Sound)
    (contains : ∀ p, g.contains p = g'.contains p)
    (dependencies : ∀ p, g.dependencies p = g'.dependencies p) : g.inverse = g'.inverse := by
  have dependents : ∀ p, g.dependents p = g'.dependents p := fun p =>
    NameSet.ext_mem fun q => by
      rw [h.mem_dependents_iff, h'.mem_dependents_iff, dependencies]
  refine Dict.ext_get? fun p => ?_
  have same := contains p
  simp only [DependencyGraph.contains, Dict.contains] at same
  simp only [inverse, Dict.get?_filter, Dict.get?_map, dependents]
  cases hg : g.index.get? p <;> cases hg' : g'.index.get? p <;> simp_all

end DependencyGraph

namespace TreeEvaluator

/-! ### What evaluation leaves alone -/

theorem evaluateNode_fst (t : TreeEvaluator) (path : String) :
    ∃ evaluated, (t.evaluateNode path).1 = { t with evaluated } := by
  unfold evaluateNode
  split
  · exact ⟨_, rfl⟩
  · split <;> exact ⟨_, rfl⟩

theorem evaluateNodes_fst (t : TreeEvaluator) (paths : List String) :
    ∃ evaluated, (t.evaluateNodes paths).1 = { t with evaluated } := by
  have run : ∀ (f : TreeEvaluator × List EvalError → String → TreeEvaluator × List EvalError),
      (∀ acc path, (f acc path).1 = (acc.1.evaluateNode path).1) → ∀ (paths : List String) acc,
        ∃ evaluated, (paths.foldl f acc).1 = { acc.1 with evaluated } := by
    intro f step paths
    induction paths with
    | nil => exact fun acc => ⟨acc.1.evaluated, rfl⟩
    | cons path paths ih =>
      intro acc
      obtain ⟨first, hfirst⟩ := evaluateNode_fst acc.1 path
      obtain ⟨rest, hrest⟩ := ih (f acc path)
      exact ⟨rest, by rw [List.foldl_cons, hrest, step, hfirst]⟩
  exact run _ (fun _ _ => rfl) paths (t, [])

/-- The paths that finishing a pass evaluates. -/
def passOrder (t : TreeEvaluator) (test : String → Bool) : List String :=
  t.order.sorted.filter fun p => test p && t.references.contains p

/-- Finishing a pass changes values only. -/
theorem finishPass_snd (t : TreeEvaluator) (test : String → Bool) (changes : List PropertyChange)
    (errors : List EvalError) (fromScratch : Bool) :
    (t.finishPass test changes errors fromScratch).2 =
      { t with
        evaluated := (t.evaluateNodes (t.passOrder test)).1.evaluated
        needsRebuild := t.hasCycle } := by
  obtain ⟨evaluated, h⟩ := evaluateNodes_fst t (t.passOrder test)
  simp only [finishPass, passOrder] at h ⊢
  rw [h]
  rfl

/-! ### The state between passes -/

/-- A graph over the data of a tree with its edges, and its references. -/
structure GraphOf (tree : DataTree) (g : DependencyGraph) (references : Dict (List String)) :
    Prop where
  sound : g.Sound
  contains_eq : ∀ p, g.contains p = tree.isData p
  references_eq : ∀ p, references.get? p = dataReferences? tree p
  mem_dependencies_iff : ∀ p q, q ∈ g.dependencies p ↔ tree.Edge p q

/-- The graph belongs to the last tree and the order to the graph; a cycle makes the next pass
start from scratch. -/
structure Kept (t : TreeEvaluator) : Prop where
  dotFree : t.unevaluated.DotFree
  graph : GraphOf t.unevaluated t.graph t.references
  orders : t.graph.Orders t.order
  acyclic : t.needsRebuild = false → t.hasCycle = false

/-- The order of a graph has cyclic nodes just when the graph has a cycle. -/
theorem Kept.hasCycle_iff {t : TreeEvaluator} (kept : t.Kept) :
    t.hasCycle = true ↔ ∃ p, t.graph.DependsOnAll p p := by
  simp only [hasCycle, NameSet.isEmpty, Bool.not_eq_true', List.isEmpty_eq_false_iff_exists_mem]
  exact exists_congr kept.orders.mem_cyclic_iff

/-- The graph has no cycle unless the next pass starts from scratch. -/
theorem Kept.not_dependsOnAll_self {t : TreeEvaluator} (kept : t.Kept)
    (incremental : t.needsRebuild = false) (p : String) : ¬ t.graph.DependsOnAll p p := by
  intro path
  have cycle := kept.hasCycle_iff.mpr ⟨p, path⟩
  rw [kept.acyclic incremental] at cycle
  cases cycle

theorem kept_fresh (e : Evaluator) : (fresh e).Kept where
  dotFree := fun name h => absurd h List.not_mem_nil
  graph := by
    have absent : ∀ p, DataTree.empty.get? p = none := by
      intro p
      cases h : splitPath p <;> simp [DataTree.get?, h, DataTree.property?, DataTree.empty]
    refine ⟨.empty, ?_, ?_, ?_⟩
    · intro p
      simp [fresh, DataTree.isData, absent]
    · intro p
      simp [fresh, dataReferences?, DataTree.isData, absent]
    · intro p q
      simp [fresh, DataTree.Edge, DataTree.isData, absent]
  orders := by
    have alone : ∀ p, ¬ DependencyGraph.empty.DependsOnAll p p := by
      intro p path
      simpa using (DependencyGraph.contains_of_dependsOnAll .empty path).1
    exact ⟨⟨.nil, by simp [fresh, DependencyGraph.Order.empty], .nil⟩,
      fun p => by simpa [fresh, DependencyGraph.Order.empty] using alone p⟩
  acyclic := by simp [fresh]

/-! ### The first pass -/

/-- The references that a first pass notes. -/
def firstReferences (tree : DataTree) : Dict (List String) :=
  (nodePaths tree).foldl (noteReferences tree) .empty

/-- The graph that a first pass builds. -/
def firstGraph (tree : DataTree) : DependencyGraph :=
  (rewireNodes tree (firstReferences tree) ((nodePaths tree).foldl .add .empty)
    (nodePaths tree)).2

theorem get?_noteReferences (tree : DataTree) (references : Dict (List String)) (p q : String) :
    (noteReferences tree references p).get? q =
      if p = q then referencesAt? tree p else references.get? q := by
  unfold noteReferences
  cases referencesAt? tree p with
  | none => exact Dict.get?_erase references p q
  | some r => exact Dict.get?_insert references p q r

theorem get?_firstReferences {tree : DataTree} (h : tree.DotFree) (p : String) :
    (firstReferences tree).get? p = dataReferences? tree p := by
  have run : ∀ (paths : List String) (references : Dict (List String)),
      (paths.foldl (noteReferences tree) references).get? p =
        if p ∈ paths then referencesAt? tree p else references.get? p := by
    intro paths
    induction paths with
    | nil => simp
    | cons path paths ih =>
      intro references
      rw [List.foldl_cons, ih, get?_noteReferences]
      by_cases hp : p = path
      · simp [hp]
      · simp [hp, Ne.symm hp]
  rw [firstReferences, run, dataReferences?]
  simp only [mem_nodePaths_iff h, Dict.get?_empty]

theorem graphOf_firstGraph {tree : DataTree} (h : tree.DotFree) :
    GraphOf tree (firstGraph tree) (firstReferences tree) := by
  have nodes : ∀ p, ((nodePaths tree).foldl .add .empty : DependencyGraph).contains p =
      tree.isData p := by
    intro p
    rw [DependencyGraph.contains_addAll]
    simp [mem_nodePaths_iff h]
  have noted := get?_firstReferences h
  have rewired := rewireNodes_spec tree (firstReferences tree)
    (DependencyGraph.sound_addAll .empty (nodePaths tree)) (nodePaths tree)
    fun p hp => by rw [nodes, (mem_nodePaths_iff h).mp hp]
  refine ⟨rewired.sound, fun p => (rewired.contains_eq p).trans (nodes p), noted, fun p q => ?_⟩
  rw [firstGraph, rewired.mem_dependencies_iff, mem_resolveReferences_iff nodes noted, nodes,
    DependencyGraph.mem_dependencies_addAll .empty]
  simp only [mem_nodePaths_iff h]
  by_cases hp : tree.isData p = true
  · rw [if_pos hp]
    exact ⟨fun edge => edge.1, fun edge => ⟨edge, edge.1⟩⟩
  · rw [if_neg hp]
    simp [DataTree.Edge, dataReferences?, hp]

/-- A tree has no cycle when what its properties depend on have lesser paths. -/
theorem GraphOf.not_dependsOnAll_self {tree : DataTree} {g : DependencyGraph}
    {references : Dict (List String)} (h : GraphOf tree g references) (dotFree : tree.DotFree)
    (lesser : ∀ p ∈ nodePaths tree, ∀ q ∈ ((firstGraph tree).dependencies p).toList, q < p)
    (p : String) : ¬ g.DependsOnAll p p := by
  refine h.sound.not_dependsOnAll_self_of_lt (fun p hp q hq => lesser p ?_ q ?_) p
  · rw [mem_nodePaths_iff dotFree, ← h.contains_eq]
    exact DependencyGraph.mem_paths_iff.mp hp
  · exact ((graphOf_firstGraph dotFree).mem_dependencies_iff p q).mpr
      ((h.mem_dependencies_iff p q).mp hq)

/-- A first pass before it evaluates anything. -/
def firstState (t : TreeEvaluator) (tree : DataTree) : TreeEvaluator :=
  { t with
    graph := firstGraph tree
    references := firstReferences tree
    order := (firstGraph tree).order
    unevaluated := tree
    evaluated := (firstGraph tree).order.cyclic.toList.foldl
      (fun evaluated path => evaluated.set path (.orNull (t.evaluated.get? path))) tree }

theorem createFirst_snd (t : TreeEvaluator) (tree : DataTree) :
    (t.createFirst tree).2 =
      { t.firstState tree with
        evaluated := ((t.firstState tree).evaluateNodes
          ((t.firstState tree).passOrder fun _ => true)).1.evaluated
        needsRebuild := (t.firstState tree).hasCycle } :=
  finishPass_snd (t.firstState tree) _ _ _ _

/-- A first pass builds graph and order of its tree, whatever came before. -/
theorem kept_createFirst (t : TreeEvaluator) {tree : DataTree} (h : tree.DotFree) :
    (t.createFirst tree).2.Kept := by
  have built := graphOf_firstGraph h
  rw [createFirst_snd]
  exact ⟨h, built, DependencyGraph.orders_order built.sound, id⟩

end TreeEvaluator

end AppBuilder
