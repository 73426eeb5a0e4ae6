import AppBuilder.Proofs.Evaluation.Sync

/-!
The dependency graph after a run of passes.

An update keeps the graph in step with the tree (`Kept.update`): the edges of a node that is not
rewired are the old ones because no node came or went. So after every run the graph is the one
that a new evaluator builds for the last tree (`graph_afterPasses`).
-/

namespace AppBuilder.TreeEvaluator

/-! ### Updates -/

/-- An update once all changes are taken over. -/
def synced (t : TreeEvaluator) (tree : DataTree) : Sync :=
  (tree.changes t.unevaluated).foldl (Sync.apply tree)
    ⟨t.graph, t.references, syncEntities tree t.evaluated, .empty, [], false⟩

/-- The nodes that an update rewires: all of them when one came or went. -/
def rewireTargets (t : TreeEvaluator) (tree : DataTree) : List String :=
  if (t.synced tree).structural then (t.synced tree).graph.paths else (t.synced tree).edited

/-- The nodes that an update finds other dependencies for, and its graph. -/
def rewired (t : TreeEvaluator) (tree : DataTree) : List String × DependencyGraph :=
  rewireNodes tree (t.synced tree).references (t.synced tree).graph (t.rewireTargets tree)

/-- The paths that an update evaluates if they hold code. -/
def dirty (t : TreeEvaluator) (tree : DataTree) : NameSet :=
  (t.rewired tree).2.closure ((t.synced tree).seeds.insertMany (t.rewired tree).1).toList

/-- The order after an update. -/
def updatedOrder (t : TreeEvaluator) (tree : DataTree) : DependencyGraph.Order :=
  if (t.synced tree).structural || !(t.rewired tree).1.isEmpty then (t.rewired tree).2.order
  else t.order

/-- An update before it evaluates anything. -/
def updateState (t : TreeEvaluator) (tree : DataTree) : TreeEvaluator :=
  { t with
    graph := (t.rewired tree).2
    references := (t.synced tree).references
    order := t.updatedOrder tree
    unevaluated := tree
    evaluated := fillMissing (t.synced tree).evaluated
      ((t.updatedOrder tree).cyclic.toList.filter (t.dirty tree).contains) }

theorem applyChanges_snd (t : TreeEvaluator) (tree : DataTree) :
    (t.applyChanges tree (tree.changes t.unevaluated)).2 =
      { t.updateState tree with
        evaluated := ((t.updateState tree).evaluateNodes
          ((t.updateState tree).passOrder (t.dirty tree).contains)).1.evaluated
        needsRebuild := (t.updateState tree).hasCycle } :=
  finishPass_snd (t.updateState tree) _ _ _ _

section Update

variable {t : TreeEvaluator} {tree : DataTree} (kept : t.Kept) (dotFree : tree.DotFree)
include kept dotFree

omit dotFree in
/-- Before any change is taken over. -/
theorem synced_start (tree : DataTree) : t.Synced tree []
    ⟨t.graph, t.references, syncEntities tree t.evaluated, .empty, [], false⟩ :=
  ⟨kept.graph.sound, by simp, by simp, by simp, by simp, by simp, by simp, by simp⟩

theorem synced_spec :
    t.Synced tree (tree.changedPaths t.unevaluated) (t.synced tree) :=
  (synced_start kept tree).foldl kept dotFree fun _ hc => hc

/-- With all changes taken over, the nodes are the data of the new tree. -/
theorem contains_synced (p : String) : (t.synced tree).graph.contains p = tree.isData p := by
  rw [(synced_spec kept dotFree).contains_eq]
  by_cases changed : p ∈ tree.changedPaths t.unevaluated
  · rw [if_pos changed]
  · rw [if_neg changed, kept.graph.contains_eq]
    exact isData_eq_of_unchanged dotFree kept.dotFree changed

theorem get?_references_synced (p : String) :
    (t.synced tree).references.get? p = dataReferences? tree p := by
  rw [(synced_spec kept dotFree).references_eq]
  by_cases changed : p ∈ tree.changedPaths t.unevaluated
  · rw [if_pos changed]
  · rw [if_neg changed, kept.graph.references_eq]
    exact dataReferences?_eq_of_unchanged dotFree kept.dotFree changed

/-- Unless a node came or went, a node that was not edited has the edges it had. -/
theorem edge_iff_of_not_edited (flat : (t.synced tree).structural = false) {p : String}
    (hp : p ∉ (t.synced tree).edited) (q : String) :
    t.unevaluated.Edge p q ↔ tree.Edge p q := by
  have spec := synced_spec kept dotFree
  have same : ∀ r, t.unevaluated.isData r = tree.isData r := by
    intro r
    rw [← contains_synced kept dotFree, spec.contains_of_not_structural flat,
      kept.graph.contains_eq]
  have noted : dataReferences? t.unevaluated p = dataReferences? tree p := by
    by_cases hd : p ∈ tree.changedPaths t.unevaluated
    · have gone : tree.isData p = false := by
        by_contra data
        exact hp ((spec.mem_edited_iff p).mpr ⟨hd, by simpa using data⟩)
      simp [dataReferences?, same, gone]
    · exact dataReferences?_eq_of_unchanged dotFree kept.dotFree hd
  rw [DataTree.Edge, DataTree.Edge, same, noted]

/-- With all changes taken over, dependencies are the old ones between nodes. -/
theorem mem_dependencies_synced {p q : String} : q ∈ (t.synced tree).graph.dependencies p ↔
    q ∈ t.graph.dependencies p ∧ tree.isData p = true ∧ tree.isData q = true := by
  have spec := synced_spec kept dotFree
  constructor
  · intro edge
    obtain ⟨hp, hq⟩ := spec.sound.contains_of_mem_dependencies edge
    rw [contains_synced kept dotFree] at hp hq
    exact ⟨((spec.mem_dependencies_iff p q).mp edge).1, hp, hq⟩
  · rintro ⟨edge, hp, hq⟩
    exact (spec.mem_dependencies_iff p q).mpr ⟨edge, fun _ => hp, fun _ => hq⟩

theorem rewired_spec : Rewired tree (t.synced tree).references (t.synced tree).graph
    (t.rewireTargets tree) (t.rewired tree).1 (t.rewired tree).2 := by
  have spec := synced_spec kept dotFree
  refine rewireNodes_spec tree _ spec.sound _ fun p hp => ?_
  unfold rewireTargets at hp
  split at hp
  · exact DependencyGraph.mem_paths_iff.mp hp
  · rw [contains_synced kept dotFree]
    exact ((spec.mem_edited_iff p).mp hp).2

/-- The graph after an update belongs to the new tree. -/
theorem graphOf_rewired : GraphOf tree (t.rewired tree).2 (t.synced tree).references := by
  have spec := synced_spec kept dotFree
  have rewired := rewired_spec kept dotFree
  have nodes := contains_synced kept dotFree
  have noted := get?_references_synced kept dotFree
  refine ⟨rewired.sound, fun p => (rewired.contains_eq p).trans (nodes p), noted, fun p q => ?_⟩
  rw [rewired.mem_dependencies_iff, mem_resolveReferences_iff nodes noted, nodes]
  by_cases hp : p ∈ t.rewireTargets tree
  · rw [if_pos hp]
    exact ⟨fun edge => edge.1, fun edge => ⟨edge, edge.1⟩⟩
  · rw [if_neg hp, mem_dependencies_synced kept dotFree, kept.graph.mem_dependencies_iff]
    unfold rewireTargets at hp
    by_cases flat : (t.synced tree).structural = true
    · rw [if_pos flat, DependencyGraph.mem_paths_iff, nodes] at hp
      exact ⟨fun ⟨_, data, _⟩ => absurd data hp, fun edge => absurd edge.isData_left hp⟩
    · rw [if_neg flat] at hp
      rw [edge_iff_of_not_edited kept dotFree (by simpa using flat) hp]
      exact ⟨fun edge => edge.1, fun edge => ⟨edge, edge.isData_left, edge.1⟩⟩

/-- The order after an update is one of its graph, also when the old one was kept. -/
theorem orders_updatedOrder : (t.rewired tree).2.Orders (t.updatedOrder tree) := by
  have spec := synced_spec kept dotFree
  have rewired := rewired_spec kept dotFree
  unfold updatedOrder
  by_cases again : ((t.synced tree).structural || !(t.rewired tree).1.isEmpty) = true
  · rw [if_pos again]
    exact DependencyGraph.orders_order rewired.sound
  · rw [if_neg again]
    simp only [Bool.or_eq_true, Bool.not_eq_true', not_or, Bool.not_eq_true,
      Bool.not_eq_false, List.isEmpty_iff] at again
    obtain ⟨flat, idle⟩ := again
    have nodes : ∀ p, tree.isData p = t.graph.contains p := by
      intro p
      rw [← contains_synced kept dotFree, spec.contains_of_not_structural flat]
    refine kept.orders.congr ?_ ?_
    · intro p
      rw [rewired.contains_eq, spec.contains_of_not_structural flat]
    · intro p
      have unchanged : (t.rewired tree).2.dependencies p =
          (t.synced tree).graph.dependencies p := by
        by_contra differ
        by_cases hp : p ∈ t.rewireTargets tree
        · have listed := (rewired.mem_changed_iff p).mpr ⟨hp, differ⟩
          simp [idle] at listed
        · exact differ (NameSet.ext_mem fun q => by rw [rewired.mem_dependencies_iff, if_neg hp])
      rw [unchanged]
      refine NameSet.ext_mem fun q => ?_
      rw [mem_dependencies_synced kept dotFree]
      refine ⟨fun edge => edge.1, fun edge => ⟨edge, ?_⟩⟩
      rw [nodes, nodes]
      exact kept.graph.sound.contains_of_mem_dependencies edge

theorem Kept.applyChanges : (t.applyChanges tree (tree.changes t.unevaluated)).2.Kept := by
  rw [applyChanges_snd]
  exact ⟨dotFree, graphOf_rewired kept dotFree, orders_updatedOrder kept dotFree, id⟩

omit dotFree in
/-- Without changes an update comes to the same as taking over the empty list of changes. -/
theorem applyChanges_nil (settled : t.needsRebuild = false) : t.applyChanges tree [] =
    (.empty, { t with unevaluated := tree, evaluated := syncEntities tree t.evaluated }) := by
  have clean : ∀ p, (t.graph.closure []).contains p = false := by
    intro p
    simp [DependencyGraph.closure, DependencyGraph.keysOf, Network.preorder, Network.search,
      DependencyGraph.pathsOf, NameSet.ofList, NameSet.contains, NameSet.empty]
  have idle : ∀ xs : List String, xs.filter (t.graph.closure []).contains = [] := fun xs =>
    List.filter_eq_nil_iff.mpr fun p _ => by simp [clean]
  have acyclic := kept.acyclic settled
  simp only [applyChanges, List.foldl_nil, rewireNodes, Bool.false_eq_true, if_false,
    List.isEmpty_nil, Bool.not_true, Bool.or_self, NameSet.insertMany, NameSet.empty, idle,
    List.map_nil, fillMissing, finishPass, clean, Bool.false_and, List.filter_false,
    evaluateNodes, List.append_nil, EvalPass.empty]
  simp only [hasCycle] at acyclic ⊢
  rw [acyclic, ← settled]

omit dotFree in
/-- An update starts from scratch or takes the changes over. -/
theorem update_eq (tree : DataTree) : t.update tree =
    if t.needsRebuild then t.createFirst tree
    else t.applyChanges tree (tree.changes t.unevaluated) := by
  unfold update
  by_cases rebuild : t.needsRebuild = true
  · rw [if_pos rebuild, if_pos rebuild]
  · rw [if_neg rebuild, if_neg rebuild]
    cases tree.changes t.unevaluated with
    | nil => rw [applyChanges_nil kept (by simpa using rebuild)]
    | cons change changes => rfl

omit dotFree in
theorem update_snd (tree : DataTree) : (t.update tree).2 =
    if t.needsRebuild then (t.createFirst tree).2
    else (t.applyChanges tree (tree.changes t.unevaluated)).2 := by
  rw [update_eq kept, apply_ite Prod.snd]

theorem Kept.update : (t.update tree).2.Kept := by
  rw [update_snd kept]
  split
  · exact kept_createFirst t dotFree
  · exact kept.applyChanges dotFree

end Update

/-! ### Runs -/

/-- A call that gives an evaluator a tree. -/
inductive Pass where
  | createFirst (tree : DataTree)
  | update (tree : DataTree)

/-- The tree that a call gives. -/
def Pass.tree : Pass → DataTree
  | .createFirst tree => tree
  | .update tree => tree

/-- The evaluator after a call. -/
def pass (t : TreeEvaluator) : Pass → TreeEvaluator
  | .createFirst tree => (t.createFirst tree).2
  | .update tree => (t.update tree).2

/-- A new evaluator after some calls. -/
def afterPasses (e : Evaluator) (passes : List Pass) : TreeEvaluator :=
  passes.foldl pass (fresh e)

theorem Kept.pass {t : TreeEvaluator} (kept : t.Kept) {p : Pass} (dotFree : p.tree.DotFree) :
    (t.pass p).Kept := by
  cases p with
  | createFirst tree => exact kept_createFirst t dotFree
  | update tree => exact kept.update dotFree

theorem kept_afterPasses (e : Evaluator) {passes : List Pass}
    (dotFree : ∀ p ∈ passes, p.tree.DotFree) : (afterPasses e passes).Kept := by
  have run : ∀ (passes : List Pass) (t : TreeEvaluator), t.Kept →
      (∀ p ∈ passes, p.tree.DotFree) → (passes.foldl TreeEvaluator.pass t).Kept := by
    intro passes
    induction passes with
    | nil => exact fun t kept _ => kept
    | cons p passes ih =>
      intro t kept dotFree
      exact ih _ (kept.pass (dotFree p List.mem_cons_self))
        fun q hq => dotFree q (List.mem_cons_of_mem _ hq)
  exact run passes (fresh e) (kept_fresh e) dotFree

theorem unevaluated_pass {t : TreeEvaluator} (kept : t.Kept) (p : Pass) :
    (t.pass p).unevaluated = p.tree := by
  cases p with
  | createFirst tree =>
    rw [TreeEvaluator.pass, createFirst_snd]
    rfl
  | update tree =>
    rw [TreeEvaluator.pass, update_snd kept]
    split
    · rw [createFirst_snd]
      rfl
    · rw [applyChanges_snd]
      rfl

/-- After every run the graph is the one that a new evaluator builds for the last tree, and the
order kept is one of that graph. -/
theorem graph_afterPasses (e : Evaluator) (passes : List Pass) (last : Pass)
    (dotFree : ∀ p ∈ passes ++ [last], p.tree.DotFree) :
    let t := afterPasses e (passes ++ [last])
    let new := ((fresh e).createFirst last.tree).2
    (∀ p, p ∈ t.graph.paths ↔ p ∈ nodePaths last.tree) ∧
    (∀ p, t.graph.dependencies p = new.graph.dependencies p) ∧
    t.graph.inverse = new.graph.inverse ∧
    t.order.cyclic = new.order.cyclic ∧
    t.order.sorted.Nodup ∧
    (∀ p, p ∈ t.order.sorted ↔
      p ∈ t.graph.paths ∧ ¬ Relation.TransGen t.graph.DependsOn p p) ∧
    (∀ a ∈ t.order.sorted, ∀ b ∈ t.order.sorted, Relation.TransGen t.graph.DependsOn a b →
      t.order.sorted.idxOf b < t.order.sorted.idxOf a) := by
  intro t new
  have lastFree : last.tree.DotFree := dotFree last (by simp)
  have before : (afterPasses e passes).Kept :=
    kept_afterPasses e fun p hp => dotFree p (List.mem_append_left _ hp)
  have ran : t = (afterPasses e passes).pass last := by simp [t, afterPasses]
  have kept : t.Kept := ran ▸ before.pass lastFree
  have keptNew : new.Kept := kept_createFirst _ lastFree
  have graph : GraphOf last.tree t.graph t.references := by
    have h := kept.graph
    rwa [show t.unevaluated = last.tree by rw [ran, unevaluated_pass before]] at h
  have graphNew : GraphOf last.tree new.graph new.references := by
    have h := keptNew.graph
    rwa [show new.unevaluated = last.tree from unevaluated_pass (kept_fresh e) (.createFirst _)]
      at h
  have contains : ∀ p, t.graph.contains p = new.graph.contains p := by
    intro p
    rw [graph.contains_eq, graphNew.contains_eq]
  have dependencies : ∀ p, t.graph.dependencies p = new.graph.dependencies p := fun p =>
    NameSet.ext_mem fun q => by
      rw [graph.mem_dependencies_iff, graphNew.mem_dependencies_iff]
  have orders := keptNew.orders.congr contains dependencies
  refine ⟨?_, dependencies,
    DependencyGraph.inverse_congr graph.sound graphNew.sound contains dependencies, ?_,
    kept.orders.sorts.nodup, ?_, fun a ha b hb => kept.orders.sorts.idxOf_lt ha hb⟩
  · intro p
    rw [DependencyGraph.mem_paths_iff, graph.contains_eq, mem_nodePaths_iff lastFree]
  · exact NameSet.ext_mem fun p => by rw [kept.orders.mem_cyclic_iff, orders.mem_cyclic_iff]
  · intro p
    rw [DependencyGraph.mem_paths_iff, kept.orders.sorts.mem_iff]

/-- A chain that grows by a widget. -/
theorem graph_afterPasses_chain :
    (∀ p ∈ [Pass.createFirst (.chain 2 "x"), .update (.chain 3 "x")], p.tree.DotFree) ∧
    (afterPasses .path [.createFirst (.chain 2 "x"), .update (.chain 3 "x")]).graph.inverse =
      ((fresh .path).createFirst (.chain 3 "x")).2.graph.inverse := by
  have dotFree : ∀ p ∈ [Pass.createFirst (.chain 2 "x"), .update (.chain 3 "x")],
      p.tree.DotFree := by decide +kernel
  exact ⟨dotFree, (graph_afterPasses .path [.createFirst (.chain 2 "x")] _ dotFree).2.2.1⟩

end AppBuilder.TreeEvaluator
