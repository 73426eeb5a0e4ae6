import AppBuilder.Proofs.Evaluation.Update

/-!
What an update evaluates.

The seeds of an update are the nodes that are new or edited and those that depended on a node
that is gone (`Seeded`). With the nodes that rewiring finds other dependencies for they are just
the nodes that are new or edited or whose dependencies differ from those before
(`seed_or_rewired_iff`). So an update evaluates the nodes with a binding and without a cycle that
are such a node or depend on one, and no other.

Main statement: `evaluationOrder_afterPasses`.
-/

namespace AppBuilder

/-! ### Values with a binding -/

/-- A text stands somewhere inside a value. -/
inductive Json.HoldsText : Json → String → Prop
  | own (s : String) : HoldsText (.string s) s
  | item {items : List Json} {item : Json} {s : String} (mem : item ∈ items)
      (inner : HoldsText item s) : HoldsText (.array items) s
  | field {fields : List (String × Json)} {field : String × Json} {s : String}
      (mem : field ∈ fields) (inner : HoldsText field.2 s) : HoldsText (.object fields) s

namespace Json

theorem mem_templatesOfItems_iff {items : List Json} {s : String} :
    s ∈ templatesOfItems items ↔ ∃ item ∈ items, s ∈ item.templates := by
  induction items with
  | nil => simp [templatesOfItems]
  | cons item items ih => simp [templatesOfItems, ih]

theorem mem_templatesOfFields_iff {fields : List (String × Json)} {s : String} :
    s ∈ templatesOfFields fields ↔ ∃ field ∈ fields, s ∈ field.2.templates := by
  induction fields with
  | nil => simp [templatesOfFields]
  | cons field fields ih => simp [templatesOfFields, ih]

theorem holdsText_of_mem_templates {j : Json} {s : String} (h : s ∈ j.templates) :
    j.HoldsText s ∧ Template.isDynamic s = true := by
  match j, h with
  | .string t, h =>
    simp only [templates, List.mem_ite_nil_right, List.mem_singleton] at h
    obtain ⟨dynamic, rfl⟩ := h
    exact ⟨.own s, dynamic⟩
  | .array items, h =>
    obtain ⟨item, mem, h⟩ := mem_templatesOfItems_iff.mp h
    obtain ⟨inner, dynamic⟩ := holdsText_of_mem_templates h
    exact ⟨.item mem inner, dynamic⟩
  | .object fields, h =>
    obtain ⟨field, mem, h⟩ := mem_templatesOfFields_iff.mp h
    obtain ⟨inner, dynamic⟩ := holdsText_of_mem_templates h
    exact ⟨.field mem inner, dynamic⟩
termination_by sizeOf j
decreasing_by
  · have := List.sizeOf_lt_of_mem mem
    simp only [array.sizeOf_spec]
    omega
  · have := List.sizeOf_lt_of_mem mem
    have : sizeOf field.2 < sizeOf field := by
      obtain ⟨name, value⟩ := field
      simp only [Prod.mk.sizeOf_spec]
      omega
    simp only [object.sizeOf_spec]
    omega

/-- The templates of a value are the texts inside it that hold code. -/
theorem mem_templates_iff {j : Json} {s : String} :
    s ∈ j.templates ↔ j.HoldsText s ∧ Template.isDynamic s = true := by
  refine ⟨holdsText_of_mem_templates, ?_⟩
  rintro ⟨holds, dynamic⟩
  induction holds with
  | own s => simp [templates, dynamic]
  | item mem _ ih => exact mem_templatesOfItems_iff.mpr ⟨_, mem, ih dynamic⟩
  | field mem _ ih => exact mem_templatesOfFields_iff.mpr ⟨_, mem, ih dynamic⟩

/-- A text somewhere inside a value holds a complete binding. -/
def HasBinding (j : Json) : Prop := ∃ s, j.HoldsText s ∧ Template.isDynamic s = true

theorem hasBinding_iff {j : Json} : j.HasBinding ↔ (Reference.ofValue? j).isSome = true := by
  simp only [HasBinding, ← mem_templates_iff, Reference.ofValue?]
  cases j.templates <;> simp

end Json

namespace TreeEvaluator

/-- The value of a path in a tree has a binding. -/
def Binds (tree : DataTree) (p : String) : Prop := ∃ raw, tree.get? p = some raw ∧ raw.HasBinding

theorem GraphOf.contains_references_iff {tree : DataTree} {g : DependencyGraph}
    {references : Dict (List String)} (h : GraphOf tree g references) {p : String} :
    references.contains p = true ↔ p ∈ g.paths ∧ Binds tree p := by
  rw [DependencyGraph.mem_paths_iff, h.contains_eq, Dict.contains, h.references_eq, dataReferences?]
  by_cases data : tree.isData p = true
  · simp [data, Binds, referencesAt?, Json.hasBinding_iff, Option.isSome_bind, Option.any_eq_true]
  · simp [data]

/-! ### Seeds -/

/-- The seeds are nodes of changed paths, or depended on the path of a node that is gone. -/
def Seeded (t : TreeEvaluator) (tree : DataTree) (done : List String) (seeds : NameSet) : Prop :=
  ∀ p ∈ seeds, (p ∈ done ∧ tree.isData p = true) ∨
    ∃ q ∈ done, tree.isData q = false ∧ q ∈ t.graph.dependencies p

section Update

variable {t : TreeEvaluator} {tree : DataTree} (kept : t.Kept) (dotFree : tree.DotFree)
include kept dotFree

theorem Seeded.apply {done : List String} {s : Sync} (synced : t.Synced tree done s)
    (seeded : t.Seeded tree done s.seeds) {c : PropertyChange}
    (hc : c ∈ tree.changes t.unevaluated) :
    t.Seeded tree (done ++ [c.path]) (s.apply tree c).seeds := by
  have drops := drops_iff dotFree kept.dotFree hc
  have before : t.Seeded tree (done ++ [c.path]) s.seeds := fun p hp =>
    (seeded p hp).imp (fun ⟨hd, data⟩ => ⟨List.mem_append_left _ hd, data⟩)
      fun ⟨q, hd, gone⟩ => ⟨q, List.mem_append_left _ hd, gone⟩
  intro p hp
  by_cases hd : Sync.drops tree c = true
  · rw [Sync.apply_of_drops hd] at hp
    obtain ⟨evaluated, eq⟩ := syncValue_eq tree (s.dropNode c.path) c
    rw [eq] at hp
    rcases (Sync.mem_seeds_dropNode s synced.sound c.path p).mp hp with hp | edge
    · exact before p hp
    · exact .inr ⟨c.path, by simp, drops.mp hd, ((synced.mem_dependencies_iff _ _).mp edge).1⟩
  · rw [Sync.apply_of_not_drops hd] at hp
    obtain ⟨evaluated, eq⟩ := syncValue_eq tree (Sync.editNode tree s c.path) c
    rw [eq] at hp
    rcases (NameSet.mem_insert _ _ _).mp hp with rfl | hp
    · exact .inl ⟨by simp, by simpa [drops] using hd⟩
    · exact before p hp

theorem seeded_synced :
    t.Seeded tree (tree.changedPaths t.unevaluated) (t.synced tree).seeds := by
  have run : ∀ (changes : List PropertyChange) (done : List String) (s : Sync),
      (∀ c ∈ changes, c ∈ tree.changes t.unevaluated) → t.Synced tree done s →
      t.Seeded tree done s.seeds →
      t.Seeded tree (done ++ changes.map (·.path)) (changes.foldl (Sync.apply tree) s).seeds := by
    intro changes
    induction changes with
    | nil =>
      intro done s _ _ seeded
      simpa using seeded
    | cons c changes ih =>
      intro done s sub synced seeded
      have hc := sub c List.mem_cons_self
      have rest := ih (done ++ [c.path]) (s.apply tree c)
        (fun d hd => sub d (List.mem_cons_of_mem _ hd)) (synced.apply kept dotFree hc)
        (Seeded.apply kept dotFree synced seeded hc)
      simpa using rest
  exact run _ [] _ (fun _ hc => hc) (synced_start kept tree) fun p hp => absurd hp (by simp)

/-! ### Nodes that are evaluated again -/

/-- A node is new or edited, or its dependencies are not those from before. -/
def Touched (t : TreeEvaluator) (tree : DataTree) (g : DependencyGraph) (p : String) : Prop :=
  (∃ c ∈ tree.changes t.unevaluated, c.path = p ∧ c.event ≠ .removed) ∨
    g.dependencies p ≠ t.graph.dependencies p

omit kept in
/-- A changed path with a value is new or edited. -/
theorem exists_change_of_isData (hold : t.unevaluated.DotFree) {p : String}
    (data : tree.isData p = true) :
    (∃ c ∈ tree.changes t.unevaluated, c.path = p ∧ c.event ≠ .removed) ↔
      p ∈ tree.changedPaths t.unevaluated := by
  constructor
  · rintro ⟨c, hc, rfl, -⟩
    exact List.mem_map_of_mem hc
  · intro changed
    obtain ⟨c, hc, rfl⟩ := List.mem_map.mp changed
    refine ⟨c, hc, rfl, fun removed => ?_⟩
    have gone := (DataTree.event_eq_removed_iff dotFree hold hc).mp removed
    simp [DataTree.isData, gone] at data

/-- What a node depended on and lost without being rewired is gone. -/
theorem dependencies_synced_ne_iff {p : String} (data : tree.isData p = true) :
    (t.synced tree).graph.dependencies p ≠ t.graph.dependencies p ↔
      ∃ q ∈ t.graph.dependencies p, tree.isData q = false := by
  constructor
  · intro differ
    by_contra none
    push Not at none
    refine differ (NameSet.ext_mem fun q => ?_)
    rw [mem_dependencies_synced kept dotFree]
    exact ⟨fun edge => edge.1, fun edge => ⟨edge, data, by simpa using none q edge⟩⟩
  · rintro ⟨q, edge, gone⟩ same
    rw [← same, mem_dependencies_synced kept dotFree, gone] at edge
    simp at edge

/-- What is gone was changed. -/
theorem mem_changedPaths_of_gone {p q : String} (edge : q ∈ t.graph.dependencies p)
    (gone : tree.isData q = false) : q ∈ tree.changedPaths t.unevaluated := by
  by_contra unchanged
  have before := ((kept.graph.mem_dependencies_iff p q).mp edge).1
  rw [isData_eq_of_unchanged dotFree kept.dotFree unchanged, gone] at before
  simp at before

/-- The nodes that an update starts from are those that are new or edited or have other
dependencies than before. -/
theorem seed_or_rewired_iff {p : String} (data : tree.isData p = true) :
    p ∈ (t.synced tree).seeds ∨ p ∈ (t.rewired tree).1 ↔
      t.Touched tree (t.rewired tree).2 p := by
  have spec := synced_spec kept dotFree
  have rewired := rewired_spec kept dotFree
  have graph := graphOf_rewired kept dotFree
  have lost := dependencies_synced_ne_iff kept dotFree data
  -- a dependency on what is gone is not among the new ones
  have differ_of_gone : ∀ q ∈ t.graph.dependencies p, tree.isData q = false →
      (t.rewired tree).2.dependencies p ≠ t.graph.dependencies p := by
    intro q edge gone same
    rw [← same, graph.mem_dependencies_iff] at edge
    simp [edge.1] at gone
  rw [Touched, exists_change_of_isData dotFree kept.dotFree data]
  constructor
  · rintro (seed | changed)
    · rcases seeded_synced kept dotFree p seed with ⟨changed, -⟩ | ⟨q, -, gone, edge⟩
      · exact .inl changed
      · exact .inr (differ_of_gone q edge gone)
    · refine .inr fun same => ?_
      have differ := ((rewired.mem_changed_iff p).mp changed).2
      obtain ⟨q, edge, gone⟩ := lost.mp fun h => differ (same.trans h.symm)
      exact differ_of_gone q edge gone same
  · rintro (changed | differ)
    · exact .inl (spec.edited_subset p changed data)
    · by_cases same : (t.rewired tree).2.dependencies p = (t.synced tree).graph.dependencies p
      · obtain ⟨q, edge, gone⟩ := lost.mp (same ▸ differ)
        have hq := mem_changedPaths_of_gone kept dotFree edge gone
        exact .inl ((spec.dependents_subset p q edge hq gone).resolve_right fun h => by
          simp [data] at h)
      · refine .inr ((rewired.mem_changed_iff p).mpr ⟨?_, same⟩)
        by_contra apart
        exact same (NameSet.ext_mem fun q => by rw [rewired.mem_dependencies_iff, if_neg apart])

theorem mem_dirty_iff {p : String} : p ∈ t.dirty tree ↔
    ∃ q, (q ∈ (t.synced tree).seeds ∨ q ∈ (t.rewired tree).1) ∧ tree.isData q = true ∧
      Relation.ReflTransGen (t.rewired tree).2.DependsOn p q := by
  have graph := graphOf_rewired kept dotFree
  have seeds : ∀ q, q ∈ ((t.synced tree).seeds.insertMany (t.rewired tree).1).toList ↔
      q ∈ (t.synced tree).seeds ∨ q ∈ (t.rewired tree).1 := fun q =>
    NameSet.mem_insertMany _ _ _
  simp only [dirty, DependencyGraph.mem_closure_iff graph.sound, seeds, graph.contains_eq]

theorem mem_dirty_of_seed {p : String} (seed : p ∈ (t.synced tree).seeds)
    (data : tree.isData p = true) : p ∈ t.dirty tree :=
  (mem_dirty_iff kept dotFree).mpr ⟨p, .inl seed, data, .refl⟩

theorem mem_dirty_of_edge {p q : String} (edge : tree.Edge p q) (dirty : q ∈ t.dirty tree) :
    p ∈ t.dirty tree := by
  obtain ⟨r, seed, data, path⟩ := (mem_dirty_iff kept dotFree).mp dirty
  have step := ((graphOf_rewired kept dotFree).mem_dependencies_iff p q).mpr edge
  exact (mem_dirty_iff kept dotFree).mpr ⟨r, seed, data, .head step path⟩

/-- What an update may have to evaluate again are the touched nodes and all that depends on
them. -/
theorem mem_dirty_iff_touched {p : String} : p ∈ t.dirty tree ↔
    ∃ q ∈ (t.rewired tree).2.paths, Relation.ReflTransGen (t.rewired tree).2.DependsOn p q ∧
      t.Touched tree (t.rewired tree).2 q := by
  have graph := graphOf_rewired kept dotFree
  simp only [mem_dirty_iff kept dotFree, DependencyGraph.mem_paths_iff, graph.contains_eq]
  constructor
  · rintro ⟨q, start, data, path⟩
    exact ⟨q, data, path, (seed_or_rewired_iff kept dotFree data).mp start⟩
  · rintro ⟨q, data, path, touched⟩
    exact ⟨q, (seed_or_rewired_iff kept dotFree data).mpr touched, data, path⟩

/-! ### The order of evaluation -/

omit dotFree in
/-- An update evaluates what starting from scratch or taking the changes over evaluates. -/
theorem evaluationOrder_update (tree : DataTree) : (t.update tree).1.evaluationOrder =
    if t.needsRebuild then (t.firstState tree).passOrder fun _ => true
    else (t.updateState tree).passOrder (t.dirty tree).contains := by
  rw [update_eq kept]
  split <;> rfl

omit dotFree in
theorem needsRebuild_pass (p : Pass) : (t.pass p).needsRebuild = (t.pass p).hasCycle := by
  cases p with
  | createFirst tree =>
    rw [pass, createFirst_snd]
    rfl
  | update tree =>
    rw [pass, update_snd kept]
    split
    · rw [createFirst_snd]
      rfl
    · rw [applyChanges_snd]
      rfl

end Update

/-- A pass evaluates the nodes with a binding and without a cycle that pass its test, each once
and after all that it depends on. -/
theorem GraphOf.passOrder_spec {tree : DataTree} {t : TreeEvaluator}
    (graph : GraphOf tree t.graph t.references) (orders : t.graph.Orders t.order)
    (test : String → Bool) :
    (∀ p, p ∈ t.passOrder test ↔ p ∈ t.graph.paths ∧ Binds tree p ∧
      ¬ t.graph.DependsOnAll p p ∧ test p = true) ∧
    (t.passOrder test).Nodup ∧
    ∀ p ∈ t.passOrder test, ∀ q ∈ t.passOrder test, t.graph.DependsOnAll p q →
      (t.passOrder test).idxOf q < (t.passOrder test).idxOf p := by
  have mem : ∀ p, p ∈ t.passOrder test ↔ p ∈ t.graph.paths ∧ Binds tree p ∧
      ¬ t.graph.DependsOnAll p p ∧ test p = true := by
    intro p
    rw [passOrder, List.mem_filter, Bool.and_eq_true, graph.contains_references_iff,
      orders.sorts.mem_iff, DependencyGraph.mem_paths_iff]
    constructor
    · rintro ⟨⟨node, free⟩, pass, -, binds⟩
      exact ⟨node, binds, free, pass⟩
    · rintro ⟨node, binds, free, pass⟩
      exact ⟨⟨node, free⟩, pass, node, binds⟩
  refine ⟨mem, orders.sorts.nodup.filter _, fun p hp q hq path => ?_⟩
  exact DependencyGraph.idxOf_lt_of_pairwise (orders.sorts.later.filter _) hp hq
    ((mem p).mp hp).2.2.1 path

/-- After some passes the next update starts from scratch only when there was a cycle. -/
theorem needsRebuild_afterPasses {e : Evaluator} {passes : List Pass} (nonempty : passes ≠ [])
    (dotFree : ∀ p ∈ passes, p.tree.DotFree)
    (acyclic : ∀ p, ¬ (afterPasses e passes).graph.DependsOnAll p p) :
    (afterPasses e passes).needsRebuild = false := by
  have kept := kept_afterPasses e dotFree
  obtain ⟨before, last, rfl⟩ := (List.eq_nil_or_concat' passes).resolve_left nonempty
  have ran : afterPasses e (before ++ [last]) = (afterPasses e before).pass last := by
    simp [afterPasses]
  have keptBefore : (afterPasses e before).Kept :=
    kept_afterPasses e fun p hp => dotFree p (List.mem_append_left _ hp)
  have free := kept.orders.cyclic_eq_nil acyclic
  rw [ran] at free ⊢
  rw [needsRebuild_pass keptBefore, hasCycle, NameSet.isEmpty, free]
  rfl

/-- For a new evaluator every node is new. -/
theorem touched_fresh (e : Evaluator) {tree : DataTree} (dotFree : tree.DotFree)
    {g : DependencyGraph} {p : String} (data : tree.isData p = true) :
    (fresh e).Touched tree g p := by
  have kept := kept_fresh e
  refine .inl ((exists_change_of_isData dotFree kept.dotFree data).mpr ?_)
  by_contra unchanged
  have before : (fresh e).unevaluated.isData p = false := by
    rw [← kept.graph.contains_eq]
    rfl
  rw [isData_eq_of_unchanged dotFree kept.dotFree unchanged, data] at before
  cases before

/-- An update of an evaluator without cycles evaluates the nodes with a binding and without a
cycle that are touched by it or depend on a touched node, each once and after all those that it
depends on. A node is touched when it is new or edited or its dependencies are not those from
before. -/
theorem evaluationOrder_afterPasses (e : Evaluator) (passes : List Pass) (tree : DataTree)
    (dotFree : ∀ p ∈ passes ++ [.update tree], p.tree.DotFree)
    (acyclic : ∀ p, ¬ Relation.TransGen (afterPasses e passes).graph.DependsOn p p) :
    let t := afterPasses e passes
    let g := (t.update tree).2.graph
    let order := (t.update tree).1.evaluationOrder
    (∀ p, p ∈ order ↔ p ∈ g.paths ∧ Binds tree p ∧ ¬ Relation.TransGen g.DependsOn p p ∧
      ∃ q ∈ g.paths, Relation.ReflTransGen g.DependsOn p q ∧
        ((∃ c ∈ tree.changes t.unevaluated, c.path = q ∧ c.event ≠ .removed) ∨
          g.dependencies q ≠ t.graph.dependencies q)) ∧
    order.Nodup ∧
    ∀ p ∈ order, ∀ q ∈ order, Relation.TransGen g.DependsOn p q →
      order.idxOf q < order.idxOf p := by
  intro t g order
  have lastFree : tree.DotFree := dotFree (.update tree) (by simp)
  have earlierFree : ∀ p ∈ passes, p.tree.DotFree := fun p hp =>
    dotFree p (List.mem_append_left _ hp)
  have kept : t.Kept := kept_afterPasses e earlierFree
  by_cases rebuild : t.needsRebuild = true
  · -- only a new evaluator starts from scratch here, and for it all nodes are new
    have new : passes = [] := by
      by_contra some
      simp [t, needsRebuild_afterPasses some earlierFree acyclic] at rebuild
    have graph := graphOf_firstGraph lastFree
    have spec := GraphOf.passOrder_spec (t := t.firstState tree) graph
      (DependencyGraph.orders_order graph.sound) fun _ => true
    have hg : g = (t.firstState tree).graph := by
      simp only [g, update_snd kept, if_pos rebuild, createFirst_snd]
    have horder : order = (t.firstState tree).passOrder fun _ => true := by
      simp only [order, evaluationOrder_update kept, if_pos rebuild]
    rw [hg, horder]
    refine ⟨fun p => ?_, spec.2⟩
    rw [spec.1]
    refine and_congr_right fun node => and_congr_right fun _ => and_congr_right fun _ => ?_
    have data : tree.isData p = true := by
      rw [← graph.contains_eq]
      exact DependencyGraph.mem_paths_iff.mp node
    subst new
    exact ⟨fun _ => ⟨p, node, .refl, touched_fresh e lastFree data⟩, fun _ => rfl⟩
  · have spec := GraphOf.passOrder_spec (t := t.updateState tree) (graphOf_rewired kept lastFree)
      (orders_updatedOrder kept lastFree) (t.dirty tree).contains
    have hg : g = (t.updateState tree).graph := by
      simp only [g, update_snd kept, if_neg rebuild, applyChanges_snd]
    have horder : order = (t.updateState tree).passOrder (t.dirty tree).contains := by
      simp only [order, evaluationOrder_update kept, if_neg rebuild]
    rw [hg, horder]
    refine ⟨fun p => ?_, spec.2⟩
    rw [spec.1]
    refine and_congr_right fun _ => and_congr_right fun _ => and_congr_right fun _ => ?_
    rw [NameSet.contains, List.contains_iff_mem]
    exact mem_dirty_iff_touched kept lastFree

/-- A chain of two widgets of which the first, which has no binding, gets another text. -/
theorem evaluationOrder_afterPasses_chain :
    (∀ p ∈ [Pass.createFirst (.chain 2 "x")] ++ [.update (.chain 2 "y")], p.tree.DotFree) ∧
    (∀ p, ¬ Relation.TransGen
      (afterPasses .path [.createFirst (.chain 2 "x")]).graph.DependsOn p p) ∧
    "N1.text" ∈ ((afterPasses .path [.createFirst (.chain 2 "x")]).update
      (.chain 2 "y")).1.evaluationOrder := by
  have dotFree : ∀ p ∈ [Pass.createFirst (.chain 2 "x")] ++ [.update (.chain 2 "y")],
      p.tree.DotFree := by decide +kernel
  have oldFree : (DataTree.chain 2 "x").DotFree := dotFree (.createFirst _) List.mem_cons_self
  have newFree : (DataTree.chain 2 "y").DotFree :=
    dotFree (.update _) (List.mem_append_right _ List.mem_cons_self)
  have kept : (afterPasses .path [.createFirst (.chain 2 "x")]).Kept :=
    kept_afterPasses .path fun p hp => dotFree p (List.mem_append_left _ hp)
  have before : (afterPasses .path [.createFirst (.chain 2 "x")]).unevaluated = .chain 2 "x" :=
    unevaluated_pass (kept_fresh .path) (.createFirst (.chain 2 "x"))
  have acyclic : ∀ p, ¬ Relation.TransGen
      (afterPasses .path [.createFirst (.chain 2 "x")]).graph.DependsOn p p :=
    (before ▸ kept.graph).not_dependsOnAll_self oldFree (by decide +kernel)
  have after := (kept.pass (p := .update (.chain 2 "y")) newFree).graph
  rw [unevaluated_pass kept] at after
  have first := graphOf_firstGraph newFree
  have edge : ((afterPasses .path [.createFirst (.chain 2 "x")]).update
      (.chain 2 "y")).2.graph.DependsOn "N1.text" "N0.text" :=
    (after.mem_dependencies_iff _ _).mpr ((first.mem_dependencies_iff _ _).mp (by decide +kernel))
  obtain ⟨reader, read⟩ := after.sound.contains_of_mem_dependencies edge
  have binds : Binds (.chain 2 "y") "N1.text" :=
    (first.contains_references_iff.mp (by decide +kernel)).2
  have touched : ∃ c ∈ (DataTree.chain 2 "y").changes (.chain 2 "x"),
      c.path = "N0.text" ∧ c.event ≠ .removed :=
    ⟨⟨.edited, "N0.text"⟩, by decide +kernel, rfl, by decide⟩
  refine ⟨dotFree, acyclic, ((evaluationOrder_afterPasses .path [.createFirst (.chain 2 "x")]
    (.chain 2 "y") dotFree acyclic).1 "N1.text").mpr ⟨DependencyGraph.mem_paths_iff.mpr reader,
      binds, after.not_dependsOnAll_self newFree (by decide +kernel) _, "N0.text",
      DependencyGraph.mem_paths_iff.mpr read, .single edge, .inl ?_⟩⟩
  rwa [before]

end TreeEvaluator

end AppBuilder
