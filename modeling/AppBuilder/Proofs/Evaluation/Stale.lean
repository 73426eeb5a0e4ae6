import AppBuilder.Proofs.Evaluation.Cycles

/-!
Bindings that an update leaves stale.

An update covers a binding when it evaluates it or reports it as cyclic; a binding that is not
covered keeps the value it had. Unless an update starts from scratch it covers the dirty bindings
(`covers_update_iff`). What refers to changed data is dirty, over the edge to what is there now or
over the one to what is gone (`mem_dirty_of_refers`), and so is what leads there; nothing else is
(`mem_dirty_iff_leads`). A trigger has no node, so what refers to it is left as it was when it
changes.

Main statement: `covers_of_refers`.
-/

namespace AppBuilder

namespace DataTree

/-- A path got or lost a value, or has another one. -/
def differs (new old : DataTree) (p : String) : Bool := !(old.get? p == new.get? p)

/-- A reference of a path points to another path, whatever is there. -/
def Refers (tree : DataTree) (p q : String) : Prop :=
  ∃ r ∈ (TreeEvaluator.dataReferences? tree p).getD [], Reference.PointsTo p r q

/-- A path is new or edited data, or refers to a changed path that was data or is data. -/
def Affected (new old : DataTree) (p : String) : Prop :=
  (p ∈ new.changedPaths old ∧ new.isData p = true) ∨
    ∃ q ∈ new.changedPaths old, (old.isData q = true ∨ new.isData q = true) ∧ new.Refers p q

theorem Refers.holdsCode {tree : DataTree} {p q : String} (h : tree.Refers p q) :
    (TreeEvaluator.dataReferences? tree p).isSome = true := by
  obtain ⟨r, hr, -⟩ := h
  cases code : TreeEvaluator.dataReferences? tree p with
  | none => simp [code] at hr
  | some references => rfl

theorem mem_changedPaths_of_differs {new old : DataTree} (hnew : new.DotFree)
    (hold : old.DotFree) {p : String} (h : new.differs old p = true) :
    p ∈ new.changedPaths old := by
  by_contra unchanged
  rcases unchanged_of_not_mem hnew hold unchanged with
    ⟨before, after⟩ | ⟨x, y, before, after, same, -⟩
  · simp [differs, before, after] at h
  · have equal : (x == y) = true := same
    simp [differs, before, after, equal] at h

end DataTree

/-- A pass evaluates a path or reports it as cyclic. -/
def EvalPass.Covers (pass : EvalPass) (p : String) : Prop :=
  p ∈ pass.evaluationOrder ∨ some p ∈ pass.cyclicPaths

namespace TreeEvaluator

/-! ### What a pass covers -/

/-- When all cyclic nodes pass the test of a pass, the paths that it evaluates and the cyclic ones
are those with a binding that pass the test. -/
theorem GraphOf.mem_passOrder_or_cycle_iff {tree : DataTree} {t : TreeEvaluator}
    (graph : GraphOf tree t.graph t.references) (orders : t.graph.Orders t.order)
    {test : String → Bool} (cyclic : ∀ p, t.graph.DependsOnAll p p → test p = true) {p : String} :
    p ∈ t.passOrder test ∨ t.graph.DependsOnAll p p ↔
      (dataReferences? tree p).isSome = true ∧ test p = true := by
  rw [(graph.passOrder_spec orders test).1, ← and_assoc, ← graph.contains_references_iff,
    graph.contains_references]
  constructor
  · rintro (⟨code, -, pass⟩ | cycle)
    · exact ⟨code, pass⟩
    · exact ⟨graph.holdsCode_of_cycle cycle, cyclic p cycle⟩
  · rintro ⟨code, pass⟩
    by_cases cycle : t.graph.DependsOnAll p p
    · exact .inr cycle
    · exact .inl ⟨code, cycle, pass⟩

section Update

variable {t : TreeEvaluator} {tree : DataTree} (kept : t.Kept) (dotFree : tree.DotFree)
include kept dotFree

/-- An update covers the dirty bindings, and all bindings when it starts from scratch. -/
theorem covers_update_iff {p : String} : (t.update tree).1.Covers p ↔
    (dataReferences? tree p).isSome = true ∧ (t.needsRebuild = true ∨ p ∈ t.dirty tree) := by
  have reported : some p ∈ (t.update tree).1.cyclicPaths ↔
      (t.update tree).2.graph.DependsOnAll p p := by
    refine ((kept.reportsCycles (p := .update tree) dotFree).mem_iff (some p)).trans ⟨?_, ?_⟩
    · rintro ⟨q, cycle, same⟩
      rwa [Option.some.inj same]
    · exact fun cycle => ⟨p, cycle, rfl⟩
  rw [EvalPass.Covers, reported, evaluationOrder_update kept, update_snd kept]
  by_cases rebuild : t.needsRebuild = true
  · have graph := graphOf_firstGraph dotFree
    rw [if_pos rebuild, if_pos rebuild, createFirst_snd]
    refine (GraphOf.mem_passOrder_or_cycle_iff (t := t.firstState tree) graph
      (DependencyGraph.orders_order graph.sound) fun _ _ => rfl).trans ?_
    simp [rebuild]
  · have incremental : t.needsRebuild = false := by simpa using rebuild
    rw [if_neg rebuild, if_neg rebuild, applyChanges_snd]
    refine (GraphOf.mem_passOrder_or_cycle_iff (t := t.updateState tree)
      (graphOf_rewired kept dotFree) (orders_updatedOrder kept dotFree) fun q cycle => ?_).trans ?_
    · exact NameSet.contains_iff.mpr (mem_dirty_of_cycle kept dotFree incremental cycle)
    · simp [incremental, NameSet.contains_iff]

/-- A binding that an update does not cover keeps its value. -/
theorem get?_update_of_not_covers {p : String} (code : (dataReferences? tree p).isSome = true)
    (apart : ¬ (t.update tree).1.Covers p) :
    (t.update tree).2.evaluated.get? p = t.evaluated.get? p := by
  obtain ⟨incremental, clean⟩ :=
    not_or.mp fun h => apart ((covers_update_iff kept dotFree).mpr ⟨code, h⟩)
  have unevaluated : p ∉ (t.updateState tree).passOrder (t.dirty tree).contains := by
    intro listed
    have pass := (Bool.and_eq_true_iff.mp (List.mem_filter.mp listed).2).1
    exact clean (NameSet.contains_iff.mp pass)
  have unfilled : p ∉ (t.updatedOrder tree).cyclic.toList.filter (t.dirty tree).contains :=
    fun listed => clean (NameSet.contains_iff.mp (List.mem_filter.mp listed).2)
  rw [update_snd kept, if_neg incremental, applyChanges_snd]
  calc ((t.updateState tree).evaluateNodes _).1.evaluated.get? p
    _ = (t.updateState tree).evaluated.get? p := get?_evaluateNodes_of_not_mem _ unevaluated
    _ = (t.synced tree).evaluated.get? p :=
      (get?_fillMissing _ _ _).trans (if_neg fun h => unfilled h.1)
    _ = t.evaluated.get? p := get?_synced_of_code kept dotFree code

/-! ### Changes of data -/

/-- What refers to a changed path that was data or is data has to be evaluated again. -/
theorem mem_dirty_of_refers {p q : String} (refers : tree.Refers p q)
    (changed : q ∈ tree.changedPaths t.unevaluated)
    (data : t.unevaluated.isData q = true ∨ tree.isData q = true) : p ∈ t.dirty tree := by
  have spec := synced_spec kept dotFree
  obtain ⟨r, hr, points⟩ := refers
  have node := isData_of_mem_dataReferences hr
  by_cases there : tree.isData q = true
  · exact mem_dirty_of_edge kept dotFree ⟨there, r, hr, points⟩
      (mem_dirty_of_seed kept dotFree (spec.edited_subset q changed there) there)
  by_cases edited : p ∈ tree.changedPaths t.unevaluated
  · exact mem_dirty_of_seed kept dotFree (spec.edited_subset p edited node) node
  · -- an unchanged path had the edge to what is gone
    rw [← dataReferences?_eq_of_unchanged dotFree kept.dotFree edited] at hr
    have edge := (kept.graph.mem_dependencies_iff p q).mpr
      ⟨data.resolve_right there, r, hr, points⟩
    rcases spec.dependents_subset p q edge changed (by simpa using there) with seed | ⟨-, gone⟩
    · exact mem_dirty_of_seed kept dotFree seed node
    · simp [node] at gone

/-- The dependencies of a path are others only when data came or went. -/
theorem affected_of_touched {p : String} (node : tree.isData p = true)
    (touched : t.Touched tree (t.rewired tree).2 p) : tree.Affected t.unevaluated p := by
  by_cases edited : p ∈ tree.changedPaths t.unevaluated
  · exact .inl ⟨edited, node⟩
  have differ := touched.resolve_left fun new =>
    edited ((exists_change_of_isData dotFree kept.dotFree node).mp new)
  by_contra calm
  refine differ (NameSet.ext_mem fun q => ?_)
  rw [(graphOf_rewired kept dotFree).mem_dependencies_iff, kept.graph.mem_dependencies_iff,
    DataTree.Edge, DataTree.Edge, dataReferences?_eq_of_unchanged dotFree kept.dotFree edited]
  refine and_congr_left fun refers => ?_
  by_cases changed : q ∈ tree.changedPaths t.unevaluated
  · have trigger := fun data => calm (.inr ⟨q, changed, data, refers⟩)
    exact iff_of_false (fun data => trigger (.inr data)) fun data => trigger (.inl data)
  · rw [isData_eq_of_unchanged dotFree kept.dotFree changed]

theorem mem_dirty_of_affected {p : String} (affected : tree.Affected t.unevaluated p) :
    p ∈ t.dirty tree := by
  rcases affected with ⟨changed, data⟩ | ⟨q, changed, data, refers⟩
  · exact mem_dirty_of_seed kept dotFree
      ((synced_spec kept dotFree).edited_subset p changed data) data
  · exact mem_dirty_of_refers kept dotFree refers changed data

/-- What has to be evaluated again are the paths that a change of data affects and those that lead
to one. -/
theorem mem_dirty_iff_leads {p : String} : p ∈ t.dirty tree ↔
    ∃ x, Relation.ReflTransGen tree.Edge p x ∧ tree.Affected t.unevaluated x := by
  have graph := graphOf_rewired kept dotFree
  constructor
  · intro dirty
    obtain ⟨x, node, path, touched⟩ := (mem_dirty_iff_touched kept dotFree).mp dirty
    rw [DependencyGraph.mem_paths_iff, graph.contains_eq] at node
    have edges : ∀ a b, (t.rewired tree).2.DependsOn a b → tree.Edge a b := fun a b =>
      (graph.mem_dependencies_iff a b).mp
    exact ⟨x, Relation.ReflTransGen.mono edges p x path,
      affected_of_touched kept dotFree node touched⟩
  · rintro ⟨x, path, affected⟩
    induction path using Relation.ReflTransGen.head_induction_on with
    | refl => exact mem_dirty_of_affected kept dotFree affected
    | head edge _ ih => exact mem_dirty_of_edge kept dotFree edge ih

/-- Without a cycle before, an update covers the bindings that lead to a path affected. -/
theorem covers_update_iff_leads (incremental : t.needsRebuild = false) {p : String} :
    (t.update tree).1.Covers p ↔ (dataReferences? tree p).isSome = true ∧
      ∃ x, Relation.ReflTransGen tree.Edge p x ∧ tree.Affected t.unevaluated x := by
  rw [covers_update_iff kept dotFree, incremental, mem_dirty_iff_leads kept dotFree]
  simp

end Update

/-- For a new evaluator all data is affected. -/
theorem affected_fresh (e : Evaluator) {tree : DataTree} (dotFree : tree.DotFree) {p : String}
    (data : tree.isData p = true) : tree.Affected (fresh e).unevaluated p := by
  have new := (touched_fresh e dotFree (g := (fresh e).graph) data).resolve_right (· rfl)
  exact .inl ⟨(exists_change_of_isData dotFree (kept_fresh e).dotFree data).mp new, data⟩

/-- An update after any run evaluates, or reports as cyclic, every binding that refers to a path
whose value differs between the trees, provided the path is data before or after. A binding that
it neither evaluates nor reports keeps its value. After a tree without cycles it evaluates and
reports the bindings that lead to a path which is changed data or refers to some, and no other. -/
theorem covers_of_refers (e : Evaluator) (passes : List Pass) (tree : DataTree)
    (dotFree : ∀ p ∈ passes ++ [.update tree], p.tree.DotFree) :
    let t := afterPasses e passes
    let result := t.update tree
    (∀ p q, tree.Refers p q → tree.differs t.unevaluated q = true →
      t.unevaluated.isData q = true ∨ tree.isData q = true →
      p ∈ result.1.evaluationOrder ∨ some p ∈ result.1.cyclicPaths) ∧
    (∀ p, (dataReferences? tree p).isSome = true → p ∉ result.1.evaluationOrder →
      some p ∉ result.1.cyclicPaths → result.2.evaluated.get? p = t.evaluated.get? p) ∧
    ((∀ p, ¬ Relation.TransGen t.graph.DependsOn p p) →
      ∀ p, p ∈ result.1.evaluationOrder ∨ some p ∈ result.1.cyclicPaths ↔
        (dataReferences? tree p).isSome = true ∧
          ∃ x, Relation.ReflTransGen tree.Edge p x ∧ tree.Affected t.unevaluated x) := by
  intro t result
  have lastFree : tree.DotFree := dotFree (.update tree) (by simp)
  have earlierFree : ∀ p ∈ passes, p.tree.DotFree := fun p hp =>
    dotFree p (List.mem_append_left _ hp)
  have kept : t.Kept := kept_afterPasses e earlierFree
  refine ⟨fun p q refers differs data => ?_, fun p code unlisted unreported => ?_,
    fun acyclic p => ?_⟩
  · have changed := DataTree.mem_changedPaths_of_differs lastFree kept.dotFree differs
    exact (covers_update_iff kept lastFree).mpr
      ⟨refers.holdsCode, .inr (mem_dirty_of_refers kept lastFree refers changed data)⟩
  · exact get?_update_of_not_covers kept lastFree code (not_or.mpr ⟨unlisted, unreported⟩)
  · by_cases new : passes = []
    · -- the first tree is evaluated as a whole
      subst new
      refine (covers_update_iff kept lastFree).trans (and_congr_right fun code => ?_)
      exact iff_of_true (.inl rfl)
        ⟨p, .refl, affected_fresh e lastFree (isData_of_dataReferences? code)⟩
    · exact covers_update_iff_leads kept lastFree
        (needsRebuild_afterPasses new earlierFree acyclic)

/-- A button with a trigger, and a text that shows all properties of the button. -/
def clicked (code : String) : DataTree :=
  (DataTree.empty.insert "A" ((Entity.ofKind .widget).setTrigger "onClick" code)).insert "B"
    ((Entity.ofKind .widget).set "text" (.string "\x7b\x7bA\x7d\x7d"))

theorem not_affected_clicked (p : String) : ¬ (clicked "y").Affected (clicked "x") p := by
  have triggers : ∀ q ∈ (clicked "y").changedPaths (clicked "x"),
      (clicked "x").isData q = false ∧ (clicked "y").isData q = false := by
    decide +kernel
  rintro (⟨changed, data⟩ | ⟨q, changed, data, -⟩)
  · simp [triggers p changed] at data
  · simp [triggers q changed] at data

theorem unevaluated_createFirst (e : Evaluator) (tree : DataTree) :
    (afterPasses e [.createFirst tree]).unevaluated = tree :=
  unevaluated_pass (kept_fresh e) (.createFirst tree)

theorem not_dependsOnAll_clicked (p : String) :
    ¬ (afterPasses .path [.createFirst (clicked "x")]).graph.DependsOnAll p p := by
  have dotFree : (clicked "x").DotFree := by decide +kernel
  have kept : (afterPasses .path [.createFirst (clicked "x")]).Kept :=
    (kept_fresh .path).pass (p := .createFirst (clicked "x")) dotFree
  have graph := kept.graph
  rw [unevaluated_createFirst] at graph
  exact graph.not_dependsOnAll_self dotFree (by decide +kernel) p

/-- The first text of a chain changes, to which the second one refers; and the trigger of a button
changes, which a text shows. -/
theorem covers_of_refers_chain_clicked :
    ((∀ p ∈ [Pass.createFirst (.chain 2 "x")] ++ [.update (.chain 2 "y")], p.tree.DotFree) ∧
      let result := (afterPasses .path [.createFirst (.chain 2 "x")]).update (.chain 2 "y")
      "N1.text" ∈ result.1.evaluationOrder ∨ some "N1.text" ∈ result.1.cyclicPaths) ∧
    (∀ p ∈ [Pass.createFirst (clicked "x")] ++ [.update (clicked "y")], p.tree.DotFree) ∧
    let result := (afterPasses .path [.createFirst (clicked "x")]).update (clicked "y")
    ¬ ("B.text" ∈ result.1.evaluationOrder ∨ some "B.text" ∈ result.1.cyclicPaths) := by
  have chainFree : ∀ p ∈ [Pass.createFirst (.chain 2 "x")] ++ [.update (.chain 2 "y")],
      p.tree.DotFree := by decide +kernel
  have clickedFree : ∀ p ∈ [Pass.createFirst (clicked "x")] ++ [.update (clicked "y")],
      p.tree.DotFree := by decide +kernel
  refine ⟨⟨chainFree, ?_⟩, clickedFree, ?_⟩
  · refine (covers_of_refers .path [.createFirst (.chain 2 "x")] (.chain 2 "y") chainFree).1
      "N1.text" "N0.text" ⟨"N0.text", by decide +kernel, rfl⟩ ?_ ?_
    · rw [unevaluated_createFirst]
      decide +kernel
    · exact .inr (by decide +kernel)
  · intro result covered
    obtain ⟨-, x, -, affected⟩ := ((covers_of_refers .path [.createFirst (clicked "x")]
      (clicked "y") clickedFree).2.2 not_dependsOnAll_clicked "B.text").mp covered
    rw [unevaluated_createFirst] at affected
    exact not_affected_clicked x affected

/-- The trigger of the button changes. The text, which is no trigger, refers to it; it is neither
evaluated nor reported and keeps its value. -/
theorem stale_clicked :
    let t := afterPasses .path [.createFirst (clicked "x")]
    let result := t.update (clicked "y")
    (∀ p ∈ [Pass.createFirst (clicked "x")] ++ [.update (clicked "y")], p.tree.DotFree) ∧
    (∀ p, ¬ Relation.TransGen t.graph.DependsOn p p) ∧
    (clicked "y").Refers "B.text" "A.onClick" ∧
    (clicked "y").differs t.unevaluated "A.onClick" = true ∧
    "B.text" ∉ result.1.evaluationOrder ∧ some "B.text" ∉ result.1.cyclicPaths ∧
    result.2.evaluated.get? "B.text" = t.evaluated.get? "B.text" := by
  intro t result
  have dotFree : ∀ p ∈ [Pass.createFirst (clicked "x")] ++ [.update (clicked "y")],
      p.tree.DotFree := by decide +kernel
  have newFree : (clicked "y").DotFree :=
    dotFree (.update _) (List.mem_append_right _ List.mem_cons_self)
  have kept : t.Kept := kept_afterPasses .path fun p hp => dotFree p (List.mem_append_left _ hp)
  have before : t.unevaluated = clicked "x" := unevaluated_createFirst _ _
  have incremental : t.needsRebuild = false :=
    needsRebuild_afterPasses (by simp) (fun p hp => dotFree p (List.mem_append_left _ hp))
      not_dependsOnAll_clicked
  have refers : (clicked "y").Refers "B.text" "A.onClick" :=
    ⟨"A", by decide +kernel, by decide, "onClick", by decide +kernel⟩
  have apart : ¬ result.1.Covers "B.text" := by
    rw [covers_update_iff_leads kept newFree incremental, before]
    rintro ⟨-, x, -, affected⟩
    exact not_affected_clicked x affected
  obtain ⟨unlisted, unreported⟩ := not_or.mp apart
  refine ⟨dotFree, not_dependsOnAll_clicked, refers, ?_, unlisted, unreported,
    get?_update_of_not_covers kept newFree refers.holdsCode apart⟩
  rw [before]
  decide +kernel

end TreeEvaluator

end AppBuilder
