import AppBuilder.Proofs.Evaluation.Dirty
import AppBuilder.Proofs.Evaluation.Settled
import AppBuilder.Proofs.Evaluation.Values

/-!
What a pass does about cycles.

A first pass reports the cyclic nodes of its graph. An update reports those of them that it may
have to evaluate, and that is all of them (`mem_dirty_of_cycle`): the graph before had no cycle,
so on every new one stands a node whose dependencies are others now. Code cannot raise the error
of a cycle itself (`kind_ne_of_resolve`). A cyclic node is not evaluated and has the value its
path had, which an update finds in place and a first pass puts there.

Main statement: `cycles_afterPasses`.
-/

namespace AppBuilder

/-! ### Errors of code -/

namespace Evaluator

/-- Every error of a computation has a property. -/
def Raises {ε α : Type} (P : ε → Prop) (x : Except ε α) : Prop := ∀ e, x = .error e → P e

section Raises

variable {ε α β : Type} {P : ε → Prop}

theorem Raises.ok (a : α) : Raises P (.ok a) := fun _ h => nomatch h

theorem Raises.bind {x : Except ε α} {f : α → Except ε β} (hx : Raises P x)
    (hf : ∀ a, Raises P (f a)) : Raises P (x >>= f) := by
  cases x with
  | error e =>
    intro e' he'
    exact hx e' (congrArg Except.error (Except.error.inj he'))
  | ok a => exact hf a

theorem Raises.mapM {f : α → Except ε β} (hf : ∀ a, Raises P (f a)) (xs : List α) :
    Raises P (xs.mapM f) := by
  induction xs with
  | nil => exact .ok []
  | cons x xs ih =>
    rw [List.mapM_cons]
    exact (hf x).bind fun _ => ih.bind fun _ => .ok _

end Raises

/-- Not the error of a cycle. -/
def NoCycle (e : EvalError) : Prop := e.kind ≠ .cyclicDependency

variable (e : Evaluator) (scope : Scope)

theorem raises_runBinding (code : String) : Raises NoCycle (e.runBinding code scope) := by
  unfold runBinding
  generalize (e.run code scope).inFrame .binding = run
  obtain ⟨outcome, report⟩ := run
  dsimp only
  cases report.violation with
  | some name =>
    rintro _ ⟨⟩
    simp [NoCycle, EvalError.actionInBinding]
  | none =>
    cases outcome with
    | ok j => exact .ok j
    | error f =>
      rintro _ ⟨⟩
      obtain ⟨kind, message⟩ := f
      cases kind <;> simp [NoCycle, EvalError.ofScript]

theorem raises_pieceText (piece : Segment) : Raises NoCycle (e.pieceText scope piece) := by
  cases piece with
  | text cs => exact .ok _
  | code cs => exact (e.raises_runBinding scope _).bind fun _ => .ok _

theorem raises_template (s : String) : Raises NoCycle (e.template s scope) := by
  unfold template
  by_cases dynamic : Template.isDynamic s = true
  · rw [if_pos dynamic]
    cases Template.soleCode? s with
    | some code => exact e.raises_runBinding scope code
    | none => exact (Raises.mapM (e.raises_pieceText scope) _).bind fun _ => .ok _
  · rw [if_neg dynamic]
    exact .ok _

mutual

theorem raises_resolve : ∀ raw : Json, Raises NoCycle (e.resolve scope raw)
  | .null | .bool _ | .number _ => by
    simp only [resolve]
    exact .ok _
  | .string s => by
    simp only [resolve]
    exact e.raises_template scope s
  | .array xs => by
    simp only [resolve]
    exact (raises_resolveItems xs).bind fun _ => .ok _
  | .object fs => by
    simp only [resolve]
    exact (raises_resolveFields fs).bind fun _ => .ok _

theorem raises_resolveItems : ∀ xs : List Json, Raises NoCycle (e.resolveItems scope xs)
  | [] => by
    simp only [resolveItems]
    exact .ok _
  | x :: xs => by
    simp only [resolveItems]
    exact (raises_resolve x).bind fun _ => (raises_resolveItems xs).bind fun _ => .ok _

theorem raises_resolveFields : ∀ fs : List (String × Json),
    Raises NoCycle (e.resolveFields scope fs)
  | [] => by
    simp only [resolveFields]
    exact .ok _
  | (k, x) :: fs => by
    simp only [resolveFields]
    exact (raises_resolve x).bind fun _ => (raises_resolveFields fs).bind fun _ => .ok _

end

end Evaluator

theorem NameSet.nodup (s : NameSet) : s.toList.Nodup :=
  s.ordered.imp fun lt => String.ne_of_lt lt

/-- A node of a graph depends on itself, directly or through others. -/
def DependencyGraph.OnCycle (g : DependencyGraph) (p : String) : Prop :=
  p ∈ g.paths ∧ Relation.TransGen g.DependsOn p p

theorem DependencyGraph.onCycle_iff {g : DependencyGraph} (h : g.Sound) {p : String} :
    g.OnCycle p ↔ g.DependsOnAll p p :=
  and_iff_right_of_imp fun cycle => mem_paths_iff.mpr (contains_of_dependsOnAll h cycle).1

/-- The paths that a pass reports as cyclic. -/
def EvalPass.cyclicPaths (p : EvalPass) : List (Option String) :=
  (p.errors.filter fun e => e.kind = .cyclicDependency).map (·.path)

namespace TreeEvaluator

/-! ### Evaluating other nodes -/

theorem noCycle_evaluateNode (t : TreeEvaluator) (p : String) :
    ∀ e ∈ (t.evaluateNode p).2, Evaluator.NoCycle e := by
  unfold evaluateNode
  cases t.unevaluated.get? p with
  | none => exact fun e he => nomatch he
  | some raw =>
    cases h : t.evaluator.resolve (nodeScope t.references t.evaluated p) raw with
    | ok v => simp [h]
    | error e =>
      simp only [h, Option.mem_some_iff, forall_eq']
      exact t.evaluator.raises_resolve _ raw e h

theorem noCycle_evaluateNodes (t : TreeEvaluator) (paths : List String) :
    ∀ e ∈ (t.evaluateNodes paths).2, Evaluator.NoCycle e := by
  have run : ∀ (paths : List String) (acc : TreeEvaluator × List EvalError),
      (∀ e ∈ acc.2, Evaluator.NoCycle e) →
      ∀ e ∈ (paths.foldl (fun acc path => ((acc.1.evaluateNode path).1,
        acc.2 ++ (acc.1.evaluateNode path).2.toList)) acc).2, Evaluator.NoCycle e := by
    intro paths
    induction paths with
    | nil => exact fun acc h => h
    | cons p paths ih =>
      intro acc h
      refine ih _ fun e he => ?_
      rcases List.mem_append.mp he with he | he
      · exact h e he
      · exact noCycle_evaluateNode acc.1 p e (Option.mem_toList.mp he)
  exact run paths (t, []) (by simp)

/-- Evaluating some paths leaves the values of all others. -/
theorem get?_evaluateNodes_of_not_mem (t : TreeEvaluator) {paths : List String} {q : String}
    (hq : q ∉ paths) : (t.evaluateNodes paths).1.evaluated.get? q = t.evaluated.get? q := by
  rw [evaluateNodes_fst_eq]
  induction paths generalizing t with
  | nil => rfl
  | cons p paths ih =>
    obtain ⟨other, hq⟩ := not_or.mp (mt List.mem_cons.mpr hq)
    rw [List.foldl_cons, ih _ hq, evaluated_evaluateNode]
    cases t.unevaluated.get? p with
    | none => rfl
    | some raw => simp [DataTree.get?_set, Ne.symm other]

/-! ### The values of cyclic nodes -/

theorem get?_foldl_set (value : String → Json) (paths : List String) (d : DataTree) (q : String) :
    (paths.foldl (fun d p => d.set p (value p)) d).get? q =
      if q ∈ paths ∧ d.admits q = true then some (value q) else d.get? q := by
  induction paths generalizing d with
  | nil => simp
  | cons p paths ih =>
    have admits := DataTree.admits_of_outline (DataTree.outline_set d p (value p)) q
    rw [List.foldl_cons, ih, admits, DataTree.get?_set]
    by_cases hq : q = p
    · subst hq
      by_cases hd : d.admits q = true <;> simp [hd]
    · simp [hq, Ne.symm hq]

theorem get?_fillMissing (paths : List String) (d : DataTree) (q : String) :
    (fillMissing d paths).get? q =
      if q ∈ paths ∧ d.admits q = true then some (.orNull (d.get? q)) else d.get? q := by
  unfold fillMissing
  induction paths generalizing d with
  | nil => simp
  | cons p paths ih =>
    rw [List.foldl_cons, ih]
    by_cases there : (d.get? p).isSome = true
    · obtain ⟨v, hv⟩ := Option.isSome_iff_exists.mp there
      rw [if_pos there]
      by_cases hq : q = p
      · simp [hq, hv, Json.orNull]
      · simp [hq]
    · have admits := DataTree.admits_of_outline (DataTree.outline_set d p .null) q
      rw [if_neg there, admits, DataTree.get?_set]
      by_cases hq : q = p
      · subst hq
        have absent : d.get? q = none := by simpa using there
        by_cases hd : d.admits q = true <;> simp [hd, absent, Json.orNull]
      · simp [hq, Ne.symm hq]

/-! ### Completeness of an update -/

section Update

variable {t : TreeEvaluator} {tree : DataTree} (kept : t.Kept) (dotFree : tree.DotFree)
include kept dotFree

/-- A node that an update does not have to evaluate has the dependencies it had. -/
theorem dependencies_of_clean {p : String} (clean : p ∉ t.dirty tree)
    (data : tree.isData p = true) :
    (t.rewired tree).2.dependencies p = t.graph.dependencies p := by
  by_contra differ
  have start := (seed_or_rewired_iff kept dotFree data).mpr (.inr differ)
  exact clean ((mem_dirty_iff kept dotFree).mpr ⟨p, start, data, .refl⟩)

/-- Where a node leads to that an update does not have to evaluate, it led to before. -/
theorem dependsOnAll_of_clean {p q : String} (path : (t.rewired tree).2.DependsOnAll p q)
    (clean : p ∉ t.dirty tree) : t.graph.DependsOnAll p q := by
  have graph := graphOf_rewired kept dotFree
  have before : ∀ {p q}, (t.rewired tree).2.DependsOn p q → p ∉ t.dirty tree →
      t.graph.DependsOn p q := by
    intro p q edge clean
    have data := ((graph.mem_dependencies_iff p q).mp edge).isData_left
    rw [DependencyGraph.DependsOn, ← dependencies_of_clean kept dotFree clean data]
    exact edge
  induction path using Relation.TransGen.head_induction_on with
  | single edge => exact .single (before edge clean)
  | head edge _ ih =>
    refine .head (before edge clean) (ih fun dirty => clean ?_)
    exact mem_dirty_of_edge kept dotFree ((graph.mem_dependencies_iff _ _).mp edge) dirty

/-- An update may have to evaluate every node on a cycle. -/
theorem mem_dirty_of_cycle (incremental : t.needsRebuild = false) {p : String}
    (cycle : (t.rewired tree).2.DependsOnAll p p) : p ∈ t.dirty tree := by
  by_contra clean
  exact kept.not_dependsOnAll_self incremental p (dependsOnAll_of_clean kept dotFree cycle clean)

end Update

/-! ### Passes -/

/-- A pass reports the nodes on a cycle of the graph it leaves, each once. It does not evaluate
them, and they have the values of before or null. -/
structure ReportsCycles (t : TreeEvaluator) (result : EvalPass × TreeEvaluator) : Prop where
  nodup : result.1.cyclicPaths.Nodup
  mem_iff : ∀ q, q ∈ result.1.cyclicPaths ↔
    ∃ p, result.2.graph.DependsOnAll p p ∧ q = some p
  not_evaluated : ∀ p, result.2.graph.DependsOnAll p p → p ∉ result.1.evaluationOrder
  get?_eq : ∀ p, result.2.graph.DependsOnAll p p →
    result.2.evaluated.get? p = some (.orNull (t.evaluated.get? p))

/-- Only the given nodes are reported as cyclic. -/
theorem cyclicPaths_finishPass (t : TreeEvaluator) (test : String → Bool)
    (changes : List PropertyChange) (cyclic : List String) (fromScratch : Bool) :
    (t.finishPass test changes (cyclic.map .cycle) fromScratch).1.cyclicPaths =
      cyclic.map some := by
  have own : (cyclic.map EvalError.cycle).filter (fun e => e.kind = .cyclicDependency) =
      cyclic.map .cycle := by
    refine List.filter_eq_self.mpr fun e he => ?_
    obtain ⟨p, -, rfl⟩ := List.mem_map.mp he
    rfl
  have others : (t.evaluateNodes (t.passOrder test)).2.filter
      (fun e => e.kind = .cyclicDependency) = [] :=
    List.filter_eq_nil_iff.mpr fun e he => by
      simpa [Evaluator.NoCycle] using noCycle_evaluateNodes t _ e he
  change (((cyclic.map EvalError.cycle ++ (t.evaluateNodes (t.passOrder test)).2).filter
    fun e => e.kind = .cyclicDependency).map (·.path)) = _
  rw [List.filter_append, own, others, List.append_nil, List.map_map]
  rfl

/-- Finishing a pass with the cyclic nodes of its order reports them and leaves their values. -/
theorem reportsCycles_finishPass {t s : TreeEvaluator} (orders : s.graph.Orders s.order)
    {cyclic : List String} (nodup : cyclic.Nodup)
    (mem_iff : ∀ p, p ∈ cyclic ↔ s.graph.DependsOnAll p p)
    (get?_eq : ∀ p, s.graph.DependsOnAll p p →
      s.evaluated.get? p = some (.orNull (t.evaluated.get? p)))
    (test : String → Bool) (changes : List PropertyChange) (fromScratch : Bool) :
    t.ReportsCycles (s.finishPass test changes (cyclic.map .cycle) fromScratch) := by
  have graph : (s.finishPass test changes (cyclic.map .cycle) fromScratch).2.graph = s.graph := by
    rw [finishPass_snd]
  have apart : ∀ p, s.graph.DependsOnAll p p → p ∉ s.passOrder test := fun p cycle hp =>
    ((orders.sorts.mem_iff p).mp (List.mem_filter.mp hp).1).2 cycle
  refine ⟨?_, ?_, ?_, ?_⟩
  · rw [cyclicPaths_finishPass]
    exact nodup.map fun _ _ => Option.some.inj
  · intro q
    rw [cyclicPaths_finishPass, graph, List.mem_map]
    exact exists_congr fun p => and_congr (mem_iff p) eq_comm
  · rw [graph]
    exact apart
  · intro p cycle
    rw [graph] at cycle
    rw [finishPass_snd]
    exact (get?_evaluateNodes_of_not_mem s (apart p cycle)).trans (get?_eq p cycle)

/-- A node on a cycle is data. -/
theorem GraphOf.isData_of_cycle {tree : DataTree} {g : DependencyGraph}
    {references : Dict (List String)} (graph : GraphOf tree g references) {p : String}
    (cycle : g.DependsOnAll p p) : tree.isData p = true := by
  rw [← graph.contains_eq]
  exact (DependencyGraph.contains_of_dependsOnAll graph.sound cycle).1

/-- A node on a cycle holds code. -/
theorem GraphOf.holdsCode_of_cycle {tree : DataTree} {g : DependencyGraph}
    {references : Dict (List String)} (graph : GraphOf tree g references) {p : String}
    (cycle : g.DependsOnAll p p) : (dataReferences? tree p).isSome = true := by
  obtain ⟨q, edge, -⟩ := Relation.TransGen.head'_iff.mp cycle
  obtain ⟨-, r, hr, -⟩ := (graph.mem_dependencies_iff p q).mp edge
  cases h : dataReferences? tree p with
  | none => simp [h] at hr
  | some rs => rfl

theorem admits_of_isData {tree : DataTree} {p : String} (data : tree.isData p = true) :
    tree.admits p = true := by
  obtain ⟨v, hv⟩ := Option.isSome_iff_exists.mp (Bool.and_eq_true_iff.mp data).1
  exact DataTree.admits_of_get? hv

theorem reportsCycles_createFirst (t : TreeEvaluator) {tree : DataTree} (dotFree : tree.DotFree) :
    t.ReportsCycles (t.createFirst tree) := by
  have graph := graphOf_firstGraph dotFree
  have orders := DependencyGraph.orders_order graph.sound
  refine reportsCycles_finishPass (s := t.firstState tree) orders (NameSet.nodup _)
    orders.mem_cyclic_iff (fun p cycle => ?_) _ _ _
  refine (get?_foldl_set _ _ _ _).trans (if_pos ⟨(orders.mem_cyclic_iff p).mpr cycle, ?_⟩)
  exact admits_of_isData (graph.isData_of_cycle cycle)

theorem reportsCycles_applyChanges {t : TreeEvaluator} {tree : DataTree} (kept : t.Kept)
    (dotFree : tree.DotFree) (incremental : t.needsRebuild = false) :
    t.ReportsCycles (t.applyChanges tree (tree.changes t.unevaluated)) := by
  have graph := graphOf_rewired kept dotFree
  have orders := orders_updatedOrder kept dotFree
  have mem_iff : ∀ p, p ∈ (t.updatedOrder tree).cyclic.toList.filter (t.dirty tree).contains ↔
      (t.rewired tree).2.DependsOnAll p p := by
    intro p
    rw [List.mem_filter, NameSet.contains, List.contains_iff_mem]
    exact ⟨fun h => (orders.mem_cyclic_iff p).mp h.1, fun cycle =>
      ⟨(orders.mem_cyclic_iff p).mpr cycle, mem_dirty_of_cycle kept dotFree incremental cycle⟩⟩
  refine reportsCycles_finishPass (s := t.updateState tree) orders
    ((NameSet.nodup _).filter _) mem_iff (fun p cycle => ?_) _ _ _
  have admitted : (t.synced tree).evaluated.admits p = true := by
    rw [DataTree.admits_of_outline (syncedValues kept dotFree).outline]
    exact admits_of_isData (graph.isData_of_cycle cycle)
  refine (get?_fillMissing _ _ _).trans ?_
  rw [if_pos ⟨(mem_iff p).mpr cycle, admitted⟩,
    get?_synced_of_code kept dotFree (graph.holdsCode_of_cycle cycle)]

/-- What a call returns. -/
def report (t : TreeEvaluator) : Pass → EvalPass
  | .createFirst tree => (t.createFirst tree).1
  | .update tree => (t.update tree).1

theorem Kept.reportsCycles {t : TreeEvaluator} (kept : t.Kept) {p : Pass}
    (dotFree : p.tree.DotFree) : t.ReportsCycles (t.report p, t.pass p) := by
  cases p with
  | createFirst tree => exact reportsCycles_createFirst t dotFree
  | update tree =>
    change t.ReportsCycles (t.update tree)
    rw [update_eq kept]
    by_cases rebuild : t.needsRebuild = true
    · rw [if_pos rebuild]
      exact reportsCycles_createFirst t dotFree
    · rw [if_neg rebuild]
      exact reportsCycles_applyChanges kept dotFree (by simpa using rebuild)

/-- After a pass the next update starts from scratch just when the pass left a cycle. -/
theorem Kept.update_eq_createFirst {t : TreeEvaluator} (kept : t.Kept) {p : Pass}
    (dotFree : p.tree.DotFree) (next : DataTree) :
    ((∃ q, (t.pass p).graph.DependsOnAll q q) →
      (t.pass p).update next = (t.pass p).createFirst next) ∧
    (((t.pass p).update next).1.fromScratch = true ↔
      ∃ q, (t.pass p).graph.DependsOnAll q q) := by
  have after := kept.pass dotFree
  rw [← after.hasCycle_iff, ← needsRebuild_pass kept, update_eq after]
  by_cases rebuild : (t.pass p).needsRebuild = true
  · rw [if_pos rebuild]
    exact ⟨fun _ => rfl, iff_of_true rfl rebuild⟩
  · rw [if_neg rebuild]
    exact ⟨fun cycle => absurd cycle rebuild, iff_of_false Bool.false_ne_true rebuild⟩

/-- A pass after any run reports exactly the nodes on a cycle of its new graph, each once. None of
them is evaluated, each has the value that its path had before the pass, or null, and the next
update starts from scratch, as a first pass does, just when there is such a node. -/
theorem cycles_afterPasses (e : Evaluator) (passes : List Pass) (last : Pass)
    (dotFree : ∀ p ∈ passes ++ [last], p.tree.DotFree) :
    let t := afterPasses e passes
    let result := t.report last
    let t' := t.pass last
    result.cyclicPaths.Nodup ∧
    (∀ q, q ∈ result.cyclicPaths ↔ ∃ p, t'.graph.OnCycle p ∧ q = some p) ∧
    (∀ p, t'.graph.OnCycle p → p ∉ result.evaluationOrder ∧
      t'.evaluated.get? p = some (.orNull (t.evaluated.get? p))) ∧
    ∀ next, ((∃ p, t'.graph.OnCycle p) → t'.update next = t'.createFirst next) ∧
      ((t'.update next).1.fromScratch = true ↔ ∃ p, t'.graph.OnCycle p) := by
  intro t result t'
  have lastFree : last.tree.DotFree := dotFree last (by simp)
  have kept : t.Kept := kept_afterPasses e fun p hp => dotFree p (List.mem_append_left _ hp)
  have reports := kept.reportsCycles lastFree
  have node : ∀ p, t'.graph.OnCycle p ↔ t'.graph.DependsOnAll p p := fun _ =>
    DependencyGraph.onCycle_iff (kept.pass lastFree).graph.sound
  simp only [node]
  exact ⟨reports.nodup, reports.mem_iff,
    fun p cycle => ⟨reports.not_evaluated p cycle, reports.get?_eq p cycle⟩,
    kept.update_eq_createFirst lastFree⟩

/-- A tree of two widgets that refer to each other. -/
def ring : DataTree := .chain 2 "\x7b\x7bN1.text\x7d\x7d"

/-- An update makes the first widget of a chain refer to the second. -/
theorem cycles_afterPasses_ring :
    (∀ p ∈ [Pass.createFirst (.chain 2 "x")] ++ [.update ring], p.tree.DotFree) ∧
    some "N0.text" ∈
      ((afterPasses .path [.createFirst (.chain 2 "x")]).report (.update ring)).cyclicPaths := by
  have dotFree : ∀ p ∈ [Pass.createFirst (.chain 2 "x")] ++ [.update ring], p.tree.DotFree := by
    decide +kernel
  have ringFree : ring.DotFree := dotFree (.update _) (List.mem_append_right _ List.mem_cons_self)
  have kept : (afterPasses .path [.createFirst (.chain 2 "x")]).Kept :=
    kept_afterPasses .path fun p hp => dotFree p (List.mem_append_left _ hp)
  have after := (kept.pass (p := .update ring) ringFree).graph
  rw [unevaluated_pass kept] at after
  have edge : ∀ p q, q ∈ (firstGraph ring).dependencies p →
      ((afterPasses .path [.createFirst (.chain 2 "x")]).pass (.update ring)).graph.DependsOn p q :=
    fun p q h => (after.mem_dependencies_iff p q).mpr
      (((graphOf_firstGraph ringFree).mem_dependencies_iff p q).mp h)
  have there := edge "N0.text" "N1.text" (by decide +kernel)
  have back := edge "N1.text" "N0.text" (by decide +kernel)
  have node := (after.sound.contains_of_mem_dependencies there).1
  exact ⟨dotFree, ((cycles_afterPasses .path [.createFirst (.chain 2 "x")] (.update ring)
    dotFree).2.1 _).mpr ⟨"N0.text", ⟨DependencyGraph.mem_paths_iff.mpr node,
      .head there (.single back)⟩, rfl⟩⟩

end TreeEvaluator

end AppBuilder
