import AppBuilder.Proofs.Evaluation.Graph
import AppBuilder.Proofs.Evaluation.Locality

/-!
Values that agree with what they are computed from.

The evaluated tree is `Settled` when every property that holds code has the outcome of its code
in that very tree, and every other property its own value. With a local evaluator and a graph
without cycles one settled tree exists at most (`Settled.evaluated_eq`): the value of a property
depends on those of its dependencies only, and an order of the graph lists these first. For the
same reason evaluating properties in order settles them (`get?_evaluateNodes`).
-/

namespace AppBuilder

/-! ### Scopes -/

/-- The path that a reference with a property names. -/
def Reference.path? (reference : String) : Option String :=
  (Reference.property? reference).map (propertyPath (Reference.entity reference))

/-- The data that a reference of a path names is an edge. -/
theorem DataTree.edge_of_path? {tree : DataTree} {p r x : String}
    (hr : r ∈ (TreeEvaluator.dataReferences? tree p).getD []) (hx : Reference.path? r = some x)
    (data : tree.isData x = true) : tree.Edge p x := by
  obtain ⟨property, hproperty, rfl⟩ := Option.map_eq_some_iff.mp hx
  refine ⟨data, r, hr, ?_⟩
  simp only [Reference.PointsTo, hproperty]

/-- Storing what some names stand for, one after another. -/
theorem get?_foldl_store {f : Scope → String → Scope} (key : String → String)
    (value : String → Option Json) {name : String}
    (step : ∀ scope r, (f scope r).get? name =
      if key r = name then (value name).or (scope.get? name) else scope.get? name)
    (rs : List String) (scope : Scope) : (rs.foldl f scope).get? name =
      if name ∈ rs.map key then (value name).or (scope.get? name) else scope.get? name := by
  induction rs generalizing scope with
  | nil => simp
  | cons r rs ih =>
    rw [List.foldl_cons, ih, step, List.map_cons]
    by_cases hr : key r = name
    · cases hv : value name <;> simp [hr]
    · simp [hr, Ne.symm hr]

theorem get?_nodeScope (references : Dict (List String)) (values : DataTree) (node name : String) :
    (nodeScope references values node).get? name =
      if name ∈ ((references.get? node).getD []).map Reference.entity then
        values.entityValue? name
      else none := by
  refine (get?_foldl_store Reference.entity values.entityValue? ?_ _ _).trans ?_
  · intro scope r
    by_cases hr : Reference.entity r = name
    · subst hr
      cases hv : values.entityValue? (Reference.entity r) <;> simp
    · cases hv : values.entityValue? (Reference.entity r) <;> simp [hr, Dict.get?_insert]
  · simp

/-- In the scope of a node its references select the values at the paths that they name. -/
theorem select?_nodeScope {references : Dict (List String)} {node r : String}
    (hr : r ∈ (references.get? node).getD []) (values : DataTree) :
    Reference.select? (nodeScope references values node) r =
      (Reference.path? r).bind values.get? := by
  rw [Reference.select?, Reference.path?, get?_nodeScope, if_pos (List.mem_map_of_mem hr)]
  cases Reference.property? r with
  | none => rfl
  | some property =>
    simp only [Option.bind_some, Option.map_some, DataTree.entityValue?, DataTree.property?,
      DataTree.get?_propertyPath values (Reference.noDot_entity r)]
    cases values.entities.get? (Reference.entity r) <;> rfl

namespace TreeEvaluator

/-! ### Expected values -/

/-- The value that the outcome of a property leaves. -/
def outcomeValue : Except EvalError Json → Json
  | .ok v => v
  | .error _ => .null

/-- The value that a path ought to have among given values. -/
def expected (t : TreeEvaluator) (values : DataTree) (p : String) : Option Json :=
  (t.unevaluated.get? p).map fun raw =>
    if t.references.contains p then
      outcomeValue (t.evaluator.resolve (nodeScope t.references values p) raw)
    else raw

theorem expected_of_not_contains {t : TreeEvaluator} {p : String}
    (h : t.references.contains p = false) (values : DataTree) :
    t.expected values p = t.unevaluated.get? p := by
  simp [expected, h]

/-- The paths with references are those that hold code. -/
theorem GraphOf.contains_references {tree : DataTree} {g : DependencyGraph}
    {references : Dict (List String)} (graph : GraphOf tree g references) (p : String) :
    references.contains p = (dataReferences? tree p).isSome := by
  rw [Dict.contains, graph.references_eq]

/-- Only data holds code. -/
theorem GraphOf.isData_of_contains {tree : DataTree} {g : DependencyGraph}
    {references : Dict (List String)} (graph : GraphOf tree g references) {p : String}
    (h : references.contains p = true) : tree.isData p = true := by
  rw [graph.contains_references] at h
  exact isData_of_dataReferences? h

/-- A path has to have the same value among values that agree on what its references name. -/
theorem expected_congr {t : TreeEvaluator} (reads : t.evaluator.Local)
    (graph : GraphOf t.unevaluated t.graph t.references) {values values' : DataTree} {p : String}
    (agree : ∀ r ∈ (t.references.get? p).getD [], ∀ x, Reference.path? r = some x →
      values.get? x = values'.get? x) : t.expected values p = t.expected values' p := by
  cases code : t.references.contains p with
  | false => rw [expected_of_not_contains code, expected_of_not_contains code]
  | true =>
    have data := graph.isData_of_contains code
    obtain ⟨raw, hraw⟩ := Option.isSome_iff_exists.mp (Bool.and_eq_true_iff.mp data).1
    have noted : t.references.get? p = Reference.ofValue? raw := by
      rw [graph.references_eq, dataReferences?, if_pos data, referencesAt?, hraw, Option.bind_some]
    have same : t.evaluator.resolve (nodeScope t.references values p) raw =
        t.evaluator.resolve (nodeScope t.references values' p) raw := by
      refine Evaluator.resolve_congr reads fun r hr => ?_
      rw [← noted] at hr
      rw [select?_nodeScope hr, select?_nodeScope hr]
      cases hx : Reference.path? r with
      | none => rfl
      | some x => exact agree r hr x hx
    simp only [expected, hraw, code, Option.map_some, if_true, same]

/-! ### Evaluating in order -/

theorem evaluateNodes_fst_eq (t : TreeEvaluator) (paths : List String) :
    (t.evaluateNodes paths).1 = paths.foldl (fun t path => (t.evaluateNode path).1) t :=
  (List.foldl_hom Prod.fst (fun _ _ => rfl)).symm

theorem evaluated_evaluateNode (t : TreeEvaluator) (p : String) :
    (t.evaluateNode p).1 = { t with
      evaluated := match t.unevaluated.get? p with
        | some raw => t.evaluated.set p
            (outcomeValue (t.evaluator.resolve (nodeScope t.references t.evaluated p) raw))
        | none => t.evaluated } := by
  unfold evaluateNode
  cases t.unevaluated.get? p with
  | none => rfl
  | some raw =>
    dsimp only
    cases t.evaluator.resolve (nodeScope t.references t.evaluated p) raw <;> rfl

/-- Evaluating a property that holds code gives its path the value expected before. -/
theorem get?_evaluateNode {t : TreeEvaluator} (graph : GraphOf t.unevaluated t.graph t.references)
    (outline : t.evaluated.outline = t.unevaluated.outline) {p : String}
    (code : t.references.contains p = true) (q : String) :
    (t.evaluateNode p).1.evaluated.get? q =
      if p = q then t.expected t.evaluated p else t.evaluated.get? q := by
  obtain ⟨raw, hraw⟩ :=
    Option.isSome_iff_exists.mp (Bool.and_eq_true_iff.mp (graph.isData_of_contains code)).1
  have admitted : t.evaluated.admits p = true := by
    rw [DataTree.admits_of_outline outline, DataTree.admits_of_get? hraw]
  simp [evaluated_evaluateNode, expected, hraw, code, DataTree.get?_set, admitted]

theorem outline_evaluateNode (t : TreeEvaluator) (p : String) :
    (t.evaluateNode p).1.evaluated.outline = t.evaluated.outline := by
  rw [evaluated_evaluateNode]
  cases t.unevaluated.get? p <;> simp

theorem outline_evaluateNodes (t : TreeEvaluator) (paths : List String) :
    (t.evaluateNodes paths).1.evaluated.outline = t.evaluated.outline := by
  rw [evaluateNodes_fst_eq]
  induction paths generalizing t with
  | nil => rfl
  | cons p paths ih => rw [List.foldl_cons, ih, outline_evaluateNode]

/-- Evaluating properties after all that they depend on gives them the values expected in the
end and leaves all other values. -/
theorem get?_evaluateNodes {t : TreeEvaluator} (reads : t.evaluator.Local)
    (graph : GraphOf t.unevaluated t.graph t.references)
    (outline : t.evaluated.outline = t.unevaluated.outline) (paths : List String)
    (nodup : paths.Nodup) (later : paths.Pairwise fun p q => ¬ t.graph.DependsOn p q)
    (acyclic : ∀ p ∈ paths, ¬ t.graph.DependsOn p p)
    (code : ∀ p ∈ paths, t.references.contains p = true) (q : String) :
    (t.evaluateNodes paths).1.evaluated.get? q =
      if q ∈ paths then t.expected (t.evaluateNodes paths).1.evaluated q
      else t.evaluated.get? q := by
  induction paths generalizing t q with
  | nil => simp [evaluateNodes]
  | cons p paths ih =>
    obtain ⟨hp, nodup⟩ := List.nodup_cons.mp nodup
    obtain ⟨ahead, later⟩ := List.pairwise_cons.mp later
    have hcode := code p List.mem_cons_self
    have first := get?_evaluateNode graph outline hcode
    have outline₁ := (outline_evaluateNode t p).trans outline
    obtain ⟨evaluated, eq⟩ := evaluateNode_fst t p
    have step : (t.evaluateNodes (p :: paths)).1 =
        ((t.evaluateNode p).1.evaluateNodes paths).1 := by
      rw [evaluateNodes_fst_eq, evaluateNodes_fst_eq, List.foldl_cons]
    rw [step]
    rw [eq] at first outline₁ ⊢
    have rest := ih (t := { t with evaluated }) reads graph outline₁ nodup later
      (fun q hq => acyclic q (List.mem_cons_of_mem _ hq))
      (fun q hq => code q (List.mem_cons_of_mem _ hq))
    generalize (({ t with evaluated } : TreeEvaluator).evaluateNodes paths).1.evaluated = v
      at rest ⊢
    -- what `p` depends on is neither `p` nor evaluated behind it
    have stable : t.expected v p = t.expected t.evaluated p := by
      refine expected_congr reads graph fun r hr x hx => ?_
      rw [graph.references_eq] at hr
      have apart : ∀ {y}, t.references.contains y = true → x = y → t.graph.DependsOn p x := by
        rintro y hy rfl
        exact (graph.mem_dependencies_iff p x).mpr
          (DataTree.edge_of_path? hr hx (graph.isData_of_contains hy))
      have hx' : x ∉ paths := fun h =>
        ahead x h (apart (code x (List.mem_cons_of_mem _ h)) rfl)
      have hpx : p ≠ x := by
        rintro rfl
        exact acyclic p List.mem_cons_self (apart hcode rfl)
      rw [rest, if_neg hx', first, if_neg hpx]
    by_cases hq : q = p
    · subst hq
      rw [rest, if_neg hp, first, if_pos rfl, if_pos List.mem_cons_self, stable]
    · rw [rest]
      by_cases hmem : q ∈ paths
      · rw [if_pos hmem, if_pos (List.mem_cons_of_mem _ hmem)]
        rfl
      · rw [if_neg hmem, first, if_neg (Ne.symm hq), if_neg (by simp [hq, hmem])]

/-! ### Settled values -/

/-- Every path has the value expected among the values there are. -/
structure Settled (t : TreeEvaluator) : Prop where
  outline : t.evaluated.outline = t.unevaluated.outline
  get?_eq : ∀ p, t.evaluated.get? p = t.expected t.evaluated p

/-- Without cycles the values are determined by the tree. -/
theorem Settled.evaluated_eq {t t' : TreeEvaluator} (kept : t.Kept) (kept' : t'.Kept)
    (reads : t.evaluator.Local) (evaluator : t'.evaluator = t.evaluator)
    (unevaluated : t'.unevaluated = t.unevaluated) (acyclic : ∀ p, ¬ t.graph.DependsOnAll p p)
    (h : t.Settled) (h' : t'.Settled) : t.evaluated = t'.evaluated := by
  have references : t'.references = t.references := Dict.ext_get? fun p => by
    rw [kept.graph.references_eq, kept'.graph.references_eq, unevaluated]
  have expected_eq : t'.expected = t.expected := by
    funext values p
    simp only [expected, evaluator, unevaluated, references]
  have outline : t.evaluated.outline = t'.evaluated.outline := by
    rw [h.outline, h'.outline, unevaluated]
  have dotFree : t.evaluated.DotFree := by
    intro name hname
    have known := DataTree.isSome_entity?_of_outline h.outline name
    rw [Dict.mem_keys_iff] at hname
    exact kept.dotFree name ((Dict.mem_keys_iff _ _).mpr (known.symm.trans hname))
  refine DataTree.ext_get? dotFree outline fun p => ?_
  induction hn : t.order.sorted.idxOf p using Nat.strongRecOn generalizing p with
  | ind n ih =>
  subst hn
  rw [h.get?_eq, h'.get?_eq, expected_eq]
  refine expected_congr reads kept.graph fun r hr x hx => ?_
  cases code : t.references.contains x with
  | false =>
    rw [h.get?_eq, h'.get?_eq, expected_eq, expected_of_not_contains code,
      expected_of_not_contains code]
  | true =>
    rw [kept.graph.references_eq] at hr
    have edge : t.graph.DependsOn p x := (kept.graph.mem_dependencies_iff p x).mpr
      (DataTree.edge_of_path? hr hx (kept.graph.isData_of_contains code))
    obtain ⟨hp, hx'⟩ := kept.graph.sound.contains_of_mem_dependencies edge
    have sorts := kept.orders.sorts
    exact ih _ (sorts.idxOf_lt ((sorts.mem_iff p).mpr ⟨hp, acyclic p⟩)
      ((sorts.mem_iff x).mpr ⟨hx', acyclic x⟩) (.single edge)) x rfl

/-- Evaluating the code that passes a test settles the values when all others are as they ought
to be, whatever values the code evaluated gets. -/
theorem settled_of_evaluateNodes {t : TreeEvaluator} (reads : t.evaluator.Local)
    (graph : GraphOf t.unevaluated t.graph t.references) (orders : t.graph.Orders t.order)
    (outline : t.evaluated.outline = t.unevaluated.outline) (test : String → Bool)
    (others : ∀ values : DataTree,
      (∀ q, q ∉ t.passOrder test → values.get? q = t.evaluated.get? q) →
      ∀ p, p ∉ t.passOrder test → t.evaluated.get? p = t.expected values p) :
    ({ t with evaluated := (t.evaluateNodes (t.passOrder test)).1.evaluated } :
      TreeEvaluator).Settled := by
  have sorts := orders.sorts
  have listed : ∀ p ∈ t.passOrder test, p ∈ t.order.sorted := fun p hp =>
    (List.mem_filter.mp hp).1
  have value := get?_evaluateNodes reads graph outline (t.passOrder test)
    (sorts.nodup.filter _)
    ((sorts.later.filter _).imp fun later edge => later (.single edge))
    (fun p hp edge => ((sorts.mem_iff p).mp (listed p hp)).2 (.single edge))
    (fun p hp => by simpa using (Bool.and_eq_true_iff.mp (List.mem_filter.mp hp).2).2)
  refine ⟨(outline_evaluateNodes t _).trans outline, fun p => ?_⟩
  by_cases hp : p ∈ t.passOrder test
  · exact (value p).trans (if_pos hp)
  · have kept := (value p).trans (if_neg hp)
    exact kept.trans (others _ (fun q hq => (value q).trans (if_neg hq)) p hp)

end TreeEvaluator

end AppBuilder
