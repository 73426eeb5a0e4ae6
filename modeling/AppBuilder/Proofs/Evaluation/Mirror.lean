import AppBuilder.Proofs.Evaluation.Failures
import AppBuilder.Proofs.Evaluation.History
import AppBuilder.Proofs.Json.Fields

/-!
The evaluated tree mirrors the tree.

Between passes the evaluated tree has the entities and the property names of the tree, and the raw
value wherever there is no code to run (`Mirrors`). A pass is `Poised` when all that it does not
evaluate is so already; evaluating the rest then completes the mirror (`Poised.mirrors`), whether
the code succeeds or fails.

Main statement: `mirror_afterPasses`.
-/

namespace AppBuilder

/-! ### Shapes -/

/-- The entities of a tree with their kinds, triggers and property names. -/
def DataTree.shape (t : DataTree) : Dict (EntityKind × NameSet × List String) :=
  t.entities.map fun _ e => (e.kind, e.triggers, e.properties.keys)

/-- Dictionaries with values under the same names have the same keys. -/
theorem Dict.keys_eq_of_isSome {α β : Type} {d : Dict α} {e : Dict β}
    (same : ∀ k, (d.get? k).isSome = (e.get? k).isSome) : d.keys = e.keys := by
  have names : (⟨d.keys, d.pairwise_keys⟩ : NameSet) = ⟨e.keys, e.pairwise_keys⟩ :=
    NameSet.ext_mem fun k =>
      (d.mem_keys_iff k).trans ((Bool.eq_iff_iff.mp (same k)).trans (e.mem_keys_iff k).symm)
  exact congrArg NameSet.toList names

/-- Trees of one outline with values at the same paths have the same shape. -/
theorem DataTree.shape_eq {t t' : DataTree} (dotFree : t'.DotFree)
    (outline : t.outline = t'.outline) (same : ∀ p, (t.get? p).isSome = (t'.get? p).isSome) :
    t.shape = t'.shape := by
  refine Dict.ext_get? fun name => ?_
  have own := congrArg (Dict.get? · name) outline
  simp only [DataTree.outline, shape, Dict.get?_map] at own ⊢
  cases known' : t'.entities.get? name with
  | none =>
    rw [known', Option.map_none] at own
    rw [Option.map_eq_none_iff.mp own]
  | some e' =>
    rw [known'] at own
    obtain ⟨e, known, kinds⟩ := Option.map_eq_some_iff.mp own
    obtain ⟨kind, triggers⟩ := Prod.mk.inj kinds
    have noDot := dotFree.noDot known'
    have keys : e.properties.keys = e'.properties.keys := Dict.keys_eq_of_isSome fun property => by
      have there := same (propertyPath name property)
      rw [get?_propertyPath t noDot, get?_propertyPath t' noDot] at there
      simpa [property?, known, known'] using there
    rw [known, Option.map_some, Option.map_some, kind, triggers, keys]

/-! ### Failures -/

/-- The errors of a pass that are not about cycles. -/
def EvalPass.failures (p : EvalPass) : List EvalError :=
  p.errors.filter fun e => e.kind ≠ .cyclicDependency

namespace TreeEvaluator

/-! ### Mirrors -/

/-- The evaluated tree has the outline of the tree, the raw value where no code is, and some value
where code is. -/
structure Mirrors (t : TreeEvaluator) : Prop where
  outline : t.evaluated.outline = t.unevaluated.outline
  plain : ∀ p, dataReferences? t.unevaluated p = none →
    (t.evaluated.get? p == t.unevaluated.get? p) = true
  present : ∀ p, (dataReferences? t.unevaluated p).isSome = true →
    (t.evaluated.get? p).isSome = true

theorem Mirrors.isSome_eq {t : TreeEvaluator} (h : t.Mirrors) (p : String) :
    (t.evaluated.get? p).isSome = (t.unevaluated.get? p).isSome := by
  cases code : dataReferences? t.unevaluated p with
  | none => exact Json.isSome_eq_of_beq (h.plain p code)
  | some rs =>
    have held : (dataReferences? t.unevaluated p).isSome = true := by rw [code]; rfl
    rw [h.present p held, (Bool.and_eq_true_iff.mp (isData_of_dataReferences? held)).1]

theorem mirrors_fresh (e : Evaluator) : (fresh e).Mirrors where
  outline := rfl
  plain _ _ := Json.beq_option_refl _
  present p code := by
    have absent : (fresh e).unevaluated.get? p = none := by
      cases h : splitPath p <;> simp [fresh, DataTree.get?, h, DataTree.property?, DataTree.empty]
    simp [dataReferences?, DataTree.isData, absent] at code

/-- All is in place but for the code of some paths, each listed once. -/
structure Poised (t : TreeEvaluator) (order : List String) : Prop where
  graph : GraphOf t.unevaluated t.graph t.references
  outline : t.evaluated.outline = t.unevaluated.outline
  plain : ∀ p, dataReferences? t.unevaluated p = none →
    (t.evaluated.get? p == t.unevaluated.get? p) = true
  present : ∀ p, (dataReferences? t.unevaluated p).isSome = true → p ∉ order →
    (t.evaluated.get? p).isSome = true
  nodup : order.Nodup
  code : ∀ p ∈ order, t.references.contains p = true

namespace Poised

variable {t : TreeEvaluator} {order : List String} (h : t.Poised order)
include h

/-- At its turn a path has an outcome, and it keeps the value of it. -/
theorem exists_outcome {front back : List String} {p : String}
    (split : order = front ++ p :: back) : ∃ raw, t.unevaluated.get? p = some raw ∧
      let outcome :=
        t.evaluator.resolve (nodeScope t.references (t.evaluateNodes front).1.evaluated p) raw
      (t.evaluateNodes front).1.outcome? p = some outcome ∧
        (t.evaluateNodes order).1.evaluated.get? p = some (outcomeValue outcome) := by
  subst split
  have code := h.code p (by simp)
  have once : p ∉ back := (List.nodup_cons.mp h.nodup.of_append_right).1
  obtain ⟨raw, there⟩ :=
    Option.isSome_iff_exists.mp (Bool.and_eq_true_iff.mp (h.graph.isData_of_contains code)).1
  refine ⟨raw, there, ?_, ?_⟩
  · obtain ⟨values, eq⟩ := evaluateNodes_fst t front
    rw [eq]
    simp [outcome?, there]
  · rw [get?_evaluateNodes_split h.graph h.outline code once]
    simp [expected, there, code]

/-- A path is in an error just when its own outcome is one. -/
theorem mem_errors_iff {front back : List String} {p : String} (split : order = front ++ p :: back)
    (err : EvalError) : err ∈ (t.evaluateNodes order).2 ∧ err.path = some p ↔
      ((t.evaluateNodes front).1.evaluateNode p).2 = some err := by
  rw [mem_evaluateNodes_snd_iff]
  constructor
  · rintro ⟨⟨front', p', back', split', failed⟩, named⟩
    obtain rfl : p' = p := Option.some.inj ((path_of_evaluateNode failed).symm.trans named)
    have once := h.nodup
    rw [split] at once
    have apart := (List.nodup_cons.mp (List.perm_middle.nodup_iff.mp once)).1
    obtain ⟨apart, apart'⟩ := not_or.mp (mt List.mem_append.mpr apart)
    obtain ⟨rfl, -, -⟩ :=
      (List.append_cons_inj_of_notMem apart apart').mp (split.symm.trans split')
    exact failed
  · exact fun failed => ⟨⟨front, p, back, split, failed⟩, path_of_evaluateNode failed⟩

/-- Evaluating the paths completes the mirror. -/
theorem mirrors : ({ t with evaluated := (t.evaluateNodes order).1.evaluated } :
    TreeEvaluator).Mirrors where
  outline := (outline_evaluateNodes t order).trans h.outline
  plain p noCode := by
    have unlisted : p ∉ order := by
      intro listed
      have code := h.code p listed
      simp [h.graph.contains_references, noCode] at code
    change ((t.evaluateNodes order).1.evaluated.get? p == t.unevaluated.get? p) = true
    rw [get?_evaluateNodes_of_not_mem t unlisted]
    exact h.plain p noCode
  present p code := by
    change ((t.evaluateNodes order).1.evaluated.get? p).isSome = true
    by_cases listed : p ∈ order
    · obtain ⟨front, back, eq⟩ := List.append_of_mem listed
      obtain ⟨raw, -, -, value⟩ := h.exists_outcome eq
      rw [value]
      rfl
    · rw [get?_evaluateNodes_of_not_mem t listed]
      exact h.present p code listed

end Poised

/-! ### Starting to evaluate -/

/-- An evaluator that is about to evaluate what a call gives it. -/
def begun (t : TreeEvaluator) : Pass → TreeEvaluator
  | .createFirst tree => t.firstState tree
  | .update tree => if t.needsRebuild then t.firstState tree else t.updateState tree

theorem outline_fillMissing (d : DataTree) (paths : List String) :
    (fillMissing d paths).outline = d.outline := by
  refine DataTree.outline_foldl (fun d p => ?_) paths d
  split_ifs
  · rfl
  · exact DataTree.outline_set _ _ _

/-- Only code is on a cycle. -/
theorem not_mem_cyclic {tree : DataTree} {g : DependencyGraph} {references : Dict (List String)}
    {order : DependencyGraph.Order} (graph : GraphOf tree g references) (orders : g.Orders order)
    {p : String} (noCode : dataReferences? tree p = none) : p ∉ order.cyclic.toList := by
  intro cyclic
  have code := graph.holdsCode_of_cycle ((orders.mem_cyclic_iff p).mp cyclic)
  simp [noCode] at code

theorem poised_firstState (t : TreeEvaluator) {tree : DataTree} (dotFree : tree.DotFree) :
    (t.firstState tree).Poised ((t.firstState tree).passOrder fun _ => true) := by
  have graph := graphOf_firstGraph dotFree
  have orders := DependencyGraph.orders_order graph.sound
  have value (p : String) : (t.firstState tree).evaluated.get? p =
      if p ∈ (firstGraph tree).order.cyclic.toList ∧ tree.admits p = true then
        some (.orNull (t.evaluated.get? p))
      else tree.get? p := get?_foldl_set (fun p => .orNull (t.evaluated.get? p)) _ tree p
  refine ⟨graph, DataTree.outline_foldl (fun _ _ => DataTree.outline_set _ _ _) _ tree,
    fun p noCode => ?_, fun p code _ => ?_, orders.sorts.nodup.filter _, fun p listed => ?_⟩
  · rw [value, if_neg fun h => not_mem_cyclic graph orders noCode h.1]
    exact Json.beq_option_refl _
  · rw [value]
    split
    · rfl
    · exact (Bool.and_eq_true_iff.mp (isData_of_dataReferences? code)).1
  · exact (Bool.and_eq_true_iff.mp (List.mem_filter.mp listed).2).2

section Update

variable {t : TreeEvaluator} {tree : DataTree} (kept : t.Kept) (dotFree : tree.DotFree)
  (mirrors : t.Mirrors)
include kept dotFree mirrors

/-- With all changes taken over, a path without code has its raw value. -/
theorem same_synced_of_no_code {p : String} (noCode : dataReferences? tree p = none) :
    ((t.synced tree).evaluated.get? p == tree.get? p) = true := by
  rw [(syncedValues kept dotFree).get?_eq]
  by_cases changed : p ∈ tree.changedPaths t.unevaluated
  · rw [if_pos ⟨changed, by simp [noCode]⟩]
    exact Json.beq_option_refl _
  · have before := mirrors.plain p
      ((dataReferences?_eq_of_unchanged dotFree kept.dotFree changed).trans noCode)
    rw [if_neg fun h => changed h.1, get?_syncEntities]
    rcases DataTree.unchanged_of_not_mem dotFree kept.dotFree changed with
      ⟨gone, gone'⟩ | ⟨x, y, old, new, same, -⟩
    · rw [gone] at before
      have missing : (t.evaluated.get? p).isSome = false := Json.isSome_eq_of_beq before
      rw [gone', Option.not_isSome_iff_eq_none.mp (ne_true_of_eq_false missing), ite_self]
      rfl
    · rw [new, if_pos (DataTree.admits_of_get? new)]
      rw [old] at before
      exact Json.beq_option_trans before same

/-- A path with code that an update does not evaluate has a value. -/
theorem isSome_updateState {p : String} (code : (dataReferences? tree p).isSome = true)
    (unlisted : p ∉ (t.updateState tree).passOrder (t.dirty tree).contains) :
    ((t.updateState tree).evaluated.get? p).isSome = true := by
  have graph := graphOf_rewired kept dotFree
  have orders := orders_updatedOrder kept dotFree
  have data := isData_of_dataReferences? code
  have held : (t.synced tree).references.contains p = true := by
    rwa [graph.contains_references]
  refine (congrArg Option.isSome (get?_fillMissing _ _ p)).trans ?_
  split_ifs with filled
  · rfl
  rw [get?_synced_of_code kept dotFree code]
  by_cases changed : p ∈ tree.changedPaths t.unevaluated
  · -- a changed path is dirty, so it is evaluated or on a cycle
    have dirty : p ∈ t.dirty tree := mem_dirty_of_seed kept dotFree
      ((synced_spec kept dotFree).edited_subset p changed data) data
    refine absurd ⟨?_, ?_⟩ filled
    · refine List.mem_filter.mpr ⟨(orders.mem_cyclic_iff p).mpr ?_, NameSet.contains_iff.mpr dirty⟩
      by_contra acyclic
      refine unlisted (List.mem_filter.mpr ⟨(orders.sorts.mem_iff p).mpr ⟨?_, acyclic⟩, ?_⟩)
      · rw [graph.contains_eq, data]
      · exact Bool.and_eq_true_iff.mpr ⟨NameSet.contains_iff.mpr dirty, held⟩
    · rw [DataTree.admits_of_outline (syncedValues kept dotFree).outline]
      exact admits_of_isData data
  · rw [mirrors.isSome_eq]
    have before := (isData_eq_of_unchanged dotFree kept.dotFree changed).trans data
    exact (Bool.and_eq_true_iff.mp before).1

theorem poised_updateState :
    (t.updateState tree).Poised ((t.updateState tree).passOrder (t.dirty tree).contains) := by
  have graph := graphOf_rewired kept dotFree
  have orders := orders_updatedOrder kept dotFree
  refine ⟨graph, (outline_fillMissing _ _).trans (syncedValues kept dotFree).outline,
    fun p noCode => ?_,
    fun p code unlisted => isSome_updateState kept dotFree mirrors code unlisted,
    orders.sorts.nodup.filter _,
    fun p listed => (Bool.and_eq_true_iff.mp (List.mem_filter.mp listed).2).2⟩
  have value : (t.updateState tree).evaluated.get? p = (t.synced tree).evaluated.get? p :=
    (get?_fillMissing _ _ p).trans
      (if_neg fun h => not_mem_cyclic graph orders noCode (List.mem_filter.mp h.1).1)
  rw [value]
  exact same_synced_of_no_code kept dotFree mirrors noCode

end Update

/-! ### Passes -/

/-- A pass that evaluates the paths of its order from a state and reports what fails. -/
structure Runs (start : TreeEvaluator) (result : EvalPass × TreeEvaluator) : Prop where
  poised : start.Poised result.1.evaluationOrder
  evaluated : result.2.evaluated = (start.evaluateNodes result.1.evaluationOrder).1.evaluated
  unevaluated : result.2.unevaluated = start.unevaluated
  references : result.2.references = start.references
  failures : result.1.failures = (start.evaluateNodes result.1.evaluationOrder).2

theorem runs_finishPass {s : TreeEvaluator} {test : String → Bool}
    (poised : s.Poised (s.passOrder test)) (changes : List PropertyChange) (cyclic : List String)
    (fromScratch : Bool) :
    s.Runs (s.finishPass test changes (cyclic.map .cycle) fromScratch) := by
  refine ⟨poised, ?_, ?_, ?_, ?_⟩
  · rw [finishPass_snd]
    rfl
  · rw [finishPass_snd]
  · rw [finishPass_snd]
  · have own : (cyclic.map EvalError.cycle).filter (fun e => e.kind ≠ .cyclicDependency) = [] := by
      refine List.filter_eq_nil_iff.mpr fun e he => ?_
      obtain ⟨p, -, rfl⟩ := List.mem_map.mp he
      simp [EvalError.cycle, EvalError.atPath]
    have others : (s.evaluateNodes (s.passOrder test)).2.filter
        (fun e => e.kind ≠ .cyclicDependency) = (s.evaluateNodes (s.passOrder test)).2 :=
      List.filter_eq_self.mpr fun e he => by
        simpa [Evaluator.NoCycle] using noCycle_evaluateNodes s _ e he
    change (cyclic.map EvalError.cycle ++ (s.evaluateNodes (s.passOrder test)).2).filter
      (fun e => e.kind ≠ .cyclicDependency) = _
    rw [List.filter_append, own, others, List.nil_append]
    rfl

theorem runs_createFirst (t : TreeEvaluator) {tree : DataTree} (dotFree : tree.DotFree) :
    (t.firstState tree).Runs (t.createFirst tree) :=
  runs_finishPass (poised_firstState t dotFree) _ _ _

theorem runs_applyChanges {t : TreeEvaluator} {tree : DataTree} (kept : t.Kept)
    (dotFree : tree.DotFree) (mirrors : t.Mirrors) :
    (t.updateState tree).Runs (t.applyChanges tree (tree.changes t.unevaluated)) :=
  runs_finishPass (poised_updateState kept dotFree mirrors) _ _ _

theorem Kept.runs {t : TreeEvaluator} (kept : t.Kept) (mirrors : t.Mirrors) {p : Pass}
    (dotFree : p.tree.DotFree) : (t.begun p).Runs (t.report p, t.pass p) := by
  cases p with
  | createFirst tree => exact runs_createFirst t dotFree
  | update tree =>
    have both : (t.report (.update tree), t.pass (.update tree)) = t.update tree := rfl
    rw [both, update_eq kept, begun]
    by_cases rebuild : t.needsRebuild = true
    · rw [if_pos rebuild, if_pos rebuild]
      exact runs_createFirst t dotFree
    · rw [if_neg rebuild, if_neg rebuild]
      exact runs_applyChanges kept dotFree mirrors

theorem Runs.mirrors {start : TreeEvaluator} {result : EvalPass × TreeEvaluator}
    (runs : start.Runs result) : result.2.Mirrors := by
  have done := runs.poised.mirrors
  refine ⟨?_, ?_, ?_⟩
  · rw [runs.evaluated, runs.unevaluated]
    exact done.outline
  · rw [runs.evaluated, runs.unevaluated]
    exact done.plain
  · rw [runs.evaluated, runs.unevaluated]
    exact done.present

/-- Triggers and values without a binding hold no code to run. -/
theorem dataReferences?_eq_none {tree : DataTree} {p : String}
    (plain : tree.isTrigger p = true ∨ ¬ Binds tree p) : dataReferences? tree p = none := by
  rcases plain with trigger | unbound
  · simp [dataReferences?, DataTree.isData, trigger]
  · by_contra code
    obtain ⟨rs, code⟩ := Option.ne_none_iff_exists'.mp code
    have data : tree.isData p = true := isData_of_dataReferences? (by simp [code])
    rw [dataReferences?, if_pos data, referencesAt?] at code
    obtain ⟨raw, there, noted⟩ := Option.bind_eq_some_iff.mp code
    exact unbound ⟨raw, there, Json.hasBinding_iff.mpr (by simp [noted])⟩

theorem evaluator_begun (t : TreeEvaluator) (p : Pass) : (t.begun p).evaluator = t.evaluator := by
  cases p with
  | createFirst tree => rfl
  | update tree =>
    rw [begun]
    split <;> rfl

theorem mirrors_afterPasses (e : Evaluator) {passes : List Pass}
    (dotFree : ∀ p ∈ passes, p.tree.DotFree) :
    (afterPasses e passes).Mirrors ∧ (afterPasses e passes).evaluator = e := by
  have run : ∀ (passes : List Pass) (t : TreeEvaluator), t.Kept →
      t.Mirrors ∧ t.evaluator = e → (∀ p ∈ passes, p.tree.DotFree) →
      (passes.foldl TreeEvaluator.pass t).Mirrors ∧
        (passes.foldl TreeEvaluator.pass t).evaluator = e := by
    intro passes
    induction passes with
    | nil => exact fun t _ h _ => h
    | cons p passes ih =>
      intro t kept h dotFree
      have free := dotFree p List.mem_cons_self
      exact ih _ (kept.pass free)
        ⟨(kept.runs h.1 free).mirrors, (evaluator_pass kept p).trans h.2⟩
        fun q hq => dotFree q (List.mem_cons_of_mem _ hq)
  exact run passes (fresh e) (kept_fresh e) ⟨mirrors_fresh e, rfl⟩ dotFree

/-- After every run the evaluated tree has the entities, kinds, triggers and property names of
the last tree, and the raw value of every trigger and of every value without a binding. What
fails in the last pass is reported once, for a path evaluated, and leaves null; every other path
evaluated has the outcome of its code at its turn. -/
theorem mirror_afterPasses (e : Evaluator) (passes : List Pass) (last : Pass)
    (dotFree : ∀ p ∈ passes ++ [last], p.tree.DotFree) :
    let t := afterPasses e passes
    let result := t.report last
    let t' := t.pass last
    t'.evaluated.shape = last.tree.shape ∧
    (∀ p, last.tree.isTrigger p = true ∨ ¬ Binds last.tree p →
      (t'.evaluated.get? p == last.tree.get? p) = true) ∧
    (result.failures.map (·.path)).Nodup ∧
    (∀ err ∈ result.failures, ∃ p ∈ result.evaluationOrder,
      err.path = some p ∧ t'.evaluated.get? p = some .null) ∧
    ∀ front p back, result.evaluationOrder = front ++ p :: back →
      let values := ((t.begun last).evaluateNodes front).1.evaluated
      (∀ q, q ∉ p :: back → values.get? q = t'.evaluated.get? q) ∧
      ∃ raw, last.tree.get? p = some raw ∧
        match e.resolve (nodeScope t'.references values p) raw with
        | .ok v => t'.evaluated.get? p = some v ∧ ∀ err ∈ result.failures, err.path ≠ some p
        | .error err => t'.evaluated.get? p = some .null ∧ err.atPath p ∈ result.failures := by
  intro t result t'
  have lastFree : last.tree.DotFree := dotFree last (by simp)
  have earlierFree : ∀ p ∈ passes, p.tree.DotFree := fun p hp =>
    dotFree p (List.mem_append_left _ hp)
  have kept : t.Kept := kept_afterPasses e earlierFree
  obtain ⟨before, own⟩ : t.Mirrors ∧ t.evaluator = e := mirrors_afterPasses e earlierFree
  have runs : (t.begun last).Runs (result, t') := kept.runs before lastFree
  have tree : t'.unevaluated = last.tree := unevaluated_pass kept last
  have tree' : (t.begun last).unevaluated = last.tree := runs.unevaluated.symm.trans tree
  have after : t'.Mirrors := runs.mirrors
  have failures : result.failures = _ := runs.failures
  have evaluated : t'.evaluated = _ := runs.evaluated
  have references : t'.references = _ := runs.references
  have evaluator : (t.begun last).evaluator = e := (evaluator_begun t last).trans own
  refine ⟨?_, fun p plain => ?_, ?_, fun err failed => ?_, fun front p back split => ⟨?_, ?_⟩⟩
  · exact DataTree.shape_eq lastFree (tree ▸ after.outline) (tree ▸ after.isSome_eq)
  · exact (tree ▸ after.plain) p (dataReferences?_eq_none plain)
  · rw [failures]
    exact (runs.poised.nodup.map fun _ _ => Option.some.inj).sublist
      (paths_evaluateNodes_sublist _ _)
  · rw [failures] at failed
    obtain ⟨front, p, back, split, failed⟩ := (mem_evaluateNodes_snd_iff _).mp failed
    obtain ⟨raw, -, outcome, value⟩ := runs.poised.exists_outcome split
    refine ⟨p, split ▸ (by simp), path_of_evaluateNode failed, ?_⟩
    rw [evaluated, value]
    rw [evaluateNode_snd, outcome] at failed
    generalize Evaluator.resolve _ _ _ = out at failed ⊢
    cases out with
    | ok v => cases failed
    | error _ => rfl
  · intro q past
    rw [evaluated, split, get?_evaluateNodes_of_turn past]
  · obtain ⟨raw, there, outcome, value⟩ := runs.poised.exists_outcome split
    have errors := runs.poised.mem_errors_iff split
    refine ⟨raw, tree' ▸ there, ?_⟩
    rw [evaluator, ← references] at outcome value
    simp only [evaluateNode_snd, outcome, Option.bind_some] at errors
    rw [evaluated, failures, value]
    generalize Evaluator.resolve _ _ _ = out at errors ⊢
    cases out with
    | ok v => exact ⟨rfl, fun err failed named => nomatch (errors err).mp ⟨failed, named⟩⟩
    | error own => exact ⟨rfl, ((errors _).mpr rfl).1⟩

theorem resolve_throw (scope : Scope) :
    Evaluator.path.resolve scope (.string "\x7b\x7bthrow x\x7d\x7d") =
      .error (.ofScript .evaluation ⟨.runtime, "x"⟩) := by
  have dynamic : Template.isDynamic "\x7b\x7bthrow x\x7d\x7d" = true := by decide +kernel
  have sole : Template.soleCode? "\x7b\x7bthrow x\x7d\x7d" = some "throw x" := by decide +kernel
  have command : Evaluator.stripStart? "throw " "throw x" = some "x" := by decide +kernel
  simp only [Evaluator.resolve, Evaluator.template, if_pos dynamic, sole]
  simp [Evaluator.runBinding, Evaluator.run, Evaluator.path, Evaluator.pathOutcome, command]
  rfl

/-- A chain of two widgets whose first text is code that fails. -/
def broken : DataTree := .chain 2 "\x7b\x7bthrow x\x7d\x7d"

/-- The first text of a chain becomes code that fails. -/
theorem mirror_afterPasses_chain :
    (∀ p ∈ [Pass.update (.chain 2 "x")] ++ [.createFirst broken], p.tree.DotFree) ∧
    let t := afterPasses .path [.update (.chain 2 "x")]
    (t.pass (.createFirst broken)).evaluated.shape = broken.shape ∧
    (t.pass (.createFirst broken)).evaluated.get? "N0.text" = some .null ∧
    ∃ err ∈ (t.report (.createFirst broken)).failures, err.path = some "N0.text" := by
  have dotFree : ∀ p ∈ [Pass.update (.chain 2 "x")] ++ [.createFirst broken],
      p.tree.DotFree := by decide +kernel
  have free := dotFree (.createFirst _) (List.mem_append_right _ List.mem_cons_self)
  have graph := graphOf_firstGraph free
  have code := graph.contains_references_iff.mp
    (show (firstReferences broken).contains "N0.text" = true by decide +kernel)
  have spec := GraphOf.passOrder_spec
    (t := (afterPasses .path [.update (.chain 2 "x")]).firstState broken) graph
    (DependencyGraph.orders_order graph.sound) fun _ => true
  have listed := (spec.1 "N0.text").mpr
    ⟨code.1, code.2, graph.not_dependsOnAll_self free (by decide +kernel) _, rfl⟩
  obtain ⟨front, back, split⟩ := List.append_of_mem listed
  obtain ⟨shape, -, -, -, turns⟩ :=
    mirror_afterPasses .path [.update (.chain 2 "x")] (.createFirst broken) dotFree
  obtain ⟨-, raw, there, outcome⟩ := turns front "N0.text" back split
  obtain rfl : Json.string "\x7b\x7bthrow x\x7d\x7d" = raw :=
    Option.some.inj ((by rfl : some _ = broken.get? "N0.text").trans there)
  rw [resolve_throw] at outcome
  exact ⟨dotFree, shape, outcome.1, _, outcome.2, rfl⟩

end TreeEvaluator

end AppBuilder
