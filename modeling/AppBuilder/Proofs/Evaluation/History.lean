import AppBuilder.Proofs.Evaluation.Dirty
import AppBuilder.Proofs.Evaluation.Settled
import AppBuilder.Proofs.Evaluation.Values
import AppBuilder.Proofs.Json.Same

/-!
The values of a tree do not depend on the trees before it.

Between passes the values are settled unless the next pass starts from scratch. A first pass
settles them when its graph has no cycle. So does an update: a path that it does not evaluate has
the value it had, and so has all that its code selects, because whatever changes such a value
makes the path dirty (`get?_eq_of_clean`). Settled values without cycles are unique, hence those
that a new evaluator computes.

Main statement: `evaluated_afterPasses`.
-/

namespace AppBuilder

/-! ### Tame trees -/

/-- Entity names hold no dot, code names an existing entity only with a property that is no
trigger, and no number is the negative zero. -/
structure DataTree.Tame (tree : DataTree) : Prop where
  dotFree : tree.DotFree
  named : ∀ p ∈ TreeEvaluator.nodePaths tree, ∀ r ∈ (TreeEvaluator.referencesAt? tree p).getD [],
    ∀ e ∈ tree.entity? (Reference.entity r),
      ∃ property ∈ Reference.property? r, e.isTrigger property = false
  signless : ∀ e ∈ tree.entities.values, ∀ v ∈ e.properties.values, Json.Signless v.reals

instance (tree : DataTree) : Decidable tree.Tame :=
  decidable_of_iff (tree.DotFree ∧
    (∀ p ∈ TreeEvaluator.nodePaths tree, ∀ r ∈ (TreeEvaluator.referencesAt? tree p).getD [],
      ∀ e ∈ tree.entity? (Reference.entity r),
        ∃ property ∈ Reference.property? r, e.isTrigger property = false) ∧
    ∀ e ∈ tree.entities.values, ∀ v ∈ e.properties.values, Json.Signless v.reals)
    ⟨fun h => ⟨h.1, h.2.1, h.2.2⟩, fun h => ⟨h.dotFree, h.named, h.signless⟩⟩

namespace DataTree.Tame

/-- What code selects is data as soon as it has a value. -/
theorem isData_of_path? {tree : DataTree} (tame : tree.Tame) {p r x : String} {v : Json}
    (hr : r ∈ (TreeEvaluator.dataReferences? tree p).getD []) (hx : Reference.path? r = some x)
    (hv : tree.get? x = some v) : tree.isData x = true := by
  have data := TreeEvaluator.isData_of_mem_dataReferences hr
  rw [TreeEvaluator.dataReferences?, if_pos data] at hr
  obtain ⟨property, hproperty, rfl⟩ := Option.map_eq_some_iff.mp hx
  have noDot := Reference.noDot_entity r
  rw [get?_propertyPath tree noDot] at hv
  obtain ⟨e, he, -⟩ := Option.bind_eq_some_iff.mp hv
  obtain ⟨property', hproperty', trigger⟩ :=
    tame.named p ((TreeEvaluator.mem_nodePaths_iff tame.dotFree).mpr data) r hr e he
  obtain rfl : property = property' := Option.some.inj (hproperty.symm.trans hproperty')
  have known : tree.entity? (Reference.entity r) = some e := he
  simp [isData, get?_propertyPath tree noDot, hv, isTrigger_propertyPath tree noDot, known, trigger]

theorem signless_get? {tree : DataTree} (tame : tree.Tame) {p : String} {v : Json}
    (hv : tree.get? p = some v) : Json.Signless v.reals := by
  obtain ⟨name, property, e, -, -, he, hproperty⟩ := exists_property_of_get? hv
  refine tame.signless e ?_ v ?_
  · exact List.mem_map.mpr ⟨(name, e), (Dict.mem_entries_iff _ _ _).mpr he, rfl⟩
  · exact List.mem_map.mpr ⟨(property, v), (Dict.mem_entries_iff _ _ _).mpr hproperty, rfl⟩

/-- A path without a change has the very same value in two tame trees. -/
theorem get?_eq_of_not_mem {new old : DataTree} (hnew : new.Tame) (hold : old.Tame) {p : String}
    (h : p ∉ new.changedPaths old) : old.get? p = new.get? p := by
  rcases unchanged_of_not_mem hnew.dotFree hold.dotFree h with
    ⟨none, none'⟩ | ⟨x, y, hx, hy, same, -⟩
  · rw [none, none']
  · rw [hx, hy, Json.eq_of_same (hold.signless_get? hx) (hnew.signless_get? hy) same]

end DataTree.Tame

namespace TreeEvaluator

/-! ### First passes -/

/-- A first pass without cycles settles all values. -/
theorem settled_createFirst {t : TreeEvaluator} (reads : t.evaluator.Local) {tree : DataTree}
    (dotFree : tree.DotFree) (acyclic : ∀ p, ¬ (firstGraph tree).DependsOnAll p p) :
    (t.createFirst tree).2.Settled := by
  have graph := graphOf_firstGraph dotFree
  have orders := DependencyGraph.orders_order graph.sound
  have start : (t.firstState tree).evaluated = tree := by
    rw [firstState, orders.cyclic_eq_nil acyclic]
    rfl
  have settled := settled_of_evaluateNodes (t := t.firstState tree) reads graph orders
    (congrArg DataTree.outline start) (fun _ => true) fun values _ p hp => by
      have code : (firstReferences tree).contains p = false := by
        by_contra code
        have code : (firstReferences tree).contains p = true := by simpa using code
        refine hp (List.mem_filter.mpr ⟨(orders.sorts.mem_iff p).mpr ⟨?_, acyclic p⟩, code⟩)
        rw [graph.contains_eq, graph.isData_of_contains code]
      rw [start, expected_of_not_contains code]
      rfl
  rw [createFirst_snd]
  exact ⟨settled.outline, settled.get?_eq⟩

/-! ### Updates -/

section Update

variable {t : TreeEvaluator} {tree : DataTree} (kept : t.Kept)

section Tame

variable (tame : t.unevaluated.Tame) (tame' : tree.Tame)
include kept tame tame'

/-- With all changes taken over, a path without code has its value. -/
theorem get?_synced_of_no_code (settled : t.Settled) {p : String}
    (plain : dataReferences? tree p = none) :
    (t.synced tree).evaluated.get? p = tree.get? p := by
  rw [(syncedValues kept tame'.dotFree).get?_eq]
  by_cases hp : p ∈ tree.changedPaths t.unevaluated
  · rw [if_pos ⟨hp, by simp [plain]⟩]
  · have same := tame'.get?_eq_of_not_mem tame hp
    have plain' : dataReferences? t.unevaluated p = none :=
      (dataReferences?_eq_of_unchanged tame'.dotFree tame.dotFree hp).trans plain
    have value : t.evaluated.get? p = tree.get? p := by
      rw [settled.get?_eq, expected_of_not_contains, same]
      simp [kept.graph.contains_references, plain']
    rw [if_neg fun h => hp h.1, get?_syncEntities, value]
    cases hv : tree.get? p with
    | none => simp
    | some v => rw [if_pos (DataTree.admits_of_get? hv)]

/-! Whatever an update does not evaluate reads values that stay. -/

omit tame in
/-- A clean path of data did not change. -/
theorem unchanged_of_clean {p : String} (clean : p ∉ t.dirty tree) (data : tree.isData p = true) :
    p ∉ tree.changedPaths t.unevaluated := fun changed =>
  clean (mem_dirty_of_seed kept tame'.dotFree
    ((synced_spec kept tame'.dotFree).edited_subset p changed data) data)

/-- What the code of a clean path selects did not change, unless it holds code itself. -/
theorem not_mem_changes_of_clean {p r x : String} (clean : p ∉ t.dirty tree)
    (hr : r ∈ (dataReferences? tree p).getD []) (hx : Reference.path? r = some x) :
    x ∉ tree.changedPaths t.unevaluated := by
  intro changed
  have spec := synced_spec kept tame'.dotFree
  have data := isData_of_mem_dataReferences hr
  have unchanged := unchanged_of_clean kept tame' clean data
  cases hv : tree.get? x with
  | some v =>
    -- an edited or new value makes all that selects it dirty
    have hdata := tame'.isData_of_path? hr hx hv
    have seed := spec.edited_subset x changed hdata
    exact clean (mem_dirty_of_edge kept tame'.dotFree (DataTree.edge_of_path? hr hx hdata)
      (mem_dirty_of_seed kept tame'.dotFree seed hdata))
  | none =>
    -- a value that is gone was data before, and what depended on it is a seed
    rw [← dataReferences?_eq_of_unchanged tame'.dotFree tame.dotFree unchanged] at hr
    cases hv' : t.unevaluated.get? x with
    | none =>
      obtain ⟨c, hc, rfl⟩ := List.mem_map.mp changed
      have event := (DataTree.mem_changes_iff tame'.dotFree tame.dotFree).mp hc
      simp [hv, hv', DataTree.event?] at event
    | some v =>
      have hdata := tame.isData_of_path? hr hx hv'
      have edge := (kept.graph.mem_dependencies_iff p x).mpr
        (DataTree.edge_of_path? hr hx hdata)
      have gone : tree.isData x = false := by simp [DataTree.isData, hv]
      rcases spec.dependents_subset p x edge changed gone with seed | ⟨_, hp⟩
      · exact clean (mem_dirty_of_seed kept tame'.dotFree seed data)
      · simp [data] at hp

/-- A clean path with code has the value expected after the update. -/
theorem get?_eq_of_clean (reads : t.evaluator.Local) (settled : t.Settled) {p : String}
    (clean : p ∉ t.dirty tree) (code : (dataReferences? tree p).isSome = true)
    {values : DataTree} (stays : ∀ q, q ∉ (t.updateState tree).passOrder (t.dirty tree).contains →
      values.get? q = (t.synced tree).evaluated.get? q) :
    t.evaluated.get? p = (t.updateState tree).expected values p := by
  have graph := graphOf_rewired kept tame'.dotFree
  have data := isData_of_dataReferences? code
  have unchanged := unchanged_of_clean kept tame' clean data
  have references : t.references.get? p = (t.synced tree).references.get? p := by
    rw [kept.graph.references_eq, graph.references_eq]
    exact dataReferences?_eq_of_unchanged tame'.dotFree tame.dotFree unchanged
  have expected_eq : t.expected values p = (t.updateState tree).expected values p := by
    have raw := tame'.get?_eq_of_not_mem tame unchanged
    simp only [expected, updateState, raw, Dict.contains, references, nodeScope]
    rfl
  rw [settled.get?_eq, ← expected_eq]
  refine expected_congr reads kept.graph fun r hr x hx => ?_
  rw [references, graph.references_eq] at hr
  have same := not_mem_changes_of_clean kept tame tame' clean hr hx
  cases code' : dataReferences? tree x with
  | none =>
    have apart : x ∉ (t.updateState tree).passOrder (t.dirty tree).contains := by
      intro hmem
      have held : (t.synced tree).references.contains x = true :=
        (Bool.and_eq_true_iff.mp (List.mem_filter.mp hmem).2).2
      simp [graph.contains_references, code'] at held
    have plain : dataReferences? t.unevaluated x = none :=
      (dataReferences?_eq_of_unchanged tame'.dotFree tame.dotFree same).trans code'
    rw [stays x apart, get?_synced_of_no_code kept tame tame' settled code', settled.get?_eq,
      expected_of_not_contains (by simp [kept.graph.contains_references, plain]),
      tame'.get?_eq_of_not_mem tame same]
  | some rs =>
    have hdata : tree.isData x = true := graph.isData_of_contains
      (by simp [graph.contains_references, code'])
    have apart : x ∉ (t.updateState tree).passOrder (t.dirty tree).contains := by
      intro hmem
      have dirty : (t.dirty tree).contains x = true :=
        (Bool.and_eq_true_iff.mp (List.mem_filter.mp hmem).2).1
      exact clean (mem_dirty_of_edge kept tame'.dotFree (DataTree.edge_of_path? hr hx hdata)
        (List.contains_iff_mem.mp dirty))
    rw [stays x apart, get?_synced_of_code kept tame'.dotFree (by simp [code'])]

/-- An update of settled values settles them again when the graph has no cycle. -/
theorem settled_applyChanges (reads : t.evaluator.Local) (settled : t.Settled)
    (acyclic : ∀ p, ¬ (t.rewired tree).2.DependsOnAll p p) :
    (t.applyChanges tree (tree.changes t.unevaluated)).2.Settled := by
  have graph := graphOf_rewired kept tame'.dotFree
  have orders := orders_updatedOrder kept tame'.dotFree
  have start : (t.updateState tree).evaluated = (t.synced tree).evaluated := by
    rw [updateState, orders.cyclic_eq_nil acyclic]
    rfl
  have next := settled_of_evaluateNodes (t := t.updateState tree) reads graph orders
    (start ▸ (syncedValues kept tame'.dotFree).outline) (t.dirty tree).contains
    fun values stays p hp => by
      rw [start]
      cases code : dataReferences? tree p with
      | none =>
        rw [get?_synced_of_no_code kept tame tame' settled code, expected_of_not_contains]
        · rfl
        · simp [Dict.contains, updateState, graph.references_eq, code]
      | some rs =>
        have held : (t.synced tree).references.contains p = true := by
          simp [graph.contains_references, code]
        have clean : p ∉ t.dirty tree := by
          intro dirty
          refine hp (List.mem_filter.mpr ⟨(orders.sorts.mem_iff p).mpr ⟨?_, acyclic p⟩, ?_⟩)
          · rw [graph.contains_eq, graph.isData_of_contains held]
          · exact Bool.and_eq_true_iff.mpr ⟨List.contains_iff_mem.mpr dirty, held⟩
        rw [get?_synced_of_code kept tame'.dotFree (by simp [code])]
        exact get?_eq_of_clean kept tame tame' reads settled clean (by simp [code])
          fun q hq => start ▸ stays q hq
  rw [applyChanges_snd]
  exact ⟨next.outline, next.get?_eq⟩

end Tame

end Update

/-! ### Runs -/

theorem evaluator_pass {t : TreeEvaluator} (kept : t.Kept) (p : Pass) :
    (t.pass p).evaluator = t.evaluator := by
  cases p with
  | createFirst tree =>
    rw [TreeEvaluator.pass, createFirst_snd]
    rfl
  | update tree =>
    rw [TreeEvaluator.pass, update_snd kept]
    split
    · rw [createFirst_snd]
      rfl
    · rw [applyChanges_snd]
      rfl

/-- What every pass leaves behind: settled values, unless the next pass starts from scratch. -/
structure Upheld (t : TreeEvaluator) : Prop where
  kept : t.Kept
  tame : t.unevaluated.Tame
  settled : t.needsRebuild = false → t.Settled

theorem upheld_fresh (e : Evaluator) : (fresh e).Upheld where
  kept := kept_fresh e
  tame := ⟨(kept_fresh e).dotFree, fun _ hp => absurd hp List.not_mem_nil,
    fun _ he => absurd he List.not_mem_nil⟩
  settled := by simp [fresh]

/-- A pass without cycles settles the values. -/
theorem Upheld.settled_pass {t : TreeEvaluator} (h : t.Upheld) (reads : t.evaluator.Local)
    {p : Pass} (tame : p.tree.Tame) (acyclic : ∀ q, ¬ (t.pass p).graph.DependsOnAll q q) :
    (t.pass p).Settled := by
  have first : ∀ tree : DataTree, tree.DotFree →
      (∀ q, ¬ (t.createFirst tree).2.graph.DependsOnAll q q) → (t.createFirst tree).2.Settled := by
    intro tree dotFree acyclic
    refine settled_createFirst reads dotFree fun q => ?_
    have hq := acyclic q
    rw [createFirst_snd] at hq
    exact hq
  cases p with
  | createFirst tree => exact first tree tame.dotFree acyclic
  | update tree =>
    rw [TreeEvaluator.pass, update_snd h.kept] at acyclic ⊢
    by_cases rebuild : t.needsRebuild = true
    · rw [if_pos rebuild] at acyclic ⊢
      exact first tree tame.dotFree acyclic
    · rw [if_neg rebuild] at acyclic ⊢
      refine settled_applyChanges h.kept h.tame tame reads
        (h.settled (by simpa using rebuild)) fun q => ?_
      have hq := acyclic q
      rw [applyChanges_snd] at hq
      exact hq

theorem Upheld.pass {t : TreeEvaluator} (h : t.Upheld) (reads : t.evaluator.Local) {p : Pass}
    (tame : p.tree.Tame) : (t.pass p).Upheld := by
  have kept := h.kept.pass tame.dotFree
  refine ⟨kept, ?_, ?_⟩
  · rw [unevaluated_pass h.kept]
    exact tame
  · intro incremental
    exact h.settled_pass reads tame (kept.not_dependsOnAll_self incremental)

theorem upheld_afterPasses {e : Evaluator} (reads : e.Local) (passes : List Pass)
    (tame : ∀ p ∈ passes, p.tree.Tame) :
    (afterPasses e passes).Upheld ∧ (afterPasses e passes).evaluator = e := by
  have run : ∀ (passes : List Pass) (t : TreeEvaluator), t.Upheld → t.evaluator = e →
      (∀ p ∈ passes, p.tree.Tame) →
      (passes.foldl TreeEvaluator.pass t).Upheld ∧
        (passes.foldl TreeEvaluator.pass t).evaluator = e := by
    intro passes
    induction passes with
    | nil => exact fun t h same _ => ⟨h, same⟩
    | cons p passes ih =>
      intro t h same tame
      exact ih _ (h.pass (same ▸ reads) (tame p List.mem_cons_self))
        ((evaluator_pass h.kept p).trans same) fun q hq => tame q (List.mem_cons_of_mem _ hq)
  exact run passes (fresh e) (upheld_fresh e) rfl tame

/-- After every run over tame trees the evaluated tree is the one that a new evaluator computes
from the last tree alone, as long as that tree has no cycle. -/
theorem evaluated_afterPasses (e : Evaluator) (reads : e.Local) (passes : List Pass)
    (last : Pass) (tame : ∀ p ∈ passes ++ [last], p.tree.Tame)
    (acyclic : ∀ p, ¬ Relation.TransGen
      ((fresh e).createFirst last.tree).2.graph.DependsOn p p) :
    (afterPasses e (passes ++ [last])).evaluated =
      ((fresh e).createFirst last.tree).2.evaluated := by
  have lastTame : last.tree.Tame := tame last (by simp)
  obtain ⟨before, evaluator⟩ := upheld_afterPasses reads passes
    fun p hp => tame p (List.mem_append_left _ hp)
  have ran : afterPasses e (passes ++ [last]) = (afterPasses e passes).pass last := by
    simp [afterPasses]
  have first : ((fresh e).createFirst last.tree).2 = (fresh e).pass (.createFirst last.tree) := rfl
  rw [ran, first]
  rw [first] at acyclic
  have kept := before.kept.pass lastTame.dotFree
  have keptNew := (kept_fresh e).pass (p := .createFirst last.tree) lastTame.dotFree
  have unevaluated := unevaluated_pass before.kept last
  have unevaluatedNew := unevaluated_pass (kept_fresh e) (.createFirst last.tree)
  have held := (evaluator_pass before.kept last).trans evaluator
  have heldNew := evaluator_pass (kept_fresh e) (.createFirst last.tree)
  -- the graph kept has the edges of the last tree, so it has no cycle either
  have same : ((afterPasses e passes).pass last).graph.DependsOn =
      ((fresh e).pass (.createFirst last.tree)).graph.DependsOn := by
    funext p q
    refine propext ((kept.graph.mem_dependencies_iff p q).trans ?_)
    rw [unevaluated]
    refine .trans ?_ (keptNew.graph.mem_dependencies_iff p q).symm
    rw [unevaluatedNew]
    rfl
  have acyclic' : ∀ p, ¬ ((afterPasses e passes).pass last).graph.DependsOnAll p p := by
    intro p
    rw [DependencyGraph.DependsOnAll, same]
    exact acyclic p
  have settled := before.settled_pass (by rwa [evaluator]) lastTame acyclic'
  have settledNew := (upheld_fresh e).settled_pass (p := .createFirst last.tree) reads lastTame
    acyclic
  exact settled.evaluated_eq kept keptNew (by rwa [held]) (heldNew.trans held.symm)
    (unevaluatedNew.trans unevaluated.symm) acyclic' settledNew

/-- A tree whose only property refers to itself. -/
def loop : DataTree :=
  DataTree.empty.insert "N0"
    ((Entity.ofKind .widget).set "text" (.string "\x7b\x7bN0.text\x7d\x7d"))

/-- A chain behind a loop. -/
theorem evaluated_afterPasses_loop :
    Evaluator.selecting.Local ∧
    (∀ p ∈ [Pass.createFirst loop, .update (.chain 2 "x")], p.tree.Tame) ∧
    (∀ p, ¬ Relation.TransGen
      ((fresh .selecting).createFirst (.chain 2 "x")).2.graph.DependsOn p p) ∧
    (afterPasses .selecting [.createFirst loop, .update (.chain 2 "x")]).evaluated =
      ((fresh .selecting).createFirst (.chain 2 "x")).2.evaluated := by
  have tame : ∀ p ∈ [Pass.createFirst loop, .update (.chain 2 "x")], p.tree.Tame := by
    decide +kernel
  have acyclic : ∀ p, ¬ Relation.TransGen
      ((fresh .selecting).createFirst (.chain 2 "x")).2.graph.DependsOn p p := by
    have dotFree : DataTree.DotFree (.chain 2 "x") := by decide +kernel
    -- what a property depends on has a lesser path, so going on never leads back
    have back : ∀ p ∈ nodePaths (.chain 2 "x"),
        ∀ q ∈ ((firstGraph (.chain 2 "x")).dependencies p).toList, q < p := by
      decide +kernel
    rw [createFirst_snd]
    exact (graphOf_firstGraph dotFree).not_dependsOnAll_self dotFree back
  exact ⟨Evaluator.local_selecting, tame, acyclic,
    evaluated_afterPasses .selecting Evaluator.local_selecting [.createFirst loop]
      (.update (.chain 2 "x")) tame acyclic⟩

end TreeEvaluator

end AppBuilder
