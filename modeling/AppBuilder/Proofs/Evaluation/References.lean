import AppBuilder.Evaluation.TreeEvaluator
import AppBuilder.Proofs.Dependency.Sound
import AppBuilder.Proofs.Entity.Difference
import Mathlib.Tactic.ByContra
import Mathlib.Tactic.Set

/-!
What the references of a property point to.

`DataTree.isData` tells the properties that a dependency graph has nodes for, and
`DataTree.Edge` the dependencies that it has among them, both read off the tree alone. On a
graph over the data of a tree the references of a node resolve to these dependencies
(`mem_resolveReferences_iff`), and rewiring gives them to the nodes it is given
(`rewireNodes_spec`).
-/

namespace AppBuilder

/-! ### Equal values -/

namespace Json

mutual

/-- Values that differ in the sign of zeros only hold the same code. -/
theorem templates_eq_of_same : ∀ {a b : Json}, a.same b = true → a.templates = b.templates
  | .null, .null, _ | .bool _, .bool _, _ | .number _, .number _, _ => rfl
  | .string s, .string s', h => by
    simp only [same, decide_eq_true_eq] at h
    rw [h]
  | .array xs, .array ys, h => by
    simp only [same] at h
    simp only [templates, templatesOfItems_eq_of_same h]
  | .object fs, .object gs, h => by
    simp only [same] at h
    simp only [templates, templatesOfFields_eq_of_same h]

theorem templatesOfItems_eq_of_same : ∀ {xs ys : List Json}, sameItems xs ys = true →
    templatesOfItems xs = templatesOfItems ys
  | [], [], _ => rfl
  | x :: xs, y :: ys, h => by
    simp only [sameItems, Bool.and_eq_true] at h
    simp only [templatesOfItems, templates_eq_of_same h.1, templatesOfItems_eq_of_same h.2]

theorem templatesOfFields_eq_of_same : ∀ {fs gs : List (String × Json)},
    sameFields fs gs = true → templatesOfFields fs = templatesOfFields gs
  | [], [], _ => rfl
  | (_, x) :: fs, (_, y) :: gs, h => by
    simp only [sameFields, Bool.and_eq_true] at h
    simp only [templatesOfFields, templates_eq_of_same h.1.2, templatesOfFields_eq_of_same h.2]

end

end Json

theorem Reference.ofValue?_eq_of_same {a b : Json} (h : a.same b = true) :
    Reference.ofValue? a = Reference.ofValue? b := by
  simp only [Reference.ofValue?, Json.templates_eq_of_same h]

/-! ### Data and its references -/

/-- Whether a path has a value that is no trigger. -/
def DataTree.isData (tree : DataTree) (path : String) : Bool :=
  (tree.get? path).isSome && !tree.isTrigger path

namespace TreeEvaluator

theorem mem_nodePaths_iff {tree : DataTree} (h : tree.DotFree) {p : String} :
    p ∈ nodePaths tree ↔ tree.isData p = true := by
  simp [nodePaths, DataTree.isData, DataTree.mem_paths_iff h]

/-- What a path of data refers to, `none` when it holds no code. -/
def dataReferences? (tree : DataTree) (path : String) : Option (List String) :=
  if tree.isData path then referencesAt? tree path else none

theorem isData_of_dataReferences? {tree : DataTree} {p : String}
    (code : (dataReferences? tree p).isSome = true) : tree.isData p = true := by
  by_contra data
  simp [dataReferences?, data] at code

theorem isData_of_mem_dataReferences {tree : DataTree} {p r : String}
    (hr : r ∈ (dataReferences? tree p).getD []) : tree.isData p = true := by
  refine isData_of_dataReferences? ?_
  cases h : dataReferences? tree p with
  | none => simp [h] at hr
  | some rs => rfl

section Unchanged

variable {new old : DataTree} (hnew : new.DotFree) (hold : old.DotFree) {p : String}
  (unchanged : p ∉ new.changedPaths old)
include hnew hold unchanged

/-- A path that did not change is data in both trees or in neither. -/
theorem isData_eq_of_unchanged : old.isData p = new.isData p := by
  rcases DataTree.unchanged_of_not_mem hnew hold unchanged with
    ⟨hold, hnew⟩ | ⟨x, y, hold, hnew, -, trigger⟩
  · simp [DataTree.isData, hold, hnew]
  · simp [DataTree.isData, hold, hnew, trigger]

/-- A path that did not change has the same references in both trees. -/
theorem dataReferences?_eq_of_unchanged : dataReferences? old p = dataReferences? new p := by
  have data := isData_eq_of_unchanged hnew hold unchanged
  rcases DataTree.unchanged_of_not_mem hnew hold unchanged with
    ⟨hold, hnew⟩ | ⟨x, y, hold, hnew, same, -⟩
  · simp [DataTree.isData, dataReferences?, hold, hnew]
  · simp [dataReferences?, referencesAt?, data, hold, hnew, Reference.ofValue?_eq_of_same same]

end Unchanged

end TreeEvaluator

/-! ### Where references point -/

theorem Reference.noDot_entity (reference : String) : NoDot (Reference.entity reference) := by
  intro h
  rw [Reference.entity, String.toList_ofList] at h
  simpa using List.all_eq_true.mp List.all_takeWhile _ h

/-- A reference of a node names a path, or, as the bare name of an entity, any path of the
entity but the node itself. -/
def Reference.PointsTo (node reference path : String) : Prop :=
  match Reference.property? reference with
  | some property => path = propertyPath (Reference.entity reference) property
  | none => path ≠ node ∧ ∃ property, path = propertyPath (Reference.entity reference) property

/-- The data that a path depends on in a tree. -/
def DataTree.Edge (tree : DataTree) (p q : String) : Prop :=
  tree.isData q = true ∧
    ∃ r ∈ (TreeEvaluator.dataReferences? tree p).getD [], Reference.PointsTo p r q

theorem DataTree.Edge.isData_left {tree : DataTree} {p q : String} (h : tree.Edge p q) :
    tree.isData p = true := by
  obtain ⟨-, r, hr, -⟩ := h
  exact TreeEvaluator.isData_of_mem_dataReferences hr

theorem mem_resolveReference_iff {tree : DataTree} {g : DependencyGraph}
    (data : ∀ p, g.contains p = true → tree.isData p = true) {node reference p : String} :
    p ∈ resolveReference tree g node reference ↔
      g.contains p = true ∧ Reference.PointsTo node reference p := by
  have noDot := Reference.noDot_entity reference
  -- a node of the entity shows that the entity has the property
  have exists_entity : ∀ property, g.contains (propertyPath (Reference.entity reference) property) →
      ∃ e, tree.entity? (Reference.entity reference) = some e ∧
        property ∈ e.properties.keys := by
    intro property hp
    have hdata := data _ hp
    simp only [DataTree.isData, Bool.and_eq_true, DataTree.get?_propertyPath tree noDot,
      Option.isSome_iff_exists] at hdata
    obtain ⟨⟨v, hv⟩, -⟩ := hdata
    obtain ⟨e, he, hv⟩ := Option.bind_eq_some_iff.mp hv
    exact ⟨e, he, (Dict.mem_keys_iff _ _).mpr (by simp [Dict.contains, hv])⟩
  unfold resolveReference Reference.PointsTo
  dsimp only
  cases hproperty : Reference.property? reference with
  | some property =>
    constructor
    · intro hp
      split at hp
      · simp at hp
      · obtain ⟨hp, hc⟩ := List.mem_filter.mp hp
        obtain rfl := List.mem_singleton.mp hp
        exact ⟨hc, rfl⟩
    · rintro ⟨hc, rfl⟩
      obtain ⟨e, he, -⟩ := exists_entity property hc
      simp [he, hc]
  | none =>
    constructor
    · intro hp
      split at hp
      · simp at hp
      · obtain ⟨hp, hc⟩ := List.mem_filter.mp hp
        obtain ⟨property, -, rfl⟩ := List.mem_map.mp hp
        simp only [Bool.and_eq_true, decide_eq_true_eq] at hc
        exact ⟨hc.2, hc.1, property, rfl⟩
    · rintro ⟨hc, hne, property, rfl⟩
      obtain ⟨e, he, hproperty⟩ := exists_entity property hc
      simp only [he]
      exact List.mem_filter.mpr ⟨List.mem_map.mpr ⟨property, hproperty, rfl⟩, by simp [hne, hc]⟩

theorem resolveReferences_congr (tree : DataTree) {g g' : DependencyGraph}
    (h : ∀ p, g.contains p = g'.contains p) (references : Dict (List String)) (node : String) :
    resolveReferences tree g references node = resolveReferences tree g' references node := by
  have same : g.contains = g'.contains := funext h
  have each : resolveReference tree g node = resolveReference tree g' node := by
    funext reference
    simp only [resolveReference, same]
  simp only [resolveReferences, each]

/-- Over the data of a tree the references of a node resolve to its edges. -/
theorem mem_resolveReferences_iff {tree : DataTree} {g : DependencyGraph}
    {references : Dict (List String)} (data : ∀ p, g.contains p = tree.isData p)
    (noted : ∀ p, references.get? p = TreeEvaluator.dataReferences? tree p) {p q : String} :
    q ∈ resolveReferences tree g references p ↔ tree.Edge p q := by
  simp only [resolveReferences, List.mem_flatMap, noted, DataTree.Edge,
    mem_resolveReference_iff fun p hp => data p ▸ hp, data]
  exact ⟨fun ⟨r, hr, hq, points⟩ => ⟨hq, r, hr, points⟩,
    fun ⟨hq, r, hr, points⟩ => ⟨r, hr, hq, points⟩⟩

/-! ### Rewiring -/

/-- Some nodes of a graph have got the dependencies that their references resolve to; those
listed as changed had others before. -/
structure Rewired (tree : DataTree) (references : Dict (List String)) (g : DependencyGraph)
    (nodes changed : List String) (g' : DependencyGraph) : Prop where
  sound : g'.Sound
  contains_eq : ∀ p, g'.contains p = g.contains p
  mem_dependencies_iff : ∀ p q, q ∈ g'.dependencies p ↔
    if p ∈ nodes then q ∈ resolveReferences tree g references p ∧ g.contains q = true
    else q ∈ g.dependencies p
  mem_changed_iff : ∀ p, p ∈ changed ↔ p ∈ nodes ∧ g'.dependencies p ≠ g.dependencies p

theorem Rewired.cons {tree : DataTree} {references : Dict (List String)} {g : DependencyGraph}
    (sound : g.Sound) {node : String} (hnode : g.contains node = true) {nodes changed : List String}
    {g' : DependencyGraph}
    (rest : Rewired tree references
      (g.setDependencies node (resolveReferences tree g references node)).2 nodes changed g') :
    Rewired tree references g (node :: nodes)
      ((if (g.setDependencies node (resolveReferences tree g references node)).1 then [node]
        else []) ++ changed) g' := by
  set targets := resolveReferences tree g references node with htargets
  set g₁ := (g.setDependencies node targets).2 with hg₁
  have kept : ∀ p, g₁.contains p = g.contains p := by
    intro p
    rw [hg₁, DependencyGraph.contains_setDependencies]
    by_cases hp : node = p
    · simp [← hp, hnode]
    · simp [hp]
  have first : ∀ p q, q ∈ g₁.dependencies p ↔
      if p = node then q ∈ targets ∧ g.contains q = true else q ∈ g.dependencies p := by
    intro p q
    rw [hg₁, DependencyGraph.mem_dependencies_setDependencies sound,
      DependencyGraph.add_of_contains hnode]
  have all : ∀ p q, q ∈ g'.dependencies p ↔
      if p ∈ node :: nodes then q ∈ resolveReferences tree g references p ∧ g.contains q = true
      else q ∈ g.dependencies p := by
    intro p q
    rw [rest.mem_dependencies_iff, resolveReferences_congr tree kept, kept, first]
    by_cases hp : p = node
    · subst hp
      by_cases hmem : p ∈ nodes <;> simp [hmem, htargets]
    · simp [hp]
  refine ⟨rest.sound, fun p => (rest.contains_eq p).trans (kept p), all, fun p => ?_⟩
  have flag : (g.setDependencies node targets).1 = true ↔
      g₁.dependencies node ≠ g.dependencies node := by
    rw [DependencyGraph.setDependencies_fst sound, decide_eq_true_eq]
  rw [List.mem_append, rest.mem_changed_iff]
  by_cases hp : p = node
  · subst hp
    have last : g'.dependencies p = g₁.dependencies p :=
      NameSet.ext_mem fun q => by simp [all, first, htargets]
    rw [last, List.mem_ite_nil_right, flag]
    simp
  · have same : g₁.dependencies p = g.dependencies p :=
      NameSet.ext_mem fun q => by simp [first, hp]
    simp [hp, same]

/-- Set the dependencies of a node behind others. -/
def rewireNode (tree : DataTree) (references : Dict (List String))
    (acc : List String × DependencyGraph) (node : String) : List String × DependencyGraph :=
  let set := acc.2.setDependencies node (resolveReferences tree acc.2 references node)
  (acc.1 ++ (if set.1 then [node] else []), set.2)

theorem rewireNodes_eq (tree : DataTree) (references : Dict (List String)) (g : DependencyGraph)
    (nodes : List String) :
    rewireNodes tree references g nodes = nodes.foldl (rewireNode tree references) ([], g) := by
  unfold rewireNodes
  congr 1
  funext ⟨changed, g⟩ node
  simp only [rewireNode]
  rcases g.setDependencies node (resolveReferences tree g references node) with ⟨_ | _, g₁⟩ <;>
    simp

theorem foldl_rewireNode (tree : DataTree) (references : Dict (List String)) (nodes : List String)
    (acc : List String × DependencyGraph) : nodes.foldl (rewireNode tree references) acc =
      (acc.1 ++ (rewireNodes tree references acc.2 nodes).1,
        (rewireNodes tree references acc.2 nodes).2) := by
  induction nodes generalizing acc with
  | nil => simp [rewireNodes]
  | cons node nodes ih =>
    rw [rewireNodes_eq, List.foldl_cons, List.foldl_cons, ih, ih]
    simp [rewireNode]

theorem rewireNodes_cons (tree : DataTree) (references : Dict (List String)) (g : DependencyGraph)
    (node : String) (nodes : List String) :
    rewireNodes tree references g (node :: nodes) =
      let set := g.setDependencies node (resolveReferences tree g references node)
      let rest := rewireNodes tree references set.2 nodes
      ((if set.1 then [node] else []) ++ rest.1, rest.2) := by
  rw [rewireNodes_eq, List.foldl_cons, foldl_rewireNode]
  simp [rewireNode]

/-- Rewiring nodes of a sound graph. -/
theorem rewireNodes_spec (tree : DataTree) (references : Dict (List String))
    {g : DependencyGraph} (sound : g.Sound) (nodes : List String)
    (live : ∀ p ∈ nodes, g.contains p = true) :
    Rewired tree references g nodes (rewireNodes tree references g nodes).1
      (rewireNodes tree references g nodes).2 := by
  induction nodes generalizing g with
  | nil => exact ⟨sound, fun _ => rfl, by simp [rewireNodes], by simp [rewireNodes]⟩
  | cons node nodes ih =>
    have hnode := live node List.mem_cons_self
    rw [rewireNodes_cons]
    refine Rewired.cons sound hnode (ih (sound.setDependencies node _) fun p hp => ?_)
    rw [DependencyGraph.contains_setDependencies, live p (List.mem_cons_of_mem _ hp), Bool.or_true]

end AppBuilder
