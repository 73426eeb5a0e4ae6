import AppBuilder.Proofs.Evaluation.Graph

/-!
Taking the changes of a tree over.

An update goes through the changes one by one. `Synced` says what its graph is like after some of
them: at the paths of these it is as the new tree has it, elsewhere as it was. A change either
drops the node of its path (`Synced.drop`) or has it noted for rewiring (`Synced.edit`).
-/

namespace AppBuilder.TreeEvaluator

/-! ### Dropping and editing a node -/

theorem syncValue_eq (tree : DataTree) (s : Sync) (c : PropertyChange) :
    ∃ evaluated, Sync.syncValue tree s c = { s with evaluated } := by
  unfold Sync.syncValue
  split
  · exact ⟨_, rfl⟩
  · split
    · exact ⟨_, rfl⟩
    · split <;> exact ⟨_, rfl⟩

/-- Whether a change leaves no data at its path. -/
def Sync.drops (tree : DataTree) (c : PropertyChange) : Bool :=
  c.event = .removed || tree.isTrigger c.path

theorem drops_iff {new old : DataTree} (hnew : new.DotFree) (hold : old.DotFree)
    {c : PropertyChange} (h : c ∈ new.changes old) :
    Sync.drops new c = true ↔ new.isData c.path = false := by
  have removed := DataTree.event_eq_removed_iff hnew hold h
  simp only [Sync.drops, Bool.or_eq_true, decide_eq_true_eq, removed, DataTree.isData,
    Bool.and_eq_false_iff, Bool.not_eq_false', ← Option.not_isSome_iff_eq_none,
    Bool.not_eq_true]

theorem Sync.apply_of_drops {tree : DataTree} {c : PropertyChange}
    (h : Sync.drops tree c = true) (s : Sync) :
    s.apply tree c = syncValue tree (s.dropNode c.path) c :=
  congrArg (syncValue tree · c) (if_pos h)

theorem Sync.apply_of_not_drops {tree : DataTree} {c : PropertyChange}
    (h : ¬ Sync.drops tree c = true) (s : Sync) :
    s.apply tree c = syncValue tree (editNode tree s c.path) c :=
  congrArg (syncValue tree · c) (if_neg h)

namespace Sync

theorem graph_dropNode (s : Sync) (p : String) : (s.dropNode p).graph = s.graph.remove p := by
  unfold dropNode
  by_cases node : s.graph.contains p = true
  · rw [if_pos node]
  · rw [if_neg node]
    cases hk : s.graph.index.get? p with
    | none => rw [DependencyGraph.remove_of_index_none hk]
    | some k => exact absurd (DependencyGraph.contains_iff.mpr ⟨k, hk⟩) node

theorem edited_dropNode (s : Sync) (p : String) : (s.dropNode p).edited = s.edited := by
  unfold dropNode
  split <;> rfl

theorem structural_dropNode (s : Sync) (p : String) :
    (s.dropNode p).structural = (s.structural || s.graph.contains p) := by
  unfold dropNode
  split <;> simp [*]

theorem get?_references_dropNode {s : Sync} {p : String}
    (noted : s.graph.contains p = false → s.references.get? p = none) (q : String) :
    (s.dropNode p).references.get? q = if p = q then none else s.references.get? q := by
  unfold dropNode
  by_cases node : s.graph.contains p = true
  · rw [if_pos node]
    exact Dict.get?_erase _ _ _
  · rw [if_neg node]
    by_cases hq : p = q
    · subst hq
      simp [noted (by simpa using node)]
    · simp [hq]

theorem mem_seeds_dropNode (s : Sync) (sound : s.graph.Sound) (p q : String) :
    q ∈ (s.dropNode p).seeds ↔ q ∈ s.seeds ∨ p ∈ s.graph.dependencies q := by
  rw [← sound.mem_dependents_iff]
  unfold dropNode
  by_cases node : s.graph.contains p = true
  · rw [if_pos node]
    exact NameSet.mem_insertMany _ _ _
  · rw [if_neg node]
    have alone : q ∉ s.graph.dependents p := by
      intro hq
      exact node (sound.contains_of_mem_dependencies (sound.mem_dependents_iff.mp hq)).2
    simp [alone]

end Sync

/-- Where an update stands once the changes at some paths are taken over: those paths are as in
the new tree, all others as they were. What has to be evaluated again is among the seeds. -/
structure Synced (t : TreeEvaluator) (tree : DataTree) (done : List String) (s : Sync) : Prop where
  sound : s.graph.Sound
  contains_eq : ∀ p, s.graph.contains p =
    if p ∈ done then tree.isData p else t.graph.contains p
  references_eq : ∀ p, s.references.get? p =
    if p ∈ done then dataReferences? tree p else t.references.get? p
  mem_dependencies_iff : ∀ p q, q ∈ s.graph.dependencies p ↔ q ∈ t.graph.dependencies p ∧
    (p ∈ done → tree.isData p = true) ∧ (q ∈ done → tree.isData q = true)
  mem_edited_iff : ∀ p, p ∈ s.edited ↔ p ∈ done ∧ tree.isData p = true
  contains_of_not_structural : s.structural = false →
    ∀ p, s.graph.contains p = t.graph.contains p
  edited_subset : ∀ p ∈ done, tree.isData p = true → p ∈ s.seeds
  dependents_subset : ∀ p q, q ∈ t.graph.dependencies p → q ∈ done → tree.isData q = false →
    p ∈ s.seeds ∨ p ∈ done ∧ tree.isData p = false

namespace Synced

variable {t : TreeEvaluator} {tree : DataTree} {done : List String} {s : Sync}

/-- Only nodes have references. -/
theorem get?_references_eq_none (kept : t.Kept) (h : t.Synced tree done s) {p : String}
    (hp : s.graph.contains p = false) : s.references.get? p = none := by
  rw [h.contains_eq] at hp
  rw [h.references_eq]
  by_cases hdone : p ∈ done
  · rw [if_pos hdone] at hp
    rw [if_pos hdone, dataReferences?, hp]
    rfl
  · rw [if_neg hdone, kept.graph.contains_eq] at hp
    rw [if_neg hdone, kept.graph.references_eq, dataReferences?, hp]
    rfl

theorem drop (kept : t.Kept) (h : t.Synced tree done s) {p : String}
    (hp : tree.isData p = false) : t.Synced tree (done ++ [p]) (s.dropNode p) where
  sound := by
    rw [Sync.graph_dropNode]
    exact h.sound.remove p
  contains_eq q := by
    rw [Sync.graph_dropNode, DependencyGraph.contains_remove, h.contains_eq]
    by_cases hq : q = p
    · simp [hq, hp]
    · simp [hq, Ne.symm hq]
  references_eq q := by
    rw [Sync.get?_references_dropNode (h.get?_references_eq_none kept), h.references_eq]
    by_cases hq : q = p
    · simp [hq, hp, dataReferences?]
    · simp [hq, Ne.symm hq]
  mem_dependencies_iff q r := by
    rw [Sync.graph_dropNode, DependencyGraph.mem_dependencies_remove h.sound,
      h.mem_dependencies_iff]
    simp only [List.mem_append, List.mem_singleton]
    constructor
    · rintro ⟨hq, hr, edge, hq', hr'⟩
      exact ⟨edge, fun hd => hq' (hd.resolve_right hq), fun hd => hr' (hd.resolve_right hr)⟩
    · rintro ⟨edge, hq, hr⟩
      refine ⟨?_, ?_, edge, fun hd => hq (.inl hd), fun hd => hr (.inl hd)⟩
      · rintro rfl
        simp [hp] at hq
      · rintro rfl
        simp [hp] at hr
  mem_edited_iff q := by
    rw [Sync.edited_dropNode, h.mem_edited_iff, List.mem_append, List.mem_singleton]
    constructor
    · rintro ⟨hd, data⟩
      exact ⟨.inl hd, data⟩
    · rintro ⟨hd, data⟩
      refine ⟨hd.resolve_right ?_, data⟩
      rintro rfl
      simp [hp] at data
  contains_of_not_structural flat q := by
    rw [Sync.structural_dropNode, Bool.or_eq_false_iff] at flat
    rw [Sync.graph_dropNode, DependencyGraph.contains_remove,
      ← h.contains_of_not_structural flat.1]
    by_cases hq : p = q
    · simp [← hq, flat.2]
    · simp [hq]
  edited_subset q hq data := by
    refine (Sync.mem_seeds_dropNode s h.sound p q).mpr (.inl (h.edited_subset q ?_ data))
    refine (List.mem_append.mp hq).resolve_right fun hq => ?_
    simp [List.mem_singleton.mp hq, hp] at data
  dependents_subset q r edge hr data := by
    rw [Sync.mem_seeds_dropNode s h.sound, h.mem_dependencies_iff]
    by_cases gone : q ∈ done ++ [p] ∧ tree.isData q = false
    · exact .inr gone
    have alive : q ∈ done → tree.isData q = true := by
      intro hd
      by_contra hq
      exact gone ⟨List.mem_append_left _ hd, by simpa using hq⟩
    by_cases hd : r ∈ done
    · rcases h.dependents_subset q r edge hd data with hq | ⟨hq, hq'⟩
      · exact .inl (.inl hq)
      · exact absurd ⟨List.mem_append_left _ hq, hq'⟩ gone
    · obtain rfl : r = p := by simpa [hd] using hr
      exact .inl (.inr ⟨edge, alive, fun h => absurd h hd⟩)

theorem edit (h : t.Synced tree done s) {p : String} (hp : tree.isData p = true) :
    t.Synced tree (done ++ [p]) (Sync.editNode tree s p) where
  sound := h.sound.add p
  contains_eq q := by
    rw [Sync.editNode, DependencyGraph.contains_add, h.contains_eq]
    by_cases hq : q = p
    · simp [hq, hp]
    · simp [hq, Ne.symm hq]
  references_eq q := by
    rw [Sync.editNode, get?_noteReferences, h.references_eq]
    by_cases hq : q = p
    · simp [hq, hp, dataReferences?]
    · simp [hq, Ne.symm hq]
  mem_dependencies_iff q r := by
    rw [Sync.editNode, DependencyGraph.mem_dependencies_add h.sound, h.mem_dependencies_iff]
    simp only [List.mem_append, List.mem_singleton]
    constructor
    · rintro ⟨edge, hq, hr⟩
      exact ⟨edge, fun hd => hd.elim hq (· ▸ hp), fun hd => hd.elim hr (· ▸ hp)⟩
    · rintro ⟨edge, hq, hr⟩
      exact ⟨edge, fun hd => hq (.inl hd), fun hd => hr (.inl hd)⟩
  mem_edited_iff q := by
    simp only [Sync.editNode, List.mem_append, List.mem_singleton, h.mem_edited_iff]
    constructor
    · rintro (⟨hd, data⟩ | rfl)
      · exact ⟨.inl hd, data⟩
      · exact ⟨.inr rfl, hp⟩
    · rintro ⟨hd | rfl, data⟩
      · exact .inl ⟨hd, data⟩
      · exact .inr rfl
  contains_of_not_structural flat q := by
    simp only [Sync.editNode, Bool.or_eq_false_iff, Bool.not_eq_false'] at flat
    rw [Sync.editNode, DependencyGraph.contains_add, ← h.contains_of_not_structural flat.1]
    by_cases hq : p = q
    · simp [← hq, flat.2]
    · simp [hq]
  edited_subset q hq data := by
    refine (NameSet.mem_insert _ _ _).mpr ?_
    rcases List.mem_append.mp hq with hq | hq
    · exact .inr (h.edited_subset q hq data)
    · exact .inl (List.mem_singleton.mp hq)
  dependents_subset q r edge hr data := by
    have hd : r ∈ done := (List.mem_append.mp hr).resolve_right fun hr => by
      simp [List.mem_singleton.mp hr, hp] at data
    rcases h.dependents_subset q r edge hd data with hq | ⟨hq, hq'⟩
    · exact .inl ((NameSet.mem_insert _ _ _).mpr (.inr hq))
    · exact .inr ⟨List.mem_append_left _ hq, hq'⟩

/-- Values play no part. -/
theorem evaluated (h : t.Synced tree done s) (evaluated : DataTree) :
    t.Synced tree done { s with evaluated } :=
  ⟨h.sound, h.contains_eq, h.references_eq, h.mem_dependencies_iff, h.mem_edited_iff,
    h.contains_of_not_structural, h.edited_subset, h.dependents_subset⟩

theorem apply (kept : t.Kept) (dotFree : tree.DotFree) (h : t.Synced tree done s)
    {c : PropertyChange} (hc : c ∈ tree.changes t.unevaluated) :
    t.Synced tree (done ++ [c.path]) (s.apply tree c) := by
  have drops := drops_iff dotFree kept.dotFree hc
  by_cases hd : Sync.drops tree c = true
  · rw [Sync.apply_of_drops hd]
    obtain ⟨evaluated, eq⟩ := syncValue_eq tree (s.dropNode c.path) c
    rw [eq]
    exact (h.drop kept (drops.mp hd)).evaluated evaluated
  · rw [Sync.apply_of_not_drops hd]
    obtain ⟨evaluated, eq⟩ := syncValue_eq tree (Sync.editNode tree s c.path) c
    rw [eq]
    exact (h.edit (by simpa [drops] using hd)).evaluated evaluated

theorem foldl (kept : t.Kept) (dotFree : tree.DotFree) (h : t.Synced tree done s)
    {changes : List PropertyChange} (sub : ∀ c ∈ changes, c ∈ tree.changes t.unevaluated) :
    t.Synced tree (done ++ changes.map (·.path)) (changes.foldl (Sync.apply tree) s) := by
  induction changes generalizing done s with
  | nil => simpa using h
  | cons c changes ih =>
    have step := h.apply kept dotFree (sub c List.mem_cons_self)
    have rest := ih step fun d hd => sub d (List.mem_cons_of_mem _ hd)
    simpa using rest

end Synced

end AppBuilder.TreeEvaluator
