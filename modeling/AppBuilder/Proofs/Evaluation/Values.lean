import AppBuilder.Proofs.Evaluation.Update

/-!
The values of a tree while its changes are taken over.

Taking a change over gives its path the new value, unless the path holds code; then the path keeps
its value until it is evaluated (`SyncedValues`).
-/

namespace AppBuilder.TreeEvaluator

/-! ### Single changes -/

theorem outline_syncEntities (tree evaluated : DataTree) :
    (syncEntities tree evaluated).outline = tree.outline := by
  refine Dict.ext_get? fun name => ?_
  simp [syncEntities, DataTree.outline, Dict.get?_map, Function.comp_def]

/-- Values are kept where the new tree has the entity. -/
theorem get?_syncEntities (tree evaluated : DataTree) (p : String) :
    (syncEntities tree evaluated).get? p =
      if tree.admits p then evaluated.get? p else none := by
  cases hp : splitPath p with
  | none => simp [DataTree.get?, DataTree.admits, hp]
  | some pair =>
    obtain ⟨name, property⟩ := pair
    simp only [DataTree.get?, DataTree.admits, hp, DataTree.property?, syncEntities,
      Dict.get?_map, Dict.contains, DataTree.entity?, Option.bind_some]
    cases tree.entities.get? name with
    | none => rfl
    | some e => cases evaluated.entities.get? name <;> simp

/-- A change sets the value at its path, or removes it, unless the path holds code. -/
theorem get?_syncValue {tree : DataTree} {s : Sync} {c : PropertyChange}
    (outline : s.evaluated.outline = tree.outline)
    (removed : c.event = .removed ↔ tree.get? c.path = none)
    (noted : s.references.contains c.path = (dataReferences? tree c.path).isSome) (q : String) :
    (Sync.syncValue tree s c).evaluated.get? q =
      if c.path = q ∧ (dataReferences? tree q).isSome = false then tree.get? q
      else s.evaluated.get? q := by
  unfold Sync.syncValue
  by_cases gone : c.event = .removed
  · have absent := removed.mp gone
    rw [if_pos gone]
    simp only [DataTree.get?_unset]
    by_cases hq : c.path = q
    · subst hq
      simp [absent, dataReferences?, DataTree.isData]
    · simp [hq]
  · rw [if_neg gone]
    obtain ⟨raw, hraw⟩ := Option.ne_none_iff_exists'.mp (mt removed.mpr gone)
    by_cases code : s.references.contains c.path = true
    · rw [if_pos code]
      refine (if_neg fun h => ?_).symm
      rw [noted, h.1, h.2] at code
      simp at code
    · rw [if_neg code, hraw]
      have admitted : s.evaluated.admits c.path = true := by
        rw [DataTree.admits_of_outline outline, DataTree.admits_of_get? hraw]
      simp only [DataTree.get?_set, admitted, and_true]
      by_cases hq : c.path = q
      · subst hq
        have plain : dataReferences? tree c.path = none := by simpa [noted] using code
        simp [plain, hraw]
      · simp [hq]

/-- The values once the changes at some paths are taken over: those paths have their new values
unless they hold code, all others the values they had. -/
structure SyncedValues (base tree : DataTree) (done : List String) (s : Sync) : Prop where
  outline : s.evaluated.outline = tree.outline
  get?_eq : ∀ p, s.evaluated.get? p =
    if p ∈ done ∧ (dataReferences? tree p).isSome = false then tree.get? p else base.get? p

theorem Sync.evaluated_dropNode (s : Sync) (p : String) :
    (s.dropNode p).evaluated = s.evaluated := by
  unfold dropNode
  split <;> rfl

theorem SyncedValues.syncValue {base tree : DataTree} {done : List String} {s : Sync}
    {c : PropertyChange} (h : SyncedValues base tree done s)
    (removed : c.event = .removed ↔ tree.get? c.path = none)
    (noted : s.references.contains c.path = (dataReferences? tree c.path).isSome) :
    SyncedValues base tree (done ++ [c.path]) (Sync.syncValue tree s c) := by
  refine ⟨?_, ?_⟩
  · rw [← h.outline]
    unfold Sync.syncValue
    split
    · exact DataTree.outline_unset _ _
    · split
      · rfl
      · split
        · exact DataTree.outline_set _ _ _
        · rfl
  · intro p
    rw [get?_syncValue h.outline removed noted, h.get?_eq]
    by_cases hp : p = c.path
    · simp only [hp, List.mem_append, List.mem_singleton, or_true, true_and]
      split <;> simp [*]
    · simp [hp, Ne.symm hp]

/-! ### All changes -/

section Update

variable {t : TreeEvaluator} {tree : DataTree} (kept : t.Kept) (dotFree : tree.DotFree)
include kept dotFree

theorem SyncedValues.apply {base : DataTree} {done : List String}
    {s : Sync} {c : PropertyChange} (synced : t.Synced tree done s)
    (h : SyncedValues base tree done s) (hc : c ∈ tree.changes t.unevaluated) :
    SyncedValues base tree (done ++ [c.path]) (s.apply tree c) := by
  have removed := DataTree.event_eq_removed_iff dotFree kept.dotFree hc
  have drops := drops_iff dotFree kept.dotFree hc
  have noted : ∀ {s' : Sync}, t.Synced tree (done ++ [c.path]) s' →
      s'.references.contains c.path = (dataReferences? tree c.path).isSome := by
    intro s' synced'
    rw [Dict.contains, synced'.references_eq, if_pos (by simp)]
  by_cases hd : Sync.drops tree c = true
  · rw [Sync.apply_of_drops hd]
    refine SyncedValues.syncValue ⟨?_, ?_⟩ removed (noted (synced.drop kept (drops.mp hd)))
    · rw [Sync.evaluated_dropNode, h.outline]
    · rw [Sync.evaluated_dropNode]
      exact h.get?_eq
  · rw [Sync.apply_of_not_drops hd]
    exact SyncedValues.syncValue ⟨h.outline, h.get?_eq⟩ removed
      (noted (synced.edit (by simpa [drops] using hd)))

theorem syncedValues : SyncedValues (syncEntities tree t.evaluated) tree
    (tree.changedPaths t.unevaluated) (t.synced tree) := by
  have run : ∀ (changes : List PropertyChange) (done : List String) (s : Sync),
      (∀ c ∈ changes, c ∈ tree.changes t.unevaluated) → t.Synced tree done s →
      SyncedValues (syncEntities tree t.evaluated) tree done s →
      SyncedValues (syncEntities tree t.evaluated) tree (done ++ changes.map (·.path))
        (changes.foldl (Sync.apply tree) s) := by
    intro changes
    induction changes with
    | nil => exact fun done s _ _ h => by simpa using h
    | cons c changes ih =>
      intro done s sub synced h
      have hc := sub c List.mem_cons_self
      have rest := ih _ _ (fun d hd => sub d (List.mem_cons_of_mem _ hd))
        (synced.apply kept dotFree hc) (h.apply kept dotFree synced hc)
      simpa using rest
  exact run _ [] _ (fun _ hc => hc) (synced_start kept tree)
    ⟨outline_syncEntities _ _, by simp⟩

/-- With all changes taken over, a path with code still has the value it had. -/
theorem get?_synced_of_code {p : String} (code : (dataReferences? tree p).isSome = true) :
    (t.synced tree).evaluated.get? p = t.evaluated.get? p := by
  have data := isData_of_dataReferences? code
  obtain ⟨v, hv⟩ := Option.isSome_iff_exists.mp (Bool.and_eq_true_iff.mp data).1
  rw [(syncedValues kept dotFree).get?_eq, if_neg (by simp [code]), get?_syncEntities,
    if_pos (DataTree.admits_of_get? hv)]

end Update

end AppBuilder.TreeEvaluator
