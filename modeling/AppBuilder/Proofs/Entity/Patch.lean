import AppBuilder.Proofs.Entity.Difference
import AppBuilder.Proofs.Json.Fields

/-!
The changes between two trees as a patch.

A path is listed once at most (`nodup_changedPaths`). Taken over one after another, the changes
turn the properties of the old tree by their paths into those of the new one
(`get?_foldl_apply`), since what is not listed is the same in both. Between the same trees the
other way round there are the opposite changes in the same order (`changes_swap`).

Main statement: `changes_patch`.
-/

namespace AppBuilder

/-! ### Changes -/

/-- What happened, told the other way round. -/
def ChangeEvent.opposite : ChangeEvent → ChangeEvent
  | added => removed
  | removed => added
  | edited => edited

/-- A change told the other way round. -/
def PropertyChange.opposite (c : PropertyChange) : PropertyChange :=
  { c with event := c.event.opposite }

/-- Take a change over: a property that is gone is removed, any other gets its value in the new
tree. -/
def PropertyChange.apply (new : DataTree) (properties : Dict Json) (c : PropertyChange) :
    Dict Json :=
  match c.event, new.get? c.path with
  | .removed, _ => properties.erase c.path
  | _, some v => properties.insert c.path v
  | _, none => properties

namespace DataTree

/-- The properties of a tree by their paths. -/
def properties (t : DataTree) : Dict Json :=
  .ofList (t.entities.entries.flatMap fun e =>
    e.2.properties.entries.map fun f => (propertyPath e.1 f.1, f.2))

/-- The properties of the old tree after all changes. -/
def patched (new old : DataTree) : Dict Json :=
  (new.changes old).foldl (PropertyChange.apply new) old.properties

/-! ### Opposite changes -/

theorem event?_swap (flip : Bool) (a b : Option Json) :
    event? flip b a = (event? flip a b).map .opposite := by
  cases a with
  | none => cases b <;> rfl
  | some x =>
    cases b with
    | none => rfl
    | some y =>
      have comm : (y == x) = (x == y) := Json.same_comm y x
      simp only [event?, comm]
      split <;> rfl

theorem allNames_comm {α β : Type} (d : Dict α) (e : Dict β) : allNames d e = allNames e d := by
  refine congrArg NameSet.toList (NameSet.ext_mem fun name => ?_)
  simp only [NameSet.mem_ofList, List.mem_append, or_comm]

theorem entityChanges_swap (name : String) (old new : Option Entity) :
    entityChanges name new old = (entityChanges name old new).map .opposite := by
  simp only [entityChanges, List.map_filterMap, Option.map_map]
  rw [allNames_comm]
  refine List.filterMap_congr fun property _ => ?_
  rw [event?_swap, Option.map_map, bne_comm]
  rfl

/-- Seen from the new tree, the changes are the opposite ones in the same order. -/
theorem changes_swap (new old : DataTree) : old.changes new = (new.changes old).map .opposite := by
  simp only [changes, List.map_flatMap]
  rw [allNames_comm]
  exact List.flatMap_congr fun name _ => entityChanges_swap name _ _

/-! ### Paths listed once -/

/-- The paths of different properties differ. -/
theorem nodup_propertyPaths {ι : Type} {entities : List ι} {name : ι → String}
    {properties : ι → List String} (names : (entities.map name).Nodup)
    (noDot : ∀ e ∈ entities, NoDot (name e)) (each : ∀ e ∈ entities, (properties e).Nodup) :
    (entities.flatMap fun e => (properties e).map (propertyPath (name e))).Nodup := by
  have apart : entities.Pairwise fun e e' => name e ≠ name e' := List.pairwise_map.mp names
  refine List.nodup_flatMap.mpr ⟨fun e he => ?_, apart.imp_of_mem fun he he' differ => ?_⟩
  · refine List.Nodup.map_on (fun p _ p' _ same => ?_) (each e he)
    exact ((propertyPath_inj (noDot e he) (noDot e he)).mp same).2
  · intro path mem mem'
    obtain ⟨p, -, rfl⟩ := List.mem_map.mp mem
    obtain ⟨p', -, same⟩ := List.mem_map.mp mem'
    exact differ ((propertyPath_inj (noDot _ he') (noDot _ he)).mp same).1.symm

theorem nodup_allNames {α β : Type} (d : Dict α) (e : Dict β) : (allNames d e).Nodup :=
  (NameSet.ofList (d.keys ++ e.keys)).ordered.imp String.ne_of_lt

/-- The properties of an entity that changed. -/
def changedProperties (old new : Option Entity) : List String :=
  (allNames ((old.map (·.properties)).getD .empty) ((new.map (·.properties)).getD .empty)).filter
    fun property => (event? ((old.map (·.isTrigger property)).getD false !=
        (new.map (·.isTrigger property)).getD false)
      (old.bind fun e => e.properties.get? property)
      (new.bind fun e => e.properties.get? property)).isSome

theorem map_path_entityChanges (name : String) (old new : Option Entity) :
    (entityChanges name old new).map (·.path) =
      (changedProperties old new).map (propertyPath name) := by
  simp only [entityChanges, changedProperties, List.map_filterMap, Option.map_map,
    get?_properties]
  rw [← List.filterMap_eq_map, List.filterMap_filter]
  refine List.filterMap_congr fun property _ => ?_
  generalize event? _ _ _ = event
  cases event <;> rfl

theorem keys_properties (t : DataTree) :
    (t.entities.entries.flatMap fun e =>
      e.2.properties.entries.map fun f => (propertyPath e.1 f.1, f.2)).map Prod.fst = t.paths := by
  simp only [paths, Dict.keys, List.map_flatMap, List.map_map]
  rfl

theorem nodup_paths {t : DataTree} (dotFree : t.DotFree) : t.paths.Nodup :=
  nodup_propertyPaths t.entities.ordered.nodup
    (fun _ he => dotFree _ (List.mem_map_of_mem he)) fun e _ => e.2.properties.ordered.nodup

/-- The properties of a tree are what it has at its paths. -/
theorem DotFree.get?_properties {t : DataTree} (dotFree : t.DotFree) (p : String) :
    t.properties.get? p = t.get? p := by
  have nodup := keys_properties t ▸ nodup_paths dotFree
  refine Option.ext fun v => ?_
  rw [properties, Dict.get?_ofList_of_nodup nodup, Entries.lookup_eq_some_iff nodup]
  simp only [List.mem_flatMap, List.mem_map, Prod.exists, Dict.mem_entries_iff, Prod.mk.injEq]
  constructor
  · rintro ⟨name, e, he, property, _, hv, rfl, rfl⟩
    simp [get?_propertyPath t (dotFree.noDot he), property?, he, hv]
  · intro hv
    obtain ⟨name, property, e, rfl, -, he, hv⟩ := exists_property_of_get? hv
    exact ⟨name, e, he, property, v, hv, rfl, rfl⟩

section Changes

variable {new old : DataTree} (hnew : new.DotFree) (hold : old.DotFree)
include hnew hold

theorem nodup_changedPaths : (new.changedPaths old).Nodup := by
  have paths : new.changedPaths old = (allNames old.entities new.entities).flatMap fun name =>
      (changedProperties (old.entity? name) (new.entity? name)).map (propertyPath name) := by
    simp only [changedPaths, changes, List.map_flatMap, map_path_entityChanges]
  rw [paths]
  have names : ((allNames old.entities new.entities).map id).Nodup := by
    rw [List.map_id]
    exact nodup_allNames _ _
  exact nodup_propertyPaths names (fun _ mem => noDot_of_mem_allNames hnew hold mem)
    fun _ _ => (nodup_allNames _ _).filter _

/-! ### Taking changes over -/

/-- A change that is taken over gives its path what the new tree has there. -/
theorem get?_apply {c : PropertyChange} (listed : c ∈ new.changes old) (properties : Dict Json)
    (p : String) :
    (c.apply new properties).get? p = if c.path = p then new.get? p else properties.get? p := by
  obtain ⟨event, path⟩ := c
  have gone := event_eq_removed_iff hnew hold listed
  cases hv : new.get? path with
  | none =>
    obtain rfl : event = .removed := gone.mpr hv
    simp only [PropertyChange.apply, Dict.get?_erase]
    split <;> simp_all
  | some v =>
    have there : event ≠ .removed := fun removed => by simp [gone.mp removed] at hv
    have stored : PropertyChange.apply new properties ⟨event, path⟩ = properties.insert path v := by
      cases event <;> simp_all [PropertyChange.apply]
    rw [stored, Dict.get?_insert]
    split <;> simp_all

/-- Changes that are taken over give their paths what the new tree has there, and leave all other
paths alone. -/
theorem get?_foldl_apply {changes : List PropertyChange} (listed : changes ⊆ new.changes old)
    (properties : Dict Json) (p : String) :
    (changes.foldl (PropertyChange.apply new) properties).get? p =
      if p ∈ changes.map (·.path) then new.get? p else properties.get? p := by
  induction changes generalizing properties with
  | nil => simp
  | cons c changes ih =>
    obtain ⟨first, rest⟩ := List.cons_subset.mp listed
    simp only [List.foldl_cons, ih rest, get?_apply hnew hold first, List.map_cons, List.mem_cons]
    by_cases later : p ∈ changes.map (·.path)
    · simp [later]
    · simp [later, eq_comm]

/-- A path without a change has equal values before and after, if any. -/
theorem beq_of_not_mem {p : String} (h : p ∉ new.changedPaths old) :
    (old.get? p == new.get? p) = true := by
  rcases unchanged_of_not_mem hnew hold h with ⟨absent, absent'⟩ | ⟨x, y, hx, hy, same, -⟩
  · simp [absent, absent']
  · rw [hx, hy]
    exact same

theorem get?_patched (p : String) : (new.patched old).get? p =
    if p ∈ new.changedPaths old then new.get? p else old.get? p := by
  rw [patched, get?_foldl_apply hnew hold (List.Subset.refl _), hold.get?_properties]
  rfl

theorem beq_get?_patched (p : String) :
    ((new.patched old).get? p == new.properties.get? p) = true := by
  rw [get?_patched hnew hold, hnew.get?_properties]
  split
  · exact Json.beq_option_refl _
  · exact beq_of_not_mem hnew hold ‹_›

/-- Without negative zeros equal properties are identical. -/
theorem patched_eq
    (signless : ∀ t ∈ [old, new], ∀ p v, t.get? p = some v → Json.Signless v.reals) :
    new.patched old = new.properties := by
  refine Dict.ext_get? fun p => ?_
  rw [get?_patched hnew hold, hnew.get?_properties, ite_eq_left_iff]
  intro unlisted
  rcases unchanged_of_not_mem hnew hold unlisted with ⟨absent, absent'⟩ | ⟨x, y, hx, hy, same, -⟩
  · rw [absent, absent']
  · have equal : x = y :=
      Json.eq_of_same (signless old (by simp) p x hx) (signless new (by simp) p y hy) same
    rw [hx, hy, equal]

/-! ### Main statement -/

/-- The changes between trees without dots in entity names list no path twice: a path is added when
only the new tree has it, removed when only the old one has it, and edited when both have it with
different values or different flags. Taken over in order they turn the properties of the old tree
into those of the new one, identical ones when there is no negative zero. The other way round they
are the same list with what is added and what is removed exchanged. -/
theorem changes_patch :
    (new.changedPaths old).Nodup ∧
    (∀ p, (⟨.added, p⟩ ∈ new.changes old ↔ old.get? p = none ∧ (new.get? p).isSome = true) ∧
      (⟨.removed, p⟩ ∈ new.changes old ↔ (old.get? p).isSome = true ∧ new.get? p = none) ∧
      (⟨.edited, p⟩ ∈ new.changes old ↔ ∃ a b, old.get? p = some a ∧ new.get? p = some b ∧
        ((a == b) = false ∨ old.isTrigger p ≠ new.isTrigger p))) ∧
    (Json.ofDict (new.patched old) == Json.ofDict new.properties) = true ∧
    ((∀ t ∈ [old, new], ∀ p v, t.get? p = some v → Json.Signless v.reals) →
      new.patched old = new.properties) ∧
    old.changes new = (new.changes old).map .opposite := by
  refine ⟨nodup_changedPaths hnew hold, fun p => ?_, ?_, patched_eq hnew hold,
    changes_swap new old⟩
  · simp only [mem_changes_iff hnew hold]
    refine ⟨event?_eq_added_iff, event?_eq_removed_iff, ?_⟩
    rw [event?_eq_edited_iff, bne_iff_ne]
  · exact Json.sameFields_of_lookup (Dict.ordered _) (Dict.ordered _) (beq_get?_patched hnew hold)

end Changes

/-- A tree before an edit: `A` has a number and some code, `B` a text. -/
def beforeEdit : DataTree :=
  (empty.insert "A" (((Entity.ofKind .widget).set "n" (.int 1)).set "onClick" (.string "go"))).insert
    "B" ((Entity.ofKind .widget).set "text" (.string "hi"))

/-- The same tree with another number, the code turned into a trigger and `C` instead of `B`. -/
def afterEdit : DataTree :=
  (empty.insert "A" (((Entity.ofKind .widget).set "n" (.int 2)).setTrigger "onClick" "go")).insert
    "C" ((Entity.ofKind .action).set "text" (.string "hi"))

theorem changes_patch_edit : afterEdit.DotFree ∧ beforeEdit.DotFree ∧
    (afterEdit.changedPaths beforeEdit).Nodup ∧
    beforeEdit.changes afterEdit =
      [⟨.edited, "A.n"⟩, ⟨.edited, "A.onClick"⟩, ⟨.added, "B.text"⟩, ⟨.removed, "C.text"⟩] := by
  have new : afterEdit.DotFree := by decide +kernel
  have old : beforeEdit.DotFree := by decide +kernel
  have changes : afterEdit.changes beforeEdit =
      [⟨.edited, "A.n"⟩, ⟨.edited, "A.onClick"⟩, ⟨.removed, "B.text"⟩, ⟨.added, "C.text"⟩] := by
    decide +kernel
  obtain ⟨nodup, -, -, -, swap⟩ := changes_patch new old
  exact ⟨new, old, nodup, swap.trans (changes ▸ rfl)⟩

end DataTree

end AppBuilder
