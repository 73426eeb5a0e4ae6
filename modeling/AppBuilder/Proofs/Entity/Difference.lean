import AppBuilder.Entity.Difference
import AppBuilder.Proofs.Entity.Path
import Mathlib.Tactic.ByContra

/-!
The changes between two trees, path by path.

On trees without dots in entity names a change is listed for a path exactly when `event?` sees
one there (`mem_changes_iff`), so a path that is not listed has the same value before and after
and is a trigger in both or in neither (`unchanged_of_not_mem`).
-/

namespace AppBuilder.DataTree

/-! ### Events -/

theorem event?_eq_none_iff {flip : Bool} {a b : Option Json} :
    event? flip a b = none ↔ (a = none ∧ b = none) ∨
      ∃ x y, a = some x ∧ b = some y ∧ x.same y = true ∧ flip = false := by
  cases a with
  | none => cases b <;> simp [event?]
  | some x =>
    cases b with
    | none => simp [event?]
    | some y =>
      have same : (x == y) = x.same y := rfl
      simp [event?, same]

theorem event?_eq_added_iff {flip : Bool} {a b : Option Json} :
    event? flip a b = some .added ↔ a = none ∧ b.isSome := by
  cases a <;> cases b <;> simp [event?]

theorem event?_eq_removed_iff {flip : Bool} {a b : Option Json} :
    event? flip a b = some .removed ↔ a.isSome ∧ b = none := by
  cases a <;> cases b <;> simp [event?]

theorem event?_eq_edited_iff {flip : Bool} {a b : Option Json} :
    event? flip a b = some .edited ↔
      ∃ x y, a = some x ∧ b = some y ∧ ((x == y) = false ∨ flip = true) := by
  cases a with
  | none => cases b <;> simp [event?]
  | some x =>
    cases b with
    | none => simp [event?]
    | some y => cases same : x == y <;> simp [event?, same]

/-! ### Changed paths -/

theorem mem_allNames_iff {α β : Type} {d : Dict α} {e : Dict β} {name : String} :
    name ∈ allNames d e ↔ (d.get? name).isSome ∨ (e.get? name).isSome := by
  have mem : name ∈ allNames d e ↔ name ∈ NameSet.ofList (d.keys ++ e.keys) := Iff.rfl
  rw [mem, NameSet.mem_ofList, List.mem_append, Dict.mem_keys_iff, Dict.mem_keys_iff]
  rfl

theorem get?_properties (e : Option Entity) (property : String) :
    ((e.map (·.properties)).getD Dict.empty).get? property =
      e.bind fun e => e.properties.get? property := by
  cases e <;> rfl

theorem mem_entityChanges_iff {name : String} {old new : Option Entity} {c : PropertyChange} :
    c ∈ entityChanges name old new ↔ ∃ property, c.path = propertyPath name property ∧
      event? ((old.map (·.isTrigger property)).getD false !=
        (new.map (·.isTrigger property)).getD false)
        (old.bind fun e => e.properties.get? property)
        (new.bind fun e => e.properties.get? property) = some c.event := by
  obtain ⟨event, path⟩ := c
  simp only [entityChanges, List.mem_filterMap, mem_allNames_iff, get?_properties,
    Option.map_eq_some_iff, PropertyChange.mk.injEq]
  constructor
  · rintro ⟨property, -, event, hevent, rfl, rfl⟩
    exact ⟨property, rfl, hevent⟩
  · rintro ⟨property, rfl, hevent⟩
    refine ⟨property, ?_, event, hevent, rfl, rfl⟩
    by_contra none
    simp only [not_or, Option.not_isSome_iff_eq_none] at none
    simp [event?, none] at hevent

/-- The paths that differ between two trees. -/
def changedPaths (new old : DataTree) : List String := (new.changes old).map (·.path)

section Changes

variable {new old : DataTree} (hnew : new.DotFree) (hold : old.DotFree)
include hnew hold

theorem noDot_of_mem_allNames {name : String} (h : name ∈ allNames old.entities new.entities) :
    NoDot name := by
  rcases mem_allNames_iff.mp h with h | h
  · obtain ⟨e, he⟩ := Option.isSome_iff_exists.mp h
    exact hold.noDot he
  · obtain ⟨e, he⟩ := Option.isSome_iff_exists.mp h
    exact hnew.noDot he

theorem mem_changes_iff {c : PropertyChange} : c ∈ new.changes old ↔
    event? (old.isTrigger c.path != new.isTrigger c.path) (old.get? c.path) (new.get? c.path) =
      some c.event := by
  simp only [changes, List.mem_flatMap, mem_entityChanges_iff]
  constructor
  · rintro ⟨name, hname, property, hpath, hevent⟩
    have noDot := noDot_of_mem_allNames hnew hold hname
    rw [hpath, isTrigger_propertyPath old noDot, isTrigger_propertyPath new noDot,
      get?_propertyPath old noDot, get?_propertyPath new noDot]
    exact hevent
  · intro hevent
    have held : ∃ t v, (t = old ∨ t = new) ∧ t.get? c.path = some v := by
      cases h : old.get? c.path with
      | some v => exact ⟨old, v, .inl rfl, h⟩
      | none =>
        cases h' : new.get? c.path with
        | some v => exact ⟨new, v, .inr rfl, h'⟩
        | none => simp [h, h', event?] at hevent
    obtain ⟨t, v, ht, hv⟩ := held
    obtain ⟨name, property, e, hpath, noDot, he, -⟩ := exists_property_of_get? hv
    rw [hpath, isTrigger_propertyPath old noDot, isTrigger_propertyPath new noDot,
      get?_propertyPath old noDot, get?_propertyPath new noDot] at hevent
    refine ⟨name, mem_allNames_iff.mpr ?_, property, hpath, hevent⟩
    simp only [entity?] at he
    rcases ht with rfl | rfl <;> simp [he]

/-- A path without a change has no value before and after, or the same one, and is a trigger in
both trees or in neither. -/
theorem unchanged_of_not_mem {p : String} (h : p ∉ new.changedPaths old) :
    (old.get? p = none ∧ new.get? p = none) ∨ ∃ x y, old.get? p = some x ∧
      new.get? p = some y ∧ x.same y = true ∧ old.isTrigger p = new.isTrigger p := by
  have silent : event? (old.isTrigger p != new.isTrigger p) (old.get? p) (new.get? p) = none := by
    by_contra hne
    obtain ⟨event, hevent⟩ := Option.ne_none_iff_exists'.mp hne
    exact h (List.mem_map.mpr ⟨⟨event, p⟩, (mem_changes_iff hnew hold).mpr hevent, rfl⟩)
  simpa using event?_eq_none_iff.mp silent

/-- A change takes a value away when the path has none in the new tree. -/
theorem event_eq_removed_iff {c : PropertyChange} (h : c ∈ new.changes old) :
    c.event = .removed ↔ new.get? c.path = none := by
  have hevent := (mem_changes_iff hnew hold).mp h
  constructor
  · intro hc
    rw [hc] at hevent
    exact (event?_eq_removed_iff.mp hevent).2
  · intro hnone
    rw [hnone] at hevent
    cases hold : old.get? c.path with
    | none => simp [hold, event?] at hevent
    | some v => simpa [hold, event?, eq_comm] using hevent

end Changes

end AppBuilder.DataTree
