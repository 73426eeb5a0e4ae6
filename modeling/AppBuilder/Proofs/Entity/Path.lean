import AppBuilder.Entity.Tree

/-!
Paths as names of properties.

A path is split at its first dot, so it names a property as long as no entity name holds a dot
(`DataTree.DotFree`). Then the paths of a tree are those with a value (`mem_paths_iff`), and
storing or removing a value changes the look-up of one path (`get?_set`, `get?_unset`).
-/

namespace AppBuilder

/-! ### Splitting -/

/-- A name without a dot. -/
def NoDot (name : String) : Prop := '.' ∉ name.toList

instance (name : String) : Decidable (NoDot name) := inferInstanceAs (Decidable ('.' ∉ name.toList))

theorem span_dot {name : List Char} (h : '.' ∉ name) (rest : List Char) :
    (name ++ '.' :: rest).takeWhile (· ≠ '.') = name ∧
      (name ++ '.' :: rest).dropWhile (· ≠ '.') = '.' :: rest := by
  have plain : ∀ c ∈ name, decide (c ≠ '.') = true := by
    intro c hc
    simpa using fun hdot : c = '.' => h (hdot ▸ hc)
  refine ⟨?_, ?_⟩
  · rw [List.takeWhile_append_of_pos plain]
    simp
  · rw [List.dropWhile_append_of_pos plain]
    simp

theorem toList_propertyPath (entity property : String) :
    (propertyPath entity property).toList = entity.toList ++ '.' :: property.toList := by
  simp [propertyPath]

theorem splitPath_propertyPath {entity : String} (h : NoDot entity) (property : String) :
    splitPath (propertyPath entity property) = some (entity, property) := by
  obtain ⟨before, after⟩ := span_dot h property.toList
  simp only [splitPath, toList_propertyPath, before, after, String.ofList_toList]

/-- A path is the one of the entity and property that it splits into. -/
theorem eq_propertyPath_of_splitPath {p entity property : String}
    (h : splitPath p = some (entity, property)) :
    p = propertyPath entity property ∧ NoDot entity := by
  simp only [splitPath] at h
  cases hrest : p.toList.dropWhile (fun c => decide (c ≠ '.')) with
  | nil =>
    rw [hrest] at h
    cases h
  | cons c rest =>
    simp only [hrest, Option.some.injEq, Prod.mk.injEq] at h
    obtain ⟨rfl, rfl⟩ := h
    have hc : c = '.' := by
      have := List.head?_dropWhile_not (fun c => decide (c ≠ '.')) p.toList
      rw [hrest] at this
      simpa using this
    refine ⟨String.toList_inj.mp ?_, ?_⟩
    · have parts := List.takeWhile_append_dropWhile (p := fun c => decide (c ≠ '.')) (l := p.toList)
      rw [hrest, hc] at parts
      rw [toList_propertyPath, String.toList_ofList, String.toList_ofList, parts]
    · intro hdot
      rw [String.toList_ofList] at hdot
      simpa using List.all_eq_true.mp List.all_takeWhile _ hdot

theorem propertyPath_inj {entity entity' property property' : String} (h : NoDot entity)
    (h' : NoDot entity') :
    propertyPath entity property = propertyPath entity' property' ↔
      entity = entity' ∧ property = property' := by
  constructor
  · intro same
    have split := splitPath_propertyPath h property
    rw [same, splitPath_propertyPath h'] at split
    simpa [eq_comm] using split
  · rintro ⟨rfl, rfl⟩
    rfl

namespace DataTree

/-! ### Trees without dots in entity names -/

/-- No name of an entity holds a dot. -/
def DotFree (t : DataTree) : Prop := ∀ name ∈ t.entities.keys, NoDot name

instance (t : DataTree) : Decidable t.DotFree :=
  inferInstanceAs (Decidable (∀ name ∈ t.entities.keys, NoDot name))

theorem DotFree.noDot {t : DataTree} (h : t.DotFree) {name : String} {e : Entity}
    (he : t.entity? name = some e) : NoDot name :=
  h name ((Dict.mem_keys_iff _ _).mpr (Option.isSome_iff_exists.mpr ⟨e, he⟩))

theorem get?_propertyPath (t : DataTree) {name : String} (h : NoDot name) (property : String) :
    t.get? (propertyPath name property) = t.property? name property := by
  simp [get?, splitPath_propertyPath h]

theorem isTrigger_propertyPath (t : DataTree) {name : String} (h : NoDot name)
    (property : String) : t.isTrigger (propertyPath name property) =
      ((t.entity? name).map (·.isTrigger property)).getD false := by
  simp only [isTrigger, splitPath_propertyPath h, entity?]
  cases t.entities.get? name <;> rfl

/-- A path with a value is made of an entity and one of its properties. -/
theorem exists_property_of_get? {t : DataTree} {p : String} {v : Json} (h : t.get? p = some v) :
    ∃ name property e, p = propertyPath name property ∧ NoDot name ∧ t.entity? name = some e ∧
      e.properties.get? property = some v := by
  obtain ⟨⟨name, property⟩, hsplit, hv⟩ := Option.bind_eq_some_iff.mp h
  obtain ⟨e, he, hv⟩ := Option.bind_eq_some_iff.mp hv
  obtain ⟨hp, noDot⟩ := eq_propertyPath_of_splitPath hsplit
  exact ⟨name, property, e, hp, noDot, he, hv⟩

theorem mem_paths_iff {t : DataTree} (h : t.DotFree) {p : String} :
    p ∈ t.paths ↔ (t.get? p).isSome := by
  simp only [paths, List.mem_flatMap, List.mem_map, Prod.exists, Dict.mem_entries_iff,
    Dict.mem_keys_iff, Option.isSome_iff_exists]
  constructor
  · rintro ⟨name, e, he, property, hp, rfl⟩
    obtain ⟨v, hv⟩ := Option.isSome_iff_exists.mp hp
    exact ⟨v, by simp [get?_propertyPath t (h.noDot he), property?, he, hv]⟩
  · rintro ⟨v, hv⟩
    obtain ⟨name, property, e, rfl, -, he, hv⟩ := exists_property_of_get? hv
    exact ⟨name, e, he, property, by simp [Dict.contains, hv], rfl⟩

/-! ### Storing and removing -/

/-- Changing one property of an entity changes the look-up of its path. -/
theorem get?_modify (t : DataTree) {name : String} (h : NoDot name) (property : String)
    {f : Entity → Entity} {result : Option Json}
    (change : ∀ e property', (f e).properties.get? property' =
      if property = property' then result else e.properties.get? property') (q : String) :
    (t.modify name f).get? q =
      if propertyPath name property = q ∧ t.entities.contains name = true then result
      else t.get? q := by
  cases hq : splitPath q with
  | none =>
    have differ : propertyPath name property ≠ q := by
      rintro rfl
      simp [splitPath_propertyPath h] at hq
    simp [get?, hq, differ]
  | some pair =>
    obtain ⟨name', property'⟩ := pair
    obtain ⟨rfl, h'⟩ := eq_propertyPath_of_splitPath hq
    simp only [get?_propertyPath _ h', propertyPath_inj h h', property?, modify,
      Dict.get?_modify, Dict.contains]
    by_cases hname : name = name'
    · subst hname
      cases t.entities.get? name <;> simp [change]
    · simp [hname]

theorem get?_set (t : DataTree) (p q : String) (v : Json) :
    (t.set p v).get? q = if p = q ∧ t.admits p = true then some v else t.get? q := by
  cases hp : splitPath p with
  | none => simp [set, admits, hp]
  | some pair =>
    obtain ⟨name, property⟩ := pair
    obtain ⟨rfl, noDot⟩ := eq_propertyPath_of_splitPath hp
    simp only [set, admits, hp]
    exact get?_modify t noDot property (fun e property' => Dict.get?_insert _ _ _ _) q

theorem get?_unset (t : DataTree) (p q : String) :
    (t.unset p).get? q = if p = q then none else t.get? q := by
  cases hp : splitPath p with
  | none =>
    by_cases hq : p = q
    · simp [get?, ← hq, hp]
    · simp [unset, hp, hq]
  | some pair =>
    obtain ⟨name, property⟩ := pair
    obtain ⟨rfl, noDot⟩ := eq_propertyPath_of_splitPath hp
    simp only [unset, hp]
    rw [get?_modify t noDot property fun e property' => Dict.get?_erase _ _ _]
    by_cases hq : propertyPath name property = q
    · subst hq
      cases he : t.entities.get? name <;>
        simp [get?_propertyPath t noDot, property?, Dict.contains, he]
    · simp [hq]

theorem admits_of_get? {t : DataTree} {p : String} {v : Json} (h : t.get? p = some v) :
    t.admits p = true := by
  obtain ⟨⟨name, property⟩, hp, hv⟩ := Option.bind_eq_some_iff.mp h
  obtain ⟨e, he, -⟩ := Option.bind_eq_some_iff.mp hv
  simp [admits, hp, Dict.contains, he]

/-! ### Outlines -/

/-- The entities of a tree without their properties. -/
def outline (t : DataTree) : Dict (EntityKind × NameSet) :=
  t.entities.map fun _ e => (e.kind, e.triggers)

theorem outline_modify (t : DataTree) (name : String) {f : Entity → Entity}
    (same : ∀ e, ((f e).kind, (f e).triggers) = (e.kind, e.triggers)) :
    (t.modify name f).outline = t.outline := by
  refine Dict.ext_get? fun name' => ?_
  simp only [outline, modify, Dict.get?_map, Dict.get?_modify]
  split
  · simp [Function.comp_def, same]
  · rfl

@[simp] theorem outline_set (t : DataTree) (p : String) (v : Json) :
    (t.set p v).outline = t.outline := by
  unfold set
  split
  · exact outline_modify t _ fun _ => rfl
  · rfl

@[simp] theorem outline_unset (t : DataTree) (p : String) : (t.unset p).outline = t.outline := by
  unfold unset
  split
  · exact outline_modify t _ fun _ => rfl
  · rfl

theorem outline_foldl {β : Type} {step : DataTree → β → DataTree}
    (keeps : ∀ d b, (step d b).outline = d.outline) (bs : List β) (d : DataTree) :
    (bs.foldl step d).outline = d.outline := by
  induction bs generalizing d with
  | nil => rfl
  | cons b bs ih => exact (ih _).trans (keeps d b)

theorem isSome_entity?_of_outline {t t' : DataTree} (same : t.outline = t'.outline)
    (name : String) : (t.entity? name).isSome = (t'.entity? name).isSome := by
  have h := congrArg (fun d => (d.get? name).isSome) same
  simp only [outline, Dict.get?_map, Option.isSome_map] at h
  exact h

theorem admits_of_outline {t t' : DataTree} (same : t.outline = t'.outline) (p : String) :
    t.admits p = t'.admits p := by
  unfold admits
  split
  · exact isSome_entity?_of_outline same _
  · rfl

/-- A tree is determined by its outline and the values at its paths. -/
theorem ext_get? {t t' : DataTree} (h : t.DotFree) (same : t.outline = t'.outline)
    (values : ∀ p, t.get? p = t'.get? p) : t = t' := by
  have entities : t.entities = t'.entities := by
    refine Dict.ext_get? fun name => ?_
    have outline := congrArg (fun d => d.get? name) same
    simp only [DataTree.outline, Dict.get?_map] at outline
    cases he : t.entities.get? name with
    | none =>
      rw [he] at outline
      exact (Option.map_eq_none_iff.mp outline.symm).symm
    | some e =>
      rw [he] at outline
      obtain ⟨e', he', same'⟩ := Option.map_eq_some_iff.mp outline.symm
      obtain ⟨kind, triggers⟩ := Prod.mk.injEq .. ▸ same'
      have properties : e.properties = e'.properties := Dict.ext_get? fun property => by
        have value := values (propertyPath name property)
        rw [get?_propertyPath t (h.noDot he), get?_propertyPath t' (h.noDot he)] at value
        simpa [property?, he, he'] using value
      rw [he']
      cases e
      cases e'
      simp_all
  cases t
  cases t'
  exact congrArg mk entities

end DataTree

end AppBuilder
