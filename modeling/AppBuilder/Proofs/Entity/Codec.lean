import AppBuilder.Entity.Tree
import AppBuilder.Proofs.Json.Reading

/-!
Reading written data trees.

An entity is written as one object with its kind and its triggers among its properties. Whatever
spells it is read as the entity (`Entity.reads`) unless a property has the name of one of these
two fields.
-/

namespace AppBuilder

open Json Decode

theorem NameSet.ofList_toList (s : NameSet) : NameSet.ofList s.toList = s :=
  NameSet.ext_mem fun a => NameSet.mem_ofList s.toList a

theorem Json.distinct_strings (xs : List String) : (Json.strings xs).Distinct :=
  distinct_array.mpr fun x hx => by
    obtain ⟨s, -, rfl⟩ := List.mem_map.mp hx
    trivial

/-- An array of texts is read as a list of texts. -/
theorem Decode.reads_strings (xs : List String) :
    Reads (Decode.list Decode.string) (.strings xs) xs :=
  reads_list fun s _ => reads_string s

/-! ### Entities -/

namespace Entity

/-- No property has the name of a field that is no property. -/
def Unreserved (e : Entity) : Prop := ∀ name ∈ ownFields, e.properties.contains name = false

instance (e : Entity) : Decidable e.Unreserved :=
  inferInstanceAs (Decidable (∀ name ∈ ownFields, e.properties.contains name = false))

/-- The values of all properties are canonical. -/
def Typed (e : Entity) : Prop := ∀ v ∈ e.properties.values, v.IsCanonical

/-- The fields of an entity as they are written. -/
def fields (e : Entity) : List (String × Json) :=
  ("ENTITY_TYPE", .string e.kind.name) ::
    ((if e.triggers.isEmpty then [] else [("triggerPaths", .strings e.triggers.toList)]) ++
      e.properties.entries)

variable {e : Entity} (unreserved : e.Unreserved)
include unreserved

theorem get?_own {name : String} (own : name ∈ ownFields) : e.properties.get? name = none := by
  simpa [Dict.contains] using unreserved name own

theorem nodup_fields : (e.fields.map Prod.fst).Nodup := by
  have free : ∀ name ∈ ownFields, name ∉ e.properties.entries.map Prod.fst := fun name own =>
    Entries.lookup_eq_none_iff.mp (get?_own unreserved own)
  have properties := e.properties.ordered.nodup
  have kind := free "ENTITY_TYPE" (by decide)
  have triggers := free "triggerPaths" (by decide)
  by_cases bare : e.triggers.isEmpty = true
  · simp only [fields, if_pos bare, List.nil_append, List.map_cons, List.nodup_cons]
    exact ⟨kind, properties⟩
  · simp only [fields, if_neg bare, List.singleton_append, List.map_cons, List.nodup_cons,
      List.mem_cons, not_or]
    exact ⟨⟨by decide, kind⟩, triggers, properties⟩

omit unreserved in
theorem lookup_kind : Entries.lookup "ENTITY_TYPE" e.fields = some (.string e.kind.name) := rfl

theorem lookup_triggers : Entries.lookup "triggerPaths" e.fields =
    if e.triggers.isEmpty then none else some (.strings e.triggers.toList) := by
  by_cases bare : e.triggers.isEmpty = true
  · have missing : e.properties.get? "triggerPaths" = none := get?_own unreserved (by decide)
    simpa [fields, bare, Entries.lookup, Dict.get?] using missing
  · simp [fields, bare, Entries.lookup]

omit unreserved in
theorem lookup_property {name : String} (property : name ∉ ownFields) :
    Entries.lookup name e.fields = e.properties.get? name := by
  obtain ⟨kind, triggers⟩ : name ≠ "ENTITY_TYPE" ∧ name ≠ "triggerPaths" := by
    simpa [ownFields] using property
  by_cases bare : e.triggers.isEmpty = true <;>
    simp [fields, bare, Entries.lookup, kind.symm, triggers.symm, Dict.get?]

theorem distinct_toJson (typed : e.Typed) : e.toJson.Distinct := by
  refine distinct_object.mpr ⟨nodup_fields unreserved, fun f hf => ?_⟩
  rcases List.mem_cons.mp hf with rfl | hf
  · trivial
  rcases List.mem_append.mp hf with hf | hf
  · split at hf
    · cases hf
    · obtain rfl := List.mem_singleton.mp hf
      exact distinct_strings _
  · exact (typed f.2 (List.mem_map_of_mem hf)).distinct

/-- Whatever spells a written entity is read as that entity. -/
theorem reads (typed : e.Typed) : Reads ofJson? e.toJson e := by
  intro j h
  obtain ⟨fs, rfl, spells⟩ : ∃ fs, j = .object fs ∧ SpellsFields fs e.fields :=
    h.object (nodup_fields unreserved)
  have kind : Reads (Decode.word EntityKind.table) (.string e.kind.name) e.kind :=
    reads_word (by cases e.kind <;> rfl)
  have triggers : Decode.defaulted "triggerPaths" [] (Decode.list Decode.string) (.named fs) =
      some (e.triggers.toList, .named fs) := by
    have written := lookup_triggers unreserved
    by_cases bare : e.triggers.isEmpty = true
    · rw [List.isEmpty_iff.mp bare]
      exact spells.defaulted_missing (written.trans (if_pos bare))
    · exact spells.defaulted (written.trans (if_neg bare)) (reads_strings _)
  have properties :
      Dict.ofList (canonicalFields (fs.filter fun f => !ownFields.contains f.1)) =
        e.properties := by
    refine Dict.ext_get? fun k => ?_
    rw [Dict.get?_ofList_of_nodup, lookup_canonicalFields,
      Entries.lookup_filter fun name => !ownFields.contains name]
    swap
    · rw [names_canonicalFields]
      exact spells.nodup.sublist (List.filter_sublist.map Prod.fst)
    by_cases own : k ∈ ownFields
    · simp [own, get?_own unreserved own]
    · have there := spells.lookup k
      rw [lookup_property own] at there
      rw [if_pos (by simpa using own)]
      generalize Entries.lookup k fs = found at there ⊢
      cases held : e.properties.get? k with
      | none =>
        rw [held] at there
        cases there
        rfl
      | some v =>
        rw [held] at there
        cases there with
        | some same =>
          exact congrArg some (same.canonical_eq.trans (typed v (Dict.mem_values_of_get? held)))
  have own : Decode.fields (do
      let kind ← Decode.defaulted "ENTITY_TYPE" EntityKind.widget (Decode.word EntityKind.table)
      let triggers ← Decode.defaulted "triggerPaths" [] (Decode.list Decode.string)
      return (kind, triggers)) (.object fs) = some (e.kind, e.triggers.toList) := by
    refine congrArg (Option.map Prod.fst)
      (?_ : _ = some ((e.kind, e.triggers.toList), Record.named fs))
    exact (bind_named (spells.defaulted lookup_kind kind)).trans (bind_named triggers)
  rw [ofJson?, own]
  change some (Entity.mk e.kind (.ofList e.triggers.toList) (.ofList _)) = some e
  rw [properties, NameSet.ofList_toList]

end Entity

/-! ### Trees -/

namespace DataTree

/-- No property has the name of a field that is no property. -/
def Unreserved (t : DataTree) : Prop := ∀ e ∈ t.entities.values, e.Unreserved

instance (t : DataTree) : Decidable t.Unreserved :=
  inferInstanceAs (Decidable (∀ e ∈ t.entities.values, e.Unreserved))

/-- The values of all properties are canonical. -/
def Typed (t : DataTree) : Prop := ∀ e ∈ t.entities.values, e.Typed

variable {t : DataTree} (unreserved : t.Unreserved) (typed : t.Typed)
include unreserved typed

theorem distinct_toJson : t.toJson.Distinct := by
  refine distinct_object.mpr ⟨(Dict.ordered _).nodup, fun f hf => ?_⟩
  obtain ⟨⟨name, e⟩, listed, rfl⟩ := List.mem_map.mp hf
  have own : e ∈ t.entities.values := List.mem_map_of_mem listed
  exact Entity.distinct_toJson (unreserved e own) (typed e own)

/-- Whatever spells a written tree is read as that tree. -/
theorem reads : Reads ofJson? t.toJson t := by
  intro j h
  have entities : Decode.dict Entity.ofJson? j = some t.entities := by
    refine reads_dict (fun k e held => ?_) j h
    have own := Dict.mem_values_of_get? held
    exact Entity.reads (unreserved e own) (typed e own)
  rw [ofJson?, entities]
  rfl

end DataTree

end AppBuilder
