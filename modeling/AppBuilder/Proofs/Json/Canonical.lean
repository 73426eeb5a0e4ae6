import AppBuilder.Proofs.Json.Fields

/-!
Values up to the order of their fields.

A value without duplicate names spells another one when both have one canonical form
(`Json.Spells`). Item by item and field by field they spell each other then
(`Json.Spells.array`, `Json.Spells.object`).
-/

namespace AppBuilder.Json

/-! ### Items and fields -/

theorem canonicalItems_eq (xs : List Json) : canonicalItems xs = xs.map canonical := by
  induction xs with
  | nil => rfl
  | cons x xs ih => rw [canonicalItems, ih, List.map_cons]

theorem canonicalFields_eq (fs : List (String × Json)) :
    canonicalFields fs = fs.map fun f => (f.1, f.2.canonical) := by
  induction fs with
  | nil => rfl
  | cons f fs ih => rw [canonicalFields, ih, List.map_cons]

theorem names_canonicalFields (fs : List (String × Json)) :
    (canonicalFields fs).map Prod.fst = fs.map Prod.fst := by
  rw [canonicalFields_eq, List.map_map]
  rfl

theorem lookup_canonicalFields (k : String) (fs : List (String × Json)) :
    Entries.lookup k (canonicalFields fs) = (Entries.lookup k fs).map canonical := by
  induction fs with
  | nil => rfl
  | cons f fs ih =>
    simp only [canonicalFields, Entries.lookup, ih]
    split <;> rfl

mutual

/-- No object inside a value has two fields of one name. -/
def Distinct : Json → Prop
  | .array xs => DistinctItems xs
  | .object fs => (fs.map Prod.fst).Nodup ∧ DistinctFields fs
  | _ => True

/-- `Distinct` on lists of values. -/
def DistinctItems : List Json → Prop
  | [] => True
  | x :: xs => Distinct x ∧ DistinctItems xs

/-- `Distinct` on the values of fields. -/
def DistinctFields : List (String × Json) → Prop
  | [] => True
  | (_, x) :: fs => Distinct x ∧ DistinctFields fs

end

theorem distinctItems_iff {xs : List Json} : DistinctItems xs ↔ ∀ x ∈ xs, x.Distinct := by
  induction xs with
  | nil => simp [DistinctItems]
  | cons x xs ih => simp [DistinctItems, ih]

theorem distinctFields_iff {fs : List (String × Json)} :
    DistinctFields fs ↔ ∀ f ∈ fs, f.2.Distinct := by
  induction fs with
  | nil => simp [DistinctFields]
  | cons f fs ih => simp [DistinctFields, ih]

theorem distinct_array {xs : List Json} : (array xs).Distinct ↔ ∀ x ∈ xs, x.Distinct := by
  rw [Distinct, distinctItems_iff]

theorem distinct_object {fs : List (String × Json)} :
    (object fs).Distinct ↔ (fs.map Prod.fst).Nodup ∧ ∀ f ∈ fs, f.2.Distinct := by
  rw [Distinct, distinctFields_iff]

/-! ### Canonical values -/

mutual

/-- A canonical value has distinct names and is its own canonical form. -/
theorem canonical_spec : ∀ j : Json, j.canonical.Distinct ∧ j.canonical.canonical = j.canonical
  | .null | .bool _ | .number _ | .string _ => ⟨trivial, rfl⟩
  | .array xs => by
    have items := canonicalItems_spec xs
    simp only [canonical, distinct_array, array.injEq]
    rw [canonicalItems_eq (canonicalItems xs)]
    exact ⟨fun x hx => (items x hx).1,
      (List.map_congr_left (g := id) fun x hx => (items x hx).2).trans (List.map_id _)⟩
  | .object fs => by
    have values : ∀ f ∈ (Dict.ofList (canonicalFields fs)).entries, _ := fun f hf =>
      canonicalFields_spec fs f (Dict.mem_of_get?_ofList ((Dict.mem_entries_iff _ _ _).mp hf))
    have kept : canonicalFields (Dict.ofList (canonicalFields fs)).entries =
        (Dict.ofList (canonicalFields fs)).entries := by
      rw [canonicalFields_eq]
      exact (List.map_congr_left (g := id) fun f hf =>
        congrArg (Prod.mk f.1) (values f hf).2).trans (List.map_id _)
    simp only [canonical, distinct_object]
    rw [kept, Dict.ofList_entries]
    exact ⟨⟨(Dict.ofList _).ordered.nodup, fun f hf => (values f hf).1⟩, rfl⟩

theorem canonicalItems_spec : ∀ xs : List Json, ∀ x ∈ canonicalItems xs,
    x.Distinct ∧ x.canonical = x
  | [], x, h => nomatch h
  | y :: ys, x, h => by
    rcases List.mem_cons.mp h with rfl | h
    · exact canonical_spec y
    · exact canonicalItems_spec ys x h

theorem canonicalFields_spec : ∀ fs : List (String × Json), ∀ f ∈ canonicalFields fs,
    f.2.Distinct ∧ f.2.canonical = f.2
  | [], f, h => nomatch h
  | (_, y) :: gs, f, h => by
    rcases List.mem_cons.mp h with rfl | h
    · exact canonical_spec y
    · exact canonicalFields_spec gs f h

end

/-- A value in canonical form. -/
def IsCanonical (j : Json) : Prop := j.canonical = j

theorem IsCanonical.distinct {j : Json} (h : j.IsCanonical) : j.Distinct := h ▸ (canonical_spec j).1

/-! ### Spellings -/

/-- A value without duplicate names that is another one up to the order of fields. -/
structure Spells (j e : Json) : Prop where
  distinct : j.Distinct
  canonical_eq : j.canonical = e.canonical

/-- Fields with distinct names that spell others, name by name. -/
structure SpellsFields (fs es : List (String × Json)) : Prop where
  nodup : (fs.map Prod.fst).Nodup
  lookup : ∀ k, Option.Rel Spells (Entries.lookup k fs) (Entries.lookup k es)

theorem Spells.refl {j : Json} (distinct : j.Distinct) : j.Spells j := ⟨distinct, rfl⟩

theorem spells_canonical (j : Json) : j.canonical.Spells j :=
  ⟨(canonical_spec j).1, (canonical_spec j).2⟩

/-- Neither an array nor an object. -/
def Atomic : Json → Prop
  | .array _ | .object _ => False
  | _ => True

/-- What spells an atomic value is that value. -/
theorem Spells.eq_of_atomic {j e : Json} (h : j.Spells e) (atomic : e.Atomic) : j = e := by
  have same := h.canonical_eq
  cases e <;> cases j <;> simp_all [canonical, Atomic]

theorem Spells.array {j : Json} {es : List Json} (h : j.Spells (.array es)) :
    ∃ xs, j = .array xs ∧ List.Forall₂ Spells xs es := by
  obtain ⟨distinct, same⟩ := h
  cases j with
  | array xs =>
    refine ⟨xs, rfl, ?_⟩
    simp only [canonical, array.injEq, canonicalItems_eq] at same
    rw [distinct_array] at distinct
    induction xs generalizing es with
    | nil =>
      obtain rfl : es = [] := List.map_eq_nil_iff.mp same.symm
      exact .nil
    | cons x xs ih =>
      cases es with
      | nil => cases same
      | cons e es =>
        obtain ⟨head, tail⟩ := List.cons.inj same
        exact .cons ⟨distinct x List.mem_cons_self, head⟩
          (ih (fun y hy => distinct y (List.mem_cons_of_mem _ hy)) tail)
  | _ => simp [canonical] at same

theorem Spells.object {j : Json} {es : List (String × Json)} (h : j.Spells (.object es))
    (nodup : (es.map Prod.fst).Nodup) : ∃ fs, j = .object fs ∧ SpellsFields fs es := by
  obtain ⟨distinct, same⟩ := h
  cases j with
  | object fs =>
    obtain ⟨nodup', values⟩ := distinct_object.mp distinct
    refine ⟨fs, rfl, nodup', fun k => ?_⟩
    simp only [canonical, object.injEq] at same
    have there := congrArg (Entries.lookup k) same
    change (Dict.ofList _).get? k = (Dict.ofList _).get? k at there
    rw [Dict.get?_ofList_of_nodup (by rwa [names_canonicalFields]),
      Dict.get?_ofList_of_nodup (by rwa [names_canonicalFields]), lookup_canonicalFields,
      lookup_canonicalFields] at there
    cases own : Entries.lookup k fs with
    | none =>
      rw [own, Option.map_none, eq_comm, Option.map_eq_none_iff] at there
      rw [there]
      exact .none
    | some v =>
      rw [own, Option.map_some, eq_comm] at there
      obtain ⟨e, listed, same⟩ := Option.map_eq_some_iff.mp there
      rw [listed]
      exact .some ⟨values _ (Entries.mem_of_lookup own), same.symm⟩
  | _ => simp [canonical] at same

end AppBuilder.Json
