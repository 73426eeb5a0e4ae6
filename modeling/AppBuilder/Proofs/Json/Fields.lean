import AppBuilder.Proofs.Json.Same
import Mathlib.Data.List.Nodup

/-!
Objects and their fields.

Two objects with their fields in order are equal when they have equal fields under every name
(`Json.sameFields_of_lookup`).
-/

namespace AppBuilder

/-! ### Entries in order -/

theorem Entries.lookup_eq_none_iff {α : Type} {k : String} {es : List (String × α)} :
    lookup k es = none ↔ k ∉ es.map Prod.fst := by
  induction es with
  | nil => simp [lookup]
  | cons e es ih =>
    by_cases he : e.1 = k
    · simp [lookup, he]
    · simp [lookup, he, ih, Ne.symm he]

theorem Entries.Ordered.nodup {α : Type} {es : List (String × α)} (ordered : Ordered es) :
    (es.map Prod.fst).Nodup :=
  List.pairwise_map.mpr (ordered.imp fun lt => String.ne_of_lt lt)

theorem Entries.lookup_eq_some_iff {α : Type} {k : String} {v : α} {es : List (String × α)}
    (nodup : (es.map Prod.fst).Nodup) : lookup k es = some v ↔ (k, v) ∈ es := by
  refine ⟨mem_of_lookup, fun h => ?_⟩
  induction es with
  | nil => cases h
  | cons e es ih =>
    obtain ⟨fresh, nodup⟩ := List.nodup_cons.mp nodup
    rcases List.mem_cons.mp h with rfl | h
    · simp [lookup]
    · have other : e.1 ≠ k := fun same => fresh (same ▸ List.mem_map_of_mem h)
      rw [lookup, if_neg other, ih nodup h]

theorem Entries.lookup_filter {α : Type} (keep : String → Bool) (k : String)
    (es : List (String × α)) :
    lookup k (es.filter fun e => keep e.1) = if keep k then lookup k es else none := by
  induction es with
  | nil => simp [lookup]
  | cons e es ih =>
    by_cases here : e.1 = k
    · subst here
      by_cases kept : keep e.1 = true <;> simp [lookup, ih, kept]
    · by_cases kept : keep e.1 = true <;> simp [lookup, ih, here, kept]

theorem Dict.mem_values_of_get? {α : Type} {d : Dict α} {k : String} {v : α}
    (h : d.get? k = some v) : v ∈ d.values :=
  List.mem_map.mpr ⟨(k, v), (Dict.mem_entries_iff _ _ _).mpr h, rfl⟩

/-- The dictionary of entries with distinct names has the values of the entries. -/
theorem Dict.get?_ofList_of_nodup {α : Type} {es : List (String × α)}
    (nodup : (es.map Prod.fst).Nodup) (k : String) :
    (Dict.ofList es).get? k = Entries.lookup k es := by
  have stored (d : Dict α) : (es.foldl (fun d e => d.insert e.1 e.2) d).get? k =
      (Entries.lookup k es).or (d.get? k) := by
    induction es generalizing d with
    | nil => rfl
    | cons e es ih =>
      obtain ⟨fresh, nodup⟩ := List.nodup_cons.mp nodup
      rw [List.foldl_cons, ih nodup, Dict.get?_insert]
      by_cases he : e.1 = k
      · simp [Entries.lookup, he, Entries.lookup_eq_none_iff.mpr (he ▸ fresh)]
      · simp [Entries.lookup, he]
  exact (stored .empty).trans (Option.or_none)

/-- The dictionary of entries in order has the values of the entries. -/
theorem Dict.get?_ofList {α : Type} {es : List (String × α)} (ordered : Entries.Ordered es)
    (k : String) : (Dict.ofList es).get? k = Entries.lookup k es :=
  get?_ofList_of_nodup ordered.nodup k

theorem Dict.ofList_entries {α : Type} (d : Dict α) : Dict.ofList d.entries = d :=
  ext_get? fun k => get?_ofList d.ordered k

theorem Dict.mem_of_get?_ofList {α : Type} {es : List (String × α)} {k : String} {v : α}
    (h : (Dict.ofList es).get? k = some v) : (k, v) ∈ es := by
  have stored : ∀ (es : List (String × α)) (d : Dict α),
      (es.foldl (fun d e => d.insert e.1 e.2) d).get? k = some v →
      (k, v) ∈ es ∨ d.get? k = some v := by
    intro es
    induction es with
    | nil => exact fun d h => .inr h
    | cons e es ih =>
      intro d h
      rcases ih _ h with h | h
      · exact .inl (List.mem_cons_of_mem _ h)
      · rcases Dict.get?_insert_eq_some_iff.mp h with ⟨rfl, rfl⟩ | ⟨-, h⟩
        · exact .inl List.mem_cons_self
        · exact .inr h
  simpa using stored es .empty h

namespace Json

/-! ### Fields in order -/

/-- The fields of an object are in the order of their names. -/
def InOrder : Json → Prop
  | .object fields => Entries.Ordered fields
  | _ => True

instance : DecidablePred InOrder
  | .object fields => inferInstanceAs (Decidable (Entries.Ordered fields))
  | .null | .bool _ | .number _ | .string _ | .array _ => .isTrue trivial

/-- The names of fields in order, as a set. -/
def namesOf (fields : List (String × Json)) (ordered : Entries.Ordered fields) : NameSet :=
  ⟨fields.map Prod.fst, List.pairwise_map.mpr ordered⟩

variable {fs gs : List (String × Json)}

theorem sameFields_of_names (names : fs.map Prod.fst = gs.map Prod.fst)
    (nodup : (fs.map Prod.fst).Nodup)
    (same : ∀ name, (Entries.lookup name fs == Entries.lookup name gs) = true) :
    sameFields fs gs = true := by
  induction fs generalizing gs with
  | nil =>
    obtain rfl : gs = [] := List.map_eq_nil_iff.mp names.symm
    rfl
  | cons f fs ih =>
    cases gs with
    | nil => simp at names
    | cons g gs =>
      obtain ⟨head, tail⟩ := List.cons.inj names
      obtain ⟨fresh, nodup⟩ := List.nodup_cons.mp nodup
      have first := same f.1
      simp only [Entries.lookup, if_pos, ← head] at first
      have rest : sameFields fs gs = true := by
        refine ih tail nodup fun name => ?_
        by_cases here : f.1 = name
        · subst here
          rw [Entries.lookup_eq_none_iff.mpr fresh, Entries.lookup_eq_none_iff.mpr (tail ▸ fresh)]
          rfl
        · have there := same name
          rwa [Entries.lookup, Entries.lookup, if_neg here, if_neg (head ▸ here)] at there
      simp only [sameFields, Bool.and_eq_true, decide_eq_true_eq]
      exact ⟨⟨head, first⟩, rest⟩

/-- Fields in order are the same when they are under every name. -/
theorem sameFields_of_lookup (hf : Entries.Ordered fs) (hg : Entries.Ordered gs)
    (same : ∀ name, (Entries.lookup name fs == Entries.lookup name gs) = true) :
    sameFields fs gs = true := by
  have names : namesOf fs hf = namesOf gs hg := by
    refine NameSet.ext_mem fun name => ?_
    rw [← not_iff_not]
    change name ∉ fs.map Prod.fst ↔ name ∉ gs.map Prod.fst
    rw [← Entries.lookup_eq_none_iff, ← Entries.lookup_eq_none_iff]
    have there := same name
    cases left : Entries.lookup name fs <;> cases right : Entries.lookup name gs <;> simp_all
  exact sameFields_of_names (congrArg NameSet.toList names)
    hf.nodup same

end Json

end AppBuilder
