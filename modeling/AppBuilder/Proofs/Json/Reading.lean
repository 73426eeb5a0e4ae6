import AppBuilder.Json.Decode
import AppBuilder.Proofs.Json.Canonical

/-!
Decoders that read what was written.

A decoder reads a value out of a JSON value when it gives it for every spelling of that
(`Decode.Reads`). Records are read field by field, each by its name, so a reader of a record reads
when each of its fields does (`Json.SpellsFields.required`, `Json.SpellsFields.defaulted`).
-/

namespace AppBuilder

open Json

namespace Decode

variable {α β : Type}

/-- Whatever spells `e` is decoded as `a`. -/
def Reads (decode : Decoder α) (e : Json) (a : α) : Prop :=
  ∀ j : Json, j.Spells e → decode j = some a

/-! ### Single values -/

theorem Reads.of_atomic {decode : Decoder α} {e : Json} {a : α} (atomic : e.Atomic)
    (own : decode e = some a) : Reads decode e a := fun _ h => h.eq_of_atomic atomic ▸ own

theorem reads_json {e : Json} (canonical : e.IsCanonical) : Reads json e e := fun _ h =>
  congrArg some (h.canonical_eq.trans canonical)

theorem reads_string (s : String) : Reads string (.string s) s := .of_atomic trivial rfl

theorem reads_bool (b : Bool) : Reads bool (.bool b) b := .of_atomic trivial rfl

theorem reads_nat32 {n : Nat} (small : n < twoTo 32) : Reads nat32 (.nat n) n := by
  refine .of_atomic trivial ?_
  have bound : (n : Int) ≤ twoTo 32 - 1 := by omega
  simp [nat32, Json.nat, Json.int, intBetween, bound]

theorem reads_word {table : List (String × α)} {s : String} {a : α}
    (listed : Entries.lookup s table = some a) : Reads (word table) (.string s) a :=
  .of_atomic trivial listed

/-- A value that may be null is read, null for an absent one. -/
theorem reads_optional {decode : Decoder α} {write : α → Json} {a : Option α}
    (atomic : ∀ x ∈ a, (write x).Atomic ∧ write x ≠ .null ∧ decode (write x) = some x) :
    Reads (optional decode) (.orNull (a.map write)) a := by
  cases a with
  | none => exact .of_atomic trivial rfl
  | some x =>
    obtain ⟨plain, there, own⟩ := atomic x rfl
    refine .of_atomic plain ?_
    simp [optional, Json.orNull, own]

/-! ### Lists and dictionaries -/

theorem mapM_eq_some_of_forall₂ {f : β → Option α} {xs : List β} {as : List α}
    (h : List.Forall₂ (fun x a => f x = some a) xs as) : xs.mapM f = some as := by
  induction h with
  | nil => rfl
  | cons head _ ih => simp [List.mapM_cons, head, ih]

theorem reads_list {decode : Decoder α} {write : α → Json} {as : List α}
    (reads : ∀ a ∈ as, Reads decode (write a) a) :
    Reads (list decode) (.array (as.map write)) as := by
  intro j h
  obtain ⟨xs, rfl, items⟩ := h.array
  clear h
  rw [List.forall₂_map_right_iff] at items
  refine mapM_eq_some_of_forall₂ ?_
  induction items with
  | nil => exact .nil
  | cons head _ ih =>
    exact .cons (reads _ List.mem_cons_self _ head)
      (ih fun a ha => reads a (List.mem_cons_of_mem _ ha))

theorem exists_mapM {f : β → Option α} {R : β → α → Prop} {xs : List β}
    (h : ∀ x ∈ xs, ∃ a, f x = some a ∧ R x a) :
    ∃ as, xs.mapM f = some as ∧ List.Forall₂ R xs as := by
  induction xs with
  | nil => exact ⟨[], rfl, .nil⟩
  | cons x xs ih =>
    obtain ⟨a, head, first⟩ := h x List.mem_cons_self
    obtain ⟨as, tail, rest⟩ := ih fun y hy => h y (List.mem_cons_of_mem _ hy)
    exact ⟨a :: as, by simp [List.mapM_cons, head, tail], .cons first rest⟩

theorem reads_dict {decode : Decoder α} {write : α → Json} {d : Dict α}
    (reads : ∀ k a, d.get? k = some a → Reads decode (write a) a) :
    Reads (dict decode) (.ofDict (d.map fun _ a => write a)) d := by
  intro j h
  obtain ⟨fs, rfl, spells⟩ := h.object (Dict.ordered _).nodup
  have written (k : String) : Entries.lookup k (d.map fun _ a => write a).entries =
      (d.get? k).map write := Dict.get?_map _ _ _
  have each : ∀ f ∈ fs, ∃ e : String × α, ((decode f.2).map fun v => (f.1, v)) = some e ∧
      e.1 = f.1 ∧ d.get? f.1 = some e.2 := by
    intro f hf
    have there := spells.lookup f.1
    rw [(Entries.lookup_eq_some_iff spells.nodup).mpr hf, written] at there
    cases held : d.get? f.1 with
    | none =>
      rw [held] at there
      cases there
    | some a =>
      rw [held] at there
      exact ⟨(f.1, a), by rw [reads f.1 a held _ (Option.rel_some_some.mp there)]; rfl, rfl, rfl⟩
  obtain ⟨es, read, listed⟩ := exists_mapM each
  have names : es.map Prod.fst = fs.map Prod.fst := by
    clear each read spells h
    induction listed with
    | nil => rfl
    | cons head _ ih => rw [List.map_cons, List.map_cons, head.1, ih]
  have values : ∀ e ∈ es, d.get? e.1 = some e.2 := by
    clear each read spells h names
    induction listed with
    | nil => exact fun e he => nomatch he
    | cons head _ ih =>
      intro e he
      rcases List.mem_cons.mp he with rfl | he
      · rw [head.1, head.2]
      · exact ih e he
  have same : Dict.ofList es = d := by
    refine Dict.ext_get? fun k => ?_
    rw [Dict.get?_ofList_of_nodup (names ▸ spells.nodup)]
    cases held : Entries.lookup k es with
    | some a => exact (values _ (Entries.mem_of_lookup held)).symm
    | none =>
      have there := spells.lookup k
      rw [Entries.lookup_eq_none_iff, names, ← Entries.lookup_eq_none_iff] at held
      rw [held, written] at there
      cases absent : d.get? k with
      | none => rfl
      | some a =>
        rw [absent] at there
        cases there
  simp [dict, read, same]

/-! ### Records -/

/-- Fields of distinct names are found by their names. -/
theorem take_named {fs : List (String × Json)} (nodup : (fs.map Prod.fst).Nodup) (name : String) :
    take name (.named fs) = some (Entries.lookup name fs, .named fs) := by
  have found : fs.filter (fun f => f.1 = name) =
      ((Entries.lookup name fs).map (Prod.mk name)).toList := by
    induction fs with
    | nil => rfl
    | cons f fs ih =>
      obtain ⟨fresh, nodup⟩ := List.nodup_cons.mp nodup
      by_cases here : f.1 = name
      · subst here
        simp [Entries.lookup, ih nodup, Entries.lookup_eq_none_iff.mpr fresh]
      · simp [Entries.lookup, here, ih nodup]
  simp only [take, found]
  cases Entries.lookup name fs <;> rfl

/-- Reading goes on behind what was read from an object. -/
theorem bind_named {m : RecordReader α} {next : α → RecordReader β} {a : α}
    {fs : List (String × Json)} (read : m (.named fs) = some (a, .named fs)) :
    (m >>= next) (.named fs) = next a (.named fs) := by
  change (m (.named fs) >>= fun x => next x.1 x.2) = _
  rw [read]
  rfl

theorem reads_fields {reader : RecordReader α} {es : List (String × Json)} {a : α}
    (nodup : (es.map Prod.fst).Nodup)
    (reads : ∀ fs, SpellsFields fs es → reader (.named fs) = some (a, .named fs)) :
    Reads (fields reader) (.object es) a := by
  intro j h
  obtain ⟨fs, rfl, spells⟩ := h.object nodup
  exact congrArg (Option.map Prod.fst) (reads fs spells)

/-- On objects a record is read like fields. -/
theorem reads_record {reader : RecordReader α} {es : List (String × Json)} {a : α}
    (nodup : (es.map Prod.fst).Nodup)
    (reads : ∀ fs, SpellsFields fs es → reader (.named fs) = some (a, .named fs)) :
    Reads (record reader) (.object es) a := by
  intro j h
  obtain ⟨fs, rfl, -⟩ := h.object nodup
  exact reads_fields nodup reads _ h

end Decode

namespace Json.SpellsFields

open Decode

variable {α : Type} {fs es : List (String × Json)} (h : SpellsFields fs es) {name : String}
  {decode : Decoder α} {e : Json} {a : α}
include h

theorem take (name : String) : ∃ v, Decode.take name (.named fs) = some (v, .named fs) ∧
    Option.Rel Spells v (Entries.lookup name es) :=
  ⟨_, take_named h.nodup name, h.lookup name⟩

/-- A field that was written is read. -/
theorem required (written : Entries.lookup name es = some e) (reads : Reads decode e a) :
    Decode.required name decode (.named fs) = some (a, .named fs) := by
  obtain ⟨v, taken, spells⟩ := h.take name
  rw [written] at spells
  refine (bind_named taken).trans ?_
  cases spells with
  | some spells =>
    simp only [reads _ spells]
    rfl

theorem defaulted {default : α} (written : Entries.lookup name es = some e)
    (reads : Reads decode e a) :
    Decode.defaulted name default decode (.named fs) = some (a, .named fs) := by
  obtain ⟨v, taken, spells⟩ := h.take name
  rw [written] at spells
  refine (bind_named taken).trans ?_
  cases spells with
  | some spells =>
    simp only [reads _ spells]
    rfl

/-- A field that was left out has its default. -/
theorem defaulted_missing (left : Entries.lookup name es = none) :
    Decode.defaulted name a decode (.named fs) = some (a, .named fs) := by
  obtain ⟨v, taken, spells⟩ := h.take name
  rw [left] at spells
  refine (bind_named taken).trans ?_
  cases spells
  rfl

end Json.SpellsFields

end AppBuilder
