/-!
Finite maps from names to values, and finite sets of names.

A `Dict` keeps its entries in strictly increasing key order, so two dictionaries
with the same look-ups are the same dictionary (`Dict.ext_get?`) and every listing
of one comes out sorted. Names are compared by code point. A `NameSet` is a
strictly increasing list of names.

Main statements: `Dict.get?_insert`, `Dict.get?_erase`, `Dict.ext_get?`,
`NameSet.mem_insert`, `NameSet.ext_mem`.
-/

namespace AppBuilder

variable {α β : Type}

/-! ### Sorted entry lists -/

namespace Entries

/-- Entries in strictly increasing key order. -/
abbrev Ordered (es : List (String × α)) : Prop := es.Pairwise fun a b => a.1 < b.1

/-- The value stored under a key. -/
def lookup (k : String) : List (String × α) → Option α
  | [] => none
  | e :: es => if e.1 = k then some e.2 else lookup k es

/-- Store a value under a key, replacing the value already there. -/
def insert (k : String) (v : α) : List (String × α) → List (String × α)
  | [] => [(k, v)]
  | e :: es =>
    if k < e.1 then (k, v) :: e :: es
    else if e.1 = k then (k, v) :: es
    else e :: insert k v es

theorem lookup_insert (k k' : String) (v : α) (es : List (String × α)) :
    lookup k' (insert k v es) = if k = k' then some v else lookup k' es := by
  induction es with
  | nil => simp [insert, lookup]
  | cons e es ih =>
    unfold insert
    split
    · simp [lookup]
    · split
      · rename_i he
        by_cases hk : k = k'
        · simp [lookup, hk]
        · simp [lookup, hk, he]
      · rename_i he
        by_cases hk : e.1 = k'
        · have : k ≠ k' := fun h => he (hk.trans h.symm)
          simp [lookup, hk, this]
        · simp [lookup, hk, ih]

theorem mem_insert {k : String} {v : α} {es : List (String × α)} {e : String × α}
    (h : e ∈ insert k v es) : e = (k, v) ∨ e ∈ es := by
  induction es with
  | nil => simpa [insert] using h
  | cons d ds ih =>
    unfold insert at h
    split at h
    · simpa using h
    · split at h
      · rcases List.mem_cons.mp h with h | h
        · exact .inl h
        · exact .inr (List.mem_cons_of_mem _ h)
      · rcases List.mem_cons.mp h with h | h
        · exact .inr (h ▸ List.mem_cons_self)
        · exact (ih h).imp_right (List.mem_cons_of_mem _)

theorem Ordered.insert {k : String} {v : α} {es : List (String × α)} (h : Ordered es) :
    Ordered (Entries.insert k v es) := by
  induction es with
  | nil => simp [Entries.insert, Ordered]
  | cons e es ih =>
    have hes := List.Pairwise.of_cons h
    have hhd := fun d (hd : d ∈ es) => List.rel_of_pairwise_cons h hd
    unfold Entries.insert
    split
    · rename_i hlt
      refine List.Pairwise.cons (fun d hd => ?_) h
      rcases List.mem_cons.mp hd with rfl | hd
      · exact hlt
      · exact String.lt_trans hlt (hhd d hd)
    · split
      · rename_i he
        exact List.Pairwise.cons (fun d hd => by simpa [← he] using hhd d hd) hes
      · rename_i hlt hne
        refine List.Pairwise.cons (fun d hd => ?_) (ih hes)
        rcases mem_insert hd with rfl | hd
        · rcases Decidable.em (e.1 < k) with hl | hl
          · exact hl
          · exact absurd (String.le_antisymm (String.not_lt.mp hlt) (String.not_lt.mp hl)) hne
        · exact hhd d hd

theorem lookup_eq_none_of_lt {k : String} {es : List (String × α)}
    (h : ∀ e ∈ es, k < e.1) : lookup k es = none := by
  induction es with
  | nil => rfl
  | cons e es ih =>
    have hne : e.1 ≠ k := fun he => String.lt_irrefl k (by simpa [he] using h e List.mem_cons_self)
    simp only [lookup, if_neg hne]
    exact ih fun d hd => h d (List.mem_cons_of_mem _ hd)

theorem mem_of_lookup {k : String} {v : α} {es : List (String × α)}
    (h : lookup k es = some v) : (k, v) ∈ es := by
  induction es with
  | nil => simp [lookup] at h
  | cons e es ih =>
    simp only [lookup] at h
    split at h
    · rename_i he
      obtain rfl := Option.some.inj h
      exact he ▸ List.mem_cons_self
    · exact List.mem_cons_of_mem _ (ih h)

theorem lookup_of_mem {k : String} {v : α} {es : List (String × α)} (ho : Ordered es)
    (h : (k, v) ∈ es) : lookup k es = some v := by
  induction es with
  | nil => simp at h
  | cons e es ih =>
    rcases List.mem_cons.mp h with rfl | h
    · simp [lookup]
    · have hne : e.1 ≠ k := fun he =>
        String.lt_irrefl k (by simpa [he] using List.rel_of_pairwise_cons ho h)
      simp only [lookup, if_neg hne]
      exact ih (List.Pairwise.of_cons ho) h

/-- Sorted entry lists with the same look-ups are equal. -/
theorem ext_lookup {es ds : List (String × α)} (he : Ordered es) (hd : Ordered ds)
    (h : ∀ k, lookup k es = lookup k ds) : es = ds := by
  induction es generalizing ds with
  | nil =>
    cases ds with
    | nil => rfl
    | cons d ds => simpa [lookup] using h d.1
  | cons e es ih =>
    cases ds with
    | nil => simpa [lookup] using h e.1
    | cons d ds =>
      have hes := List.Pairwise.of_cons he
      have hds := List.Pairwise.of_cons hd
      have hkey : e.1 = d.1 := by
        rcases Decidable.em (e.1 < d.1) with hlt | hlt
        · have := h e.1
          rw [@lookup_eq_none_of_lt _ _ (d :: ds)] at this
          · simp [lookup] at this
          · intro c hc
            rcases List.mem_cons.mp hc with rfl | hc
            · exact hlt
            · exact String.lt_trans hlt (List.rel_of_pairwise_cons hd hc)
        · rcases Decidable.em (d.1 < e.1) with hgt | hgt
          · have := h d.1
            rw [@lookup_eq_none_of_lt _ _ (e :: es)] at this
            · simp [lookup] at this
            · intro c hc
              rcases List.mem_cons.mp hc with rfl | hc
              · exact hgt
              · exact String.lt_trans hgt (List.rel_of_pairwise_cons he hc)
          · exact String.le_antisymm (String.not_lt.mp hgt) (String.not_lt.mp hlt)
      have hval : e.2 = d.2 := by
        have := h e.1
        simpa [lookup, hkey] using this
      have hrest : es = ds := by
        refine ih hes hds fun k => ?_
        by_cases hk : e.1 = k
        · rw [lookup_eq_none_of_lt fun c hc => hk ▸ List.rel_of_pairwise_cons he hc,
            lookup_eq_none_of_lt fun c hc => hk ▸ hkey ▸ List.rel_of_pairwise_cons hd hc]
        · have := h k
          rw [lookup, lookup, if_neg hk, if_neg (hkey ▸ hk)] at this
          exact this
      rw [hrest, Prod.ext hkey hval]

end Entries

/-! ### Dictionaries -/

/-- A finite map from names to values, listed by increasing name. -/
structure Dict (α : Type) where
  entries : List (String × α)
  ordered : Entries.Ordered entries

namespace Dict

theorem ext {d e : Dict α} (h : d.entries = e.entries) : d = e := by
  cases d; cases e; cases h; rfl

instance [DecidableEq α] : DecidableEq (Dict α) := fun d e =>
  decidable_of_iff (d.entries = e.entries) ⟨ext, fun h => h ▸ rfl⟩

/-- The dictionary with no entry. -/
def empty : Dict α := ⟨[], List.Pairwise.nil⟩

instance : Inhabited (Dict α) := ⟨empty⟩

/-- The value under a name. -/
def get? (d : Dict α) (k : String) : Option α := Entries.lookup k d.entries

/-- Whether a name has a value. -/
def contains (d : Dict α) (k : String) : Bool := (d.get? k).isSome

/-- Store a value under a name, replacing the one there. -/
def insert (d : Dict α) (k : String) (v : α) : Dict α :=
  ⟨Entries.insert k v d.entries, d.ordered.insert⟩

/-- Remove a name. -/
def erase (d : Dict α) (k : String) : Dict α :=
  ⟨d.entries.filter fun e => e.1 ≠ k, d.ordered.filter _⟩

/-- The entries whose name and value pass a test. -/
def filter (p : String → α → Bool) (d : Dict α) : Dict α :=
  ⟨d.entries.filter fun e => p e.1 e.2, d.ordered.filter _⟩

/-- Change the value under a name, if it has one. -/
def modify (d : Dict α) (k : String) (f : α → α) : Dict α :=
  match d.get? k with
  | some v => d.insert k (f v)
  | none => d

/-- Apply a function to every value, knowing its name. -/
def map (f : String → α → β) (d : Dict α) : Dict β :=
  ⟨d.entries.map fun e => (e.1, f e.1 e.2), List.Pairwise.map _ (fun _ _ h => h) d.ordered⟩

/-- Names in increasing order. -/
def keys (d : Dict α) : List String := d.entries.map (·.1)

/-- Values in the order of their names. -/
def values (d : Dict α) : List α := d.entries.map (·.2)

/-- Number of names. -/
def size (d : Dict α) : Nat := d.entries.length

/-- Whether there is no name at all. -/
def isEmpty (d : Dict α) : Bool := d.entries.isEmpty

/-- The dictionary of a list of entries; of two entries for one name the later counts. -/
def ofList (es : List (String × α)) : Dict α :=
  es.foldl (fun d e => d.insert e.1 e.2) empty

/-- The entries of both dictionaries, those of the second winning. -/
def extend (d e : Dict α) : Dict α :=
  e.entries.foldl (fun d e => d.insert e.1 e.2) d

@[simp] theorem get?_empty (k : String) : (empty : Dict α).get? k = none := rfl

theorem get?_insert (d : Dict α) (k k' : String) (v : α) :
    (d.insert k v).get? k' = if k = k' then some v else d.get? k' :=
  Entries.lookup_insert k k' v d.entries

@[simp] theorem get?_insert_self (d : Dict α) (k : String) (v : α) :
    (d.insert k v).get? k = some v := by simp [get?_insert]

theorem get?_insert_eq_some_iff {d : Dict α} {k k' : String} {v w : α} :
    (d.insert k v).get? k' = some w ↔ k = k' ∧ v = w ∨ k ≠ k' ∧ d.get? k' = some w := by
  by_cases h : k = k' <;> simp [get?_insert, h]

theorem mem_entries_iff (d : Dict α) (k : String) (v : α) :
    (k, v) ∈ d.entries ↔ d.get? k = some v :=
  ⟨Entries.lookup_of_mem d.ordered, Entries.mem_of_lookup⟩

theorem get?_filter (p : String → α → Bool) (d : Dict α) (k : String) :
    (d.filter p).get? k = (d.get? k).filter (p k) := by
  refine Option.ext fun v => ?_
  rw [← mem_entries_iff, Option.filter_eq_some_iff, ← mem_entries_iff]
  simp [filter]

theorem get?_erase (d : Dict α) (k k' : String) :
    (d.erase k).get? k' = if k = k' then none else d.get? k' := by
  refine Option.ext fun v => ?_
  rw [← mem_entries_iff]
  simp only [erase, List.mem_filter, mem_entries_iff]
  by_cases h : k = k'
  · simp [h]
  · simp [h, Ne.symm h]

theorem get?_erase_eq_some_iff {d : Dict α} {k k' : String} {v : α} :
    (d.erase k).get? k' = some v ↔ k ≠ k' ∧ d.get? k' = some v := by
  by_cases h : k = k' <;> simp [get?_erase, h]

theorem get?_modify (d : Dict α) (k k' : String) (f : α → α) :
    (d.modify k f).get? k' = if k = k' then (d.get? k').map f else d.get? k' := by
  unfold modify
  split
  · rename_i v hv
    by_cases h : k = k'
    · subst h; simp [hv]
    · simp [get?_insert, h]
  · rename_i hv
    by_cases h : k = k'
    · subst h; simp [hv]
    · simp [h]

theorem get?_map (f : String → α → β) (d : Dict α) (k : String) :
    (d.map f).get? k = (d.get? k).map (f k) := by
  refine Option.ext fun v => ?_
  rw [← mem_entries_iff, Option.map_eq_some_iff]
  simp only [map, List.mem_map, Prod.mk.injEq, Prod.exists]
  constructor
  · rintro ⟨k', w, hw, rfl, rfl⟩
    exact ⟨w, (mem_entries_iff d k' w).mp hw, rfl⟩
  · rintro ⟨w, hw, rfl⟩
    exact ⟨k, w, (mem_entries_iff d k w).mpr hw, rfl, rfl⟩

theorem get?_extend (d e : Dict α) (k : String) :
    (d.extend e).get? k = (e.get? k).or (d.get? k) := by
  have key : ∀ (es : List (String × α)) (d : Dict α), Entries.Ordered es →
      (es.foldl (fun d e => d.insert e.1 e.2) d).get? k = (Entries.lookup k es).or (d.get? k) := by
    intro es
    induction es with
    | nil => simp [Entries.lookup]
    | cons e es ih =>
      intro d ordered
      rw [List.foldl_cons, ih _ (List.Pairwise.of_cons ordered), get?_insert, Entries.lookup]
      by_cases h : e.1 = k
      · have later : Entries.lookup k es = none := Entries.lookup_eq_none_of_lt fun c hc =>
          h ▸ List.rel_of_pairwise_cons ordered hc
        simp [h, later]
      · simp [h]
  exact key e.entries d e.ordered

/-- A dictionary is determined by its look-ups. -/
theorem ext_get? {d e : Dict α} (h : ∀ k, d.get? k = e.get? k) : d = e :=
  ext (Entries.ext_lookup d.ordered e.ordered h)

theorem mem_keys_iff (d : Dict α) (k : String) : k ∈ d.keys ↔ d.contains k = true := by
  simp only [keys, List.mem_map, contains, Option.isSome_iff_exists, Prod.exists,
    exists_and_right, exists_eq_right, mem_entries_iff]

theorem pairwise_keys (d : Dict α) : d.keys.Pairwise (· < ·) :=
  List.pairwise_map.mpr d.ordered

end Dict

/-! ### Sets of names -/

/-- A finite set of names, listed in increasing order. -/
structure NameSet where
  toList : List String
  ordered : toList.Pairwise (· < ·)
deriving DecidableEq

namespace NameSet

theorem ext {s t : NameSet} (h : s.toList = t.toList) : s = t := by
  cases s; cases t; cases h; rfl

/-- The set with no name. -/
def empty : NameSet := ⟨[], List.Pairwise.nil⟩

instance : Inhabited NameSet := ⟨empty⟩

instance : Membership String NameSet := ⟨fun s k => k ∈ s.toList⟩

instance (k : String) (s : NameSet) : Decidable (k ∈ s) :=
  inferInstanceAs (Decidable (k ∈ s.toList))

/-- Whether a name is in the set. -/
def contains (s : NameSet) (k : String) : Bool := s.toList.contains k

/-- Insert a name into an increasing list. -/
def insertName (k : String) : List String → List String
  | [] => [k]
  | x :: xs => if k < x then k :: x :: xs else if x = k then x :: xs else x :: insertName k xs

theorem mem_insertName {k a : String} {xs : List String} :
    a ∈ insertName k xs ↔ a = k ∨ a ∈ xs := by
  induction xs with
  | nil => simp [insertName]
  | cons x xs ih =>
    unfold insertName
    split
    · simp
    · split
      · rename_i hx
        subst hx
        simp
      · simp only [List.mem_cons, ih]
        constructor
        · rintro (h | h | h)
          · exact .inr (.inl h)
          · exact .inl h
          · exact .inr (.inr h)
        · rintro (h | h | h)
          · exact .inr (.inl h)
          · exact .inl h
          · exact .inr (.inr h)

theorem pairwise_insertName {k : String} {xs : List String} (h : xs.Pairwise (· < ·)) :
    (insertName k xs).Pairwise (· < ·) := by
  induction xs with
  | nil => simp [insertName]
  | cons x xs ih =>
    have hxs := List.Pairwise.of_cons h
    have hhd := fun y (hy : y ∈ xs) => List.rel_of_pairwise_cons h hy
    unfold insertName
    split
    · rename_i hlt
      refine List.Pairwise.cons (fun y hy => ?_) h
      rcases List.mem_cons.mp hy with rfl | hy
      · exact hlt
      · exact String.lt_trans hlt (hhd y hy)
    · split
      · exact h
      · rename_i hlt hne
        refine List.Pairwise.cons (fun y hy => ?_) (ih hxs)
        rcases mem_insertName.mp hy with rfl | hy
        · rcases Decidable.em (x < y) with hl | hl
          · exact hl
          · exact absurd (String.le_antisymm (String.not_lt.mp hlt) (String.not_lt.mp hl)) hne
        · exact hhd y hy

/-- Add a name. -/
def insert (s : NameSet) (k : String) : NameSet :=
  ⟨insertName k s.toList, pairwise_insertName s.ordered⟩

/-- The names that pass a test. -/
def filter (p : String → Bool) (s : NameSet) : NameSet :=
  ⟨s.toList.filter p, s.ordered.filter _⟩

/-- Remove a name. -/
def erase (s : NameSet) (k : String) : NameSet := s.filter (· ≠ k)

/-- The set of the names in a list. -/
def ofList (xs : List String) : NameSet := xs.foldl insert empty

/-- Add every name of a list. -/
def insertMany (s : NameSet) (xs : List String) : NameSet := xs.foldl insert s

/-- Whether the set holds no name. -/
def isEmpty (s : NameSet) : Bool := s.toList.isEmpty

@[simp] theorem mem_empty (a : String) : ¬ a ∈ empty := List.not_mem_nil

theorem contains_iff {s : NameSet} {k : String} : s.contains k = true ↔ k ∈ s :=
  List.contains_iff_mem

theorem mem_insert (s : NameSet) (k a : String) : a ∈ s.insert k ↔ a = k ∨ a ∈ s :=
  mem_insertName

theorem mem_filter (p : String → Bool) (s : NameSet) (a : String) :
    a ∈ s.filter p ↔ a ∈ s ∧ p a = true :=
  List.mem_filter

theorem mem_insertMany (xs : List String) (s : NameSet) (a : String) :
    a ∈ s.insertMany xs ↔ a ∈ s ∨ a ∈ xs := by
  induction xs generalizing s with
  | nil => simp [insertMany]
  | cons x xs ih =>
    have := ih (s.insert x)
    simp only [insertMany, List.foldl_cons] at this ⊢
    rw [this, mem_insert, List.mem_cons]
    constructor
    · rintro ((h | h) | h)
      · exact .inr (.inl h)
      · exact .inl h
      · exact .inr (.inr h)
    · rintro (h | h | h)
      · exact .inl (.inr h)
      · exact .inl (.inl h)
      · exact .inr h

theorem mem_ofList (xs : List String) (a : String) : a ∈ ofList xs ↔ a ∈ xs := by
  have := mem_insertMany xs empty a
  simpa [insertMany, ofList] using this

/-- A set is determined by its members. -/
theorem ext_mem {s t : NameSet} (h : ∀ a, a ∈ s ↔ a ∈ t) : s = t := by
  have key : ∀ {xs ys : List String}, xs.Pairwise (· < ·) → ys.Pairwise (· < ·) →
      (∀ a, a ∈ xs ↔ a ∈ ys) → xs = ys := by
    intro xs ys hx hy hm
    have e := @Entries.ext_lookup Unit (xs.map (·, ())) (ys.map (·, ()))
      (List.pairwise_map.mpr hx) (List.pairwise_map.mpr hy) (fun k => by
        refine Option.ext fun _ => ?_
        constructor <;> intro hk
        · refine Entries.lookup_of_mem (List.pairwise_map.mpr hy) ?_
          simpa [hm] using Entries.mem_of_lookup hk
        · refine Entries.lookup_of_mem (List.pairwise_map.mpr hx) ?_
          simpa [hm] using Entries.mem_of_lookup hk)
    simpa [List.map_map, Function.comp_def] using congrArg (List.map (·.1)) e
  exact ext (key s.ordered t.ordered h)

end NameSet

end AppBuilder
