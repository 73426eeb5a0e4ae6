import AppBuilder.Arena

/-!
Look-ups in an arena after each of its operations.

An arena is sound when its vacant slots exist, hold nothing and are listed once. Every
operation keeps that, and then storing an item or removing one changes the look-up of a
single key: a slot that is filled again gets a new key, and the old one stays dead. Removing
an item raises the generation of its slot by one (`generation_remove`), and no other
operation changes a generation. The live keys are listed by `keys`, as many as there are items.
-/

namespace AppBuilder.Arena

variable {α : Type}

/-- The vacant slots are empty slots of the arena, each listed once. -/
structure Sound (a : Arena α) : Prop where
  vacant_empty : ∀ i ∈ a.vacant, ∃ s, a.slots[i]? = some s ∧ s.item = none
  vacant_nodup : a.vacant.Nodup

@[simp] theorem get?_empty (k : Key) : (empty : Arena α).get? k = none := rfl

theorem Sound.empty : Sound (empty : Arena α) := ⟨by simp [Arena.empty], by simp [Arena.empty]⟩

theorem get?_eq_some_iff {a : Arena α} {k : Key} {x : α} :
    a.get? k = some x ↔ a.slots[k.slot]? = some ⟨k.generation, some x⟩ := by
  unfold get?
  cases hs : a.slots[k.slot]? with
  | none => simp
  | some s =>
    obtain ⟨generation, item⟩ := s
    by_cases hg : generation = k.generation
    · simp [hg]
    · simp [hg]

/-! ### Storing -/

/-- The key that the next item will get finds nothing before. -/
theorem get?_nextKey {a : Arena α} (h : a.Sound) : a.get? a.nextKey = none := by
  unfold nextKey
  cases hv : a.vacant with
  | nil => simp [get?]
  | cons i rest =>
    obtain ⟨s, hs, hnone⟩ := h.vacant_empty i (by simp [hv])
    simp [get?, generation, hs, hnone]

theorem get?_insert {a : Arena α} (h : a.Sound) (item : α) (k : Key) :
    (a.insert item).get? k = if k = a.nextKey then some item else a.get? k := by
  obtain ⟨slot, generation⟩ := k
  unfold insert nextKey
  cases hv : a.vacant with
  | nil =>
    by_cases hi : slot = a.slots.size
    · subst hi
      by_cases hg : generation = 0
      · simp [get?, hg]
      · simp [get?, hg, Ne.symm hg]
    · simp [get?, Array.getElem?_push, hi]
  | cons i rest =>
    obtain ⟨s, hs, hnone⟩ := h.vacant_empty i (by simp [hv])
    obtain ⟨hlt, heq⟩ := Array.getElem?_eq_some_iff.mp hs
    by_cases hi : slot = i
    · subst hi
      by_cases hg : generation = a.generation slot
      · simp [get?, hg, hlt]
      · simp [get?, Ne.symm hg, hg, hlt, heq, hnone]
    · simp [get?, hi, Ne.symm hi]

theorem Sound.insert {a : Arena α} (h : a.Sound) (item : α) : (a.insert item).Sound := by
  unfold Arena.insert
  cases hv : a.vacant with
  | nil => exact ⟨by simp, by simp⟩
  | cons i rest =>
    have hn : (i :: rest).Nodup := hv ▸ h.vacant_nodup
    refine ⟨?_, (List.nodup_cons.mp hn).2⟩
    intro j hj
    have hne : i ≠ j := fun hij => (List.nodup_cons.mp hn).1 (hij ▸ hj)
    obtain ⟨s, hs, hnone⟩ := h.vacant_empty j (by simp only [hv]; exact List.mem_cons_of_mem _ hj)
    exact ⟨s, by simp [hne, hs], hnone⟩

/-! ### Removing -/

theorem get?_remove (a : Arena α) (k k' : Key) :
    (a.remove k).get? k' = if k = k' then none else a.get? k' := by
  unfold remove
  cases hitem : a.get? k with
  | none =>
    by_cases hk : k = k'
    · subst hk
      simp [hitem]
    · simp [hk]
  | some item =>
    obtain ⟨hlt, heq⟩ := Array.getElem?_eq_some_iff.mp (get?_eq_some_iff.mp hitem)
    by_cases hk : k = k'
    · subst hk
      simp [get?, hlt]
    · by_cases hslot : k.slot = k'.slot
      · have hg : k.generation ≠ k'.generation := fun hg => hk (by cases k; cases k'; simp_all)
        simp only [hslot] at hlt heq
        simp [get?, hslot, hlt, heq, hk, hg]
      · simp [get?, hslot, hk]

theorem Sound.remove {a : Arena α} (h : a.Sound) (k : Key) : (a.remove k).Sound := by
  unfold Arena.remove
  cases hitem : a.get? k with
  | none => exact h
  | some item =>
    have hs := get?_eq_some_iff.mp hitem
    have hlt : k.slot < a.slots.size := (Array.getElem?_eq_some_iff.mp hs).1
    have hout : k.slot ∉ a.vacant := by
      intro hv
      obtain ⟨s, hs', hnone⟩ := h.vacant_empty _ hv
      rw [hs] at hs'
      simp [← Option.some.inj hs'] at hnone
    refine ⟨?_, List.nodup_cons.mpr ⟨hout, h.vacant_nodup⟩⟩
    intro j hj
    rcases List.mem_cons.mp hj with rfl | hj
    · exact ⟨⟨k.generation + 1, none⟩, by simp [hlt], rfl⟩
    · obtain ⟨s, hs', hnone⟩ := h.vacant_empty j hj
      have hne : k.slot ≠ j := fun hkj => hout (hkj ▸ hj)
      exact ⟨s, by simp [hne, hs'], hnone⟩

/-! ### Changing -/

theorem Sound.modify {a : Arena α} (h : a.Sound) (k : Key) (f : α → α) : (a.modify k f).Sound := by
  unfold Arena.modify
  cases hitem : a.get? k with
  | none => exact h
  | some item =>
    have hs := get?_eq_some_iff.mp hitem
    refine ⟨?_, h.vacant_nodup⟩
    intro j hj
    obtain ⟨s, hs', hnone⟩ := h.vacant_empty j hj
    have hne : k.slot ≠ j := by
      rintro rfl
      rw [hs] at hs'
      simp [← Option.some.inj hs'] at hnone
    exact ⟨s, by simp [hne, hs'], hnone⟩

/-- Changing the items of some keys, each by a change that need not be made twice. -/
theorem get?_foldl_modify (f : α → α) (idem : ∀ x, f (f x) = f x) (ks : List Key) (a : Arena α)
    (k : Key) : (ks.foldl (fun a d => a.modify d f) a).get? k =
      if k ∈ ks then (a.get? k).map f else a.get? k := by
  induction ks generalizing a with
  | nil => simp
  | cons d ks ih =>
    rw [List.foldl_cons, ih, get?_modify]
    by_cases hd : d = k
    · subst hd
      by_cases hk : d ∈ ks
      · simp [hk, Option.map_map, Function.comp_def, idem]
      · simp [hk]
    · simp [hd, Ne.symm hd]

theorem Sound.foldl_modify (f : α → α) (ks : List Key) {a : Arena α} (h : a.Sound) :
    (ks.foldl (fun a d => a.modify d f) a).Sound := by
  induction ks generalizing a with
  | nil => exact h
  | cons d ks ih => exact ih (h.modify d f)

/-! ### Generations -/

theorem generation_eq (a : Arena α) (slot : Nat) :
    a.generation slot = (a.slots[slot]?.map (·.generation)).getD 0 := by
  unfold generation
  cases a.slots[slot]? <;> rfl

theorem generation_of_get? {a : Arena α} {k : Key} {x : α} (h : a.get? k = some x) :
    a.generation k.slot = k.generation := by
  rw [get?_eq_some_iff] at h
  simp [generation_eq, h]

theorem generation_insert (a : Arena α) (item : α) (slot : Nat) :
    (a.insert item).generation slot = a.generation slot := by
  unfold insert
  cases a.vacant with
  | nil =>
    by_cases new : slot = a.slots.size
    · simp [generation, new]
    · simp [generation, Array.getElem?_push, new]
  | cons i rest =>
    by_cases filled : i = slot
    · subst filled
      by_cases inside : i < a.slots.size <;> simp [generation, inside]
    · simp [generation, filled]

theorem generation_modify (a : Arena α) (k : Key) (f : α → α) (slot : Nat) :
    (a.modify k f).generation slot = a.generation slot := by
  unfold modify
  cases hk : a.get? k with
  | none => rfl
  | some x =>
    by_cases same : k.slot = slot
    · subst same
      obtain ⟨inside, -⟩ := Array.getElem?_eq_some_iff.mp (get?_eq_some_iff.mp hk)
      rw [generation_of_get? hk]
      simp [generation_eq, inside]
    · simp [generation_eq, same]

theorem generation_foldl_modify (f : α → α) (ks : List Key) (a : Arena α) (slot : Nat) :
    (ks.foldl (fun a d => a.modify d f) a).generation slot = a.generation slot := by
  induction ks generalizing a with
  | nil => rfl
  | cons k ks ih => rw [List.foldl_cons, ih, generation_modify]

/-- Removing an item raises the generation of its slot. -/
theorem generation_remove {a : Arena α} {k : Key} {x : α} (h : a.get? k = some x) (slot : Nat) :
    (a.remove k).generation slot =
      if k.slot = slot then k.generation + 1 else a.generation slot := by
  obtain ⟨inside, -⟩ := Array.getElem?_eq_some_iff.mp (get?_eq_some_iff.mp h)
  simp only [remove, h]
  by_cases same : k.slot = slot
  · subst same
    simp [generation_eq, inside]
  · simp [generation_eq, same]

/-! ### Counting -/

/-- The keys of the items, by slot. -/
def keys (a : Arena α) : List Key :=
  a.slots.toList.zipIdx.filterMap fun s =>
    if s.1.item.isSome then some ⟨s.2, s.1.generation⟩ else none

theorem length_keys (a : Arena α) : a.keys.length = a.size := by
  have count : ∀ (ss : List (Slot α)) (i : Nat), ((ss.zipIdx i).filterMap fun s =>
      if s.1.item.isSome then some (Key.mk s.2 s.1.generation) else none).length =
        ss.countP fun s => s.item.isSome := by
    intro ss
    induction ss with
    | nil => simp
    | cons s ss ih =>
      intro i
      by_cases hs : s.item.isSome <;> simp [hs, ih]
  rw [keys, count, size, ← Array.countP_toList]

theorem mem_keys_iff {a : Arena α} {k : Key} : k ∈ a.keys ↔ (a.get? k).isSome := by
  obtain ⟨slot, generation⟩ := k
  simp only [keys, List.mem_filterMap, Prod.exists, List.mem_zipIdx_iff_getElem?,
    Option.isSome_iff_exists, get?_eq_some_iff, Array.getElem?_toList]
  constructor
  · rintro ⟨⟨generation', item⟩, i, hs, hkey⟩
    split at hkey
    · rename_i full
      obtain ⟨x, rfl⟩ := Option.isSome_iff_exists.mp full
      cases hkey
      exact ⟨x, hs⟩
    · cases hkey
  · rintro ⟨x, hs⟩
    exact ⟨_, _, hs, by simp⟩

theorem nodup_keys (a : Arena α) : a.keys.Nodup := by
  have rising : a.slots.toList.zipIdx.Pairwise fun s t => s.2 < t.2 := by
    rw [← List.pairwise_map (R := (· < ·)), List.zipIdx_map_snd]
    exact List.pairwise_lt_range'
  refine List.pairwise_filterMap.mpr (rising.imp fun hlt k hk l hl => ?_)
  rintro rfl
  split at hk
  · split at hl
    · have slots := congrArg Key.slot (Option.some.inj (hk.trans hl.symm))
      exact absurd slots (Nat.ne_of_lt hlt)
    · cases hl
  · cases hk

end AppBuilder.Arena
