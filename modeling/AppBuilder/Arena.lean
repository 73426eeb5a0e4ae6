/-!
Numbered storage with reusable slots.

An `Arena` keeps items in numbered slots and hands out a key for each. Removing an item
frees its slot, and the slot freed last is the first to be filled again. A key carries
the generation of its slot, which counts the removals from it without end, so the key of
a removed item never finds the item that took its place. Keys are ordered by slot.
-/

namespace AppBuilder

/-- The name of a stored item: its slot and the generation of the slot at that time. -/
structure Key where
  slot : Nat
  generation : Nat
deriving DecidableEq, Repr

/-- The order of keys, by slot first. -/
def Key.before (a b : Key) : Bool :=
  a.slot < b.slot || (a.slot = b.slot && a.generation < b.generation)

/-- A place for one item. -/
structure Slot (α : Type) where
  generation : Nat
  item : Option α

/-- Items in slots, and the free slots, the one freed last in front. -/
structure Arena (α : Type) where
  slots : Array (Slot α)
  vacant : List Nat

namespace Arena

variable {α : Type}

/-- The arena with no item. -/
def empty : Arena α := ⟨#[], []⟩

instance : Inhabited (Arena α) := ⟨empty⟩

/-- The item of a key. -/
def get? (a : Arena α) (k : Key) : Option α :=
  match a.slots[k.slot]? with
  | some s => if s.generation = k.generation then s.item else none
  | none => none

/-- Number of items. -/
def size (a : Arena α) : Nat := a.slots.countP fun s => s.item.isSome

/-- The generation of a slot. -/
def generation (a : Arena α) (slot : Nat) : Nat :=
  match a.slots[slot]? with
  | some s => s.generation
  | none => 0

/-- The key that the next item will get. -/
def nextKey (a : Arena α) : Key :=
  match a.vacant with
  | i :: _ => ⟨i, a.generation i⟩
  | [] => ⟨a.slots.size, 0⟩

/-- Store an item under `nextKey`. -/
def insert (a : Arena α) (item : α) : Arena α :=
  match a.vacant with
  | i :: rest => ⟨a.slots.setIfInBounds i ⟨a.generation i, some item⟩, rest⟩
  | [] => ⟨a.slots.push ⟨0, some item⟩, []⟩

/-- Remove the item of a key and free its slot. -/
def remove (a : Arena α) (k : Key) : Arena α :=
  match a.get? k with
  | some _ => ⟨a.slots.setIfInBounds k.slot ⟨k.generation + 1, none⟩, k.slot :: a.vacant⟩
  | none => a

/-- Change the item of a key. -/
def modify (a : Arena α) (k : Key) (f : α → α) : Arena α :=
  match a.get? k with
  | some item => { a with slots := a.slots.setIfInBounds k.slot ⟨k.generation, some (f item)⟩ }
  | none => a

theorem get?_modify (a : Arena α) (k k' : Key) (f : α → α) :
    (a.modify k f).get? k' = if k = k' then (a.get? k').map f else a.get? k' := by
  unfold modify
  split
  · rename_i item hitem
    have hs : ∃ s, a.slots[k.slot]? = some s ∧ s.generation = k.generation := by
      unfold get? at hitem
      split at hitem
      · rename_i s hs
        split at hitem
        · exact ⟨s, hs, by assumption⟩
        · simp at hitem
      · simp at hitem
    obtain ⟨s, hs, hgen⟩ := hs
    have hlt : k.slot < a.slots.size := (Array.getElem?_eq_some_iff.mp hs).1
    by_cases hk : k = k'
    · subst hk
      rw [if_pos rfl, hitem]
      simp [get?, hlt]
    · simp only [if_neg hk]
      by_cases hslot : k.slot = k'.slot
      · have hg : k.generation ≠ k'.generation := fun h =>
          hk (by cases k; cases k'; simp_all)
        have hs' : a.slots[k'.slot]? = some s := hslot ▸ hs
        have hlt' : k'.slot < a.slots.size := hslot ▸ hlt
        simp only [get?, hslot, Array.getElem?_setIfInBounds, if_true, if_pos hlt', hs', hgen]
        simp [hg]
      · simp [get?, hslot]
  · rename_i hnone
    by_cases hk : k = k'
    · subst hk; simp [hnone]
    · simp [hk]

end Arena

end AppBuilder
