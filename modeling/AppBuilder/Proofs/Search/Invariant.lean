import AppBuilder.Components
import AppBuilder.Proofs.Search.Mutual

/-!
What a search for components keeps.

`ComponentSearch.Sound` holds of every state of a search. The items met are on the stack or in a
component found; the stack has the greater number on top, and so have the items being searched,
all of which are on it. An item being searched reaches all above it on the stack, and every item
on the stack reaches one being searched below it. The low number of an item being searched is
that of an item on the stack that it reaches, and bounds the numbers of the successors on the
stack of what lies above it, up to the next item being searched.

Meeting an item (`Sound.meet`), lowering a low number (`Sound.lower`) and passing over a successor
that has been met (`Sound.pass`) keep this.
-/

namespace AppBuilder.ComponentSearch

variable {α : Type}

/-! ### Calls -/

/-- The items being searched. -/
def searched (s : ComponentSearch α) : List α := s.calls.map (·.item)

/-- A successor of an item is still to be tried. -/
def Pending (calls : List (Call α)) (x y : α) : Prop := ∃ f ∈ calls, f.item = x ∧ y ∈ f.pending

theorem Pending.cons {calls : List (Call α)} {x y : α} (h : Pending calls x y) (f : Call α) :
    Pending (f :: calls) x y := by
  obtain ⟨g, hg, rest⟩ := h
  exact ⟨g, List.mem_cons_of_mem _ hg, rest⟩

/-- An item without successors to try has none pending. -/
theorem Pending.of_done {calls : List (Call α)} {x a b : α}
    (h : Pending (⟨x, []⟩ :: calls) a b) : Pending calls a b := by
  obtain ⟨f, hf, same, hb⟩ := h
  rcases List.mem_cons.mp hf with rfl | hf
  · simp at hb
  · exact ⟨f, hf, same, hb⟩

/-- Only the successor just tried stops being pending. -/
theorem Pending.of_tried {front back : List (Call α)} {x y a b : α} {pending : List α}
    (h : Pending (front ++ ⟨x, y :: pending⟩ :: back) a b) :
    (a = x ∧ b = y) ∨ Pending (front ++ ⟨x, pending⟩ :: back) a b := by
  obtain ⟨f, hf, same, hb⟩ := h
  simp only [List.mem_append, List.mem_cons] at hf
  rcases hf with hf | rfl | hf
  · exact .inr ⟨f, by simp [hf], same, hb⟩
  · rcases List.mem_cons.mp hb with rfl | hb
    · exact .inl ⟨same.symm, rfl⟩
    · exact .inr ⟨⟨x, pending⟩, by simp, same, hb⟩
  · exact .inr ⟨f, by simp [hf], same, hb⟩

theorem Pending.item_mem {calls : List (Call α)} {x y : α} (h : Pending calls x y) :
    x ∈ calls.map (·.item) := by
  obtain ⟨f, hf, same, -⟩ := h
  exact List.mem_map.mpr ⟨f, hf, same⟩

theorem searched_eq {s : ComponentSearch α} {x : α} {pending : List α} {calls : List (Call α)}
    (here : s.calls = ⟨x, pending⟩ :: calls) : s.searched = x :: calls.map (·.item) := by
  simp [searched, here]

theorem ne_of_met {s : ComponentSearch α} {x y : α} (new : x ∉ s.met) (hy : y ∈ s.met) : y ≠ x :=
  fun same => new (same ▸ hy)

variable [DecidableEq α] {n : Network α} {s : ComponentSearch α}

/-! ### Numbers -/

theorem lookup_cons_of_ne {x y : α} (other : y ≠ x) (m : Nat) (numbers : List (α × Nat)) :
    ((x, m) :: numbers).lookup y = numbers.lookup y := by
  rw [List.lookup_cons, beq_false_of_ne other]

theorem number_meet_self (s : ComponentSearch α) (x : α) (ks : List α) :
    (s.meet x ks).number x = s.next := by
  simp [number, meet]

theorem low_meet_self (s : ComponentSearch α) (x : α) (ks : List α) :
    (s.meet x ks).low x = s.next := by
  simp [low, meet]

theorem number_meet {x y : α} (other : y ≠ x) (ks : List α) :
    (s.meet x ks).number y = s.number y := by
  simp [number, meet, lookup_cons_of_ne other]

theorem low_meet {x y : α} (other : y ≠ x) (ks : List α) : (s.meet x ks).low y = s.low y := by
  simp [low, meet, lookup_cons_of_ne other]

theorem low_lower_self (s : ComponentSearch α) (x : α) (m : Nat) :
    (s.lower x m).low x = min (s.low x) m := by
  simp [low, lower]

theorem low_lower {x y : α} (other : y ≠ x) (m : Nat) : (s.lower x m).low y = s.low y := by
  simp [low, lower, lookup_cons_of_ne other]

theorem low_lower_le (s : ComponentSearch α) (x y : α) (m : Nat) :
    (s.lower x m).low y ≤ s.low y := by
  by_cases same : y = x
  · rw [same, low_lower_self]
    exact Nat.min_le_left _ _
  · exact Nat.le_of_eq (low_lower same m)

/-! ### The invariant -/

/-- The items met are on the stack or in a component found. The items being searched are on the
stack, and both are listed by falling number. -/
structure Stacked (s : ComponentSearch α) : Prop where
  met_iff : ∀ x, x ∈ s.met ↔ x ∈ s.stack ∨ x ∈ s.found.flatten
  apart : ∀ x ∈ s.stack, x ∉ s.found.flatten
  number_lt : ∀ x ∈ s.met, s.number x < s.next
  falling : s.stack.Pairwise fun x y => s.number y < s.number x
  searched_mem : ∀ c ∈ s.searched, c ∈ s.stack
  deeper : s.searched.Pairwise fun c d => s.number d < s.number c

/-- Which items on the stack reach which, and what is still to be tried. -/
structure Connected (n : Network α) (s : ComponentSearch α) : Prop where
  reached : ∀ x ∈ s.met, ∃ r ∈ n.items, n.Reaches r x
  pending_mem : ∀ f ∈ s.calls, ∀ y ∈ f.pending, y ∈ n.successors f.item
  tried : ∀ x ∈ s.met, ∀ y ∈ n.successors x, y ∈ s.met ∨ Pending s.calls x y
  up : ∀ c ∈ s.searched, ∀ x ∈ s.stack, s.number c ≤ s.number x → n.Reaches c x
  down : ∀ x ∈ s.stack, ∃ c ∈ s.searched, s.number c ≤ s.number x ∧ n.Reaches x c

/-- What the low numbers of the items being searched say. -/
structure Lows (n : Network α) (s : ComponentSearch α) : Prop where
  low_le : ∀ c ∈ s.searched, s.low c ≤ s.number c
  low_reached : ∀ c ∈ s.searched, ∃ x ∈ s.stack, s.number x = s.low c ∧ n.Reaches c x
  le_number : ∀ c ∈ s.searched, ∀ x ∈ s.stack, s.number c ≤ s.number x →
    ∀ y ∈ n.successors x, y ∈ s.stack → Pending s.calls x y ∨
      ∃ d ∈ s.searched, s.number c ≤ s.number d ∧ s.number d ≤ s.number x ∧ s.low d ≤ s.number y

/-- What every step of a search keeps. -/
structure Sound (n : Network α) (s : ComponentSearch α) : Prop where
  stacked : s.Stacked
  connected : s.Connected n
  lows : s.Lows n
  components : n.Components s.found

theorem Sound.empty (n : Network α) : Sound n empty where
  stacked := by constructor <;> simp [ComponentSearch.empty, met, searched]
  connected := by constructor <;> simp [ComponentSearch.empty, met, searched]
  lows := by constructor <;> simp [ComponentSearch.empty, searched]
  components := .nil

theorem Stacked.met_of_stack (h : s.Stacked) {x : α} (hx : x ∈ s.stack) : x ∈ s.met :=
  (h.met_iff x).mpr (.inl hx)

theorem Stacked.met_of_searched (h : s.Stacked) {x : α} (hx : x ∈ s.searched) : x ∈ s.met :=
  h.met_of_stack (h.searched_mem x hx)

/-- The item searched last has the greatest number of those being searched. -/
theorem Stacked.searched_lt (h : s.Stacked) {x c : α} {pending : List α} {calls : List (Call α)}
    (here : s.calls = ⟨x, pending⟩ :: calls) (hc : c ∈ calls.map (·.item)) :
    s.number c < s.number x := by
  have deeper := h.deeper
  rw [searched_eq here] at deeper
  exact (List.pairwise_cons.mp deeper).1 c hc

theorem Stacked.searched_le (h : s.Stacked) {x c : α} {pending : List α} {calls : List (Call α)}
    (here : s.calls = ⟨x, pending⟩ :: calls) (hc : c ∈ s.searched) : s.number c ≤ s.number x := by
  rw [searched_eq here] at hc
  rcases List.mem_cons.mp hc with rfl | hc
  · exact Nat.le_refl _
  · exact Nat.le_of_lt (h.searched_lt here hc)

/-- When no item is being searched the stack is empty. -/
theorem Connected.stack_eq_nil (h : s.Connected n) (done : s.calls = []) : s.stack = [] := by
  refine List.eq_nil_iff_forall_not_mem.mpr fun x hx => ?_
  obtain ⟨c, hc, -⟩ := h.down x hx
  simp [searched, done] at hc

/-! ### Meeting an item -/

section Meet

variable {x : α} (new : x ∉ s.met)
include new

theorem number_meet_of_met {y : α} (hy : y ∈ s.met) (ks : List α) :
    (s.meet x ks).number y = s.number y := number_meet (ne_of_met new hy) ks

theorem low_meet_of_met {y : α} (hy : y ∈ s.met) (ks : List α) :
    (s.meet x ks).low y = s.low y := low_meet (ne_of_met new hy) ks

/-- A new item has a greater number than all that has been met. -/
theorem Stacked.number_meet_lt (h : s.Stacked) {y : α} (hy : y ∈ s.met) (ks : List α) :
    (s.meet x ks).number y < (s.meet x ks).number x := by
  rw [number_meet_of_met new hy, number_meet_self]
  exact h.number_lt y hy

theorem Stacked.meet (h : s.Stacked) (ks : List α) : (s.meet x ks).Stacked where
  met_iff := by
    intro y
    simp only [ComponentSearch.met, ComponentSearch.meet, List.map_cons, List.mem_cons, or_assoc]
    exact or_congr_right (h.met_iff y)
  apart := by
    intro y hy
    rcases List.mem_cons.mp hy with rfl | hy
    · exact fun found => new ((h.met_iff y).mpr (.inr found))
    · exact h.apart y hy
  number_lt := by
    intro y hy
    rcases List.mem_cons.mp hy with rfl | hy
    · rw [number_meet_self]
      exact Nat.lt_succ_self _
    · rw [number_meet_of_met new hy]
      exact Nat.lt_succ_of_lt (h.number_lt y hy)
  falling := by
    refine List.pairwise_cons.mpr ⟨fun y hy => h.number_meet_lt new (h.met_of_stack hy) ks, ?_⟩
    refine h.falling.imp_of_mem fun {a b} ha hb less => ?_
    rwa [number_meet_of_met new (h.met_of_stack ha), number_meet_of_met new (h.met_of_stack hb)]
  searched_mem := by
    intro c hc
    rcases List.mem_cons.mp hc with rfl | hc
    · exact List.mem_cons_self
    · exact List.mem_cons_of_mem _ (h.searched_mem c hc)
  deeper := by
    refine List.pairwise_cons.mpr ⟨fun c hc => h.number_meet_lt new (h.met_of_searched hc) ks, ?_⟩
    refine h.deeper.imp_of_mem fun {a b} ha hb less => ?_
    rwa [number_meet_of_met new (h.met_of_searched ha),
      number_meet_of_met new (h.met_of_searched hb)]

theorem Connected.meet (h : s.Connected n) (stacked : s.Stacked)
    (reached : ∃ r ∈ n.items, n.Reaches r x) (below : ∀ c ∈ s.searched, n.Reaches c x) :
    (s.meet x (n.successors x)).Connected n where
  reached := by
    intro y hy
    rcases List.mem_cons.mp hy with rfl | hy
    · exact reached
    · exact h.reached y hy
  pending_mem := by
    intro f hf
    rcases List.mem_cons.mp hf with rfl | hf
    · exact fun y hy => hy
    · exact h.pending_mem f hf
  tried := by
    intro a ha b hb
    rcases List.mem_cons.mp ha with rfl | ha
    · exact .inr ⟨_, List.mem_cons_self, rfl, hb⟩
    · rcases h.tried a ha b hb with met | pending
      · exact .inl (List.mem_cons_of_mem _ met)
      · exact .inr (pending.cons _)
  up := by
    intro c hc y hy le
    rcases List.mem_cons.mp hc with rfl | hc
    · rcases List.mem_cons.mp hy with rfl | hy
      · exact .refl
      · have less := stacked.number_meet_lt new (stacked.met_of_stack hy) (n.successors c)
        exact absurd less (Nat.not_lt.mpr le)
    · rcases List.mem_cons.mp hy with same | hy
      · exact same ▸ below c hc
      · rw [number_meet_of_met new (stacked.met_of_searched hc),
          number_meet_of_met new (stacked.met_of_stack hy)] at le
        exact h.up c hc y hy le
  down := by
    intro y hy
    rcases List.mem_cons.mp hy with rfl | hy
    · exact ⟨y, List.mem_cons_self, Nat.le_refl _, .refl⟩
    · obtain ⟨c, hc, le, path⟩ := h.down y hy
      refine ⟨c, List.mem_cons_of_mem _ hc, ?_, path⟩
      rwa [number_meet_of_met new (stacked.met_of_searched hc),
        number_meet_of_met new (stacked.met_of_stack hy)]

theorem Lows.meet (h : s.Lows n) (stacked : s.Stacked) (connected : s.Connected n) :
    (s.meet x (n.successors x)).Lows n where
  low_le := by
    intro c hc
    rcases List.mem_cons.mp hc with rfl | hc
    · exact Nat.le_of_eq ((low_meet_self s c _).trans (number_meet_self s c _).symm)
    · have met := stacked.met_of_searched hc
      rw [low_meet_of_met new met, number_meet_of_met new met]
      exact h.low_le c hc
  low_reached := by
    intro c hc
    rcases List.mem_cons.mp hc with rfl | hc
    · exact ⟨c, List.mem_cons_self, by rw [number_meet_self, low_meet_self], .refl⟩
    · obtain ⟨y, hy, same, path⟩ := h.low_reached c hc
      refine ⟨y, List.mem_cons_of_mem _ hy, ?_, path⟩
      rw [number_meet_of_met new (stacked.met_of_stack hy),
        low_meet_of_met new (stacked.met_of_searched hc), same]
  le_number := by
    intro c hc a ha le b hb hb'
    rcases List.mem_cons.mp ha with rfl | ha
    · exact .inl ⟨_, List.mem_cons_self, rfl, hb⟩
    have aMet := stacked.met_of_stack ha
    rcases List.mem_cons.mp hc with rfl | hc
    · have less := stacked.number_meet_lt new aMet (n.successors c)
      exact absurd less (Nat.not_lt.mpr le)
    rcases List.mem_cons.mp hb' with rfl | hb'
    · -- nobody has met the new item, so all that lead to it are still to try it
      rcases connected.tried a aMet b hb with met | pending
      · exact absurd met new
      · exact .inl (pending.cons _)
    · have cMet := stacked.met_of_searched hc
      rw [number_meet_of_met new cMet, number_meet_of_met new aMet] at le
      rcases h.le_number c hc a ha le b hb hb' with pending | ⟨d, hd, above, below, low⟩
      · exact .inl (pending.cons _)
      · have dMet := stacked.met_of_searched hd
        refine .inr ⟨d, List.mem_cons_of_mem _ hd, ?_⟩
        rw [number_meet_of_met new cMet, number_meet_of_met new dMet, number_meet_of_met new aMet,
          low_meet_of_met new dMet, number_meet_of_met new (stacked.met_of_stack hb')]
        exact ⟨above, below, low⟩

theorem Sound.meet (h : s.Sound n) (reached : ∃ r ∈ n.items, n.Reaches r x)
    (below : ∀ c ∈ s.searched, n.Reaches c x) : (s.meet x (n.successors x)).Sound n where
  stacked := h.stacked.meet new _
  connected := h.connected.meet new h.stacked reached below
  lows := h.lows.meet new h.stacked h.connected
  components := h.components

end Meet

/-! ### Passing over a successor -/

section Try

variable {front back : List (Call α)} {x y : α} {pending : List α}
  (here : s.calls = front ++ ⟨x, y :: pending⟩ :: back)
include here

omit [DecidableEq α] in
theorem searched_tried : ({ s with calls := front ++ ⟨x, pending⟩ :: back } :
    ComponentSearch α).searched = s.searched := by
  simp [searched, here]

omit [DecidableEq α] in
theorem untried_of_tried {a b : α} (untried : Pending s.calls a b) :
    (a = x ∧ b = y) ∨ Pending (front ++ ⟨x, pending⟩ :: back) a b :=
  (here ▸ untried).of_tried

theorem Stacked.pass (h : s.Stacked) :
    ({ s with calls := front ++ ⟨x, pending⟩ :: back } : ComponentSearch α).Stacked := by
  refine { h with searched_mem := ?_, deeper := ?_ }
  · rw [searched_tried here]
    exact h.searched_mem
  · rw [searched_tried here]
    exact h.deeper

theorem Connected.pass (h : s.Connected n) (met : y ∈ s.met) :
    ({ s with calls := front ++ ⟨x, pending⟩ :: back } : ComponentSearch α).Connected n where
  reached := h.reached
  pending_mem := by
    intro f hf z hz
    simp only [List.mem_append, List.mem_cons] at hf
    rcases hf with hf | rfl | hf
    · exact h.pending_mem f (by simp [here, hf]) z hz
    · exact h.pending_mem ⟨x, y :: pending⟩ (by simp [here]) z (List.mem_cons_of_mem _ hz)
    · exact h.pending_mem f (by simp [here, hf]) z hz
  tried := by
    intro a ha b hb
    rcases h.tried a ha b hb with old | untried
    · exact .inl old
    · rcases untried_of_tried here untried with ⟨-, rfl⟩ | untried
      · exact .inl met
      · exact .inr untried
  up := by
    rw [searched_tried here]
    exact h.up
  down := by
    rw [searched_tried here]
    exact h.down

theorem Lows.pass (h : s.Lows n) (low : y ∈ s.stack → s.low x ≤ s.number y) :
    ({ s with calls := front ++ ⟨x, pending⟩ :: back } : ComponentSearch α).Lows n where
  low_le := by
    rw [searched_tried here]
    exact h.low_le
  low_reached := by
    rw [searched_tried here]
    exact h.low_reached
  le_number := by
    rw [searched_tried here]
    intro c hc a ha le b hb hb'
    rcases h.le_number c hc a ha le b hb hb' with untried | bound
    · rcases untried_of_tried here untried with ⟨rfl, rfl⟩ | untried
      · exact .inr ⟨a, by simp [searched, here], le, Nat.le_refl _, low hb'⟩
      · exact .inl untried
    · exact .inr bound

end Try

/-- A successor that has been met need not be tried again, once the low number of the item takes
it into account. -/
theorem Sound.pass (h : s.Sound n) (front : List (Call α)) {back : List (Call α)} {x y : α}
    {pending : List α} (here : s.calls = front ++ ⟨x, y :: pending⟩ :: back) (met : y ∈ s.met)
    (low : y ∈ s.stack → s.low x ≤ s.number y) :
    ({ s with calls := front ++ ⟨x, pending⟩ :: back } : ComponentSearch α).Sound n where
  stacked := h.stacked.pass here
  connected := h.connected.pass here met
  lows := h.lows.pass here low
  components := h.components

/-! ### Lowering a low number -/

theorem Lows.lower (h : s.Lows n) {x y : α} (hy : y ∈ s.stack) (path : n.Reaches x y) :
    (s.lower x (s.number y)).Lows n where
  low_le := by
    intro c hc
    exact Nat.le_trans (low_lower_le s x c _) (h.low_le c hc)
  low_reached := by
    intro c hc
    by_cases same : c = x
    · subst same
      rw [low_lower_self]
      by_cases less : s.low c ≤ s.number y
      · rw [Nat.min_eq_left less]
        exact h.low_reached c hc
      · rw [Nat.min_eq_right (by omega)]
        exact ⟨y, hy, rfl, path⟩
    · rw [low_lower same]
      exact h.low_reached c hc
  le_number := by
    intro c hc a ha le b hb hb'
    rcases h.le_number c hc a ha le b hb hb' with untried | ⟨d, hd, above, below, low⟩
    · exact .inl untried
    · exact .inr ⟨d, hd, above, below, Nat.le_trans (low_lower_le s x d _) low⟩

/-- An item being searched may take the number of an item on the stack that it reaches as its low
number. -/
theorem Sound.lower (h : s.Sound n) {x y : α} (hy : y ∈ s.stack) (path : n.Reaches x y) :
    (s.lower x (s.number y)).Sound n where
  stacked := { h.stacked with }
  connected := { h.connected with }
  lows := h.lows.lower hy path
  components := h.components

end AppBuilder.ComponentSearch
