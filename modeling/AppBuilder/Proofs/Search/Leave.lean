import AppBuilder.Proofs.Search.Invariant

/-!
Leaving an item.

The item searched last has none of its successors left to try. When its low number is less than
its own it reaches an item below it, so it stays on the stack with all above it (`Sound.keep`).
When the low number is its own, no successor of an item above it lies below it on the stack, so
it and what is above it form a component (`Sound.close`).
-/

namespace AppBuilder.ComponentSearch

variable {α : Type} [DecidableEq α] {n : Network α} {s : ComponentSearch α}

/-- An item with all above it on the stack, and what lies below it. -/
structure Cut (s : ComponentSearch α) (x : α) (own below : List α) : Prop where
  stack_eq : s.stack = own ++ below
  root : x ∈ own
  greater : ∀ y ∈ own, s.number x ≤ s.number y
  less : ∀ y ∈ below, s.number y < s.number x

namespace Cut

variable {x : α} {own below : List α} (h : s.Cut x own below)
include h

theorem mem_stack_iff {y : α} : y ∈ s.stack ↔ y ∈ own ∨ y ∈ below := by
  rw [h.stack_eq, List.mem_append]

theorem mem_stack {y : α} (hy : y ∈ own) : y ∈ s.stack := h.mem_stack_iff.mpr (.inl hy)

theorem mem_below {y : α} (hy : y ∈ s.stack) (less : s.number y < s.number x) : y ∈ below := by
  rcases h.mem_stack_iff.mp hy with hy | hy
  · exact absurd less (Nat.not_lt.mpr (h.greater y hy))
  · exact hy

end Cut

/-! ### The end of a call -/

section Leave

variable {x : α} {calls : List (Call α)} (here : s.calls = ⟨x, []⟩ :: calls)
include here

omit [DecidableEq α] in
theorem untried_of_done {a b : α} (untried : Pending s.calls a b) : Pending calls a b :=
  (here ▸ untried).of_done

omit [DecidableEq α] in
theorem searched_of_rest {c : α} (hc : c ∈ calls.map (·.item)) : c ∈ s.searched :=
  searched_eq here ▸ List.mem_cons_of_mem _ hc

/-- An item being searched with a lesser number than the one left is still being searched. -/
theorem mem_rest_of_lt {c : α} (hc : c ∈ s.searched) (less : s.number c < s.number x) :
    c ∈ calls.map (·.item) := by
  rw [searched_eq here] at hc
  rcases List.mem_cons.mp hc with rfl | hc
  · exact absurd less (Nat.lt_irrefl _)
  · exact hc

theorem Stacked.deeper_rest (h : s.Stacked) :
    (calls.map (·.item)).Pairwise fun c d => s.number d < s.number c := by
  have deeper := h.deeper
  rw [searched_eq here] at deeper
  exact (List.pairwise_cons.mp deeper).2

/-! ### Staying on the stack -/

theorem Stacked.keep (h : s.Stacked) : ({ s with calls } : ComponentSearch α).Stacked := by
  have deeper := h.deeper_rest here
  refine { h with searched_mem := ?_, deeper }
  intro c hc
  exact h.searched_mem c (searched_of_rest here hc)

/-- What reached the item left reaches an item searched further down. -/
theorem Connected.keep (h : s.Connected n) (lows : s.Lows n) (lower : s.low x < s.number x) :
    ({ s with calls } : ComponentSearch α).Connected n where
  reached := h.reached
  pending_mem f hf := h.pending_mem f (here ▸ List.mem_cons_of_mem _ hf)
  tried a ha b hb := (h.tried a ha b hb).imp_right (untried_of_done here)
  up c hc := h.up c (searched_of_rest here hc)
  down := by
    intro y hy
    obtain ⟨c, hc, le, path⟩ := h.down y hy
    rw [searched_eq here] at hc
    rcases List.mem_cons.mp hc with rfl | hc
    · obtain ⟨z, hz, same, path'⟩ := lows.low_reached c (searched_eq here ▸ List.mem_cons_self)
      obtain ⟨d, hd, le', path''⟩ := h.down z hz
      have less : s.number d < s.number c := by omega
      have le'' : s.number d ≤ s.number y := by omega
      exact ⟨d, mem_rest_of_lt here hd less, le'', path.trans (path'.trans path'')⟩
    · exact ⟨c, hc, le, path⟩

/-- What is above the item left is now above its caller. -/
theorem Lows.keep (h : s.Lows n) (stacked : s.Stacked)
    (told : ∀ p ∈ calls.head?, s.low p.item ≤ s.low x) :
    ({ s with calls } : ComponentSearch α).Lows n where
  low_le c hc := h.low_le c (searched_of_rest here hc)
  low_reached c hc := h.low_reached c (searched_of_rest here hc)
  le_number := by
    intro c hc a ha le b hb hb'
    rcases h.le_number c (searched_of_rest here hc) a ha le b hb hb' with
      untried | ⟨d, hd, above, below, low⟩
    · exact .inl (untried_of_done here untried)
    rw [searched_eq here] at hd
    rcases List.mem_cons.mp hd with rfl | hd
    · cases calls with
      | nil => simp [searched] at hc
      | cons p rest =>
        have caller : p.item ∈ (p :: rest).map (·.item) := by simp
        have less := stacked.searched_lt here caller
        have le' : s.number c ≤ s.number p.item := by
          rcases List.mem_cons.mp hc with rfl | hc
          · exact Nat.le_refl _
          · exact Nat.le_of_lt ((List.pairwise_cons.mp (stacked.deeper_rest here)).1 c hc)
        have le'' : s.number p.item ≤ s.number a := by omega
        exact .inr ⟨p.item, caller, le', le'', Nat.le_trans (told p rfl) low⟩
    · exact .inr ⟨d, hd, above, below, low⟩

/-- An item that reaches a lesser number on the stack stays there. -/
theorem Sound.keep (h : s.Sound n) (lower : s.low x < s.number x)
    (told : ∀ p ∈ calls.head?, s.low p.item ≤ s.low x) :
    ({ s with calls } : ComponentSearch α).Sound n where
  stacked := h.stacked.keep here
  connected := h.connected.keep here h.lows lower
  lows := h.lows.keep here h.stacked told
  components := h.components

/-! ### Leaving with the component -/

omit here in
/-- Closing an item cuts the stack under it. -/
theorem Stacked.exists_cut (h : s.Stacked) (hx : x ∈ s.stack) : ∃ own below, s.Cut x own below ∧
    s.close x = { s with stack := below, found := s.found ++ [own] } := by
  obtain ⟨above, below, split, first⟩ := List.eq_append_cons_of_mem hx
  have size : s.stack.idxOf x = above.length := by
    rw [split, List.idxOf_append_of_notMem first, List.idxOf_cons_self, Nat.add_zero]
  have taken : s.stack.take (above.length + 1) = above ++ [x] := by
    simp [split, List.take_append, List.take_of_length_le]
  have rest : s.stack.drop (above.length + 1) = below := by
    simp [split, List.drop_append]
  have falling := h.falling
  rw [split] at falling
  obtain ⟨-, under, above_lt⟩ := List.pairwise_append.mp falling
  refine ⟨above ++ [x], below, ⟨by simp [split], by simp, ?_, ?_⟩, ?_⟩
  · intro y hy
    rcases List.mem_append.mp hy with hy | hy
    · exact Nat.le_of_lt (above_lt y hy x List.mem_cons_self)
    · exact Nat.le_of_eq (congrArg s.number (List.mem_singleton.mp hy).symm)
  · exact (List.pairwise_cons.mp under).1
  · simp only [ComponentSearch.close, size, taken, rest]

section Close

variable {own below : List α} (cut : s.Cut x own below)
include cut

/-- No successor of what is cut off lies under the cut when the item left keeps its own number. -/
theorem Sound.successor_cut (h : s.Sound n) (least : s.low x = s.number x) :
    ∀ y ∈ own, ∀ z ∈ n.successors y, z ∈ s.found.flatten ∨ z ∈ own := by
  intro y hy z hz
  have hx : x ∈ s.searched := searched_eq here ▸ List.mem_cons_self
  have tried : ¬ Pending s.calls y z := by
    intro untried
    have less := h.stacked.searched_lt here (untried_of_done here untried).item_mem
    exact absurd less (Nat.not_lt.mpr (cut.greater y hy))
  have met : z ∈ s.met :=
    (h.connected.tried y (h.stacked.met_of_stack (cut.mem_stack hy)) z hz).resolve_right tried
  rcases (h.stacked.met_iff z).mp met with stack | found
  · refine .inr ((cut.mem_stack_iff.mp stack).resolve_right fun under => ?_)
    rcases h.lows.le_number x hx y (cut.mem_stack hy) (cut.greater y hy) z hz stack with
      untried | ⟨d, hd, le, -, low⟩
    · exact tried untried
    · -- among the items being searched only the one left is as high as itself
      rw [searched_eq here] at hd
      rcases List.mem_cons.mp hd with rfl | hd
      · exact absurd (cut.less z under) (Nat.not_lt.mpr (least ▸ low))
      · exact absurd (h.stacked.searched_lt here hd) (Nat.not_lt.mpr le)
  · exact .inl found

/-- The item left and all above it reach each other. -/
theorem Sound.mutual_cut (h : s.Sound n) : ∀ y ∈ own, n.Mutual x y := by
  intro y hy
  have hx : x ∈ s.searched := searched_eq here ▸ List.mem_cons_self
  refine ⟨h.connected.up x hx y (cut.mem_stack hy) (cut.greater y hy), ?_⟩
  obtain ⟨c, hc, -, path⟩ := h.connected.down y (cut.mem_stack hy)
  refine path.trans (h.connected.up c hc x (h.stacked.searched_mem x hx) ?_)
  exact h.stacked.searched_le here hc

theorem Sound.components_cut (h : s.Sound n) (least : s.low x = s.number x) :
    n.Components (s.found ++ [own]) := by
  refine h.components.append cut.root ?_ ?_ (h.mutual_cut here cut) (h.successor_cut here cut least)
  · have falling := h.stacked.falling
    rw [cut.stack_eq] at falling
    refine (List.pairwise_append.mp falling).1.imp ?_
    rintro a b less rfl
    exact absurd less (Nat.lt_irrefl _)
  · intro y hy
    exact h.stacked.apart y (cut.mem_stack hy)

theorem Stacked.close (h : s.Stacked) :
    ({ s with stack := below, found := s.found ++ [own], calls } : ComponentSearch α).Stacked := by
  have mem_flatten : ∀ y, y ∈ (s.found ++ [own]).flatten ↔ y ∈ s.found.flatten ∨ y ∈ own := by
    intro y
    rw [List.flatten_append, List.flatten_singleton, List.mem_append]
  have deeper := h.deeper_rest here
  refine { h with met_iff := ?_, apart := ?_, falling := ?_, searched_mem := ?_, deeper }
  · intro y
    refine (h.met_iff y).trans ?_
    rw [cut.mem_stack_iff, mem_flatten, or_assoc, or_comm, or_assoc]
  · intro y hy
    rw [mem_flatten, not_or]
    refine ⟨h.apart y (cut.mem_stack_iff.mpr (.inr hy)), fun above => ?_⟩
    exact absurd (cut.less y hy) (Nat.not_lt.mpr (cut.greater y above))
  · have falling := h.falling
    rw [cut.stack_eq] at falling
    exact (List.pairwise_append.mp falling).2.1
  · intro c hc
    exact cut.mem_below (h.searched_mem c (searched_of_rest here hc)) (h.searched_lt here hc)

theorem Connected.close (h : s.Connected n) : ({ s with
    stack := below, found := s.found ++ [own], calls } : ComponentSearch α).Connected n where
  reached := h.reached
  pending_mem f hf := h.pending_mem f (here ▸ List.mem_cons_of_mem _ hf)
  tried a ha b hb := (h.tried a ha b hb).imp_right (untried_of_done here)
  up c hc y hy := h.up c (searched_of_rest here hc) y (cut.mem_stack_iff.mpr (.inr hy))
  down := by
    intro y hy
    obtain ⟨c, hc, le, path⟩ := h.down y (cut.mem_stack_iff.mpr (.inr hy))
    exact ⟨c, mem_rest_of_lt here hc (Nat.lt_of_le_of_lt le (cut.less y hy)), le, path⟩

theorem Lows.close (h : s.Lows n) (stacked : s.Stacked) : ({ s with
    stack := below, found := s.found ++ [own], calls } : ComponentSearch α).Lows n where
  low_le c hc := h.low_le c (searched_of_rest here hc)
  low_reached := by
    intro c hc
    obtain ⟨y, hy, same, path⟩ := h.low_reached c (searched_of_rest here hc)
    have low_le := h.low_le c (searched_of_rest here hc)
    have less := stacked.searched_lt here hc
    exact ⟨y, cut.mem_below hy (by omega), same, path⟩
  le_number := by
    intro c hc a ha le b hb hb'
    have ha' := cut.mem_stack_iff.mpr (.inr ha)
    have hb' := cut.mem_stack_iff.mpr (.inr hb')
    rcases h.le_number c (searched_of_rest here hc) a ha' le b hb hb' with
      untried | ⟨d, hd, le, le', low⟩
    · exact .inl (untried_of_done here untried)
    · have rest := mem_rest_of_lt here hd (Nat.lt_of_le_of_lt le' (cut.less a ha))
      exact .inr ⟨d, rest, le, le', low⟩

end Close

/-- An item that keeps its own number is left with its component, which is what lies above it on
the stack. -/
theorem Sound.close (h : s.Sound n) (least : s.low x = s.number x) :
    ({ s.close x with calls } : ComponentSearch α).Sound n := by
  have hx : x ∈ s.searched := searched_eq here ▸ List.mem_cons_self
  obtain ⟨own, below, cut, closed⟩ := h.stacked.exists_cut (h.stacked.searched_mem x hx)
  rw [closed]
  exact
    { stacked := h.stacked.close here cut
      connected := h.connected.close here cut
      lows := h.lows.close here cut h.stacked
      components := h.components_cut here cut least }

/-! ### Both -/

/-- Every item searched last is left with its component or stays on the stack. -/
theorem Sound.finish (h : s.Sound n) (told : ∀ p ∈ calls.head?, s.low p.item ≤ s.low x) :
    ({ (if s.low x = s.number x then s.close x else s) with
      calls } : ComponentSearch α).Sound n := by
  by_cases own : s.low x = s.number x
  · rw [if_pos own]
    exact h.close here own
  · rw [if_neg own]
    have le := h.lows.low_le x (searched_eq here ▸ List.mem_cons_self)
    exact h.keep here (Nat.lt_of_le_of_ne le own) told

theorem Sound.leave (h : s.Sound n) : (s.leave x calls).Sound n := by
  cases calls with
  | nil => exact h.finish here (by simp)
  | cons p rest =>
    have eq := searched_eq here
    have hx : x ∈ s.searched := eq ▸ List.mem_cons_self
    have hp : p.item ∈ s.searched := by simp [eq]
    have less := h.stacked.searched_lt here (c := p.item) (by simp)
    have other : x ≠ p.item := fun same => absurd (same ▸ less) (Nat.lt_irrefl _)
    obtain ⟨y, hy, same, path⟩ := h.lows.low_reached x hx
    have reaches : n.Reaches p.item y :=
      (h.connected.up _ hp x (h.stacked.searched_mem x hx) (Nat.le_of_lt less)).trans path
    have lowered : (s.lower p.item (s.low x)).Sound n := same ▸ h.lower hy reaches
    refine lowered.finish here fun q hq => ?_
    obtain rfl := Option.some.inj hq
    rw [low_lower_self, low_lower other]
    exact Nat.min_le_right _ _

end Leave

end AppBuilder.ComponentSearch
