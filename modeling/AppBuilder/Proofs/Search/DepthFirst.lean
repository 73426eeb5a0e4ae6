import AppBuilder.Proofs.Search.Worklist
import AppBuilder.Trace
import Mathlib.Data.List.Nodup

/-!
Depth-first searches, round by round.

A round takes the item on top of a stack; one that is new is found, and its successors are put on
the stack. The rounds of a search end, each item that was put on the stack has been taken off once
by then, and found is what `Network.search` lists (`exists_trace_search`).

An item may be on the stack twice, and whether it is new is only seen when it is taken off. Below a
root of a forest that makes no difference, since every item taken off is new (`Descends.visit`).
There the search lists what the successor lists unfold to (`unfolds_preorder`).
-/

namespace AppBuilder

/-! ### Forests -/

section Forests

variable {α : Type} {next : α → List α}

/-- Items in depth-first order: each of some starts, and behind it what its successors unfold to.
Nothing is remembered on the way, so that an item met twice is listed twice. -/
inductive Unfolds (next : α → List α) : List α → List α → Prop where
  | nil : Unfolds next [] []
  | cons {x : α} {rest below after : List α} :
    Unfolds next (next x) below → Unfolds next rest after →
    Unfolds next (x :: rest) (x :: (below ++ after))

/-- Successor lists in which no item stands twice, neither in one list nor in two, and that do not
lead from an item back to it. -/
structure Forest (next : α → List α) : Prop where
  nodup : ∀ x, (next x).Nodup
  unique : ∀ x y z, z ∈ next x → z ∈ next y → x = y
  acyclic : ∀ x, ¬ Relation.TransGen (fun a b => b ∈ next a) x x

/-- Starts unfold to one list only. -/
theorem Unfolds.unique {starts listed listed' : List α} (h : Unfolds next starts listed)
    (h' : Unfolds next starts listed') : listed = listed' := by
  induction h generalizing listed' with
  | nil =>
    cases h'
    rfl
  | cons _ _ below after =>
    cases h' with
    | cons below' after' => rw [below below', after after']

/-- What some starts and others behind them unfold to falls into two parts. -/
theorem Unfolds.split {starts more listed : List α} (h : Unfolds next (starts ++ more) listed) :
    ∃ front back, listed = front ++ back ∧ Unfolds next starts front ∧ Unfolds next more back := by
  induction starts generalizing listed with
  | nil => exact ⟨[], listed, rfl, .nil, h⟩
  | cons x starts ih =>
    cases h with
    | cons below after =>
      obtain ⟨front, back, rfl, hfront, hback⟩ := ih after
      exact ⟨_, back, by simp, .cons below hfront, hback⟩

end Forests

namespace Network

variable {α : Type} [DecidableEq α] {n : Network α}

/-! ### Rounds -/

/-- Take the item on top of a stack. A new one is found, and its successors are put on the stack,
the first of them on top. -/
def pop (n : Network α) : Worklist α → Option (α × Worklist α)
  | ⟨_, []⟩ => none
  | ⟨found, x :: rest⟩ =>
    if x ∈ found then some (x, ⟨found, rest⟩)
    else some (x, ⟨x :: found, n.successors x ++ rest⟩)

/-- The next round takes an item. -/
def Pops (n : Network α) (w : Worklist α) (x : α) (next : Worklist α) : Prop :=
  n.pop w = some (x, next)

/-- The rounds of a search end, with each item put on the stack taken off once. -/
theorem exists_trace_search (n : Network α) (stack found : List α) :
    ∃ taken, Trace n.Pops ⟨found, stack⟩ taken ⟨(n.search stack found).reverse ++ found, []⟩ ∧
      taken.Perm (stack ++ (n.search stack found).flatMap n.successors) := by
  fun_induction search n stack found with
  | case1 found => exact ⟨[], .nil, .refl _⟩
  | case2 found x rest met ih =>
    obtain ⟨taken, run, perm⟩ := ih
    have first : n.Pops ⟨found, x :: rest⟩ x ⟨found, rest⟩ := by simp [Pops, pop, met]
    exact ⟨x :: taken, .cons first run, perm.cons x⟩
  | case3 found x rest new ih =>
    obtain ⟨taken, run, perm⟩ := ih
    have first : n.Pops ⟨found, x :: rest⟩ x ⟨x :: found, n.successors x ++ rest⟩ := by
      simp [Pops, pop, new]
    refine ⟨x :: taken, by simpa using Trace.cons first run, (perm.cons x).trans ?_⟩
    rw [List.flatMap_cons, List.append_assoc]
    exact (List.perm_append_comm_assoc _ _ _).cons x

/-! ### Searches in forests -/

/-- A search below a root of a forest: what is on the stack is below the root, new and there once,
and everything met so far is a successor of the root or of an item seen. -/
structure Descends (n : Network α) (root : α) (stack seen : List α) : Prop where
  nodup : stack.Nodup
  below : ∀ x ∈ stack, Relation.TransGen (fun a b => b ∈ n.successors a) root x
  new : ∀ x ∈ stack, x ∉ seen
  hung : ∀ x, x ∈ stack ∨ x ∈ seen → ∃ p, (p = root ∨ p ∈ seen) ∧ x ∈ n.successors p

namespace Descends

variable {root x : α} {stack rest seen : List α}

theorem start (forest : Forest n.successors) (root : α) :
    n.Descends root (n.successors root) [] where
  nodup := forest.nodup root
  below _ hx := .single hx
  new _ _ := List.not_mem_nil
  hung x hx := ⟨root, .inl rfl, by simpa using hx⟩

/-- A successor of an item on the stack has not been met. -/
theorem fresh (forest : Forest n.successors) (h : n.Descends root stack seen) (hx : x ∈ stack)
    {c : α} (hc : c ∈ n.successors x) : c ∉ stack ∧ c ∉ seen := by
  rw [← not_or]
  intro met
  obtain ⟨p, hp, hpc⟩ := h.hung c met
  -- the item that `c` was met through is `x`, but that is neither the root nor seen
  obtain rfl := forest.unique p x c hpc hc
  rcases hp with rfl | seen
  · exact forest.acyclic p (h.below p hx)
  · exact h.new p hx seen

/-- A visit goes on with a search below the root. -/
theorem visit (forest : Forest n.successors) (h : n.Descends root (x :: rest) seen) :
    n.Descends root (n.successors x ++ rest) (x :: seen) := by
  have top : x ∈ x :: rest := List.mem_cons_self
  have fresh := fun c (hc : c ∈ n.successors x) => h.fresh forest top hc
  obtain ⟨alone, nodup⟩ := List.nodup_cons.mp h.nodup
  refine ⟨?_, ?_, ?_, ?_⟩
  · refine (forest.nodup x).append nodup fun c hc hr => ?_
    exact (fresh c hc).1 (List.mem_cons_of_mem _ hr)
  · intro c hc
    rcases List.mem_append.mp hc with hc | hc
    · exact (h.below x top).tail hc
    · exact h.below c (List.mem_cons_of_mem _ hc)
  · intro c hc
    rcases List.mem_append.mp hc with hc | hc
    · have new := fresh c hc
      simp only [List.mem_cons, not_or] at new ⊢
      exact ⟨new.1.1, new.2⟩
    · have other : c ≠ x := fun same => alone (same ▸ hc)
      simpa [other] using h.new c (List.mem_cons_of_mem _ hc)
  · intro c hc
    have met : c ∈ n.successors x ∨ c ∈ x :: rest ∨ c ∈ seen := by
      simp only [List.mem_append, List.mem_cons] at hc ⊢
      tauto
    rcases met with hc | met
    · exact ⟨x, .inr List.mem_cons_self, hc⟩
    · obtain ⟨p, hp, hpc⟩ := h.hung c met
      exact ⟨p, hp.imp_right (List.mem_cons_of_mem _), hpc⟩

/-- A search below a root of a forest lists what its stack unfolds to. -/
theorem unfolds (forest : Forest n.successors) (h : n.Descends root stack seen) :
    Unfolds n.successors stack (n.search stack seen) := by
  fun_induction search n stack seen with
  | case1 seen => exact .nil
  | case2 seen x rest met ih => exact absurd met (h.new x List.mem_cons_self)
  | case3 seen x rest new ih =>
    obtain ⟨below, after, listed, hbelow, hafter⟩ := (ih (h.visit forest)).split
    rw [listed]
    exact .cons hbelow hafter

end Descends

/-- In a forest the preorder from the successors of an item is what they unfold to. -/
theorem unfolds_preorder (forest : Forest n.successors) (root : α) :
    Unfolds n.successors (n.successors root) (n.preorder (n.successors root)) :=
  (Descends.start forest root).unfolds forest

end Network

end AppBuilder
