/-!
Depth-first search.

A `Network` lists the successors of every item. `Network.search` takes items off a stack; one
that it has not met before is listed, and its successors take its place on the stack. The
items reached from some starts, in the order of listing them, are the `preorder`.
-/

namespace AppBuilder

/-- The items of a finite network and the successors of each, in the order in which
they are tried. Only the listed items have successors. -/
structure Network (α : Type) where
  items : List α
  next : α → List α

namespace Network

variable {α : Type} [DecidableEq α]

/-- The successors of an item. -/
def successors (n : Network α) (x : α) : List α := if x ∈ n.items then n.next x else []

/-- The listed items that have not been met. -/
def unseen (n : Network α) (seen : List α) : List α := n.items.filter (· ∉ seen)

theorem unseen_cons (n : Network α) (seen : List α) (x : α) :
    n.unseen (x :: seen) = (n.unseen seen).filter (· ≠ x) := by
  simp only [unseen, List.filter_filter, List.mem_cons, not_or]
  congr 1
  funext y
  simp

theorem length_unseen_cons_le (n : Network α) (seen : List α) (x : α) :
    (n.unseen (x :: seen)).length ≤ (n.unseen seen).length := by
  rw [unseen_cons]
  exact List.length_filter_le _ _

theorem length_unseen_cons_lt (n : Network α) (seen : List α) {x : α} (hx : x ∈ n.items)
    (hs : x ∉ seen) : (n.unseen (x :: seen)).length < (n.unseen seen).length := by
  have hmem : x ∈ n.unseen seen := List.mem_filter.mpr ⟨hx, by simpa using hs⟩
  rw [unseen_cons]
  exact List.length_filter_lt_length_iff_exists.mpr ⟨x, hmem, by simp⟩

/-- Meeting an item leaves fewer listed items unseen, or it has no successors. -/
theorem unseen_cons_lex (n : Network α) {seen : List α} {x : α} (hs : x ∉ seen) {a b : Nat}
    (h : n.successors x = [] → a < b) :
    Prod.Lex (· < ·) (· < ·) ((n.unseen (x :: seen)).length, a) ((n.unseen seen).length, b) := by
  rcases Decidable.em (x ∈ n.items) with hx | hx
  · exact .left _ _ (n.length_unseen_cons_lt seen hx hs)
  · rcases Nat.lt_or_eq_of_le (n.length_unseen_cons_le seen x) with lt | eq
    · exact .left _ _ lt
    · rw [eq]
      exact .right _ (h (by simp [successors, hx]))

/-- The items met when those on a stack are searched, passing over the items seen before. -/
def search (n : Network α) (stack seen : List α) : List α :=
  match stack with
  | [] => []
  | x :: rest =>
    if x ∈ seen then n.search rest seen
    else x :: n.search (n.successors x ++ rest) (x :: seen)
termination_by ((n.unseen seen).length, stack.length)
decreasing_by
  · exact .right _ (by simp)
  · exact n.unseen_cons_lex (by assumption) (by simp +contextual)

/-- The items reached from the starts, in the order of meeting them. -/
def preorder (n : Network α) (starts : List α) : List α := n.search starts []

end Network

end AppBuilder
