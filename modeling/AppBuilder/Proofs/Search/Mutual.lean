import AppBuilder.Proofs.Search.Preorder
import Mathlib.Data.List.Nodup

/-!
Components of a network.

A component is a list of all the items that reach each other. `Components` is what a list of
components keeps while it grows: no item is listed twice, all that is reached from a component is
in it or in one before it. `Components.append` says when a list of items may be put behind them.
-/

namespace AppBuilder.Network

variable {α : Type} [DecidableEq α] {n : Network α}

/-- Two items reach each other. -/
def Mutual (n : Network α) (x y : α) : Prop := n.Reaches x y ∧ n.Reaches y x

theorem Mutual.symm {x y : α} (h : n.Mutual x y) : n.Mutual y x := ⟨h.2, h.1⟩

theorem Mutual.trans {x y z : α} (h : n.Mutual x y) (h' : n.Mutual y z) : n.Mutual x z :=
  ⟨h.1.trans h'.1, h'.2.trans h.2⟩

/-- The items of a list reach each other, and no item outside it is mutual with them. -/
def IsComponent (n : Network α) (c : List α) : Prop :=
  c ≠ [] ∧ ∀ x ∈ c, ∀ y, y ∈ c ↔ n.Mutual x y

/-- Components that hold all that their items reach, each behind those that it reaches. -/
structure Components (n : Network α) (found : List (List α)) : Prop where
  nodup : found.flatten.Nodup
  isComponent : ∀ c ∈ found, n.IsComponent c
  closed : ∀ x ∈ found.flatten, ∀ y, n.Reaches x y → y ∈ found.flatten
  ordered : found.Pairwise fun c d => ∀ x ∈ c, ∀ y ∈ d, ¬ n.Reaches x y

theorem Components.nil : n.Components [] := by
  constructor <;> simp

/-- Items that are mutual with one of them and have no successors outside them and the
components found form the next component. -/
theorem Components.append {found : List (List α)} (h : n.Components found) {c : List α} {root : α}
    (hroot : root ∈ c) (nodup : c.Nodup) (new : ∀ x ∈ c, x ∉ found.flatten)
    (joined : ∀ x ∈ c, n.Mutual root x)
    (closed : ∀ x ∈ c, ∀ y ∈ n.successors x, y ∈ found.flatten ∨ y ∈ c) :
    n.Components (found ++ [c]) := by
  have reached : ∀ x ∈ c, ∀ y, n.Reaches x y → y ∈ found.flatten ∨ y ∈ c := by
    intro x hx y path
    induction path with
    | refl => exact .inr hx
    | tail _ step ih =>
      rcases ih with old | own
      · exact .inl (h.closed _ old _ (.single step))
      · exact closed _ own _ step
  have flatten : (found ++ [c]).flatten = found.flatten ++ c := by simp
  refine ⟨?_, ?_, ?_, ?_⟩
  · rw [flatten, List.nodup_append']
    exact ⟨h.nodup, nodup, fun x old own => new x own old⟩
  · intro d hd
    rcases List.mem_append.mp hd with hd | hd
    · exact h.isComponent d hd
    · obtain rfl := List.mem_singleton.mp hd
      refine ⟨List.ne_nil_of_mem hroot, fun x hx y => ⟨?_, ?_⟩⟩
      · intro hy
        exact (joined x hx).symm.trans (joined y hy)
      · intro both
        rcases reached x hx y both.1 with old | own
        · exact absurd (h.closed y old x both.2) (new x hx)
        · exact own
  · intro x hx y path
    rw [flatten, List.mem_append] at hx ⊢
    rcases hx with old | own
    · exact .inl (h.closed x old y path)
    · exact reached x own y path
  · refine List.pairwise_append.mpr ⟨h.ordered, List.pairwise_singleton _ _, ?_⟩
    intro d hd e he x hx y hy path
    obtain rfl := List.mem_singleton.mp he
    exact new y hy (h.closed x (List.mem_flatten.mpr ⟨d, hd, hx⟩) y path)

end AppBuilder.Network
