import AppBuilder.Search
import Mathlib.Logic.Relation

/-!
What a search reaches.

A search lists what the items on its stack reach by steps outside the items seen before
(`mem_search_iff`), each item once (`nodup_search`). With nothing seen before that is all that
the starts reach (`mem_preorder_iff`).
-/

namespace AppBuilder.Network

variable {α : Type} [DecidableEq α] {n : Network α}

/-- Some steps lead from an item to another one. -/
abbrev Reaches (n : Network α) : α → α → Prop := Relation.ReflTransGen fun a b => b ∈ n.successors a

/-- Some steps lead from an item to another one, none of them to an item seen before. -/
abbrev ReachesOutside (n : Network α) (seen : List α) : α → α → Prop :=
  Relation.ReflTransGen fun a b => b ∈ n.successors a ∧ b ∉ seen

theorem reachesOutside_nil {a b : α} : n.ReachesOutside [] a b ↔ n.Reaches a b := by
  simp [ReachesOutside, Reaches]

theorem ReachesOutside.of_cons {seen : List α} {x a b : α}
    (h : n.ReachesOutside (x :: seen) a b) : n.ReachesOutside seen a b := by
  induction h with
  | refl => exact .refl
  | tail _ step ih => exact ih.tail ⟨step.1, fun hs => step.2 (List.mem_cons_of_mem _ hs)⟩

/-- A walk outside some items avoids a further item too, ends at that item, or goes on from it
and does not come back. -/
theorem ReachesOutside.avoids_or_leaves {seen : List α} {a b : α} (x : α)
    (h : n.ReachesOutside seen a b) :
    n.ReachesOutside (x :: seen) a b ∨ b = x ∨
      ∃ y ∈ n.successors x, y ∉ x :: seen ∧ n.ReachesOutside (x :: seen) y b := by
  induction h with
  | refl => exact .inl .refl
  | @tail b c _ step ih =>
    by_cases same : c = x
    · exact .inr (.inl same)
    have outside : c ∉ x :: seen := by simp [same, step.2]
    rcases ih with avoids | rfl | ⟨y, hy, fresh, path⟩
    · exact .inl (avoids.tail ⟨step.1, outside⟩)
    · exact .inr (.inr ⟨c, step.1, outside, .refl⟩)
    · exact .inr (.inr ⟨y, hy, fresh, path.tail ⟨step.1, outside⟩⟩)

/-- A walk outside some items that ends elsewhere leaves its start and does not come back. -/
theorem ReachesOutside.leaves {seen : List α} {a b : α} (h : n.ReachesOutside seen a b)
    (other : b ≠ a) :
    ∃ y ∈ n.successors a, y ∉ a :: seen ∧ n.ReachesOutside (a :: seen) y b := by
  rcases h.avoids_or_leaves a with avoids | same | leaves
  · rcases Relation.ReflTransGen.cases_head avoids with same | ⟨y, step, path⟩
    · exact absurd same.symm other
    · exact ⟨y, step.1, step.2, path⟩
  · exact absurd same other
  · exact leaves

/-- A search lists what its stack reaches outside the items seen before. -/
theorem mem_search_iff {stack seen : List α} {y : α} :
    y ∈ n.search stack seen ↔ ∃ x ∈ stack, x ∉ seen ∧ n.ReachesOutside seen x y := by
  fun_induction search n stack seen with
  | case1 seen => simp
  | case2 seen x rest met ih =>
    rw [ih]
    simp [met]
  | case3 seen x rest new ih =>
    rw [List.mem_cons, ih]
    constructor
    · rintro (rfl | ⟨z, hz, fresh, path⟩)
      · exact ⟨y, List.mem_cons_self, new, .refl⟩
      have outside : z ∉ seen := fun hs => fresh (List.mem_cons_of_mem _ hs)
      rcases List.mem_append.mp hz with hz | hz
      · exact ⟨x, List.mem_cons_self, new, .head ⟨hz, outside⟩ path.of_cons⟩
      · exact ⟨z, List.mem_cons_of_mem _ hz, outside, path.of_cons⟩
    · rintro ⟨z, hz, outside, path⟩
      by_cases found : y = x
      · exact .inl found
      refine .inr ?_
      by_cases same : z = x
      · obtain ⟨w, hw, fresh, path⟩ := ReachesOutside.leaves (same ▸ path) found
        exact ⟨w, List.mem_append_left _ hw, fresh, path⟩
      have hz : z ∈ rest := (List.mem_cons.mp hz).resolve_left same
      rcases path.avoids_or_leaves x with avoids | same | ⟨w, hw, fresh, path⟩
      · exact ⟨z, List.mem_append_right _ hz, by simp [same, outside], avoids⟩
      · exact absurd same found
      · exact ⟨w, List.mem_append_left _ hw, fresh, path⟩

theorem not_mem_search_of_seen {stack seen : List α} {y : α} (hy : y ∈ seen) :
    y ∉ n.search stack seen := by
  rw [mem_search_iff]
  rintro ⟨x, _, fresh, path⟩
  cases path with
  | refl => exact fresh hy
  | tail _ step => exact step.2 hy

/-- A search lists no item twice. -/
theorem nodup_search (n : Network α) (stack seen : List α) : (n.search stack seen).Nodup := by
  fun_induction search n stack seen with
  | case1 seen => exact .nil
  | case2 seen x rest met ih => exact ih
  | case3 seen x rest new ih =>
    exact List.nodup_cons.mpr ⟨not_mem_search_of_seen List.mem_cons_self, ih⟩

/-- A preorder lists what the starts reach. -/
theorem mem_preorder_iff {starts : List α} {y : α} :
    y ∈ n.preorder starts ↔ ∃ x ∈ starts, n.Reaches x y := by
  simp [preorder, mem_search_iff, reachesOutside_nil]

end AppBuilder.Network
