import AppBuilder.Proofs.Search.Leave

/-!
The components that a search finds.

Every step of a search keeps what holds of its state (`Sound.step`), and so does every run, which
ends when no item is being searched. Then nothing is left on the stack, and the components found
are those of all that has been met.

Main statement: `Network.components_spec`.
-/

namespace AppBuilder

variable {α : Type} [DecidableEq α] {n : Network α} {s : ComponentSearch α}

namespace ComponentSearch

/-! ### Steps and runs -/

theorem step_of_idle (idle : s.calls = []) : s.step n = s := by
  simp [step, idle]

theorem step_of_done {x : α} {calls : List (Call α)} (here : s.calls = ⟨x, []⟩ :: calls) :
    s.step n = s.leave x calls := by
  simp [step, here]

section Try

variable {x y : α} {pending : List α} {calls : List (Call α)}
  (here : s.calls = ⟨x, y :: pending⟩ :: calls)
include here

theorem step_of_new (new : y ∉ s.met) :
    s.step n = { s.meet y (n.successors y) with
      calls := [⟨y, n.successors y⟩] ++ ⟨x, pending⟩ :: calls } := by
  simp only [step, here]
  exact if_pos new

theorem step_of_stack (met : y ∈ s.met) (stack : y ∈ s.stack) :
    s.step n = { s.lower x (s.number y) with calls := [] ++ ⟨x, pending⟩ :: calls } := by
  simp only [step, here]
  exact (if_neg (not_not.mpr met)).trans (if_pos stack)

theorem step_of_found (met : y ∈ s.met) (found : y ∉ s.stack) :
    s.step n = { s with calls := [] ++ ⟨x, pending⟩ :: calls } := by
  simp only [step, here]
  exact (if_neg (not_not.mpr met)).trans (if_neg found)

theorem Sound.step_try (h : s.Sound n) : (s.step n).Sound n := by
  have eq := searched_eq here
  have hx : x ∈ s.searched := eq ▸ List.mem_cons_self
  have edge : y ∈ n.successors x :=
    h.connected.pending_mem _ (here ▸ List.mem_cons_self) y List.mem_cons_self
  have hxs : x ∈ s.stack := h.stacked.searched_mem x hx
  by_cases met : y ∈ s.met
  · by_cases stack : y ∈ s.stack
    · rw [step_of_stack here met stack]
      have lowered : (s.lower x (s.number y)).Sound n := h.lower stack (.single edge)
      refine lowered.pass [] here met fun _ => ?_
      rw [low_lower_self]
      exact Nat.min_le_right _ _
    · rw [step_of_found here met stack]
      exact h.pass [] here met fun hy => absurd hy stack
  · rw [step_of_new here met]
    obtain ⟨r, hr, path⟩ := h.connected.reached x (h.stacked.met_of_stack hxs)
    have below : ∀ c ∈ s.searched, n.Reaches c y := fun c hc =>
      (h.connected.up c hc x hxs (h.stacked.searched_le here hc)).tail edge
    have grown : (s.meet y (n.successors y)).Sound n := h.meet met ⟨r, hr, path.tail edge⟩ below
    refine grown.pass [⟨y, n.successors y⟩] (congrArg _ here) List.mem_cons_self fun _ => ?_
    have old := ne_of_met met (h.stacked.met_of_stack hxs)
    rw [low_meet old, number_meet_self]
    have low_le := h.lows.low_le x hx
    have lt := h.stacked.number_lt x (h.stacked.met_of_stack hxs)
    omega

end Try

theorem Sound.step (h : s.Sound n) : (s.step n).Sound n := by
  cases here : s.calls with
  | nil => rwa [step_of_idle here]
  | cons f calls =>
    obtain ⟨x, pending⟩ := f
    cases pending with
    | nil =>
      rw [step_of_done here]
      exact h.leave here
    | cons y pending => exact h.step_try here

/-- What has been met stays met. -/
theorem met_step {x : α} (hx : x ∈ s.met) : x ∈ (s.step n).met := by
  cases here : s.calls with
  | nil => rwa [step_of_idle here]
  | cons f calls =>
    obtain ⟨y, pending⟩ := f
    cases pending with
    | nil =>
      rw [step_of_done here, met_leave]
      exact hx
    | cons z pending =>
      by_cases met : z ∈ s.met
      · by_cases stack : z ∈ s.stack
        · rw [step_of_stack here met stack]
          exact hx
        · rw [step_of_found here met stack]
          exact hx
      · rw [step_of_new here met]
        exact List.mem_cons_of_mem _ hx

/-- A search goes on until no item is being searched. -/
theorem calls_run (n : Network α) (s : ComponentSearch α) : (s.run n).calls = [] := by
  fun_induction run n s with
  | case1 s idle => exact List.isEmpty_iff.mp idle
  | case2 s _ ih => exact ih

theorem Sound.run (h : s.Sound n) : (s.run n).Sound n := by
  fun_induction ComponentSearch.run n s with
  | case1 s _ => exact h
  | case2 s _ ih => exact ih h.step

theorem met_run {x : α} (hx : x ∈ s.met) : x ∈ (s.run n).met := by
  fun_induction run n s with
  | case1 s _ => exact hx
  | case2 s _ ih => exact ih (met_step hx)

end ComponentSearch

namespace Network

theorem met_searchFrom {x y : α} (hy : y = x ∨ y ∈ s.met) : y ∈ (n.searchFrom s x).met := by
  unfold searchFrom
  by_cases met : x ∈ s.met
  · rw [if_pos met]
    rcases hy with rfl | hy
    · exact met
    · exact hy
  · rw [if_neg met]
    exact ComponentSearch.met_run (List.mem_cons.mpr hy)

theorem sound_searchFrom (h : s.Sound n) (idle : s.calls = []) {x : α} (hx : x ∈ n.items) :
    (n.searchFrom s x).Sound n ∧ (n.searchFrom s x).calls = [] := by
  unfold searchFrom
  by_cases met : x ∈ s.met
  · rw [if_pos met]
    exact ⟨h, idle⟩
  · rw [if_neg met]
    have start : (s.meet x (n.successors x)).Sound n := by
      refine h.meet met ⟨x, hx, .refl⟩ fun c hc => ?_
      simp [ComponentSearch.searched, idle] at hc
    exact ⟨start.run, ComponentSearch.calls_run n _⟩

/-- Searching some items one after another meets all of them. -/
theorem sound_foldl_searchFrom {xs : List α} (sub : ∀ x ∈ xs, x ∈ n.items) (h : s.Sound n)
    (idle : s.calls = []) :
    (xs.foldl n.searchFrom s).Sound n ∧ (xs.foldl n.searchFrom s).calls = [] ∧
      ∀ y, y ∈ xs ∨ y ∈ s.met → y ∈ (xs.foldl n.searchFrom s).met := by
  induction xs generalizing s with
  | nil => exact ⟨h, idle, fun y hy => by simpa using hy⟩
  | cons x xs ih =>
    obtain ⟨sound, idle⟩ := sound_searchFrom h idle (sub x List.mem_cons_self)
    obtain ⟨sound, idle, all⟩ := ih (fun y hy => sub y (List.mem_cons_of_mem _ hy)) sound idle
    refine ⟨sound, idle, fun y hy => all y ?_⟩
    rw [List.mem_cons, or_right_comm] at hy
    rcases hy with hy | hy
    · exact .inr (met_searchFrom hy)
    · exact .inl hy

/-- The components of a network are the strongly connected components of all that its items
reach, each listed once and behind those that it reaches. -/
theorem components_spec (n : Network α) : n.Components n.components ∧
    ∀ x, x ∈ n.components.flatten ↔ ∃ r ∈ n.items, n.Reaches r x := by
  obtain ⟨sound, idle, all⟩ :=
    sound_foldl_searchFrom (fun _ hx => hx) (ComponentSearch.Sound.empty n) rfl
  have met_iff := sound.stacked.met_iff
  rw [sound.connected.stack_eq_nil idle] at met_iff
  refine ⟨sound.components, fun x => ⟨?_, ?_⟩⟩
  · intro hx
    exact sound.connected.reached x ((met_iff x).mpr (.inr hx))
  · rintro ⟨r, hr, path⟩
    have found := ((met_iff r).mp (all r (.inl hr))).resolve_left List.not_mem_nil
    exact sound.components.closed r found x path

end Network

end AppBuilder
