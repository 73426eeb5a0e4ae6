import AppBuilder.Proofs.Search.Preorder

/-!
Searches that take what is waiting in any order.

A `Worklist` has the items found and those waiting, some of which may be waiting twice or be found
already. A visit takes any item that is waiting. If it is new, it is found and its successors join
those waiting, wherever. Visits come to an end whatever is taken (`wellFounded_visits`): each of
them leaves fewer listed items unseen, or as many and fewer items waiting. Nothing is lost on the
way (`Searches.visits`), so when nothing is waiting any more, found is what the starts reach
(`Searches.mem_found_iff`). Queues and stacks are such searches.
-/

namespace AppBuilder

/-- A search under way. -/
structure Worklist (α : Type) where
  found : List α
  waiting : List α

namespace Network

variable {α : Type} [DecidableEq α] {n : Network α}

/-- One visit, which takes some item out of those waiting. -/
inductive Visits (n : Network α) : Worklist α → Worklist α → Prop where
  | pass {found waiting rest : List α} {x : α} :
    waiting.Perm (x :: rest) → x ∈ found → Visits n ⟨found, waiting⟩ ⟨found, rest⟩
  | visit {found waiting rest waiting' : List α} {x : α} :
    waiting.Perm (x :: rest) → x ∉ found → waiting'.Perm (n.successors x ++ rest) →
    Visits n ⟨found, waiting⟩ ⟨x :: found, waiting'⟩

/-! ### Termination -/

/-- How much is left to do: the listed items not found, then those waiting. -/
def workLeft (n : Network α) (w : Worklist α) : Nat × Nat :=
  ((n.unseen w.found).length, w.waiting.length)

theorem workLeft_of_visits {w w' : Worklist α} (h : n.Visits w w') :
    Prod.Lex (· < ·) (· < ·) (n.workLeft w') (n.workLeft w) := by
  cases h with
  | pass taken met =>
    refine .right _ ?_
    rw [taken.length_eq]
    exact Nat.lt_succ_self _
  | visit taken new joined =>
    -- an item without successors need not be a listed one, but then fewer are waiting
    refine n.unseen_cons_lex new fun bare => ?_
    rw [joined.length_eq, taken.length_eq, bare]
    exact Nat.lt_succ_self _

/-- There is no endless run of visits. -/
theorem wellFounded_visits (n : Network α) :
    WellFounded fun after before => n.Visits before after :=
  Subrelation.wf (fun h => workLeft_of_visits h)
    (InvImage.wf n.workLeft (Prod.lex Nat.lt_wfRel Nat.lt_wfRel).wf)

/-- A visit is possible as long as something is waiting. -/
theorem exists_visits {w : Worklist α} (busy : w.waiting ≠ []) : ∃ w', n.Visits w w' := by
  obtain ⟨found, waiting⟩ := w
  obtain ⟨x, rest, rfl⟩ := List.exists_cons_of_ne_nil busy
  by_cases met : x ∈ found
  · exact ⟨_, .pass (.refl _) met⟩
  · exact ⟨_, .visit (.refl _) met (.refl _)⟩

/-! ### What is found -/

/-- A search from some starts: what is found or waiting is reached, and what the starts reach is
found or can be reached from what is waiting. -/
structure Searches (n : Network α) (starts : List α) (w : Worklist α) : Prop where
  nodup : w.found.Nodup
  reached : ∀ x, x ∈ w.found ∨ x ∈ w.waiting → ∃ s ∈ starts, n.Reaches s x
  started : ∀ s ∈ starts, s ∈ w.found ∨ s ∈ w.waiting
  closed : ∀ x ∈ w.found, ∀ y ∈ n.successors x, y ∈ w.found ∨ y ∈ w.waiting

namespace Searches

variable {starts : List α} {w w' : Worklist α}

theorem start (n : Network α) (starts : List α) : n.Searches starts ⟨[], starts⟩ where
  nodup := .nil
  reached x hx := ⟨x, by simpa using hx, .refl⟩
  started _ hs := .inr hs
  closed _ hx := absurd hx List.not_mem_nil

/-- What is found or waiting before a visit is so after it. -/
theorem kept (h : n.Visits w w') {x : α} (hx : x ∈ w.found ∨ x ∈ w.waiting) :
    x ∈ w'.found ∨ x ∈ w'.waiting := by
  cases h with
  | pass taken met =>
    rcases hx with hx | hx
    · exact .inl hx
    · rcases List.mem_cons.mp (taken.mem_iff.mp hx) with rfl | hx
      · exact .inl met
      · exact .inr hx
  | visit taken new joined =>
    rcases hx with hx | hx
    · exact .inl (List.mem_cons_of_mem _ hx)
    · rcases List.mem_cons.mp (taken.mem_iff.mp hx) with rfl | hx
      · exact .inl List.mem_cons_self
      · exact .inr (joined.mem_iff.mpr (List.mem_append_right _ hx))

/-- A visit goes on with a search. -/
theorem visits (searches : n.Searches starts w) (h : n.Visits w w') : n.Searches starts w' := by
  have started := fun s hs => kept h (searches.started s hs)
  have closed := fun x hx y hy => kept h (searches.closed x hx y hy)
  cases h with
  | pass taken met =>
    refine ⟨searches.nodup, fun x hx => ?_, started, closed⟩
    exact searches.reached x
      (hx.imp_right fun hx => taken.mem_iff.mpr (List.mem_cons_of_mem _ hx))
  | @visit found waiting rest waiting' x taken new joined =>
    have reached : ∃ s ∈ starts, n.Reaches s x :=
      searches.reached x (.inr (taken.mem_iff.mpr List.mem_cons_self))
    refine ⟨List.nodup_cons.mpr ⟨new, searches.nodup⟩, ?_, started, ?_⟩
    · rintro y (hy | hy)
      · rcases List.mem_cons.mp hy with rfl | hy
        · exact reached
        · exact searches.reached y (.inl hy)
      · rcases List.mem_append.mp (joined.mem_iff.mp hy) with hy | hy
        · obtain ⟨s, hs, path⟩ := reached
          exact ⟨s, hs, path.tail hy⟩
        · exact searches.reached y (.inr (taken.mem_iff.mpr (List.mem_cons_of_mem _ hy)))
    · intro y hy z hz
      rcases List.mem_cons.mp hy with rfl | hy
      · exact .inr (joined.mem_iff.mpr (List.mem_append_left _ hz))
      · exact closed y hy z hz

/-- Every run of visits from the starts goes on with the search. -/
theorem of_run (run : Relation.ReflTransGen n.Visits ⟨[], starts⟩ w) : n.Searches starts w := by
  induction run with
  | refl => exact start n starts
  | tail _ last ih => exact ih.visits last

/-- When nothing is waiting, found is what the starts reach. -/
theorem mem_found_iff (searches : n.Searches starts w) (idle : w.waiting = []) {x : α} :
    x ∈ w.found ↔ ∃ s ∈ starts, n.Reaches s x := by
  have ended : ∀ y, y ∈ w.found ∨ y ∈ w.waiting → y ∈ w.found := by simp [idle]
  refine ⟨fun hx => searches.reached x (.inl hx), ?_⟩
  rintro ⟨s, hs, path⟩
  induction path with
  | refl => exact ended s (searches.started s hs)
  | tail _ step ih => exact ended _ (searches.closed _ ih _ step)

end Searches

end Network

end AppBuilder
