/-!
Runs of a system that takes labelled steps.

A `Trace` is a run from a start to a state; its labels, oldest first, are the history of
the run.
-/

namespace AppBuilder

/-- A run of steps, from a start. -/
inductive Trace {σ ℓ : Type} (step : σ → ℓ → σ → Prop) (start : σ) : List ℓ → σ → Prop where
  | nil : Trace step start [] start
  | snoc {history : List ℓ} {s s' : σ} {label : ℓ} :
    Trace step start history s → step s label s' → Trace step start (history ++ [label]) s'

namespace Trace

variable {σ ℓ : Type} {step : σ → ℓ → σ → Prop} {start s s' : σ} {h h' : List ℓ}

theorem append (before : Trace step start h s) (after : Trace step s h' s') :
    Trace step start (h ++ h') s' := by
  induction after with
  | nil => simpa using before
  | snoc _ last ih => simpa using ih.snoc last

theorem cons {label : ℓ} (first : step start label s) (after : Trace step s h s') :
    Trace step start (label :: h) s' :=
  (Trace.nil.snoc first).append after

/-- The state between two parts of a run. -/
theorem split (trace : Trace step start (h ++ h') s') :
    ∃ s, Trace step start h s ∧ Trace step s h' s' := by
  generalize whole : h ++ h' = history at trace
  induction trace generalizing h' with
  | nil =>
    obtain ⟨rfl, rfl⟩ := List.append_eq_nil_iff.mp whole
    exact ⟨start, .nil, .nil⟩
  | @snoc _ s s' label run last ih =>
    rcases List.eq_nil_or_concat h' with rfl | ⟨init, label', rfl⟩
    · rw [List.append_nil] at whole
      exact ⟨s', whole ▸ run.snoc last, .nil⟩
    · rw [List.concat_eq_append, ← List.append_assoc] at whole
      obtain ⟨past, same⟩ := List.append_inj' whole rfl
      obtain rfl := (List.cons.inj same).1
      obtain ⟨between, before, after⟩ := ih past
      exact ⟨between, before, by simpa using after.snoc last⟩

/-- The last step of a run. -/
theorem snoc_inv {label : ℓ} (trace : Trace step start (h ++ [label]) s') :
    ∃ s, Trace step start h s ∧ step s label s' := by
  generalize whole : h ++ [label] = history at trace
  cases trace with
  | nil => simp at whole
  | snoc run last =>
    obtain ⟨rfl, same⟩ := List.append_inj' whole rfl
    obtain rfl := (List.cons.inj same).1
    exact ⟨_, run, last⟩

end Trace

theorem filterMap_snoc {ℓ α : Type} (view : ℓ → Option α) (history : List ℓ) (label : ℓ) :
    (history ++ [label]).filterMap view = history.filterMap view ++ (view label).toList := by
  rw [List.filterMap_append]
  cases seen : view label <;> simp [seen]

end AppBuilder
