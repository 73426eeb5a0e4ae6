import AppBuilder.Evaluation.Value
import AppBuilder.Proofs.Template.Code

/-!
Evaluators that read nothing but references.

The outcome of code in a local evaluator depends on the values that the references of the code
select, and then so does the value of a property on those that its own references select
(`Evaluator.resolve_congr`).
-/

namespace AppBuilder

/-- The value that a reference to a property selects. -/
def Reference.select? (scope : Scope) (reference : String) : Option Json :=
  (Reference.property? reference).bind fun property =>
    (scope.get? (Reference.entity reference)).bind (·.field? property)

namespace Evaluator

/-- The outcome of code depends on the code and on what its references select. -/
def Local (e : Evaluator) : Prop :=
  ∀ code scope scope',
    (∀ r ∈ Reference.ofCode code, Reference.select? scope r = Reference.select? scope' r) →
      e.run code scope = e.run code scope'

section Congr

variable {e : Evaluator} {scope scope' : Scope}

theorem mapM_congr {α β ε : Type} {f g : α → Except ε β} {xs : List α}
    (h : ∀ x ∈ xs, f x = g x) : xs.mapM f = xs.mapM g := by
  induction xs with
  | nil => rfl
  | cons x xs ih =>
    rw [List.mapM_cons, List.mapM_cons, h x List.mem_cons_self,
      ih fun y hy => h y (List.mem_cons_of_mem _ hy)]

theorem runBinding_congr (reads : e.Local) {code : String}
    (agree : ∀ r ∈ Reference.ofCode code, Reference.select? scope r = Reference.select? scope' r) :
    e.runBinding code scope = e.runBinding code scope' := by
  simp only [runBinding, reads code scope scope' agree]

theorem template_congr (reads : e.Local) {s : String}
    (agree : ∀ r ∈ Reference.ofTemplate s,
      Reference.select? scope r = Reference.select? scope' r) :
    e.template s scope = e.template s scope' := by
  have each : ∀ code ∈ Template.codes s, e.runBinding code scope = e.runBinding code scope' :=
    fun code hcode => runBinding_congr reads fun r hr =>
      agree r (Reference.mem_ofTemplate_of_mem_ofCode hcode hr)
  have pieces : ∀ piece ∈ Template.segments s,
      e.pieceText scope piece = e.pieceText scope' piece := by
    intro piece hpiece
    cases piece with
    | text cs => rfl
    | code cs =>
      have hcode : String.ofList (trim cs) ∈ Template.codes s :=
        List.mem_filterMap.mpr ⟨.code cs, hpiece, rfl⟩
      simp only [pieceText, each _ hcode]
  unfold template
  by_cases dynamic : Template.isDynamic s = true
  · rw [if_pos dynamic, if_pos dynamic]
    cases hsole : Template.soleCode? s with
    | none => rw [mapM_congr pieces]
    | some code => exact each code (by simp [Template.codes_of_soleCode? hsole])
  · rw [if_neg dynamic, if_neg dynamic]

mutual

theorem resolve_congr_templates (reads : e.Local) : ∀ {raw : Json},
    (∀ s ∈ raw.templates, ∀ r ∈ Reference.ofTemplate s,
      Reference.select? scope r = Reference.select? scope' r) →
    e.resolve scope raw = e.resolve scope' raw
  | .null, _ | .bool _, _ | .number _, _ => by simp only [resolve]
  | .string s, agree => by
    simp only [resolve]
    by_cases dynamic : Template.isDynamic s = true
    · exact template_congr reads (agree s (by simp [Json.templates, dynamic]))
    · simp only [template, dynamic, Bool.false_eq_true, if_false]
  | .array xs, agree => by
    simp only [resolve, resolveItems_congr reads (by simpa only [Json.templates] using agree)]
  | .object fs, agree => by
    simp only [resolve, resolveFields_congr reads (by simpa only [Json.templates] using agree)]

theorem resolveItems_congr (reads : e.Local) : ∀ {xs : List Json},
    (∀ s ∈ Json.templatesOfItems xs, ∀ r ∈ Reference.ofTemplate s,
      Reference.select? scope r = Reference.select? scope' r) →
    e.resolveItems scope xs = e.resolveItems scope' xs
  | [], _ => by simp only [resolveItems]
  | x :: xs, agree => by
    simp only [Json.templatesOfItems, List.forall_mem_append] at agree
    simp only [resolveItems, resolve_congr_templates reads agree.1,
      resolveItems_congr reads agree.2]

theorem resolveFields_congr (reads : e.Local) : ∀ {fs : List (String × Json)},
    (∀ s ∈ Json.templatesOfFields fs, ∀ r ∈ Reference.ofTemplate s,
      Reference.select? scope r = Reference.select? scope' r) →
    e.resolveFields scope fs = e.resolveFields scope' fs
  | [], _ => by simp only [resolveFields]
  | (k, x) :: fs, agree => by
    simp only [Json.templatesOfFields, List.forall_mem_append] at agree
    simp only [resolveFields, resolve_congr_templates reads agree.1,
      resolveFields_congr reads agree.2]

end

/-- The value of a property depends on what its references select. -/
theorem resolve_congr (reads : e.Local) {raw : Json}
    (agree : ∀ r ∈ (Reference.ofValue? raw).getD [],
      Reference.select? scope r = Reference.select? scope' r) :
    e.resolve scope raw = e.resolve scope' raw := by
  refine resolve_congr_templates reads fun s hs r hr => agree r ?_
  have dynamic : raw.templates.isEmpty = false := by
    cases h : raw.templates with
    | nil => simp [h] at hs
    | cons => rfl
  simp only [Reference.ofValue?, dynamic, Bool.false_eq_true, if_false, Option.getD_some,
    Reference.mem_distinct_iff]
  exact List.mem_flatMap.mpr ⟨s, hs, hr⟩

end Congr

/-- The evaluator of references: code has the value that the first one selects. -/
def selecting : Evaluator :=
  ⟨0, fun _ code scope =>
    return .ok (.orNull ((Reference.ofCode code).head?.bind (Reference.select? scope)))⟩

theorem local_selecting : selecting.Local := by
  intro code scope scope' agree
  have same : (Reference.ofCode code).head?.bind (Reference.select? scope) =
      (Reference.ofCode code).head?.bind (Reference.select? scope') := by
    cases h : (Reference.ofCode code).head? with
    | none => rfl
    | some r => exact agree r (List.mem_of_mem_head? h)
  simp only [run, selecting, same]

end Evaluator

end AppBuilder
