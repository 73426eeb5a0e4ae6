import AppBuilder.Proofs.Template.Grammar
import AppBuilder.Template.Reference

/-!
The codes that evaluating a template runs.

White space around a template holds no opening, so the code of a text that is a single binding is
the only code of the text as it stands (`codes_of_soleCode?`).
-/

namespace AppBuilder

/-! ### Trimming -/

/-- A text is what trimming leaves with white space on both sides. -/
theorem exists_trim_append (cs : List Char) : ∃ before after : List Char,
    cs = before ++ trim cs ++ after ∧ (∀ c ∈ before, isBlank c = true) ∧
      ∀ c ∈ after, isBlank c = true := by
  have front := List.takeWhile_append_dropWhile (p := isBlank) (l := cs)
  have back := List.takeWhile_append_dropWhile (p := isBlank) (l := (trimStart cs).reverse)
  refine ⟨cs.takeWhile isBlank, ((trimStart cs).reverse.takeWhile isBlank).reverse, ?_,
    fun c hc => List.all_eq_true.mp List.all_takeWhile c hc,
    fun c hc => List.all_eq_true.mp List.all_takeWhile c (List.mem_reverse.mp hc)⟩
  rw [List.append_assoc, trim, trimEnd, ← List.reverse_append, back, List.reverse_reverse]
  exact front.symm

/-- White space holds no opening, nor the beginning of one. -/
theorem Segment.plain_of_blank {before : List Char} (blank : ∀ c ∈ before, isBlank c = true) :
    Plain (before ++ ['\x7b']) := by
  have unopened : '\x7b' ∉ before := fun mem => absurd (blank _ mem) (by decide)
  refine plain_concat_iff.mpr ⟨fun pair => ?_, fun last => ?_⟩
  · exact unopened (pair.subset List.mem_cons_self)
  · exact unopened (List.mem_of_getLast? last)

/-! ### Codes -/

open Segment in
/-- The code of a text that is a single binding is its only code. -/
theorem Template.codes_of_soleCode? {s code : String} (h : Template.soleCode? s = some code) :
    Template.codes s = [code] := by
  obtain ⟨body, balanced, shape, rfl⟩ := soleCode?_eq_some_iff.mp h
  obtain ⟨before, after, whole, blankBefore, blankAfter⟩ := exists_trim_append s.toList
  have opening : splitOpening s.toList = some (before, body ++ '\x7d' :: '\x7d' :: after) :=
    splitOpening_eq_some_iff.mpr ⟨by rw [whole, shape]; simp [source], plain_of_blank blankBefore⟩
  have closing : splitCode 0 (body ++ '\x7d' :: '\x7d' :: after) = some (body, after) :=
    splitCode_eq_some_iff.mpr ⟨rfl, closes_zero_iff.mpr balanced⟩
  have rest : Plain after := fun pair =>
    plain_of_blank blankAfter (pair.trans (List.prefix_append _ _).isInfix)
  have texts : ∀ cs, (ofText cs).filterMap code? = [] := fun cs => by
    cases cs <;> simp [ofText, code?]
  rw [codes, segments, split_of_closed opening closing, split_of_plain rest, List.filterMap_append,
    List.filterMap_cons, texts, texts]
  rfl

namespace Reference

theorem mem_distinct_iff {xs : List String} {x : String} : x ∈ distinct xs ↔ x ∈ xs := by
  have run : ∀ (xs seen : List String),
      x ∈ xs.foldl (fun seen x => if x ∈ seen then seen else seen ++ [x]) seen ↔
        x ∈ seen ∨ x ∈ xs := by
    intro xs
    induction xs with
    | nil => simp
    | cons y ys ih =>
      intro seen
      rw [List.foldl_cons, ih]
      by_cases hy : y ∈ seen
      · rw [if_pos hy, List.mem_cons]
        exact ⟨fun h => h.imp_right .inr, fun h => h.elim .inl fun h => h.elim
          (fun h => .inl (h ▸ hy)) .inr⟩
      · rw [if_neg hy, List.mem_append, List.mem_singleton, List.mem_cons, or_assoc]
  simpa [distinct] using run xs []

/-- What a code of a template refers to, the template refers to. -/
theorem mem_ofTemplate_of_mem_ofCode {s code r : String} (hcode : code ∈ Template.codes s)
    (hr : r ∈ ofCode code) : r ∈ ofTemplate s :=
  mem_distinct_iff.mpr (List.mem_flatMap.mpr ⟨code, hcode, hr⟩)

end Reference

end AppBuilder
