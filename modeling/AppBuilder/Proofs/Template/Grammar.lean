import AppBuilder.Template.Segment
import Mathlib.Data.List.Infix

/-!
The grammar of templates.

Texts and codes alternate in a template. A text holds no pair of opening braces, and none can
arise where a text meets the opening of the code behind it; the braces of code are balanced
(`Balanced`). Both scanners are described by what they cut off (`splitOpening_eq_some_iff`,
`splitCode_eq_some_iff`), so a template of that form is cut into its pieces (`split_source`), and
whatever is cut off any text as code is balanced (`balanced_of_mem_split`).

Main statement: `Template.segments_grammar`.
-/

namespace AppBuilder

/-! ### Balanced braces -/

/-- Every opening brace is closed: no beginning has more closing braces than opening ones, and all
of it has as many of both. -/
def Balanced (cs : List Char) : Prop :=
  (∀ front, front <+: cs → front.count '\x7d' ≤ front.count '\x7b') ∧
    cs.count '\x7d' = cs.count '\x7b'

/-- The same inside some open braces, which are closed too. -/
structure Closes (depth : Nat) (cs : List Char) : Prop where
  within : ∀ front, front <+: cs → front.count '\x7d' ≤ depth + front.count '\x7b'
  total : cs.count '\x7d' = depth + cs.count '\x7b'

theorem closes_zero_iff {cs : List Char} : Closes 0 cs ↔ Balanced cs := by
  simp only [Balanced]
  refine ⟨fun h => ?_, fun h => ⟨?_, ?_⟩⟩
  · simpa using And.intro h.within h.total
  · simpa using h.1
  · simpa using h.2

/-- Whether braces are balanced can be told from the beginnings. -/
instance (cs : List Char) : Decidable (Balanced cs) :=
  decidable_of_iff ((∀ front ∈ cs.inits, front.count '\x7d' ≤ front.count '\x7b') ∧
    cs.count '\x7d' = cs.count '\x7b') (by simp only [List.mem_inits, Balanced])

section Closes

variable {depth : Nat} {c : Char} {cs : List Char}

theorem closes_nil_iff : Closes depth [] ↔ depth = 0 := by
  constructor
  · intro h
    simpa [eq_comm] using h.total
  · rintro rfl
    exact ⟨fun front hf => by simp [List.prefix_nil.mp hf], rfl⟩

/-- A character in front of others adds to the braces of every beginning but the empty one. -/
theorem closes_cons_iff : Closes depth (c :: cs) ↔
    (∀ front, front <+: cs → (c :: front).count '\x7d' ≤ depth + (c :: front).count '\x7b') ∧
      (c :: cs).count '\x7d' = depth + (c :: cs).count '\x7b' := by
  constructor
  · intro h
    exact ⟨fun front hf => h.within _ (List.prefix_cons_inj c |>.mpr hf), h.total⟩
  · rintro ⟨within, total⟩
    refine ⟨fun front hf => ?_, total⟩
    rcases List.prefix_cons_iff.mp hf with rfl | ⟨rest, rfl, hrest⟩
    · simp
    · exact within rest hrest

theorem closes_cons_open_iff : Closes depth ('\x7b' :: cs) ↔ Closes (depth + 1) cs := by
  rw [closes_cons_iff]
  simp only [List.count_cons, beq_self_eq_true, if_true, show ('\x7b' == '\x7d') = false from rfl,
    Bool.false_eq_true, if_false]
  refine ⟨fun h => ⟨fun front hf => ?_, ?_⟩, fun h => ⟨fun front hf => ?_, ?_⟩⟩
  · have := h.1 front hf
    omega
  · have := h.2
    omega
  · have := h.within front hf
    omega
  · have := h.total
    omega

theorem closes_cons_close_iff :
    Closes depth ('\x7d' :: cs) ↔ ∃ inner, depth = inner + 1 ∧ Closes inner cs := by
  rw [closes_cons_iff]
  simp only [List.count_cons, beq_self_eq_true, if_true, show ('\x7d' == '\x7b') = false from rfl,
    Bool.false_eq_true, if_false]
  constructor
  · rintro ⟨within, total⟩
    have first := within [] (List.nil_prefix)
    simp only [List.count_nil] at first
    refine ⟨depth - 1, by omega, fun front hf => ?_, by omega⟩
    have := within front hf
    omega
  · rintro ⟨inner, rfl, h⟩
    refine ⟨fun front hf => ?_, ?_⟩
    · have := h.within front hf
      omega
    · have := h.total
      omega

theorem closes_cons_of_ne (unopened : c ≠ '\x7b') (unclosed : c ≠ '\x7d') :
    Closes depth (c :: cs) ↔ Closes depth cs := by
  rw [closes_cons_iff]
  simp only [List.count_cons_of_ne unopened, List.count_cons_of_ne unclosed]
  exact ⟨fun h => ⟨h.1, h.2⟩, fun h => ⟨h.within, h.total⟩⟩

end Closes

namespace Segment

/-! ### Code -/

/-- Code is what is balanced up to a pair of closing braces. -/
theorem splitCode_eq_some_iff {depth : Nat} {cs body rest : List Char} :
    splitCode depth cs = some (body, rest) ↔
      cs = body ++ '\x7d' :: '\x7d' :: rest ∧ Closes depth body := by
  constructor
  · intro h
    refine ⟨splitCode_eq_append h, ?_⟩
    fun_induction splitCode depth cs generalizing body rest with
    | case1 => cases h
    | case2 depth cs ih =>
      obtain ⟨⟨body', rest'⟩, found, same⟩ := Option.map_eq_some_iff.mp h
      obtain ⟨rfl, -⟩ := Prod.mk.inj same
      exact closes_cons_open_iff.mpr (ih found)
    | case3 =>
      obtain ⟨rfl, -⟩ := Prod.mk.inj (Option.some.inj h)
      exact closes_nil_iff.mpr rfl
    | case4 => cases h
    | case5 => cases h
    | case6 cs inner _ ih =>
      obtain ⟨⟨body', rest'⟩, found, same⟩ := Option.map_eq_some_iff.mp h
      obtain ⟨rfl, -⟩ := Prod.mk.inj same
      exact closes_cons_close_iff.mpr ⟨inner, rfl, ih found⟩
    | case7 depth c cs unopened unclosed ih =>
      obtain ⟨⟨body', rest'⟩, found, same⟩ := Option.map_eq_some_iff.mp h
      obtain ⟨rfl, -⟩ := Prod.mk.inj same
      exact (closes_cons_of_ne unopened unclosed).mpr (ih found)
  · rintro ⟨rfl, closes⟩
    induction body generalizing depth with
    | nil =>
      obtain rfl := closes_nil_iff.mp closes
      simp [splitCode]
    | cons c body ih =>
      by_cases opens : c = '\x7b'
      · subst opens
        simp [splitCode, ih (closes_cons_open_iff.mp closes)]
      · by_cases ends : c = '\x7d'
        · subst ends
          obtain ⟨inner, rfl, rest⟩ := closes_cons_close_iff.mp closes
          simp [splitCode, ih rest]
        · simp [splitCode, opens, ends, ih ((closes_cons_of_ne opens ends).mp closes)]

/-! ### Text -/

/-- A text without a pair of opening braces. -/
def Plain (cs : List Char) : Prop := ¬ ['\x7b', '\x7b'] <:+: cs

instance (cs : List Char) : Decidable (Plain cs) := inferInstanceAs (Decidable (¬ _))

theorem plain_nil : Plain [] := by
  intro h
  simp at h

theorem plain_cons_iff {c : Char} {cs : List Char} :
    Plain (c :: cs) ↔ ¬ (c = '\x7b' ∧ cs.head? = some '\x7b') ∧ Plain cs := by
  have front : ['\x7b', '\x7b'] <+: c :: cs ↔ c = '\x7b' ∧ cs.head? = some '\x7b' := by
    cases cs <;> simp [List.cons_prefix_cons, eq_comm]
  rw [Plain, List.infix_cons_iff, front, not_or, Plain]

/-- A text stays plain in front of an opening brace unless it ends with one. -/
theorem plain_concat_iff {cs : List Char} :
    Plain (cs ++ ['\x7b']) ↔ Plain cs ∧ cs.getLast? ≠ some '\x7b' := by
  induction cs with
  | nil => simp [plain_cons_iff, plain_nil]
  | cons c cs ih =>
    rw [List.cons_append, plain_cons_iff, plain_cons_iff, ih]
    cases cs with
    | nil => simp [plain_nil]
    | cons d cs => simp [and_assoc, List.getLast?_cons_cons]

theorem splitOpening_eq_none_iff {cs : List Char} : splitOpening cs = none ↔ Plain cs := by
  fun_induction splitOpening cs with
  | case1 => simp [plain_nil]
  | case2 c => simp [plain_cons_iff, plain_nil]
  | case3 c d cs opens => simp [plain_cons_iff, opens]
  | case4 c d cs other ih =>
    rw [Option.map_eq_none_iff, ih, plain_cons_iff (c := c)]
    simp [other]

/-- The first opening is the one whose braces are the first two next to each other. -/
theorem splitOpening_eq_some_iff {cs before after : List Char} :
    splitOpening cs = some (before, after) ↔
      cs = before ++ '\x7b' :: '\x7b' :: after ∧ Plain (before ++ ['\x7b']) := by
  constructor
  · intro h
    refine ⟨splitOpening_eq_append h, ?_⟩
    fun_induction splitOpening cs generalizing before after with
    | case1 => cases h
    | case2 => cases h
    | case3 =>
      obtain ⟨rfl, -⟩ := Prod.mk.inj (Option.some.inj h)
      decide
    | case4 c d cs other ih =>
      obtain ⟨⟨before', after'⟩, found, same⟩ := Option.map_eq_some_iff.mp h
      obtain ⟨rfl, -⟩ := Prod.mk.inj same
      -- the character behind the first one is also the first of the text before the opening
      have head : (before' ++ ['\x7b']).head? = some d := by
        have shape := splitOpening_eq_append found
        cases before' with
        | nil => exact congrArg List.head? shape.symm
        | cons e rest => exact congrArg List.head? shape.symm
      refine plain_cons_iff.mpr ⟨fun opens => other ⟨opens.1, ?_⟩, ih found⟩
      exact Option.some.inj (head.symm.trans opens.2)
  · rintro ⟨rfl, plain⟩
    induction before with
    | nil => simp [splitOpening]
    | cons c before ih =>
      obtain ⟨other, plain⟩ := plain_cons_iff.mp plain
      cases before with
      | nil => simpa [splitOpening] using other
      | cons d before =>
        have rest := ih plain
        simp only [List.cons_append] at rest ⊢
        rw [splitOpening, if_neg fun opens => other ⟨opens.1, by simp [opens.2]⟩, rest]
        rfl

/-! ### Pieces -/

theorem split_of_plain {cs : List Char} (plain : Plain cs) : split cs = ofText cs := by
  have unopened := splitOpening_eq_none_iff.mpr plain
  rw [split]
  split
  · rfl
  · simp_all

/-- A text whose first opening has no end is one piece. -/
theorem split_of_unclosed {cs before after : List Char}
    (opening : splitOpening cs = some (before, after)) (unclosed : splitCode 0 after = none) :
    split cs = ofText cs := by
  rw [split]
  split
  · rfl
  · split
    · rfl
    · simp_all

theorem split_of_closed {cs before after body rest : List Char}
    (opening : splitOpening cs = some (before, after))
    (closing : splitCode 0 after = some (body, rest)) :
    split cs = ofText before ++ .code body :: split rest := by
  rw [split]
  split
  · simp_all
  · split
    · simp_all
    · simp_all

/-- The pieces of a template: texts without openings and balanced codes take turns, from text to
text. -/
inductive Alternate : List Segment → Prop where
  | text {cs : List Char} : Plain cs → Alternate [.text cs]
  | code {cs body : List Char} {pieces : List Segment} : Plain cs → cs.getLast? ≠ some '\x7b' →
      Balanced body → Alternate pieces → Alternate (.text cs :: .code body :: pieces)

theorem filter_text_cons (cs : List Char) (pieces : List Segment) :
    (text cs :: pieces).filter (· ≠ .text []) = ofText cs ++ pieces.filter (· ≠ .text []) := by
  cases cs <;> simp [ofText]

/-- A template is cut into its pieces, but for empty texts. -/
theorem split_source {pieces : List Segment} (h : Alternate pieces) :
    split (pieces.flatMap source) = pieces.filter (· ≠ .text []) := by
  induction h with
  | @text cs plain =>
    rw [List.flatMap_singleton, source, split_of_plain plain, filter_text_cons, List.filter_nil,
      List.append_nil]
  | @code cs body pieces plain last balanced _ ih =>
    have shape : (text cs :: code body :: pieces).flatMap source =
        cs ++ '\x7b' :: '\x7b' :: (body ++ '\x7d' :: '\x7d' :: pieces.flatMap source) := by
      simp [source]
    have opening := splitOpening_eq_some_iff.mpr ⟨shape, plain_concat_iff.mpr ⟨plain, last⟩⟩
    have closing : splitCode 0 (body ++ '\x7d' :: '\x7d' :: pieces.flatMap source) =
        some (body, pieces.flatMap source) :=
      splitCode_eq_some_iff.mpr ⟨rfl, closes_zero_iff.mpr balanced⟩
    rw [split_of_closed opening closing, ih, filter_text_cons, List.filter_cons_of_pos (by simp)]

/-- What is cut off as code is balanced, and stands in the text between its braces. -/
theorem balanced_of_mem_split {cs body : List Char} (mem : .code body ∈ split cs) :
    Balanced body ∧ (code body).source <:+: cs := by
  constructor
  · have text : ∀ cs : List Char, .code body ∉ ofText cs := fun cs h => by
      unfold ofText at h
      split at h <;> simp at h
    fun_induction split cs with
    | case1 cs => exact absurd mem (text cs)
    | case2 cs => exact absurd mem (text cs)
    | case3 cs before after _ body' rest closing ih =>
      rcases List.mem_append.mp mem with mem | mem
      · exact absurd mem (text before)
      · rcases List.mem_cons.mp mem with same | mem
        · obtain rfl := Segment.code.inj same
          exact closes_zero_iff.mp (splitCode_eq_some_iff.mp closing).2
        · exact ih mem
  · have part := List.infix_of_mem_flatten (List.mem_map_of_mem (f := source) mem)
    rwa [← List.flatMap_def, join_split] at part

end Segment

/-! ### Templates -/

namespace Template

open Segment

/-- A text that is a single binding, white space around it aside, is one balanced code between
its braces. -/
theorem soleCode?_eq_some_iff {s code : String} : soleCode? s = some code ↔
    ∃ body, Balanced body ∧ trim s.toList = (Segment.code body).source ∧
      code = String.ofList (trim body) := by
  have pieces : segments (trimText s) = split (trim s.toList) := by simp [segments, trimText]
  rw [soleCode?, pieces]
  constructor
  · intro h
    have join := join_split (trim s.toList)
    split at h
    · rename_i piece single
      cases piece with
      | text cs => cases h
      | code body =>
        have balanced := (balanced_of_mem_split (single ▸ List.mem_singleton_self _)).1
        rw [single, List.flatMap_singleton] at join
        exact ⟨body, balanced, join.symm, (Option.some.inj h).symm⟩
    · cases h
  · rintro ⟨body, balanced, shape, rfl⟩
    have alternate : Alternate [.text [], .code body, .text []] :=
      .code plain_nil (by simp) balanced (.text plain_nil)
    have single := split_source alternate
    simp only [List.flatMap_cons, List.flatMap_nil, source, List.append_nil, List.nil_append]
      at single
    rw [shape, source, single]
    simp [code?]

/-- Texts and codes that take turns are the pieces of the template that they make up, empty texts
left out and codes trimmed. Whatever the text, its pieces make it up again, and its codes are
balanced and stand in it; and it is a single binding just when, trimmed, it is one balanced code
between its braces. -/
theorem segments_grammar :
    (∀ pieces, Alternate pieces →
      segments (String.ofList (pieces.flatMap source)) = pieces.filter (· ≠ .text []) ∧
      codes (String.ofList (pieces.flatMap source)) = pieces.filterMap code?) ∧
    (∀ s : String, (segments s).flatMap source = s.toList ∧
      ∀ code ∈ codes s, ∃ body, Balanced body ∧ (Segment.code body).source <:+: s.toList ∧
        Segment.code body ∈ segments s ∧ code = String.ofList (trim body)) ∧
    ∀ s code, soleCode? s = some code ↔
      ∃ body, Balanced body ∧ trim s.toList = (Segment.code body).source ∧
        code = String.ofList (trim body) := by
  refine ⟨fun pieces h => ?_, fun s => ⟨join_split s.toList, fun code mem => ?_⟩,
    fun s code => soleCode?_eq_some_iff⟩
  · have cut : segments (String.ofList (pieces.flatMap source)) =
        pieces.filter (· ≠ .text []) := by
      rw [segments, String.toList_ofList, split_source h]
    refine ⟨cut, ?_⟩
    rw [codes, cut, List.filterMap_filter]
    refine List.filterMap_congr fun piece _ => ?_
    cases piece with
    | text cs => simp [code?]
    | code body => simp [code?]
  · obtain ⟨piece, mem, given⟩ := List.mem_filterMap.mp mem
    cases piece with
    | text cs => cases given
    | code body =>
      obtain ⟨balanced, inside⟩ := balanced_of_mem_split mem
      exact ⟨body, balanced, inside, mem, (Option.some.inj given).symm⟩

/-- Two bindings next to each other, the second of which starts and ends with three braces. -/
def greeting : List Segment :=
  [.text "Hi ".toList, .code " User.name ".toList, .text [], .code "\x7ba: 1\x7d".toList,
    .text "!".toList]

theorem segments_grammar_greeting : Alternate greeting ∧
    segments "Hi \x7b\x7b User.name \x7d\x7d\x7b\x7b\x7ba: 1\x7d\x7d\x7d!" =
      [.text "Hi ".toList, .code " User.name ".toList, .code "\x7ba: 1\x7d".toList,
        .text "!".toList] ∧
    codes "Hi \x7b\x7b User.name \x7d\x7d\x7b\x7b\x7ba: 1\x7d\x7d\x7d!" =
      ["User.name", "\x7ba: 1\x7d"] := by
  have alternate : Alternate greeting :=
    .code (by decide) (by decide) (by decide)
      (.code (by decide) (by decide) (by decide) (.text (by decide)))
  obtain ⟨cut, trimmed⟩ := segments_grammar.1 greeting alternate
  exact ⟨alternate, cut, trimmed⟩

end Template

end AppBuilder
