import AppBuilder.Proofs.Template.Grammar

/-!
Openings without an end.

A template is cut from the left, and its first opening decides whether it holds a binding at all.
If what follows completes the opening (`Completes`), the code of it is a piece; if not, all of the
template is one text, with the complete bindings behind that opening
(`isDynamic_iff_of_opening`). So an earlier opening hides a complete binding just when it is the
first and has no end.

Main statement: `isDynamic_binding_iff`.
-/

namespace AppBuilder

namespace Segment

/-- What follows an opening completes it: balanced code comes first, then its closing. -/
def Completes (after : List Char) : Prop :=
  ∃ body rest, Balanced body ∧ after = body ++ '\x7d' :: '\x7d' :: rest

theorem completes_iff {after : List Char} :
    Completes after ↔ ∃ body rest, splitCode 0 after = some (body, rest) := by
  refine exists₂_congr fun body rest => ?_
  rw [splitCode_eq_some_iff, closes_zero_iff, and_comm]

theorem not_completes_iff {after : List Char} : ¬ Completes after ↔ splitCode 0 after = none := by
  rw [completes_iff, Option.eq_none_iff_forall_ne_some, Prod.forall, not_exists]
  exact forall_congr' fun body => not_exists

end Segment

namespace Template

open Segment

theorem isDynamic_iff {s : String} : isDynamic s = true ↔ ∃ body, .code body ∈ segments s := by
  rw [isDynamic, codes, Bool.not_eq_true', List.isEmpty_eq_false_iff_exists_mem]
  constructor
  · rintro ⟨code, mem⟩
    obtain ⟨piece, mem, given⟩ := List.mem_filterMap.mp mem
    cases piece with
    | text cs => cases given
    | code body => exact ⟨body, mem⟩
  · rintro ⟨body, mem⟩
    exact ⟨_, List.mem_filterMap.mpr ⟨_, mem, rfl⟩⟩

/-- A text is dynamic if its first opening is completed, and else it is taken as it stands. -/
theorem isDynamic_iff_of_opening {cs before after : List Char}
    (opening : splitOpening cs = some (before, after)) :
    (isDynamic (String.ofList cs) = true ↔ Completes after) ∧
      (isDynamic (String.ofList cs) = false → segments (String.ofList cs) = [.text cs]) := by
  have pieces : segments (String.ofList cs) = split cs := by rw [segments, String.toList_ofList]
  rw [isDynamic_iff, ← Bool.not_eq_true, isDynamic_iff, pieces]
  by_cases completes : Completes after
  · obtain ⟨body, rest, closing⟩ := completes_iff.mp completes
    have found : ∃ body, .code body ∈ split cs := by
      refine ⟨body, ?_⟩
      rw [split_of_closed opening closing]
      exact List.mem_append_right _ List.mem_cons_self
    exact ⟨iff_of_true found completes, fun static => absurd found static⟩
  · have text : split cs = [.text cs] := by
      rw [split_of_unclosed opening (not_completes_iff.mp completes),
        splitOpening_eq_append opening]
      simp [ofText]
    refine ⟨iff_of_false ?_ completes, fun _ => text⟩
    simp [text]

/-- Where the first opening is in front of one that starts behind a text. -/
theorem exists_first_opening (u tail : List Char) :
    (Plain (u ++ ['\x7b']) ∧ splitOpening (u ++ '\x7b' :: '\x7b' :: tail) = some (u, tail)) ∨
      ∃ before after, u ++ ['\x7b'] = before ++ '\x7b' :: '\x7b' :: after ∧
        Plain (before ++ ['\x7b']) ∧
        splitOpening (u ++ '\x7b' :: '\x7b' :: tail) = some (before, after ++ '\x7b' :: tail) := by
  by_cases plain : Plain (u ++ ['\x7b'])
  · exact .inl ⟨plain, splitOpening_eq_some_iff.mpr ⟨rfl, plain⟩⟩
  · obtain ⟨⟨before, after⟩, first⟩ :=
      Option.ne_none_iff_exists'.mp (mt splitOpening_eq_none_iff.mp plain)
    obtain ⟨same, plain⟩ := splitOpening_eq_some_iff.mp first
    refine .inr ⟨before, after, same, plain, splitOpening_eq_some_iff.mpr ⟨?_, plain⟩⟩
    have front : u ++ '\x7b' :: '\x7b' :: tail = u ++ ['\x7b'] ++ '\x7b' :: tail := by simp
    rw [front, same]
    simp

/-- A text with a complete binding in it is dynamic just when the first opening in front of the
binding, if there is one, is completed too; that opening may share a brace with the one of the
binding. Otherwise the whole text is taken as it stands. -/
theorem isDynamic_binding_iff {body : List Char} (balanced : Balanced body) (u v : List Char) :
    let s := u ++ (Segment.code body).source ++ v
    (isDynamic (String.ofList s) = true ↔
      ∀ before after, u ++ ['\x7b'] = before ++ '\x7b' :: '\x7b' :: after →
        Plain (before ++ ['\x7b']) →
        Completes (after ++ '\x7b' :: (body ++ '\x7d' :: '\x7d' :: v))) ∧
    (isDynamic (String.ofList s) = false → segments (String.ofList s) = [.text s]) := by
  intro s
  have shape : s = u ++ '\x7b' :: '\x7b' :: (body ++ '\x7d' :: '\x7d' :: v) := by
    simp [s, source]
  rw [shape]
  rcases exists_first_opening u (body ++ '\x7d' :: '\x7d' :: v) with
    ⟨plain, opening⟩ | ⟨before, after, same, plain, opening⟩
  · obtain ⟨dynamic, text⟩ := isDynamic_iff_of_opening opening
    refine ⟨dynamic.trans (iff_of_true ⟨body, v, balanced, rfl⟩ ?_), text⟩
    intro before after same _
    refine absurd plain ?_
    rw [Plain, not_not, same]
    exact ⟨before, after, by simp⟩
  · obtain ⟨dynamic, text⟩ := isDynamic_iff_of_opening opening
    refine ⟨dynamic.trans ⟨fun completes before' after' same' plain' => ?_, fun all => ?_⟩, text⟩
    · -- only one place in a text is that of its first opening
      have first := splitOpening_eq_some_iff.mpr ⟨same, plain⟩
      have first' := splitOpening_eq_some_iff.mpr ⟨same', plain'⟩
      rw [first, Option.some.injEq, Prod.mk.injEq] at first'
      rwa [← first'.2]
    · exact all before after same plain

/-- The opening in front completes itself with braces of the binding and one more closing. -/
theorem isDynamic_binding_iff_open : Balanced ['b'] ∧
    isDynamic "\x7b\x7b open \x7b\x7bb\x7d\x7d\x7d\x7d" = true := by
  have balanced : Balanced ['b'] := by decide
  refine ⟨balanced, ?_⟩
  refine (isDynamic_binding_iff balanced "\x7b\x7b open ".toList ['\x7d', '\x7d']).1.mpr ?_
  intro before after same plain
  have first := splitOpening_eq_some_iff.mpr ⟨same, plain⟩
  obtain ⟨rfl, rfl⟩ := Prod.mk.inj (Option.some.inj first)
  exact ⟨" open \x7b\x7bb\x7d\x7d".toList, [], by decide, by decide⟩

/-- Not every text with a complete binding is dynamic. -/
theorem not_isDynamic_open : ¬ ∀ u v body : List Char, Balanced body →
    isDynamic (String.ofList (u ++ (Segment.code body).source ++ v)) = true := by
  intro dynamic
  have opening : splitOpening "\x7b\x7b open \x7b\x7bb\x7d\x7d".toList =
    some ([], " open \x7b\x7bb\x7d\x7d".toList) := by decide
  have unclosed : splitCode 0 " open \x7b\x7bb\x7d\x7d".toList = none := by decide
  have found := dynamic "\x7b\x7b open ".toList [] ['b'] (by decide)
  exact not_completes_iff.mpr unclosed ((isDynamic_iff_of_opening opening).1.mp found)

end Template

end AppBuilder
