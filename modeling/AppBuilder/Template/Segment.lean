import AppBuilder.Text.Blank

/-!
Templates: text with code between double braces.

`Segment.split` cuts a template into text and code. Braces inside code nest, so code
ends at the first pair of closing braces outside all inner ones. From the first
opening that has no such end, all the rest is text. No character is lost
(`Segment.join_split`): texts and codes, put back between their braces, give the
template again.
-/

namespace AppBuilder

/-- A piece of a template. Code is kept as written, white space included. -/
inductive Segment where
  | text (chars : List Char)
  | code (chars : List Char)
deriving DecidableEq, Repr

namespace Segment

/-! ### Splitting -/

/-- The text before the first pair of opening braces, and what follows the pair. -/
def splitOpening : List Char → Option (List Char × List Char)
  | [] => none
  | [_] => none
  | c :: d :: cs =>
    if c = '\x7b' ∧ d = '\x7b' then some ([], cs)
    else (splitOpening (d :: cs)).map fun r => (c :: r.1, r.2)

/-- The code up to its pair of closing braces, inside `depth` open braces, and what
follows the pair. A lone closing brace at depth zero ends nothing. -/
def splitCode (depth : Nat) : List Char → Option (List Char × List Char)
  | [] => none
  | c :: cs =>
    if c = '\x7b' then (splitCode (depth + 1) cs).map fun r => (c :: r.1, r.2)
    else if c = '\x7d' then
      match depth with
      | 0 =>
        match cs with
        | d :: rest => if d = '\x7d' then some ([], rest) else none
        | [] => none
      | depth + 1 => (splitCode depth cs).map fun r => (c :: r.1, r.2)
    else (splitCode depth cs).map fun r => (c :: r.1, r.2)

theorem splitOpening_eq_append {cs before after : List Char}
    (h : splitOpening cs = some (before, after)) :
    cs = before ++ '\x7b' :: '\x7b' :: after := by
  fun_induction splitOpening cs generalizing before after with
  | case1 => simp at h
  | case2 => simp at h
  | case3 c d cs hcd =>
    obtain ⟨rfl, rfl⟩ := hcd
    simp only [Option.some.injEq, Prod.mk.injEq] at h
    simp [← h.1, ← h.2]
  | case4 c d cs _ ih =>
    obtain ⟨⟨b, a⟩, hr, he⟩ := Option.map_eq_some_iff.mp h
    simp only [Prod.mk.injEq] at he
    rw [← he.1, ← he.2, ih hr]
    rfl

theorem splitCode_eq_append {depth : Nat} {cs body rest : List Char}
    (h : splitCode depth cs = some (body, rest)) :
    cs = body ++ '\x7d' :: '\x7d' :: rest := by
  fun_induction splitCode depth cs generalizing body rest with
  | case1 => simp at h
  | case2 depth cs ih =>
    obtain ⟨⟨a, b⟩, hr, he⟩ := Option.map_eq_some_iff.mp h
    simp only [Prod.mk.injEq] at he
    rw [← he.1, ← he.2, ih hr]
    rfl
  | case3 d hc =>
    simp only [Option.some.injEq, Prod.mk.injEq] at h
    simp [← h.1, ← h.2]
  | case4 => simp at h
  | case5 => simp at h
  | case6 cs hc depth ih =>
    obtain ⟨⟨a, b⟩, hr, he⟩ := Option.map_eq_some_iff.mp h
    simp only [Prod.mk.injEq] at he
    rw [← he.1, ← he.2, ih hr]
    rfl
  | case7 depth c cs _ _ ih =>
    obtain ⟨⟨a, b⟩, hr, he⟩ := Option.map_eq_some_iff.mp h
    simp only [Prod.mk.injEq] at he
    rw [← he.1, ← he.2, ih hr]
    rfl

/-- A piece of text, left out when empty. -/
def ofText (cs : List Char) : List Segment := if cs.isEmpty then [] else [.text cs]

/-- Cut a template into its pieces. -/
def split (cs : List Char) : List Segment :=
  match _h : splitOpening cs with
  | none => ofText cs
  | some (before, after) =>
    match _h' : splitCode 0 after with
    | none => ofText cs
    | some (body, rest) => ofText before ++ .code body :: split rest
termination_by cs.length
decreasing_by
  rw [splitOpening_eq_append _h, splitCode_eq_append _h']
  simp only [List.length_append, List.length_cons]
  omega

/-! ### Putting together -/

/-- The piece as it stands in a template. -/
def source : Segment → List Char
  | .text cs => cs
  | .code cs => '\x7b' :: '\x7b' :: cs ++ ['\x7d', '\x7d']

theorem flatMap_source_ofText (cs : List Char) : (ofText cs).flatMap source = cs := by
  cases cs <;> simp [ofText, source]

/-- The pieces of a template, put together, are the template. -/
theorem join_split (cs : List Char) : (split cs).flatMap source = cs := by
  fun_induction split cs with
  | case1 => exact flatMap_source_ofText _
  | case2 => exact flatMap_source_ofText _
  | case3 cs before after h body rest h' ih =>
    rw [List.flatMap_append, flatMap_source_ofText, List.flatMap_cons, ih]
    rw [splitOpening_eq_append h, splitCode_eq_append h']
    simp [source]

/-! ### Views -/

/-- The code of a piece, trimmed. -/
def code? : Segment → Option String
  | .text _ => none
  | .code cs => some (String.ofList (trim cs))

end Segment

namespace Template

/-- The pieces of a template. -/
def segments (s : String) : List Segment := Segment.split s.toList

/-- The codes of a template, trimmed, in order. -/
def codes (s : String) : List String := (segments s).filterMap Segment.code?

/-- Whether a text holds a complete binding. -/
def isDynamic (s : String) : Bool := !(codes s).isEmpty

/-- The code of a text that is, white space around it aside, a single binding. -/
def soleCode? (s : String) : Option String :=
  match segments (trimText s) with
  | [piece] => piece.code?
  | _ => none

end Template

end AppBuilder
