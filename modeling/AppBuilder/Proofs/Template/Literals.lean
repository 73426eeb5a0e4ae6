import AppBuilder.Proofs.Template.Code
import Mathlib.Data.List.Nodup

/-!
What code refers to, and string literals.

Code is written as a sequence of parts: text without quotes, and complete string literals. Each
literal counts as an empty one (`blankLiterals_source`), whatever its body and its kind of quote,
so code of one outline has the same references. These are paths (`IsPath`): identifiers joined by
single dots. No character of an identifier is white space, a bracket or a dot.

Main statement: `references_of_outline`.
-/

namespace AppBuilder.Reference

/-! ### Parts of code -/

/-- The body of a literal: neither the quote nor a backslash stands in it, but for a backslash and
the character behind it, which is no line break. -/
inductive LiteralBody (quote : Char) : List Char → Prop where
  | nil : LiteralBody quote []
  | plain {c : Char} {cs : List Char} : c ≠ quote → c ≠ '\\' → LiteralBody quote cs →
      LiteralBody quote (c :: cs)
  | escaped {c : Char} {cs : List Char} : c ≠ '\n' → LiteralBody quote cs →
      LiteralBody quote ('\\' :: c :: cs)

/-- A complete string literal. -/
structure Literal where
  quote : Char
  body : List Char
  opens : isQuote quote = true
  closed : LiteralBody quote body

/-- The literal as it stands in code. -/
def Literal.source (l : Literal) : List Char := l.quote :: l.body ++ [l.quote]

/-- A part of code. -/
inductive CodePart where
  | text (cs : List Char) (quoteless : cs.any isQuote = false)
  | literal (l : Literal)

namespace CodePart

/-- The part as it stands in code. -/
def source : CodePart → List Char
  | text cs _ => cs
  | literal l => l.source

/-- What is left of a part when only the place of a literal counts. -/
def outline : CodePart → Option (List Char)
  | text cs _ => some cs
  | literal _ => none

/-- The part with an empty literal for any other. -/
def blank : CodePart → List Char
  | text cs _ => cs
  | literal _ => ['"', '"']

end CodePart

/-! ### Literals do not count -/

/-- A complete literal ends at the first quote of its kind that is not escaped. -/
theorem afterLiteral_append {quote : Char} {body : List Char} (opens : isQuote quote = true)
    (closed : LiteralBody quote body) (rest : List Char) :
    afterLiteral quote (body ++ quote :: rest) = some rest := by
  have unescaped : quote ≠ '\\' := by
    rintro rfl
    exact absurd opens (by decide)
  induction closed with
  | nil => rw [List.nil_append, afterLiteral.eq_def]; simp [unescaped]
  | plain other unescaped' _ ih =>
    rw [List.cons_append, afterLiteral.eq_def]
    simp [other, unescaped', ih]
  | escaped inLine _ ih =>
    rw [List.cons_append, List.cons_append, afterLiteral.eq_def]
    simp [inLine, ih]

theorem blankLiterals_append {cs : List Char} (quoteless : cs.any isQuote = false)
    (rest : List Char) : blankLiterals (cs ++ rest) = cs ++ blankLiterals rest := by
  induction cs with
  | nil => rfl
  | cons c cs ih =>
    obtain ⟨plain, quoteless⟩ := Bool.or_eq_false_iff.mp (List.any_cons.symm.trans quoteless)
    rw [List.cons_append, blankLiterals, if_neg (by simp [plain]), ih quoteless]
    rfl

theorem blankLiterals_literal (l : Literal) (rest : List Char) :
    blankLiterals (l.source ++ rest) = '"' :: '"' :: blankLiterals rest := by
  have after : afterLiteral l.quote (l.body ++ [l.quote] ++ rest) = some rest := by
    simpa using afterLiteral_append l.opens l.closed rest
  rw [Literal.source, List.cons_append, List.cons_append, blankLiterals, if_pos l.opens]
  split
  · rename_i rest' found
    rw [after] at found
    cases found
    rfl
  · rename_i stopped
    rw [after] at stopped
    cases stopped

/-- Of code, only the text between literals is left. -/
theorem blankLiterals_source (parts : List CodePart) :
    blankLiterals (parts.flatMap CodePart.source) = parts.flatMap CodePart.blank := by
  induction parts with
  | nil => rw [List.flatMap_nil, blankLiterals, List.flatMap_nil]
  | cons part parts ih =>
    rw [List.flatMap_cons, List.flatMap_cons, ← ih]
    cases part with
    | text cs quoteless => exact blankLiterals_append quoteless _
    | literal l => exact blankLiterals_literal l _

/-! ### Characters of names -/

/-- Brackets of all kinds. -/
def brackets : List Char := ['(', ')', '[', ']', '\x7b', '\x7d']

/-- The code points of white space beyond ASCII. -/
def wideBlanks : List Nat :=
  [0x85, 0xA0, 0x1680, 0x2000, 0x2001, 0x2002, 0x2003, 0x2004, 0x2005, 0x2006, 0x2007, 0x2008,
    0x2009, 0x200A, 0x2028, 0x2029, 0x202F, 0x205F, 0x3000]

theorem mem_wideBlanks {c : Char} (wide : 0x80 ≤ c.toNat) (blank : isBlank c = true) :
    c.toNat ∈ wideBlanks := by
  simp only [isBlank, Bool.or_eq_true, Bool.and_eq_true, decide_eq_true_eq] at blank
  simp only [wideBlanks, List.mem_cons, List.not_mem_nil, or_false]
  omega

/-- No character of a name is white space, a bracket or a dot. -/
theorem apart_of_isNameChar {c : Char} (name : isNameChar c = true) :
    isBlank c = false ∧ c ∉ brackets ∧ c ≠ '.' := by
  by_cases narrow : c.toNat < 0x80
  · have all : ∀ n < 0x80, isNameChar (Char.ofNat n) = true → isBlank (Char.ofNat n) = false ∧
        Char.ofNat n ∉ brackets ∧ Char.ofNat n ≠ '.' := by decide +kernel
    have own := all c.toNat narrow
    rw [Char.ofNat_toNat] at own
    exact own name
  · have wide : 0x80 ≤ c.toNat := Nat.le_of_not_lt narrow
    have ascii : ∀ d ∈ '$' :: '.' :: brackets, d.toNat < 0x80 := by simp [brackets]
    have other : ∀ d ∈ '$' :: '.' :: brackets, c ≠ d := by
      rintro d hd rfl
      exact narrow (ascii c hd)
    refine ⟨Bool.eq_false_iff.mpr fun blank => ?_, fun mem => other c (by simp [mem]) rfl,
      other '.' (by simp)⟩
    have outside : ∀ n ∈ wideBlanks, inRanges wordRanges n = false := by decide +kernel
    have dollar : c ≠ '$' := other '$' (by simp)
    simp [isNameChar, isWordChar, narrow, dollar, outside _ (mem_wideBlanks wide blank)] at name

theorem isNameChar_of_isNameStart {c : Char} (start : isNameStart c = true) :
    isNameChar c = true := by
  simp only [isNameStart, Bool.or_eq_true, decide_eq_true_eq] at start
  rcases start with (alpha | rfl) | rfl
  · have narrow : c.toNat < 0x80 := by
      have upper : 'Z'.val.toNat = 90 := rfl
      have lower : 'z'.val.toNat = 122 := rfl
      have point : c.toNat = c.val.toNat := rfl
      have ranges : (decide ('A'.val ≤ c.val ∧ c.val ≤ 'Z'.val) ||
          decide ('a'.val ≤ c.val) && decide (c.val ≤ 'z'.val)) = true := alpha
      simp only [Bool.or_eq_true, Bool.and_eq_true, decide_eq_true_eq, UInt32.le_iff_toNat_le]
        at ranges
      omega
    simp [isNameChar, isWordChar, narrow, Char.isAlphanum, alpha]
  · decide
  · decide

/-! ### Paths -/

/-- An identifier. -/
def IsName (name : List Char) : Prop :=
  ∃ c cs, name = c :: cs ∧ isNameStart c = true ∧ ∀ d ∈ cs, isNameChar d = true

/-- An identifier, and members behind it. -/
def IsPath (path : List (List Char)) : Prop := path ≠ [] ∧ ∀ name ∈ path, IsName name

theorem IsName.isNameChar {name : List Char} (h : IsName name) :
    ∀ c ∈ name, isNameChar c = true := by
  obtain ⟨c, cs, rfl, start, rest⟩ := h
  exact List.forall_mem_cons.mpr ⟨isNameChar_of_isNameStart start, rest⟩

theorem isName_of_spanName {cs name rest : List Char} (h : spanName? cs = some (name, rest)) :
    IsName name := by
  cases cs with
  | nil => cases h
  | cons c cs =>
    simp only [spanName?] at h
    split at h
    · obtain ⟨rfl, -⟩ := Prod.mk.inj (Option.some.inj h)
      exact ⟨c, _, rfl, ‹_›, fun d hd => List.all_eq_true.mp List.all_takeWhile d hd⟩
    · cases h

theorem isName_of_spanMember {cs name rest : List Char} (h : spanMember? cs = some (name, rest)) :
    IsName name := by
  unfold spanMember? at h
  split at h
  · exact isName_of_spanName h
  · cases h

theorem isName_of_mem_spanMembers (indexed : Bool) (cs : List Char) :
    ∀ name ∈ (spanMembers indexed cs).1, IsName name := by
  fun_induction spanMembers indexed cs with
  | case1 indexed cs name rest found r ih =>
    split
    · exact ih
    · exact List.forall_mem_cons.mpr ⟨isName_of_spanMember found, ih⟩
  | case2 indexed cs _ rest _ ih => exact ih
  | case3 => simp

theorem isPath_of_mem_scanPaths (afterDot : Bool) (cs : List Char) :
    ∀ path ∈ scanPaths afterDot cs, IsPath path := by
  fun_induction scanPaths afterDot cs with
  | case1 => simp
  | case2 c cs name rest found r ih => exact ih
  | case3 afterDot c cs name rest found r _ ih =>
    refine List.forall_mem_cons.mpr ⟨⟨by simp, List.forall_mem_cons.mpr ⟨?_, ?_⟩⟩, ih⟩
    · exact isName_of_spanName found
    · exact isName_of_mem_spanMembers false rest
  | case4 afterDot c cs _ ih => exact ih

theorem mem_of_mem_intercalate {sep : List Char} {xs : List (List Char)} {c : Char}
    (mem : c ∈ sep.intercalate xs) : c ∈ sep ∨ ∃ x ∈ xs, c ∈ x := by
  induction xs with
  | nil => simp at mem
  | cons x xs ih =>
    cases xs with
    | nil => exact .inr ⟨x, List.mem_cons_self, by simpa using mem⟩
    | cons y ys =>
      rw [List.intercalate_cons_cons, List.mem_append, List.mem_append] at mem
      rcases mem with (own | between) | later
      · exact .inr ⟨x, List.mem_cons_self, own⟩
      · exact .inl between
      · exact (ih later).imp_right fun ⟨z, hz, mem⟩ => ⟨z, List.mem_cons_of_mem _ hz, mem⟩

/-- No character of the text of a path is white space or a bracket. -/
theorem apart_of_mem_pathText {path : List (List Char)} (h : IsPath path) {c : Char}
    (mem : c ∈ (pathText path).toList) : isBlank c = false ∧ c ∉ brackets := by
  rw [pathText, String.toList_intercalate] at mem
  rcases mem_of_mem_intercalate mem with dot | ⟨name, listed, mem⟩
  · obtain rfl : c = '.' := List.mem_singleton.mp dot
    decide
  · simp only [List.map_map, List.mem_map, Function.comp_apply, String.toList_ofList,
      exists_eq_right] at listed
    obtain ⟨clear, unbracketed, -⟩ := apart_of_isNameChar ((h.2 name listed).isNameChar c mem)
    exact ⟨clear, unbracketed⟩

theorem nodup_distinct (xs : List String) : (distinct xs).Nodup := by
  have run : ∀ (xs seen : List String), seen.Nodup →
      (xs.foldl (fun seen x => if x ∈ seen then seen else seen ++ [x]) seen).Nodup := by
    intro xs
    induction xs with
    | nil => exact fun _ nodup => nodup
    | cons x xs ih =>
      intro seen nodup
      refine ih _ ?_
      dsimp only
      split
      · exact nodup
      · rename_i new
        rw [← List.concat_eq_append]
        exact nodup.concat new
  exact run xs [] .nil

/-- What is left of parts depends on their outline. -/
theorem flatMap_blank (parts : List CodePart) : parts.flatMap CodePart.blank =
    (parts.map CodePart.outline).flatMap fun text => text.getD ['"', '"'] := by
  rw [List.flatMap_map]
  exact List.flatMap_congr fun part _ => by cases part <;> rfl

/-- Code of one outline has the same references: neither the bodies of its literals count nor their
quotes. The references of any code are listed once each; they are identifiers joined by single dots,
without white space and brackets. -/
theorem references_of_outline :
    (∀ parts parts' : List CodePart,
      parts.map CodePart.outline = parts'.map CodePart.outline →
      ofCode (String.ofList (parts.flatMap CodePart.source)) =
        ofCode (String.ofList (parts'.flatMap CodePart.source))) ∧
    ∀ code, (ofCode code).Nodup ∧ ∀ r ∈ ofCode code,
      (∃ path, IsPath path ∧ r = ".".intercalate (path.map String.ofList)) ∧
        ∀ c ∈ r.toList, isBlank c = false ∧ c ∉ brackets := by
  refine ⟨fun parts parts' same => ?_, fun code => ⟨nodup_distinct _, fun r mem => ?_⟩⟩
  · have blank : parts.flatMap CodePart.blank = parts'.flatMap CodePart.blank := by
      rw [flatMap_blank, flatMap_blank, same]
    rw [ofCode, ofCode, String.toList_ofList, String.toList_ofList, blankLiterals_source,
      blankLiterals_source, blank]
  · obtain ⟨path, found, rfl⟩ := List.mem_map.mp (mem_distinct_iff.mp mem)
    have isPath := isPath_of_mem_scanPaths _ _ path found
    exact ⟨⟨path, isPath, rfl⟩, fun c => apart_of_mem_pathText isPath⟩

/-- A literal between double quotes, with one of them escaped. -/
def escapedQuote : Literal where
  quote := '"'
  body := ['C', '.', '\\', '"']
  opens := rfl
  closed := .plain (by decide) (by decide) (.plain (by decide) (by decide)
    (.escaped (by decide) .nil))

/-- A literal between backticks, with a quote of another kind in it. -/
def otherQuote : Literal where
  quote := '\x60'
  body := ['\x27', 'D']
  opens := rfl
  closed := .plain (by decide) (by decide) (.plain (by decide) (by decide) .nil)

theorem references_of_outline_quotes :
    let first := CodePart.text "A.b + ".toList rfl
    let last := CodePart.text " + e".toList rfl
    [first, .literal escapedQuote, last].map CodePart.outline =
        [first, .literal otherQuote, last].map CodePart.outline ∧
      ofCode "A.b + \"C.\\\"\" + e" = ofCode "A.b + \x60'D\x60 + e" := by
  intro first last
  have same : [first, .literal escapedQuote, last].map CodePart.outline =
    [first, .literal otherQuote, last].map CodePart.outline := rfl
  have equal := references_of_outline.1 _ _ same
  have source : [first, .literal escapedQuote, last].flatMap CodePart.source =
    "A.b + \"C.\\\"\" + e".toList := by decide
  have source' : [first, .literal otherQuote, last].flatMap CodePart.source =
    "A.b + \x60'D\x60 + e".toList := by decide
  rw [source, source', String.ofList_toList, String.ofList_toList] at equal
  exact ⟨same, equal⟩

end AppBuilder.Reference
