import AppBuilder.Template.Segment
import AppBuilder.Text.Word

/-!
The identifier paths that code refers to.

String literals in the code count as empty ones (`blankLiterals`). Of what is left,
every identifier followed by members, such as `Api1.data.name`, is a reference; members
behind an index such as `[0]` are left off, and an identifier right behind a dot is a
member of some other expression and no reference. The words of a path are joined by
single dots; a path found twice is listed once, where it first occurs.
-/

namespace AppBuilder

namespace Reference

/-! ### String literals -/

/-- Whether a character opens a string literal. -/
def isQuote (c : Char) : Bool := c = '"' || c = '\x27' || c = '\x60'

/-- What follows a literal whose body starts here: the body runs to the first quote of
its kind that no backslash precedes; a backslash takes any character but a line break. -/
def afterLiteral (quote : Char) : List Char → Option (List Char)
  | [] => none
  | c :: cs =>
    if c = '\\' then
      match cs with
      | [] => none
      | d :: cs => if d = '\n' then none else afterLiteral quote cs
    else if c = quote then some cs
    else afterLiteral quote cs

theorem length_afterLiteral {quote : Char} {cs rest : List Char}
    (h : afterLiteral quote cs = some rest) : rest.length < cs.length := by
  fun_induction afterLiteral quote cs with
  | case1 => simp at h
  | case2 => simp at h
  | case3 => simp at h
  | case4 d cs _ ih => have := ih h; simp only [List.length_cons]; omega
  | case5 =>
    simp only [Option.some.injEq] at h
    simp [h]
  | case6 c cs _ _ ih => have := ih h; simp only [List.length_cons]; omega

/-- Code with every complete string literal made empty. -/
def blankLiterals (cs : List Char) : List Char :=
  match cs with
  | [] => []
  | c :: cs =>
    if isQuote c then
      match _h : afterLiteral c cs with
      | some rest => '"' :: '"' :: blankLiterals rest
      | none => c :: blankLiterals cs
    else c :: blankLiterals cs
termination_by cs.length
decreasing_by
  · have := length_afterLiteral _h
    simp only [List.length_cons]
    omega
  · simp
  · simp

/-! ### Identifier paths -/

/-- Whether a character starts an identifier. -/
def isNameStart (c : Char) : Bool := c.isAlpha || c = '_' || c = '$'

/-- Whether a character continues an identifier. -/
def isNameChar (c : Char) : Bool := isWordChar c || c = '$'

/-- An identifier at the start of a text. -/
def spanName? : List Char → Option (List Char × List Char)
  | [] => none
  | c :: cs =>
    if isNameStart c then some (c :: cs.takeWhile isNameChar, cs.dropWhile isNameChar) else none

/-- A member access: a dot, with white space around it, and an identifier. -/
def spanMember? (cs : List Char) : Option (List Char × List Char) :=
  match trimStart cs with
  | '.' :: rest => spanName? (trimStart rest)
  | _ => none

/-- What follows an index: decimal digits in brackets. -/
def afterIndex? : List Char → Option (List Char)
  | '[' :: cs =>
    if (cs.takeWhile isDecimalDigit).isEmpty then none
    else match cs.dropWhile isDecimalDigit with
      | ']' :: rest => some rest
      | _ => none
  | _ => none

theorem length_dropWhile_le (p : Char → Bool) (cs : List Char) :
    (cs.dropWhile p).length ≤ cs.length :=
  (List.dropWhile_sublist p).length_le

theorem length_spanName {cs name rest : List Char} (h : spanName? cs = some (name, rest)) :
    rest.length < cs.length := by
  cases cs with
  | nil => simp [spanName?] at h
  | cons c cs =>
    simp only [spanName?] at h
    split at h
    · simp only [Option.some.injEq, Prod.mk.injEq] at h
      have := length_dropWhile_le isNameChar cs
      simp only [← h.2, List.length_cons]
      omega
    · simp at h

theorem length_spanMember {cs name rest : List Char} (h : spanMember? cs = some (name, rest)) :
    rest.length < cs.length := by
  unfold spanMember? at h
  split at h
  · rename_i r hr
    have h1 := length_spanName h
    have h2 : (trimStart r).length ≤ r.length := length_dropWhile_le _ _
    have h3 : (trimStart cs).length ≤ cs.length := length_dropWhile_le _ _
    rw [hr, List.length_cons] at h3
    omega
  · simp at h

theorem length_afterIndex {cs rest : List Char} (h : afterIndex? cs = some rest) :
    rest.length < cs.length := by
  unfold afterIndex? at h
  split at h
  · rename_i ds
    split at h
    · simp at h
    · split at h
      · rename_i r hr
        obtain rfl := Option.some.inj h
        have := length_dropWhile_le isDecimalDigit ds
        rw [hr, List.length_cons] at this
        simp only [List.length_cons]
        omega
      · simp at h
  · simp at h

/-- The members that follow an identifier, those behind an index left off, and the rest
of the text. -/
def spanMembers (indexed : Bool) (cs : List Char) : List (List Char) × List Char :=
  match _h : spanMember? cs with
  | some (name, rest) =>
    let r := spanMembers indexed rest
    (if indexed then r.1 else name :: r.1, r.2)
  | none =>
    match _h' : afterIndex? cs with
    | some rest => spanMembers true rest
    | none => ([], cs)
termination_by cs.length
decreasing_by
  · exact length_spanMember _h
  · exact length_afterIndex _h'

theorem length_spanMembers (indexed : Bool) (cs : List Char) :
    (spanMembers indexed cs).2.length ≤ cs.length := by
  fun_induction spanMembers indexed cs with
  | case1 indexed cs name rest h r ih => have := length_spanMember h; exact Nat.le_trans ih (by omega)
  | case2 indexed cs h rest h' ih => have := length_afterIndex h'; omega
  | case3 => exact Nat.le_refl _

/-- Every path of a text in the order of occurrence. `afterDot` tells whether the last
character before the text, white space aside, is a dot. -/
def scanPaths (afterDot : Bool) (cs : List Char) : List (List (List Char)) :=
  match cs with
  | [] => []
  | c :: cs =>
    match _h : spanName? (c :: cs) with
    | some (name, rest) =>
      let r := spanMembers false rest
      if afterDot then scanPaths false r.2 else (name :: r.1) :: scanPaths false r.2
    | none => scanPaths (if isBlank c then afterDot else c = '.') cs
termination_by cs.length
decreasing_by
  · have h1 := length_spanName _h
    have h2 := length_spanMembers false rest
    exact Nat.lt_of_le_of_lt h2 h1
  · have h1 := length_spanName _h
    have h2 := length_spanMembers false rest
    exact Nat.lt_of_le_of_lt h2 h1
  · simp

/-- The text of a path. -/
def pathText (path : List (List Char)) : String := ".".intercalate (path.map String.ofList)

/-- The items of a list without repetitions, each where it first occurs. -/
def distinct (xs : List String) : List String :=
  xs.foldl (fun seen x => if x ∈ seen then seen else seen ++ [x]) []

/-- The identifier paths that code refers to. -/
def ofCode (code : String) : List String :=
  distinct ((scanPaths false (blankLiterals code.toList)).map pathText)

/-- The identifier paths that the codes of a template refer to. -/
def ofTemplate (s : String) : List String := distinct ((Template.codes s).flatMap ofCode)

end Reference

end AppBuilder
