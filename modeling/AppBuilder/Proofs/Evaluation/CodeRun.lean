import AppBuilder.Proofs.Evaluation.Dirty
import AppBuilder.Proofs.Evaluation.Settled
import AppBuilder.Proofs.Template.Code

/-!
The code that a property runs.

A property holds code when a text inside it is a template with a binding, however deep it is
(`Json.HoldsText`). `Evaluator.resolveRun` evaluates a property as `Evaluator.resolve` does and
keeps a record of the codes that it runs. These are the codes of its templates in order, up to the
first that fails (`follows_resolveRun`). So the references of a property cover all code that it can
run, and the scope of its node has every entity that such code refers to.

Main statement: `Evaluator.codes_referenced`.
-/

namespace AppBuilder

/-! ### References of a value -/

namespace Reference

theorem ofValue?_eq_none_iff {raw : Json} : ofValue? raw = none ↔ raw.templates = [] := by
  unfold ofValue?
  split
  · simp_all
  · simp_all

/-- What the code of a template inside a value refers to, the value refers to. -/
theorem mem_of_ofValue? {raw : Json} {refs : List String} (h : ofValue? raw = some refs)
    {code r : String} (hcode : code ∈ raw.templates.flatMap Template.codes)
    (hr : r ∈ ofCode code) : r ∈ refs := by
  obtain ⟨s, hs, hcode⟩ := List.mem_flatMap.mp hcode
  unfold ofValue? at h
  split at h
  · simp at h
  · obtain rfl := Option.some.inj h
    exact mem_distinct_iff.mpr
      (List.mem_flatMap.mpr ⟨s, hs, mem_ofTemplate_of_mem_ofCode hcode hr⟩)

end Reference

/-! ### Evaluation with a record -/

/-- An evaluation: the codes that it ran, in order, and its outcome. -/
structure CodeRun (α : Type) where
  codes : List String
  outcome : Except EvalError α

namespace CodeRun

variable {α β : Type}

instance : Monad CodeRun where
  pure a := ⟨[], .ok a⟩
  bind x f := match x.outcome with
    | .ok a => ⟨x.codes ++ (f a).codes, (f a).outcome⟩
    | .error e => ⟨x.codes, .error e⟩

@[simp] theorem outcome_pure (a : α) : (pure a : CodeRun α).outcome = .ok a := rfl

@[simp] theorem codes_pure (a : α) : (pure a : CodeRun α).codes = [] := rfl

theorem bind_of_ok {x : CodeRun α} {a : α} (h : x.outcome = .ok a) (f : α → CodeRun β) :
    x >>= f = ⟨x.codes ++ (f a).codes, (f a).outcome⟩ := by
  simp only [bind, h]

theorem bind_of_error {x : CodeRun α} {e : EvalError} (h : x.outcome = .error e)
    (f : α → CodeRun β) : x >>= f = ⟨x.codes, .error e⟩ := by
  simp only [bind, h]

@[simp] theorem outcome_bind (x : CodeRun α) (f : α → CodeRun β) :
    (x >>= f).outcome = x.outcome >>= fun a => (f a).outcome := by
  cases h : x.outcome with
  | ok a => rw [bind_of_ok h]; rfl
  | error e => rw [bind_of_error h]; rfl

/-- The codes run are the first of some codes, and all of them if nothing failed. -/
structure Follows (x : CodeRun α) (codes : List String) : Prop where
  initial : x.codes <+: codes
  complete : ∀ a, x.outcome = .ok a → x.codes = codes

theorem Follows.pure (a : α) : (pure a : CodeRun α).Follows [] := ⟨List.nil_prefix, fun _ _ => rfl⟩

theorem Follows.bind {x : CodeRun α} {f : α → CodeRun β} {codes more : List String}
    (first : x.Follows codes) (second : ∀ a, (f a).Follows more) :
    (x >>= f).Follows (codes ++ more) := by
  cases h : x.outcome with
  | ok a =>
    rw [bind_of_ok h, ← first.complete a h]
    exact ⟨List.prefix_append_right_inj _ |>.mpr (second a).initial,
      fun b hb => congrArg _ ((second a).complete b hb)⟩
  | error e =>
    rw [bind_of_error h]
    exact ⟨first.initial.trans (List.prefix_append _ _), fun b hb => by simp at hb⟩

/-- Changing the value runs no code. -/
theorem Follows.map {x : CodeRun α} {codes : List String} (h : x.Follows codes) (f : α → β) :
    (x >>= fun a => Pure.pure (f a)).Follows codes := by
  simpa using h.bind fun a => Follows.pure (f a)

end CodeRun

namespace Evaluator

variable (e : Evaluator) (scope : Scope)

/-- Run a code. -/
def codeRun (code : String) : CodeRun Json := ⟨[code], e.runBinding code scope⟩

/-- The text of a piece of a template. -/
def pieceRun : Segment → CodeRun String
  | .text cs => pure (String.ofList cs)
  | .code cs => do return joinedText (← e.codeRun scope (String.ofList (trim cs)))

/-- The texts of the pieces of a template. -/
def piecesRun : List Segment → CodeRun (List String)
  | [] => pure []
  | piece :: pieces => do
    let text ← e.pieceRun scope piece
    return text :: (← piecesRun pieces)

/-- The value of a template. -/
def templateRun (s : String) : CodeRun Json :=
  if Template.isDynamic s then
    match Template.soleCode? s with
    | some code => e.codeRun scope code
    | none => do return .string (String.join (← e.piecesRun scope (Template.segments s)))
  else pure (.string s)

mutual

/-- The value of a property. -/
def resolveRun : Json → CodeRun Json
  | .string s => e.templateRun scope s
  | .array xs => do return .array (← resolveItemsRun xs)
  | .object fs => do return .object (← resolveFieldsRun fs)
  | j => pure j

/-- `resolveRun` on a list of values. -/
def resolveItemsRun : List Json → CodeRun (List Json)
  | [] => pure []
  | x :: xs => do
    let y ← resolveRun x
    return y :: (← resolveItemsRun xs)

/-- `resolveRun` on a list of fields. -/
def resolveFieldsRun : List (String × Json) → CodeRun (List (String × Json))
  | [] => pure []
  | (k, x) :: fs => do
    let y ← resolveRun x
    return (k, y) :: (← resolveFieldsRun fs)

end

/-! ### The outcome -/

theorem outcome_pieceRun (piece : Segment) :
    (e.pieceRun scope piece).outcome = e.pieceText scope piece := by
  cases piece with
  | text cs => rfl
  | code cs => simp only [pieceRun, CodeRun.outcome_bind]; rfl

theorem outcome_piecesRun (pieces : List Segment) :
    (e.piecesRun scope pieces).outcome = pieces.mapM (e.pieceText scope) := by
  induction pieces with
  | nil => rfl
  | cons piece pieces ih =>
    simp only [piecesRun, CodeRun.outcome_bind, outcome_pieceRun, ih, List.mapM_cons]
    rfl

theorem outcome_templateRun (s : String) :
    (e.templateRun scope s).outcome = e.template s scope := by
  unfold templateRun template
  split
  · cases Template.soleCode? s with
    | some code => rfl
    | none =>
      simp only [CodeRun.outcome_bind, outcome_piecesRun]
      rfl
  · rfl

mutual

/-- The record leaves the outcome as it is. -/
theorem outcome_resolveRun : ∀ raw : Json,
    (e.resolveRun scope raw).outcome = e.resolve scope raw
  | .null | .bool _ | .number _ => by simp only [resolveRun, resolve, CodeRun.outcome_pure]
  | .string s => by simp only [resolveRun, resolve, outcome_templateRun]
  | .array xs => by
    simp only [resolveRun, resolve, CodeRun.outcome_bind, outcome_resolveItemsRun xs]
    rfl
  | .object fs => by
    simp only [resolveRun, resolve, CodeRun.outcome_bind, outcome_resolveFieldsRun fs]
    rfl

theorem outcome_resolveItemsRun : ∀ xs : List Json,
    (e.resolveItemsRun scope xs).outcome = e.resolveItems scope xs
  | [] => by simp only [resolveItemsRun, resolveItems, CodeRun.outcome_pure]
  | x :: xs => by
    simp only [resolveItemsRun, resolveItems, CodeRun.outcome_bind, outcome_resolveRun x,
      outcome_resolveItemsRun xs]
    rfl

theorem outcome_resolveFieldsRun : ∀ fs : List (String × Json),
    (e.resolveFieldsRun scope fs).outcome = e.resolveFields scope fs
  | [] => by simp only [resolveFieldsRun, resolveFields, CodeRun.outcome_pure]
  | (k, x) :: fs => by
    simp only [resolveFieldsRun, resolveFields, CodeRun.outcome_bind, outcome_resolveRun x,
      outcome_resolveFieldsRun fs]
    rfl

end

/-! ### The codes -/

theorem follows_codeRun (code : String) : (e.codeRun scope code).Follows [code] :=
  ⟨List.prefix_rfl, fun _ _ => rfl⟩

theorem follows_piecesRun (pieces : List Segment) :
    (e.piecesRun scope pieces).Follows (pieces.filterMap Segment.code?) := by
  induction pieces with
  | nil => exact .pure []
  | cons piece pieces ih =>
    have rest : ∀ text, ((e.piecesRun scope pieces) >>= fun texts =>
        pure (text :: texts)).Follows (pieces.filterMap Segment.code?) :=
      fun text => ih.map (text :: ·)
    cases piece with
    | text cs => exact (CodeRun.Follows.pure (String.ofList cs)).bind rest
    | code cs => exact ((e.follows_codeRun scope _).map joinedText).bind rest

/-- A template runs its codes in order. A text that is a single binding has no other code, so the
shorter way leaves none out. -/
theorem follows_templateRun (s : String) :
    (e.templateRun scope s).Follows (Template.codes s) := by
  unfold templateRun
  split
  · split
    · rename_i code sole
      rw [Template.codes_of_soleCode? sole]
      exact e.follows_codeRun scope code
    · exact (e.follows_piecesRun scope _).map _
  · rename_i static
    have bare : Template.codes s = [] := by simpa [Template.isDynamic] using static
    rw [bare]
    exact .pure _

theorem flatMap_codes_string (s : String) :
    (Json.string s).templates.flatMap Template.codes = Template.codes s := by
  by_cases dynamic : Template.isDynamic s = true
  · simp [Json.templates, dynamic]
  · have bare : Template.codes s = [] := by simpa [Template.isDynamic] using dynamic
    simp [Json.templates, dynamic, bare]

mutual

/-- A property runs the codes of its templates in order, up to the first that fails. -/
theorem follows_resolveRun : ∀ raw : Json,
    (e.resolveRun scope raw).Follows (raw.templates.flatMap Template.codes)
  | .null | .bool _ | .number _ => by
    simp only [resolveRun, Json.templates]
    exact .pure _
  | .string s => by
    rw [resolveRun, flatMap_codes_string]
    exact e.follows_templateRun scope s
  | .array xs => by
    rw [resolveRun, Json.templates]
    exact (follows_resolveItemsRun xs).map _
  | .object fs => by
    rw [resolveRun, Json.templates]
    exact (follows_resolveFieldsRun fs).map _

theorem follows_resolveItemsRun : ∀ xs : List Json,
    (e.resolveItemsRun scope xs).Follows ((Json.templatesOfItems xs).flatMap Template.codes)
  | [] => by
    rw [resolveItemsRun, Json.templatesOfItems]
    exact .pure _
  | x :: xs => by
    rw [resolveItemsRun, Json.templatesOfItems, List.flatMap_append]
    exact (follows_resolveRun x).bind fun y => (follows_resolveItemsRun xs).map _

theorem follows_resolveFieldsRun : ∀ fs : List (String × Json),
    (e.resolveFieldsRun scope fs).Follows ((Json.templatesOfFields fs).flatMap Template.codes)
  | [] => by
    rw [resolveFieldsRun, Json.templatesOfFields]
    exact .pure _
  | (k, x) :: fs => by
    rw [resolveFieldsRun, Json.templatesOfFields, List.flatMap_append]
    exact (follows_resolveRun x).bind fun y => (follows_resolveFieldsRun fs).map _

end

/-! ### Values without code -/

mutual

/-- A property without a template has itself as its value. -/
theorem resolve_of_static : ∀ {raw : Json}, raw.templates = [] → e.resolve scope raw = .ok raw
  | .null, _ | .bool _, _ | .number _, _ => by simp only [resolve]
  | .string s, static => by
    have text : Template.isDynamic s = false := by simpa [Json.templates] using static
    simp only [resolve, template, text, Bool.false_eq_true, if_false]
  | .array xs, static => by
    rw [Json.templates] at static
    rw [resolve, resolveItems_of_static static]
    rfl
  | .object fs, static => by
    rw [Json.templates] at static
    rw [resolve, resolveFields_of_static static]
    rfl

theorem resolveItems_of_static : ∀ {xs : List Json}, Json.templatesOfItems xs = [] →
    e.resolveItems scope xs = .ok xs
  | [], _ => by rw [resolveItems]
  | x :: xs, static => by
    obtain ⟨first, rest⟩ := List.append_eq_nil_iff.mp (Json.templatesOfItems.eq_2 .. ▸ static)
    rw [resolveItems, resolve_of_static first, resolveItems_of_static rest]
    rfl

theorem resolveFields_of_static : ∀ {fs : List (String × Json)}, Json.templatesOfFields fs = [] →
    e.resolveFields scope fs = .ok fs
  | [], _ => by rw [resolveFields]
  | (k, x) :: fs, static => by
    obtain ⟨first, rest⟩ := List.append_eq_nil_iff.mp (Json.templatesOfFields.eq_2 .. ▸ static)
    rw [resolveFields, resolve_of_static first, resolveFields_of_static rest]
    rfl

end

/-! ### Code and references -/

/-- The references of a property cover the code that it runs. -/
theorem mem_of_mem_codes {raw : Json} {refs : List String}
    (h : Reference.ofValue? raw = some refs) {code r : String}
    (hcode : code ∈ (e.resolveRun scope raw).codes) (hr : r ∈ Reference.ofCode code) : r ∈ refs :=
  Reference.mem_of_ofValue? h ((e.follows_resolveRun scope raw).initial.subset hcode) hr

/-- A property has no references noted when no text inside it has a binding, and then it has itself
as its value and runs no code, whatever the evaluator and the scope. The codes that evaluating a
property runs are those of its templates in order, all of them unless one fails. The references
noted of a property with a binding are among them all references of the codes that evaluating it
can run, so in the scope of its node each entity that such a code refers to has the value that the
tree gives it. -/
theorem codes_referenced (raw : Json) :
    (Reference.ofValue? raw = none ↔ ∀ s, raw.HoldsText s → Template.isDynamic s = false) ∧
    (∀ (e : Evaluator) (scope : Scope),
      (e.resolveRun scope raw).outcome = e.resolve scope raw ∧
      (e.resolveRun scope raw).Follows (raw.templates.flatMap Template.codes) ∧
      (Reference.ofValue? raw = none →
        e.resolve scope raw = .ok raw ∧ (e.resolveRun scope raw).codes = [])) ∧
    ∀ refs, Reference.ofValue? raw = some refs →
      (∀ (e : Evaluator) (scope : Scope), ∀ code ∈ (e.resolveRun scope raw).codes,
        ∀ r ∈ Reference.ofCode code, r ∈ refs) ∧
      ∀ (references : Dict (List String)) (node : String), references.get? node = some refs →
        ∀ (e : Evaluator) (values : DataTree),
          ∀ code ∈ (e.resolveRun (nodeScope references values node) raw).codes,
            ∀ r ∈ Reference.ofCode code,
              (nodeScope references values node).get? (Reference.entity r) =
                values.entityValue? (Reference.entity r) := by
  refine ⟨?_, fun e scope => ⟨e.outcome_resolveRun scope raw, e.follows_resolveRun scope raw,
      fun static => ?_⟩,
    fun refs noted => ⟨fun e scope code hcode r hr => e.mem_of_mem_codes scope noted hcode hr, ?_⟩⟩
  · rw [Reference.ofValue?_eq_none_iff, List.eq_nil_iff_forall_not_mem]
    simp only [Json.mem_templates_iff, not_and, Bool.not_eq_true]
  · have bare := Reference.ofValue?_eq_none_iff.mp static
    have codes := (e.follows_resolveRun scope raw).initial
    rw [bare, List.flatMap_nil, List.prefix_nil] at codes
    exact ⟨e.resolve_of_static scope bare, codes⟩
  · intro references node stored e values code hcode r hr
    have listed : r ∈ refs := e.mem_of_mem_codes _ noted hcode hr
    rw [get?_nodeScope, stored, Option.getD_some, if_pos (List.mem_map_of_mem listed)]

/-- A binding deep inside, with white space around it, and a text with two. -/
def table : Json :=
  .object [("rows", .array [.null, .array [.string " \x7b\x7bApi1.data\x7d\x7d "]]),
    ("title", .string "n=\x7b\x7bText1.text\x7d\x7d/\x7b\x7b'A.b' + Api1.total\x7d\x7d")]

/-- What the code of the table refers to. -/
def tableReferences : List String := ["Api1.data", "Text1.text", "Api1.total"]

theorem codes_referenced_table :
    let scope := nodeScope (Dict.empty.insert "Table1.cfg" tableReferences)
    Reference.ofValue? table = some tableReferences ∧
    (path.resolveRun .empty table).codes = ["Api1.data", "Text1.text", "'A.b' + Api1.total"] ∧
    ∀ values : DataTree, ∀ code ∈ (path.resolveRun (scope values "Table1.cfg") table).codes,
      ∀ r ∈ Reference.ofCode code, r ∈ tableReferences ∧
        (scope values "Table1.cfg").get? (Reference.entity r) =
          values.entityValue? (Reference.entity r) := by
  intro scope
  have noted : Reference.ofValue? table = some tableReferences := by decide +kernel
  obtain ⟨covered, offered⟩ := (codes_referenced table).2.2 _ noted
  refine ⟨noted, by decide +kernel, fun values code hcode r hr => ⟨?_, ?_⟩⟩
  · exact covered path _ code hcode r hr
  · exact offered _ _ (Dict.get?_insert_self _ _ _) path values code hcode r hr

end Evaluator

end AppBuilder
