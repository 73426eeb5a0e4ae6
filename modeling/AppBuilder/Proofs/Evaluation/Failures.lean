import AppBuilder.Proofs.Evaluation.Cycles

/-!
What becomes of each property that is evaluated.

Properties are evaluated one after another, so each sees the values that those before it left and
its own value is not written again (`get?_evaluateNodes_split`). A failure leaves an error that
names the property (`mem_evaluateNodes_snd_iff`), in the order of evaluation
(`paths_evaluateNodes_sublist`).
-/

namespace AppBuilder.TreeEvaluator

variable (t : TreeEvaluator)

/-! ### One property -/

/-- The outcome of a property as the values are, if the property is there. -/
def outcome? (p : String) : Option (Except EvalError Json) :=
  (t.unevaluated.get? p).map (t.evaluator.resolve (nodeScope t.references t.evaluated p))

/-- The error that an outcome leaves at a path. -/
def failureAt (p : String) : Except EvalError Json → Option EvalError
  | .ok _ => none
  | .error e => some (e.atPath p)

theorem evaluateNode_snd (p : String) :
    (t.evaluateNode p).2 = (t.outcome? p).bind (failureAt p) := by
  unfold evaluateNode outcome?
  cases t.unevaluated.get? p with
  | none => rfl
  | some raw =>
    simp only [Option.map_some, Option.bind_some]
    cases t.evaluator.resolve (nodeScope t.references t.evaluated p) raw <;> rfl

theorem path_of_evaluateNode {t : TreeEvaluator} {p : String} {e : EvalError}
    (failed : (t.evaluateNode p).2 = some e) : e.path = some p := by
  rw [evaluateNode_snd] at failed
  obtain ⟨outcome, -, failed⟩ := Option.bind_eq_some_iff.mp failed
  cases outcome with
  | ok v => cases failed
  | error own =>
    obtain rfl : own.atPath p = e := Option.some.inj failed
    rfl

/-! ### One after another -/

theorem evaluateNodes_cons (p : String) (paths : List String) :
    t.evaluateNodes (p :: paths) =
      (((t.evaluateNode p).1.evaluateNodes paths).1,
        (t.evaluateNode p).2.toList ++ ((t.evaluateNode p).1.evaluateNodes paths).2) := by
  have run : ∀ (paths : List String) (s : TreeEvaluator) (errors : List EvalError),
      paths.foldl (fun (acc : TreeEvaluator × List EvalError) path =>
        ((acc.1.evaluateNode path).1, acc.2 ++ (acc.1.evaluateNode path).2.toList)) (s, errors) =
      ((s.evaluateNodes paths).1, errors ++ (s.evaluateNodes paths).2) := by
    intro paths
    induction paths with
    | nil => exact fun s errors => by simp [evaluateNodes]
    | cons path paths ih =>
      intro s errors
      have first : s.evaluateNodes (path :: paths) = _ :=
        ih (s.evaluateNode path).1 ([] ++ (s.evaluateNode path).2.toList)
      rw [List.foldl_cons, ih, first]
      simp
  exact run paths (t.evaluateNode p).1 ([] ++ (t.evaluateNode p).2.toList)

theorem evaluateNodes_append_fst (front back : List String) :
    (t.evaluateNodes (front ++ back)).1 = ((t.evaluateNodes front).1.evaluateNodes back).1 := by
  simp only [evaluateNodes_fst_eq, List.foldl_append]

/-- The errors are those of the properties, each evaluated with what those before it left. -/
theorem mem_evaluateNodes_snd_iff {paths : List String} {e : EvalError} :
    e ∈ (t.evaluateNodes paths).2 ↔ ∃ front p back, paths = front ++ p :: back ∧
      ((t.evaluateNodes front).1.evaluateNode p).2 = some e := by
  induction paths generalizing t with
  | nil => simp [evaluateNodes]
  | cons path paths ih =>
    rw [evaluateNodes_cons, List.mem_append, Option.mem_toList, ih]
    constructor
    · rintro (first | ⟨front, p, back, rfl, later⟩)
      · exact ⟨[], path, paths, rfl, first⟩
      · refine ⟨path :: front, p, back, rfl, ?_⟩
        rwa [evaluateNodes_cons]
    · rintro ⟨front, p, back, eq, failed⟩
      cases front with
      | nil =>
        obtain ⟨rfl, -⟩ := List.cons.inj eq
        exact .inl failed
      | cons first front =>
        obtain ⟨rfl, rfl⟩ := List.cons.inj eq
        rw [evaluateNodes_cons] at failed
        exact .inr ⟨front, p, back, rfl, failed⟩

/-- Every error names a property evaluated, in the order of evaluation. -/
theorem paths_evaluateNodes_sublist (paths : List String) :
    ((t.evaluateNodes paths).2.map (·.path)).Sublist (paths.map some) := by
  induction paths generalizing t with
  | nil => exact .slnil
  | cons p paths ih =>
    rw [evaluateNodes_cons, List.map_append, List.map_cons]
    cases failed : (t.evaluateNode p).2 with
    | none => exact (ih _).cons _
    | some e =>
      have own : e.path = some p := path_of_evaluateNode failed
      simpa [own] using ih (t.evaluateNode p).1

variable {t}

/-- A property has the value expected as the values were at its turn. -/
theorem get?_evaluateNodes_split (graph : GraphOf t.unevaluated t.graph t.references)
    (outline : t.evaluated.outline = t.unevaluated.outline) {front back : List String}
    {p : String} (code : t.references.contains p = true) (once : p ∉ back) :
    (t.evaluateNodes (front ++ p :: back)).1.evaluated.get? p =
      t.expected (t.evaluateNodes front).1.evaluated p := by
  have outline' := (outline_evaluateNodes t front).trans outline
  obtain ⟨values, eq⟩ := evaluateNodes_fst t front
  rw [evaluateNodes_append_fst, evaluateNodes_cons, get?_evaluateNodes_of_not_mem _ once]
  rw [eq] at outline' ⊢
  have own := get?_evaluateNode (t := { t with evaluated := values }) graph outline' code p
  exact own.trans (if_pos rfl)

/-- At its turn a property sees the values that there are in the end, but for itself and those
evaluated behind it. -/
theorem get?_evaluateNodes_of_turn {front back : List String} {q : String} (past : q ∉ back) :
    (t.evaluateNodes (front ++ back)).1.evaluated.get? q =
      (t.evaluateNodes front).1.evaluated.get? q := by
  rw [evaluateNodes_append_fst, get?_evaluateNodes_of_not_mem _ past]

end AppBuilder.TreeEvaluator
