import AppBuilder.Evaluation.OnDemand
import AppBuilder.Proofs.Action.Frames

/-!
Running a trigger.

The codes of a trigger share one frame, and the calls that one makes do not change what another one
does. So a trigger is told by what each of its codes gives in a trigger frame of its own
(`CodesEnd`): the codes up to the first that fails count, with all the actions they asked for.

Main statement: `TreeEvaluator.runTrigger_ends`.
-/

namespace AppBuilder

/-! ### Codes one after another -/

/-- How codes end that are run up to the first that fails, when what each of them gives is known:
the outcome, and the actions asked for until then. -/
inductive CodesEnd (outcome : String → Except ScriptError Json) (actions : String → List Action) :
    List String → Except ScriptError Json → List Action → Prop where
  | succeed {front : List String} {last : String} {j : Json} :
    (∀ code ∈ front, ∃ i, outcome code = .ok i) → outcome last = .ok j →
    CodesEnd outcome actions (front ++ [last]) (.ok j) ((front ++ [last]).flatMap actions)
  | fail {front rest : List String} {code : String} {f : ScriptError} :
    (∀ earlier ∈ front, ∃ i, outcome earlier = .ok i) → outcome code = .error f →
    CodesEnd outcome actions (front ++ code :: rest) (.error f) ((front ++ [code]).flatMap actions)

namespace CodesEnd

variable {outcome : String → Except ScriptError Json} {actions : String → List Action}
  {code : String} {codes : List String}

theorem single {j : Json} (h : outcome code = .ok j) :
    CodesEnd outcome actions [code] (.ok j) (actions code) := by
  have ends : CodesEnd outcome actions ([] ++ [code]) (.ok j) (([] ++ [code]).flatMap actions) :=
    succeed (by simp) h
  simpa using ends

theorem head {f : ScriptError} (h : outcome code = .error f) :
    CodesEnd outcome actions (code :: codes) (.error f) (actions code) := by
  have ends : CodesEnd outcome actions ([] ++ code :: codes) (.error f)
      (([] ++ [code]).flatMap actions) := fail (by simp) h
  simpa using ends

theorem cons {i : Json} {r : Except ScriptError Json} {asked : List Action}
    (h : outcome code = .ok i) (ends : CodesEnd outcome actions codes r asked) :
    CodesEnd outcome actions (code :: codes) r (actions code ++ asked) := by
  cases ends with
  | @succeed front last j earlier final =>
    simpa using succeed (List.forall_mem_cons.mpr ⟨⟨i, h⟩, earlier⟩) final
  | @fail front rest failing f earlier failed =>
    simpa using fail (List.forall_mem_cons.mpr ⟨⟨i, h⟩, earlier⟩) failed

end CodesEnd

namespace Calls

variable {α β : Type}

theorem toProgram_bind (c : Calls α) (f : α → Calls β) :
    (c >>= f).toProgram = c.toProgram.bind fun a => (f a).toProgram := by
  induction c with
  | done a => rfl
  | call name args next ih => exact congrArg _ (funext fun ok => ih ok)

/-- What a computation returns in a trigger frame, and the actions that it asks for. -/
def triggered (c : Calls α) : α × List Action :=
  let (a, report) := c.inFrame .trigger
  (a, report.actions)

theorem triggered_eq (c : Calls α) :
    c.triggered = ((c.toProgram.outcome true).1, (c.toProgram.outcome true).2.map (·.action)) := by
  rw [triggered, inFrame_eq]
  rfl

@[simp] theorem triggered_pure (a : α) : (pure a : Calls α).triggered = (a, []) := rfl

theorem triggered_bind (c : Calls α) (f : α → Calls β) :
    (c >>= f).triggered = ((f c.triggered.1).triggered.1,
      c.triggered.2 ++ (f c.triggered.1).triggered.2) := by
  simp only [triggered_eq, toProgram_bind, FrameProgram.outcome_bind, List.map_append]

/-- In a trigger frame around which others are open, a computation leaves these as they are. -/
theorem run_triggered (c : Calls α) (frames : List Frame) :
    c.toProgram.run (.fresh .trigger :: frames) =
      (c.triggered.1, ⟨.trigger, c.triggered.2, none⟩ :: frames) := by
  rw [FrameProgram.run_fresh, triggered_eq]
  rfl

end Calls

namespace Evaluator

variable (e : Evaluator) (scope : Scope)

/-- The outcome of a code in a trigger frame. -/
def triggerOutcome (code : String) : Except ScriptError Json := (e.run code scope).triggered.1

/-- The actions that a code asks for in a trigger frame. -/
def triggerActions (code : String) : List Action := (e.run code scope).triggered.2

variable {e scope} {code : String} {last : Json} {codes : List String}

theorem triggered_runAll_of_ok {j : Json} (h : e.triggerOutcome scope code = .ok j) :
    (e.runAll scope last (code :: codes)).triggered =
      ((e.runAll scope j codes).triggered.1,
        e.triggerActions scope code ++ (e.runAll scope j codes).triggered.2) := by
  rw [runAll, Calls.triggered_bind, triggerActions]
  rw [triggerOutcome] at h
  simp only [h]

theorem triggered_runAll_of_error {f : ScriptError} (h : e.triggerOutcome scope code = .error f) :
    (e.runAll scope last (code :: codes)).triggered = (.error f, e.triggerActions scope code) := by
  rw [runAll, Calls.triggered_bind, triggerActions]
  rw [triggerOutcome] at h
  simp only [h, Calls.triggered_pure, List.append_nil]

/-- Codes run in one trigger frame end as the outcome and the actions of each of them tell. -/
theorem runAll_ends (last : Json) (code : String) (codes : List String) :
    CodesEnd (e.triggerOutcome scope) (e.triggerActions scope) (code :: codes)
      (e.runAll scope last (code :: codes)).triggered.1
      (e.runAll scope last (code :: codes)).triggered.2 := by
  induction codes generalizing last code with
  | nil =>
    cases h : e.triggerOutcome scope code with
    | error f =>
      rw [triggered_runAll_of_error h]
      exact .head h
    | ok j =>
      rw [triggered_runAll_of_ok h, runAll, Calls.triggered_pure, List.append_nil]
      exact .single h
  | cons next codes ih =>
    cases h : e.triggerOutcome scope code with
    | error f =>
      rw [triggered_runAll_of_error h]
      exact .head h
    | ok j =>
      rw [triggered_runAll_of_ok h]
      exact .cons h (ih j next)

end Evaluator

/-! ### Triggers -/

namespace TreeEvaluator

variable (t : TreeEvaluator) (arguments : List Json) (context : Dict Json)

/-- The arguments hide the context, and the context hides the entities. -/
theorem get?_triggerScope (name : String) : (t.triggerScope arguments context).get? name =
    if name = "arguments" then some (.array arguments)
    else (context.get? name).or (t.evaluated.entityValue? name) := by
  rw [triggerScope, Dict.get?_insert, Dict.get?_extend]
  by_cases h : name = "arguments"
  · simp [h]
  · rw [if_neg (Ne.symm h), if_neg h, DataTree.values, Dict.get?_map]
    rfl

theorem triggerCodes_eq (text : String) :
    triggerCodes text = if Template.isDynamic text then Template.codes text else [text] := by
  unfold triggerCodes Template.isDynamic
  cases Template.codes text <;> rfl

theorem exists_triggerCodes_eq_cons (text : String) :
    ∃ code codes, triggerCodes text = code :: codes := by
  unfold triggerCodes
  cases Template.codes text with
  | nil => exact ⟨text, [], rfl⟩
  | cons code codes => exact ⟨code, codes, rfl⟩

theorem runTrigger_eq (text : String) : t.runTrigger text arguments context =
    match (t.evaluator.runAll (t.triggerScope arguments context) .null
      (triggerCodes text)).triggered with
    | (.ok j, asked) => ⟨j, asked, []⟩
    | (.error f, asked) => ⟨.null, asked, [.ofScript .trigger f]⟩ := by
  rw [runTrigger, Calls.triggered]
  rcases (t.evaluator.runAll (t.triggerScope arguments context) .null
    (triggerCodes text)).inFrame .trigger with ⟨f | j, report⟩
  · rfl
  · rfl

/-- A trigger runs the codes of its text in order, or the text itself when it has none, all of them
in one trigger frame, which leaves the frames around it as they are, and with one scope: the
arguments hide the context, and the context hides the entities. It ends with the first code that
fails. The actions are those that its codes asked for until then, in order. After a failure the
result is null with one error, which tells code that cannot be read from code that failed while it
ran; otherwise it is the value of the last code. -/
theorem runTrigger_ends (text : String) :
    let scope := t.triggerScope arguments context
    let codes := triggerCodes text
    let o := t.runTrigger text arguments context
    (codes = if Template.isDynamic text then Template.codes text else [text]) ∧
    (∀ name, scope.get? name = if name = "arguments" then some (.array arguments)
      else (context.get? name).or (t.evaluated.entityValue? name)) ∧
    ∃ r, CodesEnd (t.evaluator.triggerOutcome scope) (t.evaluator.triggerActions scope)
        codes r o.actions ∧
      (∀ frames, (t.evaluator.runAll scope .null codes).toProgram.run (.fresh .trigger :: frames) =
        (r, ⟨.trigger, o.actions, none⟩ :: frames)) ∧
      (∀ j, r = .ok j → o.result = j ∧ o.errors = []) ∧
      ∀ f, r = .error f → o.result = .null ∧ ∃ e, o.errors = [e] ∧ e.message = f.message ∧
        e.kind.name = if f.kind = .parse then "PARSE_JS_ERROR" else "EVAL_TRIGGER_ERROR" := by
  intro scope codes o
  obtain ⟨code, rest, hcodes⟩ := exists_triggerCodes_eq_cons text
  have ends : CodesEnd (t.evaluator.triggerOutcome scope) (t.evaluator.triggerActions scope)
      (code :: rest) _ _ := Evaluator.runAll_ends .null code rest
  have frames := (t.evaluator.runAll scope .null codes).run_triggered
  have result : o = _ := t.runTrigger_eq arguments context text
  rw [← hcodes] at ends
  refine ⟨triggerCodes_eq text, t.get?_triggerScope arguments context, ?_⟩
  cases h : (t.evaluator.runAll scope .null codes).triggered with
  | mk r asked =>
    simp only [scope, codes] at h
    rw [h] at ends frames result
    cases r with
    | error f =>
      refine ⟨.error f, result ▸ ends, result ▸ frames, by simp, fun f' hf => ?_⟩
      obtain rfl := Except.error.inj hf
      refine ⟨by rw [result], .ofScript .trigger f, by rw [result], rfl, ?_⟩
      cases hk : f.kind <;> simp [EvalError.ofScript, hk, EvalErrorKind.name]
    | ok j =>
      refine ⟨.ok j, result ▸ ends, result ▸ frames, fun i hi => ?_, by simp⟩
      obtain rfl := Except.ok.inj hi
      rw [result]
      exact ⟨rfl, rfl⟩

/-- The action before the failure is kept, the one behind it is not asked for. -/
example :
    let o := (fresh .path).runTrigger
      "\x7b\x7bact showAlert hi\x7d\x7d, \x7b\x7bthrow no\x7d\x7d\x7b\x7bact run\x7d\x7d" [] .empty
    o.actions.map (·.type) = ["SHOW_ALERT"] ∧
      o.errors.map (fun e => (e.kind, e.message)) = [(.trigger, "no")] := by
  decide +kernel

end TreeEvaluator

end AppBuilder
