import FormRouting.Registry
import FormRouting.Proofs.Binding.Callables

/-!
# What binding leaves alone

A binding that stops has bound some callables and not the others. However far it came,
it has put functions in their places and nothing else: without functions, what it was
given and what it has left behind are the same.

* `Attempt.both_keeps`: two attempts, of which the first may have stopped.
* `forget_bindCondition`, `forget_bindRule`, `forget_bindStepMap`: one lemma for each
  binder of step maps.
* `names_bindStepMap`: **the callables keep their names, place by place.**
* `forget_bindSelector`, `forget_bindFieldSet`: the same for selectors and field sets.
-/

namespace FormRouting

variable {C α β γ δ : Type}

/-- The second of two attempts does not touch what the first one has done. -/
theorem Attempt.both_state_fst {first : Attempt α} {second : Attempt β} {untouched : β} :
    (both first second untouched).state.1 = first.state := by
  unfold both
  cases first.error <;> rfl

/-- What both attempts keep is kept, whether or not the first one stopped. -/
theorem Attempt.both_keeps {first : Attempt α} {second : Attempt β} {x : α} {y : β} {f : α → γ}
    {g : β → δ} (hf : f first.state = f x) (hg : g second.state = g y) :
    f (both first second y).state.1 = f x ∧ g (both first second y).state.2 = g y := by
  unfold both
  cases first.error with
  | some e => exact ⟨hf, rfl⟩
  | none => exact ⟨hf, hg⟩

namespace Registry

open Attempt

variable (r : Registry C)

theorem forget_bindPredicate (p : Predicate C) :
    CallableMap.forget.predicate (r.bindPredicate p).state = CallableMap.forget.predicate p := by
  cases p with
  | mk name body =>
    cases body with
    | some body => rfl
    | none =>
      cases name with
      | none => rfl
      | some name =>
        cases hg : r.predicates.get? name <;>
          simp [bindPredicate, hg, Predicate.bind, CallableMap.forget]

theorem forget_bindOptional (p : Option (Predicate C)) :
    (r.bindOptional p).state.map CallableMap.forget.predicate =
      p.map CallableMap.forget.predicate := by
  cases p with
  | none => rfl
  | some p => exact congrArg some (r.forget_bindPredicate p)

theorem forget_bindOperator (op : Operator C) :
    (r.bindOperator op).state.mapCallables .forget = op.mapCallables .forget := by
  cases op with
  | builtIn comparator => rfl
  | custom p => exact congrArg Operator.custom (r.forget_bindPredicate p)

theorem forget_bindCondition (c : Condition C) :
    (r.bindCondition c).state.mapCallables .forget = c.mapCallables .forget := by
  obtain ⟨hp, ho⟩ :=
    both_keeps (r.forget_bindOptional c.predicate) (r.forget_bindOperator c.operator)
  simp only [bindCondition, Attempt.map, Condition.mapCallables, hp, ho]

mutual

theorem forget_bindRule (rule : Rule C) :
    (r.bindRule rule).state.mapCallables .forget = rule.mapCallables .forget := by
  cases rule with
  | target id => simp only [bindRule]
  | branch c next =>
    simp only [bindRule, Attempt.map, Rule.mapCallables, r.forget_bindCondition c]
  | group rules =>
    simp only [bindRule, Attempt.map, Rule.mapCallables, forget_bindRules rules]

theorem forget_bindRules (rules : List (Rule C)) :
    Rule.mapCallablesOfAll .forget (r.bindRules rules).state =
      Rule.mapCallablesOfAll .forget rules := by
  cases rules with
  | nil => simp only [bindRules]
  | cons rule rest =>
    obtain ⟨hrest, hrule⟩ := both_keeps (forget_bindRules rest) (forget_bindRule rule)
    simp only [bindRules, Attempt.map, Rule.mapCallablesOfAll, hrest, hrule]

end

theorem forget_bindStep (step : Step C) :
    (r.bindStep step).state.mapCallables .forget = step.mapCallables .forget := by
  cases step with
  | mk next =>
    cases next with
    | none => rfl
    | some rule => simp [bindStep, Attempt.map, Step.mapCallables, r.forget_bindRule rule]

/-- **A binding of a step map puts functions in their places and nothing else**, even if it
stops. -/
theorem forget_bindStepMap (steps : StepMap C) :
    StepMap.mapCallables .forget (r.bindStepMap steps).state = steps.mapCallables .forget := by
  have hentries : (StepMap.mapCallables .forget (r.bindStepMap steps).state).entries =
      (steps.mapCallables .forget).entries :=
    map_state_each (fun e => congrArg (e.1, ·) (r.forget_bindStep e.2)) steps.entries
  exact Table.ext hentries

/-- The callables keep their names, place by place. -/
theorem names_bindStepMap (steps : StepMap C) :
    (StepMap.callables (r.bindStepMap steps).state).map Callable.name =
      steps.callables.map Callable.name := by
  have hforget : ∀ s : StepMap C,
      (StepMap.callables (s.mapCallables .forget)).map Callable.name =
        s.callables.map Callable.name := by
    intro s
    rw [StepMap.callables_mapCallables, List.map_map]
    refine List.map_congr_left fun c _ => ?_
    cases c <;> rfl
  rw [← hforget, r.forget_bindStepMap, hforget]

/-! ## Selectors and field sets -/

theorem forget_bindKeyFunction (f : KeyFunction C) :
    CallableMap.forget.keyFunction (r.bindKeyFunction f).state =
      CallableMap.forget.keyFunction f := by
  cases f with
  | mk name body =>
    cases body with
    | some body => rfl
    | none =>
      cases name with
      | none => rfl
      | some name =>
        cases hg : r.keyFunctions.get? name <;>
          simp [bindKeyFunction, hg, KeyFunction.bind, CallableMap.forget]

theorem forget_bindEntries (entries : List (Entry C)) :
    Selector.mapCallablesOfEntries .forget (r.bindEntries entries).state =
      Selector.mapCallablesOfEntries .forget entries := by
  refine each_keeps (fun entry rest rest' h => ?_) entries
  cases entry with
  | key k => simp only [bindEntry, Selector.mapCallablesOfEntries, h]
  | function f =>
    simp only [bindEntry, Attempt.map, Selector.mapCallablesOfEntries, r.forget_bindKeyFunction, h]
  | branch c outcome =>
    simp only [bindEntry, Attempt.map, Selector.mapCallablesOfEntries, r.forget_bindCondition, h]

mutual

theorem forget_bindSelector (s : Selector C) :
    (r.bindSelector s).state.mapCallables .forget = s.mapCallables .forget := by
  cases s with
  | key k => simp only [bindSelector]
  | function f =>
    simp only [bindSelector, Attempt.map, Selector.mapCallables, r.forget_bindKeyFunction]
  | sequence entries =>
    simp only [bindSelector]
    cases (r.bindEntries entries).error with
    | some e => simp only [Selector.mapCallables, r.forget_bindEntries]
    | none => simp only [Attempt.map, Selector.mapCallables, forget_bindOutcomes entries]

theorem forget_bindOutcomes (entries : List (Entry C)) :
    Selector.mapCallablesOfEntries .forget (r.bindOutcomes entries).state =
      Selector.mapCallablesOfEntries .forget entries := by
  match entries with
  | [] => simp only [bindOutcomes]
  | .key k :: rest =>
    simp only [bindOutcomes, Attempt.map, Selector.mapCallablesOfEntries, forget_bindOutcomes rest]
  | .function f :: rest =>
    simp only [bindOutcomes, Attempt.map, Selector.mapCallablesOfEntries, forget_bindOutcomes rest,
      r.forget_bindKeyFunction]
  | .branch c outcome :: rest =>
    obtain ⟨hrest, houtcome⟩ := both_keeps (forget_bindOutcomes rest) (forget_bindOutcome outcome)
    simp only [bindOutcomes, Attempt.map, Selector.mapCallablesOfEntries, hrest, houtcome,
      r.forget_bindCondition]

theorem forget_bindOutcome (outcome : Option (Selector C)) :
    Selector.mapCallablesOfOutcome .forget (r.bindOutcome outcome).state =
      Selector.mapCallablesOfOutcome .forget outcome := by
  cases outcome with
  | none => simp only [bindOutcome]
  | some s =>
    simp only [bindOutcome, Attempt.map, Selector.mapCallablesOfOutcome, forget_bindSelector s]

end

theorem forget_bindOptions (options : FieldOptions C) :
    (r.bindOptions options).state.mapCallables .forget = options.mapCallables .forget :=
  congrArg FieldOptions.mk (r.forget_bindOutcome options.contentKey)

theorem forget_bindFieldSet (fields : FieldSet C) :
    FieldSet.mapCallables .forget (r.bindFieldSet fields).state = fields.mapCallables .forget := by
  have hentries : (FieldSet.mapCallables .forget (r.bindFieldSet fields).state).entries =
      (fields.mapCallables .forget).entries :=
    map_state_each (fun e => congrArg (e.1, ·) (r.forget_bindOptions e.2)) fields.entries
  exact FieldSet.ext hentries

end Registry

end FormRouting
