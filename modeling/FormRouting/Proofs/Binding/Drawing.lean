import FormRouting.Compilation
import FormRouting.Proofs.Binding.Untouched

/-!
# Binding leaves the drawing alone

A drawing shows names and never asks whether there is a function behind them. So a step
map is drawn like the same map without functions, and a binding, which puts functions in
their places and nothing else, cannot be seen in the drawing, wherever it stopped.

* `branchContribution_forget`: one condition, with or without functions.
* `ownContributions_forget`, `opened_forget`: one turn of the drawing stack.
* `expand_forget`: a whole run of the stack. `compile_forget`: a whole step map.
* `compile_bindStepMap`: **binding never changes the drawing, even if it stops.**
-/

namespace FormRouting

variable {C : Type}

/-! ## One condition -/

namespace Condition

theorem label_forget (c : Condition C) : (c.mapCallables .forget).label = c.label := by
  obtain ⟨field, operator, value, predicate⟩ := c
  cases predicate with
  | some p => rfl
  | none => cases operator <;> rfl

theorem isBlankWith_forget {α : Type} (c : Condition C) (outcome : Option α) :
    (c.mapCallables .forget).isBlankWith outcome = c.isBlankWith outcome := by
  obtain ⟨field, operator, value, predicate⟩ := c
  cases predicate <;> cases operator <;> rfl

end Condition

namespace Rule

variable (targets : Targets) (source : String)

theorem branchContribution_forget (c : Condition C) (next : Option String) :
    branchContribution targets source (c.mapCallables .forget) next =
      branchContribution targets source c next := by
  unfold branchContribution
  rw [c.isBlankWith_forget, c.label_forget]

/-! ## One turn of the stack -/

theorem mapCallablesOfAll_append (m : CallableMap C) (a b : List (Rule C)) :
    mapCallablesOfAll m (a ++ b) = mapCallablesOfAll m a ++ mapCallablesOfAll m b := by
  induction a with
  | nil => simp only [mapCallablesOfAll, List.nil_append]
  | cons rule rest ih => simp only [List.cons_append, mapCallablesOfAll, ih]

theorem bareEntries_mapCallablesOfAll (m : CallableMap C) (rules : List (Rule C)) :
    bareEntries source (mapCallablesOfAll m rules) = bareEntries source rules := by
  induction rules with
  | nil => simp only [mapCallablesOfAll]
  | cons rule rest ih =>
    cases rule <;> simp only [mapCallablesOfAll, mapCallables, bareEntries, ih]

theorem branches_mapCallablesOfAll (m : CallableMap C) (rules : List (Rule C)) :
    branches (mapCallablesOfAll m rules) = mapCallablesOfAll m (branches rules) := by
  induction rules with
  | nil => simp only [mapCallablesOfAll, branches]
  | cons rule rest ih =>
    cases rule with
    | target id => simp only [mapCallablesOfAll, mapCallables, branches, ih]
    | group inner =>
      simp only [mapCallablesOfAll, mapCallables, branches, ih, mapCallablesOfAll_append]
    | branch c next => simp only [mapCallablesOfAll, mapCallables, branches, ih]

/-- What a rule adds itself shows no function. -/
theorem ownContributions_forget (rule : Rule C) :
    (rule.mapCallables .forget).ownContributions targets source =
      rule.ownContributions targets source := by
  cases rule with
  | target t => simp only [mapCallables]
  | group rules =>
    simp only [mapCallables, ownContributions, bareEntries_mapCallablesOfAll]
  | branch c next => simp only [mapCallables, ownContributions, branchContribution_forget]

/-- What a rule opens is the same with other callables. -/
theorem opened_mapCallables (m : CallableMap C) (rule : Rule C) :
    (rule.mapCallables m).opened = mapCallablesOfAll m rule.opened := by
  cases rule with
  | target t => simp only [mapCallables, opened, mapCallablesOfAll]
  | group rules => simp only [mapCallables, opened, branches_mapCallablesOfAll]
  | branch c next => simp only [mapCallables, opened, mapCallablesOfAll]

/-! ## Whole runs -/

/-- **A run of the stack shows no function.** -/
theorem expand_forget (pending : List (Rule C)) :
    expand targets source (mapCallablesOfAll .forget pending) =
      expand targets source pending := by
  fun_induction expand targets source pending with
  | case1 => simp only [mapCallablesOfAll, expand]
  | case2 rule pending ih =>
    rw [mapCallablesOfAll, expand, ownContributions_forget, opened_mapCallables,
      ← mapCallablesOfAll_append, ih]

end Rule

namespace StepMap

theorem stepContributions_forget (targets : Targets) (id : String) (step : Step C) :
    stepContributions targets id (step.mapCallables .forget) =
      stepContributions targets id step := by
  cases step with
  | mk next =>
    cases next with
    | none => rfl
    | some rule =>
      have h := Rule.expand_forget targets id [rule]
      simp only [Rule.mapCallablesOfAll] at h
      exact h

/-- **A step map is drawn like the same map without functions.** -/
theorem compile_forget (steps : StepMap C) :
    (steps.mapCallables .forget).compile = steps.compile := by
  have htargets : targets (steps.mapCallables .forget) = targets steps := by
    simp [targets, Table.keys, mapCallables]
  unfold compile
  rw [htargets]
  simp only [mapCallables, List.foldl_map, stepContributions_forget]

end StepMap

/-- **Binding never changes the drawing.** Whether it binds every predicate or stops at one of
them, the step map that is left behind has the same nodes, edges, labels and diagnostics, in the
same order. -/
theorem compile_bindStepMap (r : Registry C) (steps : StepMap C) :
    StepMap.compile (r.bindStepMap steps).state = steps.compile := by
  calc StepMap.compile (r.bindStepMap steps).state
      = StepMap.compile (StepMap.mapCallables .forget (r.bindStepMap steps).state) :=
        (StepMap.compile_forget _).symm
    _ = (steps.mapCallables .forget).compile := by rw [r.forget_bindStepMap]
    _ = steps.compile := steps.compile_forget

end FormRouting
