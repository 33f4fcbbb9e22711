import FormRouting.Proofs.Binding.Order

/-!
# Where binding a step map stops

The steps are bound in declaration order, and the conditions in the rule of a step from the
last to the first. So a binding that fails reports a name of the first step that has a
predicate it cannot serve, and there of the last condition that has one. What comes before
this condition in the order of binding is bound, and the rest is as it was.

* `Condition.StopsAt`, `Step.StopsAt`, `StepMap.StopsAt`: which name is reported, and what is
  left behind.
* `Rule.eq_of_conditions`: the shape and the conditions of a rule determine it, so that what
  is left behind is determined too.
* `stopsAt_of_bindCondition`, `bindCondition_of_stopsAt`: one condition, both ways.
* `stopsAt_of_bindStep`, `bindStep_of_stopsAt`: one step.
* `bindStepMap_stops_iff`: **a binding of a step map stops there and nowhere else.**
-/

namespace FormRouting

variable {C : Type}

/-- **Where a condition stops a binding.** At its predicate, and then it is as it was; or else at
its operator, and then its predicate is bound. -/
inductive Condition.StopsAt (r : Registry C) (c : Condition C) : String → Condition C → Prop where
  | predicate {name : String} (hp : c.predicate = some (.reference name))
    (hname : r.predicates.get? name = none) : StopsAt r c name c
  | operator {name : String} (hp : ∀ p, c.predicate = some p → r.canServe (.predicate p) = true)
    (ho : c.operator = .custom (.reference name)) (hname : r.predicates.get? name = none) :
    StopsAt r c name { c with predicate := c.predicate.map r.attach.predicate }

/-- **Where a step stops a binding.** At the last condition, in reading order, that has a predicate
which cannot be served. The conditions to the right of it are bound, those to the left of it are
as they were, and only conditions change. -/
inductive Step.StopsAt (r : Registry C) (step : Step C) (name : String) (step' : Step C) :
    Prop where
  | last (left : List (Condition C)) (c c' : Condition C) (right : List (Condition C))
    (hconditions : step.conditions = left ++ c :: right)
    (hright : ∀ d ∈ right, ∀ x ∈ d.callables, r.canServe x = true)
    (hc : c.StopsAt r name c')
    (hstate : step'.conditions = left ++ c' :: right.map (Condition.mapCallables r.attach))
    (hforget : step'.mapCallables .forget = step.mapCallables .forget)

/-- **Where a step map stops a binding.** At the first step, in declaration order, that has a
predicate which cannot be served. The steps before it are bound, those after it are as they
were. -/
inductive StepMap.StopsAt (r : Registry C) (steps : StepMap C) (name : String)
    (steps' : StepMap C) : Prop where
  | first (before : List (String × Step C)) (id : String) (step step' : Step C)
    (after : List (String × Step C))
    (hentries : steps.entries = before ++ (id, step) :: after)
    (hbefore : ∀ e ∈ before, ∀ x ∈ e.2.callables, r.canServe x = true)
    (hstep : step.StopsAt r name step')
    (hstate : steps'.entries =
      before.map (fun e => (e.1, e.2.mapCallables r.attach)) ++ (id, step') :: after)

/-! ## Shape and conditions determine a rule -/

namespace Rule

mutual

/-- Rules of one shape with the same conditions are the same. -/
theorem eq_of_conditions {a b : Rule C} (hshape : a.mapCallables .forget = b.mapCallables .forget)
    (h : a.conditions = b.conditions) : a = b := by
  cases a with
  | target id =>
    cases b <;> simp only [mapCallables, reduceCtorEq, target.injEq] at hshape
    rw [hshape]
  | branch c next =>
    cases b <;> simp only [mapCallables, reduceCtorEq, branch.injEq] at hshape
    simp only [conditions, List.cons.injEq, and_true] at h
    rw [h, hshape.2]
  | group rules =>
    cases b <;> simp only [mapCallables, reduceCtorEq, group.injEq] at hshape
    simp only [conditions] at h
    rw [eq_of_conditionsOfAll hshape h]

theorem eq_of_conditionsOfAll {as bs : List (Rule C)}
    (hshape : mapCallablesOfAll .forget as = mapCallablesOfAll .forget bs)
    (h : conditionsOfAll as = conditionsOfAll bs) : as = bs := by
  match as, bs with
  | [], [] => rfl
  | [], _ :: _ => simp [mapCallablesOfAll] at hshape
  | _ :: _, [] => simp [mapCallablesOfAll] at hshape
  | a :: as, b :: bs =>
    simp only [mapCallablesOfAll, List.cons.injEq] at hshape
    obtain ⟨hfirst, hrest⟩ := hshape
    -- the shape says how many conditions the first rule has
    have hlength : a.conditions.length = b.conditions.length := by
      have hmap := congrArg (fun rule => rule.conditions.length) hfirst
      simpa only [conditions_mapCallables, List.length_map] using hmap
    obtain ⟨ha, has⟩ := List.append_inj h hlength
    rw [eq_of_conditions hfirst ha, eq_of_conditionsOfAll hrest has]

end

end Rule

theorem Step.eq_of_conditions {a b : Step C}
    (hshape : a.mapCallables .forget = b.mapCallables .forget)
    (h : a.conditions = b.conditions) : a = b := by
  obtain ⟨a⟩ := a
  obtain ⟨b⟩ := b
  cases a with
  | none => cases b <;> simp [mapCallables] at hshape ⊢
  | some a =>
    cases b with
    | none => simp [mapCallables] at hshape
    | some b =>
      simp only [mapCallables, Option.map_some, mk.injEq, Option.some.injEq] at hshape
      simp only [conditions, Option.toList_some, List.flatMap_singleton] at h
      rw [Rule.eq_of_conditions hshape h]

namespace Registry

open Attempt

variable (r : Registry C)

/-! ## One condition -/

theorem bindOptional_cases (p : Option (Predicate C)) :
    ((∀ q, p = some q → r.canServe (.predicate q) = true) ∧
        r.bindOptional p = ⟨p.map r.attach.predicate, none⟩) ∨
      ∃ name, p = some (.reference name) ∧ r.predicates.get? name = none ∧
        r.bindOptional p = ⟨p, some (.unknownPredicate name)⟩ := by
  cases p with
  | none => exact .inl ⟨by simp, rfl⟩
  | some p =>
    rcases r.bindPredicate_cases p with ⟨hp, heq⟩ | ⟨name, rfl, hname, heq⟩
    · refine .inl ⟨?_, congrArg (Attempt.map some) heq⟩
      rintro q ⟨⟩
      exact hp
    · exact .inr ⟨name, rfl, hname, congrArg (Attempt.map some) heq⟩

theorem bindOperator_cases (op : Operator C) :
    r.bindOperator op = ⟨op.mapCallables r.attach, none⟩ ∨
      ∃ name, op = .custom (.reference name) ∧ r.predicates.get? name = none ∧
        r.bindOperator op = ⟨op, some (.unknownPredicate name)⟩ := by
  cases op with
  | builtIn comparator => exact .inl rfl
  | custom p =>
    rcases r.bindPredicate_cases p with ⟨-, heq⟩ | ⟨name, rfl, hname, heq⟩
    · exact .inl (congrArg (Attempt.map Operator.custom) heq)
    · exact .inr ⟨name, rfl, hname, congrArg (Attempt.map Operator.custom) heq⟩

theorem stopsAt_of_bindCondition {c : Condition C} {e : BindError}
    (h : (r.bindCondition c).error = some e) :
    ∃ name, e = .unknownPredicate name ∧ c.StopsAt r name (r.bindCondition c).state := by
  rcases r.bindOptional_cases c.predicate with ⟨hp, hoptional⟩ | ⟨name, hp, hname, hoptional⟩
  · -- the predicate is served, so the operator stops the binding
    rcases r.bindOperator_cases c.operator with hoperator | ⟨name, ho, hname, hoperator⟩
    · simp [bindCondition, Attempt.both, Attempt.map, hoptional, hoperator] at h
    · have hbind : r.bindCondition c =
          ⟨{ c with predicate := c.predicate.map r.attach.predicate },
            some (.unknownPredicate name)⟩ := by
        simp only [bindCondition, Attempt.both, Attempt.map, hoptional, hoperator]
      rw [hbind] at h ⊢
      cases h
      exact ⟨name, rfl, .operator hp ho hname⟩
  · have hbind : r.bindCondition c = ⟨c, some (.unknownPredicate name)⟩ := by
      simp only [bindCondition, Attempt.both, Attempt.map, hoptional]
    rw [hbind] at h ⊢
    cases h
    exact ⟨name, rfl, .predicate hp hname⟩

theorem bindPredicate_reference {name : String} (h : r.predicates.get? name = none) :
    r.bindPredicate (.reference name) = ⟨.reference name, some (.unknownPredicate name)⟩ := by
  simp [bindPredicate, Predicate.reference, h]

theorem bindCondition_of_stopsAt {c c' : Condition C} {name : String} (h : c.StopsAt r name c') :
    r.bindCondition c = ⟨c', some (.unknownPredicate name)⟩ := by
  cases h with
  | predicate hp hname =>
    have hoptional : r.bindOptional c.predicate = ⟨c.predicate, some (.unknownPredicate name)⟩ := by
      rw [hp, bindOptional, r.bindPredicate_reference hname]
      rfl
    simp only [bindCondition, Attempt.both, Attempt.map, hoptional]
  | operator hp ho hname =>
    have hoptional : r.bindOptional c.predicate = ⟨c.predicate.map r.attach.predicate, none⟩ := by
      rcases r.bindOptional_cases c.predicate with ⟨-, heq⟩ | ⟨other, hother, hmissing, heq⟩
      · exact heq
      · have hserved : r.registers (.predicate (.reference other)) = true := hp _ hother
        simp [registers, Predicate.reference, hmissing] at hserved
    have hoperator : r.bindOperator c.operator = ⟨c.operator, some (.unknownPredicate name)⟩ := by
      rw [ho, bindOperator, r.bindPredicate_reference hname]
      rfl
    simp only [bindCondition, Attempt.both, Attempt.map, hoptional, hoperator]

/-! ## One step -/

/-- Conditions that can be served are bound. -/
theorem bindCondition_of_canServe {c : Condition C}
    (h : ∀ x ∈ c.callables, r.canServe x = true) :
    (r.bindCondition c).error = none ∧ (r.bindCondition c).state = c.mapCallables r.attach := by
  have hc := (r.bindCondition_serves c).error_eq_none_iff.2 h
  exact ⟨hc, (r.bindCondition_serves c).state_eq hc⟩

theorem stopsAt_of_bindStep {step : Step C} {e : BindError} (h : (r.bindStep step).error = some e) :
    ∃ name, e = .unknownPredicate name ∧ step.StopsAt r name (r.bindStep step).state := by
  have hfollows := r.bindStep_follows step
  rw [hfollows.error_eq] at h
  obtain ⟨right, c, left, hsplit, hright, hc, hparts⟩ := each_of_error h
  rw [← hfollows.parts_state] at hparts
  obtain ⟨name, rfl, hstop⟩ := r.stopsAt_of_bindCondition hc
  have hserved : ∀ d ∈ right, ∀ x ∈ d.callables, r.canServe x = true := fun d hd =>
    (r.bindCondition_serves d).error_eq_none_iff.1 (hright d hd)
  have hstates : right.map (fun d => (r.bindCondition d).state) =
      right.map (Condition.mapCallables r.attach) :=
    List.map_congr_left fun d hd => (r.bindCondition_of_canServe (hserved d hd)).2
  -- the order of binding is the reading order backwards
  have hconditions : step.conditions = left.reverse ++ c :: right.reverse := by
    rw [← List.reverse_reverse step.conditions, hsplit]
    simp
  refine ⟨name, rfl, .last left.reverse c _ right.reverse hconditions ?_ hstop ?_
    (r.forget_bindStep step)⟩
  · exact fun d hd => hserved d (List.mem_reverse.1 hd)
  · rw [← List.reverse_reverse (Step.conditions _), hparts, hstates]
    simp

theorem bindStep_of_stopsAt {step step' : Step C} {name : String}
    (h : step.StopsAt r name step') :
    r.bindStep step = ⟨step', some (.unknownPredicate name)⟩ := by
  obtain ⟨left, c, c', right, hconditions, hright, hc, hstate, hforget⟩ := h
  have hfollows := r.bindStep_follows step
  have hstop := r.bindCondition_of_stopsAt hc
  have hserved : ∀ d ∈ right.reverse, (r.bindCondition d).error = none := fun d hd =>
    (r.bindCondition_of_canServe (hright d (List.mem_reverse.1 hd))).1
  have hstates : right.reverse.map (fun d => (r.bindCondition d).state) =
      right.reverse.map (Condition.mapCallables r.attach) :=
    List.map_congr_left fun d hd =>
      (r.bindCondition_of_canServe (hright d (List.mem_reverse.1 hd))).2
  have heach : each r.bindCondition step.conditions.reverse =
      ⟨right.reverse.map (Condition.mapCallables r.attach) ++ c' :: left.reverse,
        some (.unknownPredicate name)⟩ := by
    have hsplit : step.conditions.reverse = right.reverse ++ c :: left.reverse := by
      rw [hconditions]
      simp
    rw [hsplit, each_of_first hserved (congrArg Attempt.error hstop), hstates, hstop]
  have herror : (r.bindStep step).error = some (.unknownPredicate name) := by
    rw [hfollows.error_eq, heach]
  have hresult : (r.bindStep step).state = step' := by
    refine Step.eq_of_conditions ((r.forget_bindStep step).trans hforget.symm) ?_
    rw [hstate, ← List.reverse_reverse (Step.conditions _), hfollows.parts_state, heach]
    simp
  rw [← herror, ← hresult]

/-! ## Step maps -/

/-- Steps that can be served are bound. -/
theorem named_bindStep_of_canServe {entry : String × Step C}
    (h : ∀ x ∈ entry.2.callables, r.canServe x = true) :
    (named r.bindStep entry).error = none ∧
      (named r.bindStep entry).state = (entry.1, entry.2.mapCallables r.attach) := by
  have hserves := (r.bindStep_serves entry.2).named
  have hstep := hserves.error_eq_none_iff.2 h
  exact ⟨hstep, hserves.state_eq hstep⟩

theorem stopsAt_of_bindStepMap {steps : StepMap C} {e : BindError}
    (h : (r.bindStepMap steps).error = some e) :
    ∃ name, e = .unknownPredicate name ∧ steps.StopsAt r name (r.bindStepMap steps).state := by
  obtain ⟨before, ⟨id, step⟩, after, hsplit, hbefore, hstep, hstate⟩ := each_of_error h
  obtain ⟨name, rfl, hstop⟩ := r.stopsAt_of_bindStep hstep
  have hserved : ∀ e ∈ before, ∀ x ∈ e.2.callables, r.canServe x = true := fun e he =>
    (r.bindStep_serves e.2).error_eq_none_iff.1 (hbefore e he)
  have hstates : before.map (fun e => (named r.bindStep e).state) =
      before.map fun e => (e.1, e.2.mapCallables r.attach) :=
    List.map_congr_left fun e he => (r.named_bindStep_of_canServe (hserved e he)).2
  rw [hstates] at hstate
  exact ⟨name, rfl, .first before id step _ after hsplit hserved hstop hstate⟩

theorem bindStepMap_of_stopsAt {steps steps' : StepMap C} {name : String}
    (h : steps.StopsAt r name steps') :
    r.bindStepMap steps = ⟨steps', some (.unknownPredicate name)⟩ := by
  obtain ⟨before, id, step, step', after, hentries, hbefore, hstep, hstate⟩ := h
  have hstop := r.bindStep_of_stopsAt hstep
  have hnamed : named r.bindStep (id, step) = ⟨(id, step'), some (.unknownPredicate name)⟩ :=
    congrArg (Attempt.map (id, ·)) hstop
  have hserved : ∀ e ∈ before, (named r.bindStep e).error = none := fun e he =>
    (r.named_bindStep_of_canServe (hbefore e he)).1
  have hstates : before.map (fun e => (named r.bindStep e).state) =
      before.map fun e => (e.1, e.2.mapCallables r.attach) :=
    List.map_congr_left fun e he => (r.named_bindStep_of_canServe (hbefore e he)).2
  have heach : r.bindSteps steps.entries = ⟨steps'.entries, some (.unknownPredicate name)⟩ := by
    rw [bindSteps, hentries, each_of_first hserved (congrArg Attempt.error hnamed), hstates, hnamed,
      hstate]
  have hresult : (r.bindStepMap steps).state = steps' := Table.ext (congrArg Attempt.state heach)
  have herror : (r.bindStepMap steps).error = some (.unknownPredicate name) :=
    congrArg Attempt.error heach
  rw [← herror, ← hresult]

end Registry

/-- **A binding of a step map stops in one place.** It fails if and only if some step has a
predicate that cannot be served. The name that it reports is found in the first such step, there
in the last such condition, and there at the predicate before the operator; what comes before
that in the order of binding is bound, and everything else is as it was. -/
theorem bindStepMap_stops_iff (r : Registry C) (steps steps' : StepMap C) (e : BindError) :
    r.bindStepMap steps = ⟨steps', some e⟩ ↔
      ∃ name, e = .unknownPredicate name ∧ steps.StopsAt r name steps' := by
  constructor
  · intro h
    obtain ⟨name, he, hstop⟩ := r.stopsAt_of_bindStepMap (congrArg Attempt.error h)
    rw [h] at hstop
    exact ⟨name, he, hstop⟩
  · rintro ⟨name, rfl, hstop⟩
    exact r.bindStepMap_of_stopsAt hstop

end FormRouting
