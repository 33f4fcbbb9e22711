import FormRouting.Proofs.Binding.Complete
import FormRouting.Proofs.Binding.Untouched

/-!
# Binding again

A binding that stops is no loss: when the missing names have been registered, it can be
tried again on what it has left behind. The second attempt ends like an attempt on the
untouched rules, because what the first one has bound, the second one would have bound
with the same functions before it could stop.

* `Registry.Within`: a registry that knows no less; `within_registerPredicate`,
  `within_registerKeyFunction`: registering a new name.
* `both_retry`: the step. Of two attempts one after the other, the first may have stopped,
  and then the second one has not been made. `each_retry`: the elements of a list.
* `bindCondition_retry`, `bindRule_retry`, `bindSelector_retry`: one lemma for each binder,
  along its recursion.
* `bind_retry`: **a second binding does what it would have done at once.**
* `bind_idempotent`: in particular, binding twice is binding once.
-/

namespace FormRouting

variable {C α β : Type}

namespace Registry

/-- What is registered in the first registry is registered in the second one, with the same
function. -/
structure Within (r r' : Registry C) : Prop where
  predicates : ∀ name body, r.predicates.get? name = some body →
    r'.predicates.get? name = some body
  keyFunctions : ∀ name body, r.keyFunctions.get? name = some body →
    r'.keyFunctions.get? name = some body

namespace Within

theorem refl (r : Registry C) : r.Within r := ⟨fun _ _ h => h, fun _ _ h => h⟩

variable {r r' r'' : Registry C}

theorem trans (h : r.Within r') (h' : r'.Within r'') : r.Within r'' where
  predicates name body hr := h'.predicates name body (h.predicates name body hr)
  keyFunctions name body hr := h'.keyFunctions name body (h.keyFunctions name body hr)

/-- What the first registry serves, the second one serves too. -/
theorem canServe (h : r.Within r') {c : Callable C} (hc : r.canServe c = true) :
    r'.canServe c = true := by
  have hregisters : r.registers c = true → r'.registers c = true := by
    intro hr
    cases c with
    | predicate p =>
      obtain ⟨body, hbody⟩ := Option.isSome_iff_exists.1 hr
      obtain ⟨name, hname, hget⟩ := Option.bind_eq_some_iff.1 hbody
      simp [registers, hname, h.predicates name body hget]
    | keyFunction f =>
      obtain ⟨body, hbody⟩ := Option.isSome_iff_exists.1 hr
      obtain ⟨name, hname, hget⟩ := Option.bind_eq_some_iff.1 hbody
      simp [registers, hname, h.keyFunctions name body hget]
  simp only [Registry.canServe, Bool.or_eq_true] at hc ⊢
  exact hc.imp_right hregisters

/-- An attempt that succeeds with the first registry succeeds with the second one. -/
theorem error_eq_none (h : r.Within r') {a b : Attempt α} {callables : List (Callable C)}
    {x y : α} (ha : a.Serves r callables x) (hb : b.Serves r' callables y)
    (he : a.error = none) : b.error = none := by
  have hserved := ha.error_eq_none_iff.1 he
  exact hb.error_eq_none_iff.2 fun c hc => h.canServe (hserved c hc)

end Within

/-- Nothing is lost when a new name is registered. -/
theorem within_registerPredicate {r : Registry C} {name : String}
    (h : r.predicates.get? name = none) (body : Predicate.Body C) :
    r.Within (r.registerPredicate name body) where
  predicates other body' hother := by
    have hne : other ≠ name := by
      rintro rfl
      rw [h] at hother
      cases hother
    rw [registerPredicate, Table.get?_insert, if_neg hne, hother]
  keyFunctions _ _ hother := hother

theorem within_registerKeyFunction {r : Registry C} {name : String}
    (h : r.keyFunctions.get? name = none) (body : KeyFunction.Body C) :
    r.Within (r.registerKeyFunction name body) where
  predicates _ _ hother := hother
  keyFunctions other body' hother := by
    have hne : other ≠ name := by
      rintro rfl
      rw [h] at hother
      cases hother
    rw [registerKeyFunction, Table.get?_insert, if_neg hne, hother]

end Registry

namespace Attempt

theorem both_error {a : Attempt α} {b : Attempt β} {untouched : β} :
    (both a b untouched).error = a.error.or b.error := by
  unfold both
  cases a.error <;> rfl

/-- **Two attempts are made again like each of them.** If the first one stopped, the second one
starts from what was never touched; if it did not, the second attempt does not stop there
either. -/
theorem both_retry {f f' : α → Attempt α} {g g' : β → Attempt β} {x : α} {y : β}
    (hf : f' (f x).state = f' x) (hg : g' (g y).state = g' y)
    (hmono : (f x).error = none → (f' x).error = none) :
    both (f' (both (f x) (g y) y).state.1) (g' (both (f x) (g y) y).state.2)
      (both (f x) (g y) y).state.2 = both (f' x) (g' y) y := by
  cases hx : (f x).error with
  | some e => simp only [both, hx, hf]
  | none => simp only [both, hx, hf, hg, hmono hx]

/-- So are attempts on the elements of a list. -/
theorem each_retry {f f' : α → Attempt α} (h : ∀ x, f' (f x).state = f' x)
    (hmono : ∀ x, (f x).error = none → (f' x).error = none) (l : List α) :
    each f' (each f l).state = each f' l := by
  induction l with
  | nil => rfl
  | cons x rest ih =>
    exact congrArg (Attempt.map fun p => p.1 :: p.2) (both_retry (h x) ih (hmono x))

theorem named_retry {f f' : α → Attempt α} (h : ∀ x, f' (f x).state = f' x)
    (entry : String × α) : named f' (named f entry).state = named f' entry :=
  congrArg (Attempt.map (entry.1, ·)) (h entry.2)

end Attempt

namespace Registry

open Attempt

variable {r r' : Registry C}

/-! ## Conditions -/

theorem bindPredicate_retry (h : r.Within r') (p : Predicate C) :
    r'.bindPredicate (r.bindPredicate p).state = r'.bindPredicate p := by
  obtain ⟨name, body⟩ := p
  cases body with
  | some body => rfl
  | none =>
    cases name with
    | none => rfl
    | some name =>
      cases hg : r.predicates.get? name with
      | none => simp [bindPredicate, hg]
      | some body => simp [bindPredicate, hg, h.predicates name body hg, Predicate.bind]

theorem bindKeyFunction_retry (h : r.Within r') (f : KeyFunction C) :
    r'.bindKeyFunction (r.bindKeyFunction f).state = r'.bindKeyFunction f := by
  obtain ⟨name, body⟩ := f
  cases body with
  | some body => rfl
  | none =>
    cases name with
    | none => rfl
    | some name =>
      cases hg : r.keyFunctions.get? name with
      | none => simp [bindKeyFunction, hg]
      | some body => simp [bindKeyFunction, hg, h.keyFunctions name body hg, KeyFunction.bind]

theorem bindOptional_retry (h : r.Within r') (p : Option (Predicate C)) :
    r'.bindOptional (r.bindOptional p).state = r'.bindOptional p := by
  cases p with
  | none => rfl
  | some p => exact congrArg (Attempt.map some) (bindPredicate_retry h p)

theorem bindOperator_retry (h : r.Within r') (op : Operator C) :
    r'.bindOperator (r.bindOperator op).state = r'.bindOperator op := by
  cases op with
  | builtIn comparator => rfl
  | custom p => exact congrArg (Attempt.map Operator.custom) (bindPredicate_retry h p)

theorem bindCondition_retry (h : r.Within r') (c : Condition C) :
    r'.bindCondition (r.bindCondition c).state = r'.bindCondition c := by
  have hboth := both_retry (bindOptional_retry h c.predicate) (bindOperator_retry h c.operator)
    (h.error_eq_none (r.bindOptional_serves c.predicate) (r'.bindOptional_serves c.predicate))
  exact congrArg (Attempt.map fun p =>
    ({ c with predicate := p.1, operator := p.2 } : Condition C)) hboth

/-! ## Rules and step maps -/

mutual

theorem bindRule_retry (h : r.Within r') (rule : Rule C) :
    r'.bindRule (r.bindRule rule).state = r'.bindRule rule := by
  cases rule with
  | target id => simp only [bindRule]
  | branch c next => simp only [bindRule, Attempt.map, bindCondition_retry h c]
  | group rules => simp only [bindRule, Attempt.map, bindRules_retry h rules]

theorem bindRules_retry (h : r.Within r') (rules : List (Rule C)) :
    r'.bindRules (r.bindRules rules).state = r'.bindRules rules := by
  cases rules with
  | nil => simp only [bindRules]
  | cons rule rest =>
    -- the rest is bound before the rule
    have hboth := both_retry (bindRules_retry h rest) (bindRule_retry h rule)
      (h.error_eq_none (r.bindRules_serves rest) (r'.bindRules_serves rest))
    simp only [bindRules, Attempt.map]
    simp only [hboth]

end

theorem bindStep_retry (h : r.Within r') (step : Step C) :
    r'.bindStep (r.bindStep step).state = r'.bindStep step := by
  obtain ⟨next⟩ := step
  cases next with
  | none => rfl
  | some rule =>
    exact congrArg (Attempt.map fun rule => (⟨some rule⟩ : Step C)) (bindRule_retry h rule)

theorem bindSteps_retry (h : r.Within r') (entries : List (String × Step C)) :
    r'.bindSteps (r.bindSteps entries).state = r'.bindSteps entries :=
  each_retry (named_retry (bindStep_retry h))
    (fun e => h.error_eq_none (r.bindStep_serves e.2).named (r'.bindStep_serves e.2).named) entries

theorem bindStepMap_retry (h : r.Within r') (steps : StepMap C) :
    r'.bindStepMap (r.bindStepMap steps).state = r'.bindStepMap steps := by
  have hsteps := bindSteps_retry h steps.entries
  simp only [bindStepMap, hsteps]

/-! ## Selectors -/

theorem bindEntry_retry (h : r.Within r') (entry : Entry C) :
    r'.bindEntry (r.bindEntry entry).state = r'.bindEntry entry := by
  cases entry with
  | key k => rfl
  | function f => exact congrArg (Attempt.map Entry.function) (bindKeyFunction_retry h f)
  | branch c outcome =>
    exact congrArg (Attempt.map (Entry.branch · outcome)) (bindCondition_retry h c)

theorem bindEntries_retry (h : r.Within r') (entries : List (Entry C)) :
    r'.bindEntries (r.bindEntries entries).state = r'.bindEntries entries :=
  each_retry (bindEntry_retry h)
    (fun entry => h.error_eq_none (r.bindEntry_serves entry) (r'.bindEntry_serves entry)) entries

/-- If the first attempt stopped at an entry, the outcomes are met as they were. -/
theorem bindOutcomes_bindEntries (h : r.Within r') (entries : List (Entry C)) :
    r'.bindOutcomes (r.bindEntries entries).state = r'.bindOutcomes entries := by
  refine each_keeps (fun entry rest rest' hrest => ?_) entries
  cases entry with
  | key k => simp only [bindEntry, bindOutcomes, hrest]
  | function f =>
    simp only [bindEntry, Attempt.map, bindOutcomes, hrest, bindKeyFunction_retry h f]
  | branch c outcome =>
    simp only [bindEntry, Attempt.map, bindOutcomes, hrest, bindCondition_retry h c]

/-- If the first attempt reached the outcomes, the entries are served as they would have been. -/
theorem error_bindEntries_bindOutcomes (h : r.Within r') (entries : List (Entry C)) :
    (r'.bindEntries (r.bindOutcomes entries).state).error = (r'.bindEntries entries).error := by
  induction entries with
  | nil => simp only [bindOutcomes]
  | cons entry rest ih =>
    have hcons : ∀ entry' : Entry C, (r'.bindEntry entry').error = (r'.bindEntry entry).error →
        (r'.bindEntries (entry' :: (r.bindOutcomes rest).state)).error =
          (r'.bindEntries (entry :: rest)).error := by
      intro entry' hentry
      simp only [bindEntries] at ih ⊢
      simp only [each, Attempt.map, both_error, hentry, ih]
    cases entry with
    | key k =>
      simp only [bindOutcomes, Attempt.map]
      exact hcons (.key k) rfl
    | function f =>
      simp only [bindOutcomes, Attempt.map]
      refine hcons (.function (r.bindKeyFunction f).state) ?_
      simp only [bindEntry, Attempt.map, bindKeyFunction_retry h f]
    | branch c outcome =>
      simp only [bindOutcomes, Attempt.map, both_state_fst]
      refine hcons (.branch (r.bindCondition c).state _) ?_
      simp only [bindEntry, Attempt.map, bindCondition_retry h c]

mutual

theorem bindSelector_retry (h : r.Within r') (s : Selector C) :
    r'.bindSelector (r.bindSelector s).state = r'.bindSelector s := by
  cases s with
  | key k => simp only [bindSelector]
  | function f => simp only [bindSelector, Attempt.map, bindKeyFunction_retry h f]
  | sequence entries =>
    cases he : (r.bindEntries entries).error with
    | some e =>
      -- the outcomes are met for the first time by the second attempt
      have hfirst : (r.bindSelector (.sequence entries)).state =
          .sequence (r.bindEntries entries).state := by
        simp only [bindSelector, he]
      rw [hfirst]
      simp only [bindSelector, bindEntries_retry h entries, bindOutcomes_bindEntries h entries]
    | none =>
      -- the entries are bound, so neither attempt stops before the outcomes
      have hfirst : (r.bindSelector (.sequence entries)).state =
          .sequence (r.bindOutcomes entries).state := by
        simp only [bindSelector, he, Attempt.map]
      have hsecond : (r'.bindEntries entries).error = none :=
        h.error_eq_none (r.bindEntries_serves entries) (r'.bindEntries_serves entries) he
      have hagain := error_bindEntries_bindOutcomes h entries
      rw [hsecond] at hagain
      rw [hfirst]
      simp only [bindSelector, hsecond, hagain, bindOutcomes_retry h entries he]

/-- The outcomes of a sequence are reached only if all its entries are bound. -/
theorem bindOutcomes_retry (h : r.Within r') (entries : List (Entry C))
    (he : (r.bindEntries entries).error = none) :
    r'.bindOutcomes (r.bindOutcomes entries).state = r'.bindOutcomes entries := by
  match entries with
  | [] => simp only [bindOutcomes]
  | .key k :: rest =>
    obtain ⟨-, hrest⟩ := both_error_eq_none.1 he
    simp only [bindOutcomes, Attempt.map, bindOutcomes_retry h rest hrest]
  | .function f :: rest =>
    obtain ⟨-, hrest⟩ := both_error_eq_none.1 he
    simp only [bindOutcomes, Attempt.map, bindOutcomes_retry h rest hrest,
      bindKeyFunction_retry h f]
  | .branch c outcome :: rest =>
    obtain ⟨-, hrest⟩ := both_error_eq_none.1 he
    -- what the first registry has bound, the second one binds
    have hrest' : (r'.bindEntries rest).error = none :=
      h.error_eq_none (r.bindEntries_serves rest) (r'.bindEntries_serves rest) hrest
    have hboth := both_retry (bindOutcomes_retry h rest hrest) (bindOutcome_retry h outcome)
      (h.error_eq_none (r.bindOutcomes_serves rest hrest) (r'.bindOutcomes_serves rest hrest'))
    simp only [bindOutcomes, Attempt.map, bindCondition_retry h c, hboth]

theorem bindOutcome_retry (h : r.Within r') (outcome : Option (Selector C)) :
    r'.bindOutcome (r.bindOutcome outcome).state = r'.bindOutcome outcome := by
  cases outcome with
  | none => simp only [bindOutcome]
  | some s => simp only [bindOutcome, Attempt.map, bindSelector_retry h s]

end

/-! ## Field sets -/

theorem bindOptions_retry (h : r.Within r') (options : FieldOptions C) :
    r'.bindOptions (r.bindOptions options).state = r'.bindOptions options :=
  congrArg (Attempt.map fun key => (⟨key⟩ : FieldOptions C))
    (bindOutcome_retry h options.contentKey)

theorem bindFields_retry (h : r.Within r') (entries : List (String × FieldOptions C)) :
    r'.bindFields (r.bindFields entries).state = r'.bindFields entries :=
  each_retry (named_retry (bindOptions_retry h))
    (fun e => h.error_eq_none (r.bindOptions_serves e.2).named (r'.bindOptions_serves e.2).named)
    entries

theorem bindFieldSet_retry (h : r.Within r') (fields : FieldSet C) :
    r'.bindFieldSet (r.bindFieldSet fields).state = r'.bindFieldSet fields := by
  have hfields := bindFields_retry h fields.entries
  simp only [bindFieldSet, hfields]

end Registry

/-! ## The second attempt -/

/-- **Binding can be tried again.** Whether a binding with `r` succeeded or stopped, a binding of
what it has left behind with a registry that knows no less ends like a binding of the untouched
step map, selector or field set: with the same result, the same name in the error, and the same
state. -/
theorem bind_retry {r r' : Registry C} (h : r.Within r') :
    (∀ steps : StepMap C, r'.bindStepMap (r.bindStepMap steps).state = r'.bindStepMap steps) ∧
    (∀ s : Selector C, r'.bindSelector (r.bindSelector s).state = r'.bindSelector s) ∧
    (∀ fields : FieldSet C,
      r'.bindFieldSet (r.bindFieldSet fields).state = r'.bindFieldSet fields) :=
  ⟨Registry.bindStepMap_retry h, Registry.bindSelector_retry h, Registry.bindFieldSet_retry h⟩

/-- The small registry after a predicate and a key function have been added. -/
def grownRegistry : Registry Unit :=
  (smallRegistry.registerPredicate "isMember" fun _ _ _ => true).registerKeyFunction
    "late" fun _ => some "later"

theorem within_grownRegistry : smallRegistry.Within grownRegistry :=
  (Registry.within_registerPredicate (by decide) _).trans
    (Registry.within_registerKeyFunction (by decide) _)

/-- The last condition can be bound, the one before it cannot. -/
def unfinishedSteps : StepMap Unit :=
  Table.ofList [
    ("a", ⟨some (.group [.group [.branch { predicate := some (.reference "isMember") } (some "b")],
      .branch doubleCondition none])⟩),
    ("b", .terminal)]

/-- The outcome of the first entry can be bound, that of the second one cannot. -/
def unfinishedSelector : Selector Unit :=
  .sequence [.branch doubleCondition (some (.function (.reference "pick"))),
    .branch { field := "name" } (some (.sequence [.function (.reference "late")]))]

def unfinishedFields : FieldSet Unit :=
  FieldSet.ofList [("f", ⟨some smallSelector⟩), ("g", ⟨some unfinishedSelector⟩)]

/-- All three bindings stop half way with the small registry; tried again with the grown one they
succeed, and leave behind what one binding would have. -/
theorem retry_unfinished_rules :
    smallRegistry.Within grownRegistry ∧
    ((smallRegistry.bindStepMap unfinishedSteps).error = some (.unknownPredicate "isMember") ∧
      (grownRegistry.bindStepMap (smallRegistry.bindStepMap unfinishedSteps).state).error = none ∧
      (grownRegistry.bindStepMap (smallRegistry.bindStepMap unfinishedSteps).state).state =
        (grownRegistry.bindStepMap unfinishedSteps).state) ∧
    ((smallRegistry.bindSelector unfinishedSelector).error = some (.unknownKeyFunction "late") ∧
      (grownRegistry.bindSelector (smallRegistry.bindSelector unfinishedSelector).state).error =
        none ∧
      (grownRegistry.bindSelector (smallRegistry.bindSelector unfinishedSelector).state).state =
        (grownRegistry.bindSelector unfinishedSelector).state) ∧
    ((smallRegistry.bindFieldSet unfinishedFields).error = some (.unknownKeyFunction "late") ∧
      (grownRegistry.bindFieldSet (smallRegistry.bindFieldSet unfinishedFields).state).error =
        none ∧
      (grownRegistry.bindFieldSet (smallRegistry.bindFieldSet unfinishedFields).state).state =
        (grownRegistry.bindFieldSet unfinishedFields).state) := by
  obtain ⟨hsteps, hselector, hfields⟩ := bind_retry within_grownRegistry
  rw [hsteps, hselector, hfields]
  refine ⟨within_grownRegistry, ⟨?_, ?_, rfl⟩, ⟨?_, ?_, rfl⟩, ?_, ?_, rfl⟩ <;> decide +kernel

/-- **Binding twice is binding once.** -/
theorem bind_idempotent (r : Registry C) :
    (∀ steps : StepMap C, r.bindStepMap (r.bindStepMap steps).state = r.bindStepMap steps) ∧
    (∀ s : Selector C, r.bindSelector (r.bindSelector s).state = r.bindSelector s) ∧
    (∀ fields : FieldSet C, r.bindFieldSet (r.bindFieldSet fields).state = r.bindFieldSet fields) :=
  ⟨Registry.bindStepMap_retry (.refl r), Registry.bindSelector_retry (.refl r),
    Registry.bindFieldSet_retry (.refl r)⟩

end FormRouting
