import FormRouting.Registry
import FormRouting.Proofs.Binding.Callables

/-!
# Binding is complete

A binding visits the callables of a thing in an order of its own and stops at the
first one that it cannot serve. Whatever the order: it succeeds if and only if it
can serve all of them, and then every callable has what it is due and nothing else
has changed.

* `Registry.attach`: what each callable is due.
* `Attempt.Serves`: an attempt that is decided by a list of callables.
* `Attempt.Serves.map`, `Attempt.Serves.both`, `Attempt.Serves.each`: putting such attempts
  together.
* `bindCondition_serves`, `bindRule_serves`, `bindSelector_serves`: one lemma for
  each binder.
* `bind_complete`: **binding succeeds exactly when every open name is registered,
  leaves nothing open, and changes nothing but the functions.**
-/

namespace FormRouting

variable {C α β : Type}

namespace Registry

/-- A function is registered under the name of the callable, among those of its kind. -/
def registers (r : Registry C) : Callable C → Bool
  | .predicate p => (p.name.bind r.predicates.get?).isSome
  | .keyFunction f => (f.name.bind r.keyFunctions.get?).isSome

/-- A callable keeps the function it has; without one it takes the function that is registered
under its name. -/
def attach (r : Registry C) : CallableMap C where
  predicate p := { p with body := p.body.or (p.name.bind r.predicates.get?) }
  keyFunction f := { f with body := f.body.or (f.name.bind r.keyFunctions.get?) }

/-- Binding does not stop at the callable. -/
def canServe (r : Registry C) (c : Callable C) : Bool :=
  c.isBound || c.name.isNone || r.registers c

/-- What is made in one of the three ways can be served if it is bound or registered. -/
theorem canServe_iff (r : Registry C) {c : Callable C} (h : c.IsMade) :
    r.canServe c = true ↔ (c.isBound = false → r.registers c = true) := by
  unfold canServe
  cases hb : c.isBound with
  | true => simp
  | false =>
    have hn : c.name.isNone = false := by simp [← Option.not_isSome, h.name_isSome hb]
    simp [hn]

theorem attach_andThen_forget (r : Registry C) : r.attach.andThen .forget = .forget := rfl

/-- A served callable is bound in the end, if it is made in one of the three ways. -/
theorem attach_isBound (r : Registry C) {c : Callable C} (h : c.IsMade) (hs : r.canServe c = true) :
    (r.attach.apply c).isBound = true := by
  have hr := (r.canServe_iff h).1 hs
  cases c with
  | predicate p =>
    show (p.body.or (p.name.bind r.predicates.get?)).isSome = true
    cases hb : p.body with
    | some body => rfl
    | none => exact hr (by simp [Callable.isBound, Predicate.isBound, hb])
  | keyFunction f =>
    show (f.body.or (f.name.bind r.keyFunctions.get?)).isSome = true
    cases hb : f.body with
    | some body => rfl
    | none => exact hr (by simp [Callable.isBound, KeyFunction.isBound, hb])

end Registry

/-! ## Attempts that are decided by their callables -/

namespace Attempt

theorem both_error_eq_none {first : Attempt α} {second : Attempt β} {untouched : β} :
    (both first second untouched).error = none ↔ first.error = none ∧ second.error = none := by
  unfold both
  cases first.error <;> simp

theorem both_state {first : Attempt α} {second : Attempt β} {untouched : β}
    (h : first.error = none) :
    (both first second untouched).state = (first.state, second.state) := by
  unfold both
  rw [h]

/-- The attempt succeeds if and only if all these callables can be served, and leaves `bound`
behind when it does. -/
structure Serves (a : Attempt α) (r : Registry C) (callables : List (Callable C)) (bound : α) :
    Prop where
  error_eq_none_iff : a.error = none ↔ ∀ c ∈ callables, r.canServe c = true
  state_eq : a.error = none → a.state = bound

namespace Serves

variable {r : Registry C} {callables others : List (Callable C)}
  {a : Attempt α} {b : Attempt β} {x : α} {y : β}

/-- Where nothing can be called, nothing is done. -/
theorem nothing (r : Registry C) (x : α) : Serves ⟨x, none⟩ r [] x := ⟨by simp, fun _ => rfl⟩

theorem map (h : a.Serves r callables x) (f : α → β) : (a.map f).Serves r callables (f x) :=
  ⟨h.error_eq_none_iff, fun he => congrArg f (h.state_eq he)⟩

theorem both (h : a.Serves r callables x) (h' : b.Serves r others y) (untouched : β) :
    (a.both b untouched).Serves r (callables ++ others) (x, y) where
  error_eq_none_iff := by
    rw [both_error_eq_none, h.error_eq_none_iff, h'.error_eq_none_iff, List.forall_mem_append]
  state_eq he := by
    obtain ⟨ha, hb⟩ := both_error_eq_none.1 he
    rw [both_state ha, h.state_eq ha, h'.state_eq hb]

/-- One attempt after the other. -/
theorem each {f : α → Attempt α} {callables : α → List (Callable C)} {bound : α → α}
    (h : ∀ x, (f x).Serves r (callables x) (bound x)) (l : List α) :
    (Attempt.each f l).Serves r (l.flatMap callables) (l.map bound) := by
  induction l with
  | nil => exact .nothing r []
  | cons x rest ih => exact ((h x).both ih rest).map fun p => p.1 :: p.2

theorem named {f : α → Attempt α} {entry : String × α} (h : (f entry.2).Serves r callables x) :
    (Attempt.named f entry).Serves r callables (entry.1, x) := h.map (entry.1, ·)

/-- Only which callables there are counts, not their order. -/
theorem of_mem_iff (h : a.Serves r callables x) (hmem : ∀ c, c ∈ callables ↔ c ∈ others) :
    a.Serves r others x :=
  ⟨h.error_eq_none_iff.trans (by simp only [hmem]), h.state_eq⟩

end Serves

end Attempt

/-! ## The two parts of a sequence

The entries of a sequence are bound before any of their outcomes, so its callables
come in two parts: those of the entries themselves, and those of the outcomes. -/

/-- What can be called in an entry outside its outcome. -/
def Entry.ownCallables : Entry C → List (Callable C)
  | .key _ => []
  | .function f => [.keyFunction f]
  | .branch c _ => c.callables

/-- What can be called in the outcomes of entries. -/
def Selector.callablesOfOutcomes : List (Entry C) → List (Callable C)
  | [] => []
  | .key _ :: rest => callablesOfOutcomes rest
  | .function _ :: rest => callablesOfOutcomes rest
  | .branch _ outcome :: rest => callablesOfOutcomes rest ++ Selector.callablesOfOutcome outcome

/-- The callables of entries are their own ones and those of their outcomes. -/
theorem mem_callablesOfEntries (entries : List (Entry C)) (c : Callable C) :
    c ∈ entries.flatMap Entry.ownCallables ++ Selector.callablesOfOutcomes entries ↔
      c ∈ Selector.callablesOfEntries entries := by
  induction entries with
  | nil => simp [Selector.callablesOfOutcomes, Selector.callablesOfEntries]
  | cons entry rest ih =>
    rw [List.mem_append] at ih
    cases entry with
    | key k =>
      simp [Selector.callablesOfOutcomes, Selector.callablesOfEntries, Entry.ownCallables, ← ih]
    | function f =>
      simp [Selector.callablesOfOutcomes, Selector.callablesOfEntries, Entry.ownCallables, ← ih]
    | branch condition outcome =>
      simp only [Selector.callablesOfOutcomes, Selector.callablesOfEntries, Entry.ownCallables,
        List.flatMap_cons, List.mem_append, ← ih]
      grind

/-! ## One binder after the other -/

namespace Registry

open Attempt

variable (r : Registry C)

theorem bindPredicate_serves (p : Predicate C) :
    (r.bindPredicate p).Serves r [.predicate p] (r.attach.predicate p) := by
  cases p with
  | mk name body =>
    cases body with
    | some body =>
      exact ⟨by simp [bindPredicate, canServe, Callable.isBound, Predicate.isBound], fun _ => rfl⟩
    | none =>
      cases name with
      | none => exact ⟨by simp [bindPredicate, canServe, Callable.name], fun _ => rfl⟩
      | some name =>
        have hc : r.canServe (.predicate ⟨some name, none⟩) = (r.predicates.get? name).isSome := rfl
        cases hg : r.predicates.get? name with
        | none => exact ⟨by simp [bindPredicate, hc, hg], by simp [bindPredicate, hg]⟩
        | some body =>
          exact ⟨by simp [bindPredicate, hc, hg],
            by simp [bindPredicate, attach, Predicate.bind, hg]⟩

theorem bindKeyFunction_serves (f : KeyFunction C) :
    (r.bindKeyFunction f).Serves r [.keyFunction f] (r.attach.keyFunction f) := by
  cases f with
  | mk name body =>
    cases body with
    | some body =>
      exact ⟨by simp [bindKeyFunction, canServe, Callable.isBound, KeyFunction.isBound],
        fun _ => rfl⟩
    | none =>
      cases name with
      | none => exact ⟨by simp [bindKeyFunction, canServe, Callable.name], fun _ => rfl⟩
      | some name =>
        have hc : r.canServe (.keyFunction ⟨some name, none⟩) =
            (r.keyFunctions.get? name).isSome := rfl
        cases hg : r.keyFunctions.get? name with
        | none => exact ⟨by simp [bindKeyFunction, hc, hg], by simp [bindKeyFunction, hg]⟩
        | some body =>
          exact ⟨by simp [bindKeyFunction, hc, hg],
            by simp [bindKeyFunction, attach, KeyFunction.bind, hg]⟩

theorem bindOptional_serves (p : Option (Predicate C)) :
    (r.bindOptional p).Serves r (p.toList.map .predicate) (p.map r.attach.predicate) := by
  cases p with
  | none => exact .nothing r none
  | some p => exact (r.bindPredicate_serves p).map some

theorem bindOperator_serves (op : Operator C) :
    (r.bindOperator op).Serves r op.callables (op.mapCallables r.attach) := by
  cases op with
  | builtIn comparator => exact .nothing r _
  | custom p => exact (r.bindPredicate_serves p).map Operator.custom

theorem bindCondition_serves (c : Condition C) :
    (r.bindCondition c).Serves r c.callables (c.mapCallables r.attach) :=
  ((r.bindOptional_serves c.predicate).both (r.bindOperator_serves c.operator) c.operator).map _

mutual

theorem bindRule_serves (rule : Rule C) :
    (r.bindRule rule).Serves r rule.callables (rule.mapCallables r.attach) := by
  cases rule with
  | target id =>
    simp only [bindRule, Rule.callables, Rule.mapCallables]
    exact .nothing r _
  | branch c next =>
    simp only [bindRule, Rule.callables, Rule.mapCallables]
    exact (r.bindCondition_serves c).map (Rule.branch · next)
  | group rules =>
    simp only [bindRule, Rule.callables, Rule.mapCallables]
    exact (bindRules_serves rules).map Rule.group

theorem bindRules_serves (rules : List (Rule C)) :
    (r.bindRules rules).Serves r (Rule.callablesOfAll rules)
      (Rule.mapCallablesOfAll r.attach rules) := by
  cases rules with
  | nil =>
    simp only [bindRules, Rule.callablesOfAll, Rule.mapCallablesOfAll]
    exact .nothing r _
  | cons rule rest =>
    simp only [bindRules, Rule.callablesOfAll, Rule.mapCallablesOfAll]
    -- the rest is bound before the rule
    have h := ((bindRules_serves rest).both (bindRule_serves rule) rule).map
      fun (rest, rule) => rule :: rest
    exact h.of_mem_iff fun c => by simp only [List.mem_append, or_comm]

end

theorem bindStep_serves (step : Step C) :
    (r.bindStep step).Serves r step.callables (step.mapCallables r.attach) := by
  cases step with
  | mk next =>
    cases next with
    | none => exact .nothing r _
    | some rule =>
      have h := (r.bindRule_serves rule).map fun rule => (⟨some rule⟩ : Step C)
      exact h.of_mem_iff fun c => by simp [Step.callables]

theorem bindSteps_serves (entries : List (String × Step C)) :
    (r.bindSteps entries).Serves r (entries.flatMap fun e => e.2.callables)
      (entries.map fun e => (e.1, e.2.mapCallables r.attach)) :=
  .each (fun e => (r.bindStep_serves e.2).named) entries

theorem bindStepMap_serves (steps : StepMap C) :
    (r.bindStepMap steps).Serves r steps.callables (steps.mapCallables r.attach) where
  error_eq_none_iff := (r.bindSteps_serves steps.entries).error_eq_none_iff
  state_eq he := by
    have hs := (r.bindSteps_serves steps.entries).state_eq he
    simp only [bindStepMap, StepMap.mapCallables, hs]

/-! ### Selectors -/

/-- An entry after its own callables have been served. -/
def attachOwn : Entry C → Entry C
  | .key k => .key k
  | .function f => .function (r.attach.keyFunction f)
  | .branch c outcome => .branch (c.mapCallables r.attach) outcome

theorem bindEntry_serves (entry : Entry C) :
    (r.bindEntry entry).Serves r (Entry.ownCallables entry) (r.attachOwn entry) := by
  cases entry with
  | key k => exact .nothing r _
  | function f => exact (r.bindKeyFunction_serves f).map Entry.function
  | branch c outcome => exact (r.bindCondition_serves c).map (Entry.branch · outcome)

theorem bindEntries_serves (entries : List (Entry C)) :
    (r.bindEntries entries).Serves r (entries.flatMap Entry.ownCallables)
      (entries.map r.attachOwn) :=
  .each r.bindEntry_serves entries

mutual

theorem bindSelector_serves (s : Selector C) :
    (r.bindSelector s).Serves r s.callables (s.mapCallables r.attach) := by
  cases s with
  | key k =>
    simp only [bindSelector, Selector.callables, Selector.mapCallables]
    exact .nothing r _
  | function f =>
    simp only [bindSelector, Selector.callables, Selector.mapCallables]
    exact (r.bindKeyFunction_serves f).map Selector.function
  | sequence entries =>
    simp only [bindSelector, Selector.callables, Selector.mapCallables]
    have hown := r.bindEntries_serves entries
    have hmem := mem_callablesOfEntries entries
    cases he : (r.bindEntries entries).error with
    | some e =>
      -- some entry cannot be served, so neither can the sequence
      refine ⟨⟨fun h => by simp at h, fun h => ?_⟩, fun h => by simp at h⟩
      have hall : (r.bindEntries entries).error = none :=
        hown.error_eq_none_iff.2 fun c hc => h c ((hmem c).1 (List.mem_append_left _ hc))
      rw [he] at hall
      cases hall
    | none =>
      have h := (bindOutcomes_serves entries he).map Selector.sequence
      refine ⟨h.error_eq_none_iff.trans ?_, h.state_eq⟩
      have hserved := hown.error_eq_none_iff.1 he
      -- the entries are served already, so the outcomes decide
      simp only [← hmem, List.forall_mem_append]
      exact ⟨fun h => ⟨hserved, h⟩, And.right⟩

/-- The outcomes of entries whose own callables have been served. -/
theorem bindOutcomes_serves (entries : List (Entry C))
    (h : (r.bindEntries entries).error = none) :
    (r.bindOutcomes entries).Serves r (Selector.callablesOfOutcomes entries)
      (Selector.mapCallablesOfEntries r.attach entries) := by
  match entries with
  | [] =>
    simp only [bindOutcomes, Selector.callablesOfOutcomes, Selector.mapCallablesOfEntries]
    exact .nothing r _
  | .key k :: rest =>
    obtain ⟨-, hrest⟩ := both_error_eq_none.1 h
    simp only [bindOutcomes, Selector.callablesOfOutcomes, Selector.mapCallablesOfEntries]
    exact (bindOutcomes_serves rest hrest).map _
  | .function f :: rest =>
    obtain ⟨hentry, hrest⟩ := both_error_eq_none.1 h
    simp only [bindOutcomes, Selector.callablesOfOutcomes, Selector.mapCallablesOfEntries]
    rw [(r.bindKeyFunction_serves f).state_eq hentry]
    exact (bindOutcomes_serves rest hrest).map _
  | .branch c outcome :: rest =>
    obtain ⟨hentry, hrest⟩ := both_error_eq_none.1 h
    simp only [bindOutcomes, Selector.callablesOfOutcomes, Selector.mapCallablesOfEntries]
    rw [(r.bindCondition_serves c).state_eq hentry]
    exact ((bindOutcomes_serves rest hrest).both (bindOutcome_serves outcome) outcome).map _

theorem bindOutcome_serves (outcome : Option (Selector C)) :
    (r.bindOutcome outcome).Serves r (Selector.callablesOfOutcome outcome)
      (Selector.mapCallablesOfOutcome r.attach outcome) := by
  cases outcome with
  | none =>
    simp only [bindOutcome, Selector.callablesOfOutcome, Selector.mapCallablesOfOutcome]
    exact .nothing r _
  | some s =>
    simp only [bindOutcome, Selector.callablesOfOutcome, Selector.mapCallablesOfOutcome]
    exact (bindSelector_serves s).map some

end

theorem bindOptions_serves (options : FieldOptions C) :
    (r.bindOptions options).Serves r options.callables (options.mapCallables r.attach) :=
  (r.bindOutcome_serves options.contentKey).map fun key => (⟨key⟩ : FieldOptions C)

theorem bindFields_serves (entries : List (String × FieldOptions C)) :
    (r.bindFields entries).Serves r (entries.flatMap fun e => e.2.callables)
      (entries.map fun e => (e.1, e.2.mapCallables r.attach)) :=
  .each (fun e => (r.bindOptions_serves e.2).named) entries

theorem bindFieldSet_serves (fields : FieldSet C) :
    (r.bindFieldSet fields).Serves r fields.callables (fields.mapCallables r.attach) where
  error_eq_none_iff := (r.bindFields_serves fields.entries).error_eq_none_iff
  state_eq he := by
    have hs := (r.bindFields_serves fields.entries).state_eq he
    simp only [bindFieldSet, FieldSet.mapCallables, hs]

end Registry

/-! ## Complete binding -/

/-- **A complete binding** of `x`, where `callables` lists what can be called in a thing of its
kind, and `mapCallables` changes that and nothing else. -/
structure Attempt.IsComplete (a : Attempt α) (r : Registry C) (callables : α → List (Callable C))
    (mapCallables : CallableMap C → α → α) (x : α) : Prop where
  /-- It succeeds if and only if the name of every callable without a function is registered. -/
  succeeds_iff :
    a.error = none ↔ ∀ c ∈ callables x, c.isBound = false → r.registers c = true
  /-- Without their functions, what went in and what has come out are the same. -/
  same_but_functions : a.error = none → mapCallables .forget a.state = mapCallables .forget x
  /-- Place by place, a callable has kept its function or taken the registered one. -/
  callables_state : a.error = none → callables a.state = (callables x).map r.attach.apply
  /-- Nothing is left without a function. -/
  all_bound : a.error = none → ∀ c ∈ callables a.state, c.isBound = true

/-- An attempt that is decided by all callables of a thing is a complete binding of it. -/
theorem Attempt.Serves.isComplete {r : Registry C} {callables : α → List (Callable C)}
    {mapCallables : CallableMap C → α → α} {a : Attempt α} {x : α}
    (h : a.Serves r (callables x) (mapCallables r.attach x))
    (hcallables : ∀ m y, callables (mapCallables m y) = (callables y).map m.apply)
    (htwice : ∀ m n y, mapCallables n (mapCallables m y) = mapCallables (m.andThen n) y)
    (hmade : ∀ c ∈ callables x, c.IsMade) : a.IsComplete r callables mapCallables x where
  succeeds_iff := by
    rw [h.error_eq_none_iff]
    exact forall₂_congr fun c hc => r.canServe_iff (hmade c hc)
  same_but_functions he := by rw [h.state_eq he, htwice, r.attach_andThen_forget]
  callables_state he := by rw [h.state_eq he, hcallables]
  all_bound he := by
    have hserved := h.error_eq_none_iff.1 he
    rw [h.state_eq he, hcallables]
    refine List.forall_mem_map.2 fun c hc => ?_
    exact r.attach_isBound (hmade c hc) (hserved c hc)

/-- **Binding is complete and touches nothing else.** Of a step map, a selector or a field set
whose callables are made in one of the three ways, every open name has to be registered; then
every callable is bound, those that were bound before keep their functions, and everything that
is no function stays as it was. -/
theorem bind_complete (r : Registry C) :
    (∀ steps : StepMap C, (∀ c ∈ steps.callables, c.IsMade) →
      (r.bindStepMap steps).IsComplete r StepMap.callables StepMap.mapCallables steps) ∧
    (∀ s : Selector C, (∀ c ∈ s.callables, c.IsMade) →
      (r.bindSelector s).IsComplete r Selector.callables Selector.mapCallables s) ∧
    (∀ fields : FieldSet C, (∀ c ∈ fields.callables, c.IsMade) →
      (r.bindFieldSet fields).IsComplete r FieldSet.callables FieldSet.mapCallables fields) :=
  ⟨fun steps => (r.bindStepMap_serves steps).isComplete StepMap.callables_mapCallables
      StepMap.mapCallables_mapCallables,
    fun s => (r.bindSelector_serves s).isComplete Selector.callables_mapCallables
      Selector.mapCallables_mapCallables,
    fun fields => (r.bindFieldSet_serves fields).isComplete FieldSet.callables_mapCallables
      FieldSet.mapCallables_mapCallables⟩

/-! ### Some rules -/

/-- One predicate and one key function. -/
def smallRegistry : Registry Unit :=
  (Registry.empty.registerPredicate "isAdult" fun current _ _ => current.isSome).registerKeyFunction
    "pick" fun _ => some "picked"

/-- A condition with two predicates, of which one is bound. -/
def doubleCondition : Condition Unit :=
  { field := "age"
    operator := .custom (.reference "isAdult")
    predicate := some (.anonymous fun _ _ _ => true) }

/-- A key function in the outcome of an outcome, and one behind a fallback. -/
def smallSelector : Selector Unit :=
  .sequence [
    .branch doubleCondition (some (.sequence [
      .branch { field := "name", operator := .custom (.reference "isAdult") }
        (some (.function (.reference "pick")))])),
    .key "fallback",
    .function (.reference "pick")]

def smallSteps : StepMap Unit :=
  Table.ofList [("a", ⟨some (.group [.target "b", .branch doubleCondition none])⟩)]

def smallFields : FieldSet Unit := FieldSet.ofList [("f", ⟨some smallSelector⟩)]

theorem isMade_doubleCondition : ∀ c ∈ doubleCondition.callables, c.IsMade :=
  List.forall_mem_cons.2 ⟨.anonymous _, List.forall_mem_singleton.2 (.reference _)⟩

theorem isMade_smallSelector : ∀ c ∈ smallSelector.callables, c.IsMade := by
  refine List.forall_mem_append.2 ⟨isMade_doubleCondition, ?_⟩
  exact List.forall_mem_cons.2 ⟨.reference _, List.forall_mem_cons.2 ⟨.reference _,
    List.forall_mem_singleton.2 (.reference _)⟩⟩

/-- All of them can be bound, and nothing is left open. -/
theorem bind_small_rules :
    ((∀ c ∈ smallSteps.callables, c.IsMade) ∧
      (smallRegistry.bindStepMap smallSteps).error = none ∧
      ∀ c ∈ (smallRegistry.bindStepMap smallSteps).state.callables, c.isBound = true) ∧
    ((∀ c ∈ smallSelector.callables, c.IsMade) ∧
      (smallRegistry.bindSelector smallSelector).error = none ∧
      ∀ c ∈ (smallRegistry.bindSelector smallSelector).state.callables, c.isBound = true) ∧
    ((∀ c ∈ smallFields.callables, c.IsMade) ∧
      (smallRegistry.bindFieldSet smallFields).error = none ∧
      ∀ c ∈ (smallRegistry.bindFieldSet smallFields).state.callables, c.isBound = true) := by
  obtain ⟨hsteps, hselector, hfields⟩ := bind_complete smallRegistry
  have hs : (smallRegistry.bindStepMap smallSteps).error = none := by decide +kernel
  have hl : (smallRegistry.bindSelector smallSelector).error = none := by decide +kernel
  have hf : (smallRegistry.bindFieldSet smallFields).error = none := by decide +kernel
  exact ⟨⟨isMade_doubleCondition, hs, (hsteps smallSteps isMade_doubleCondition).all_bound hs⟩,
    ⟨isMade_smallSelector, hl, (hselector smallSelector isMade_smallSelector).all_bound hl⟩,
    ⟨isMade_smallSelector, hf, (hfields smallFields isMade_smallSelector).all_bound hf⟩⟩

end FormRouting
