import FormRouting.Rule
import FormRouting.FieldSet

/-!
# The callables of rules and selectors

Predicates and key functions stand at many places: as the predicate and as the
operator of a condition, as entries and as whole selectors, at any depth. Two
functions say what lies at these places and what lies around them.

* `callables`: everything that can be called, in reading order.
* `mapCallables`: the same rules with other callables at the same places.
* `Rule.conditions`, `Selector.conditions`: the conditions of a rule and of a selector, in
  reading order.
* `callables_mapCallables`: the callables of a mapped thing are the mapped callables.
* `mapCallables_mapCallables`: mapping twice.
-/

namespace FormRouting

variable {C : Type}

/-- The predicate comes from one of the three ways to make one. -/
inductive Predicate.IsMade : Predicate C → Prop where
  | reference (name : String) : IsMade (.reference name)
  | named (name : String) (body : Predicate.Body C) : IsMade (.named name body)
  | anonymous (body : Predicate.Body C) : IsMade (.anonymous body)

/-- The key function comes from one of the three ways to make one. -/
inductive KeyFunction.IsMade : KeyFunction C → Prop where
  | reference (name : String) : IsMade (.reference name)
  | named (name : String) (body : KeyFunction.Body C) : IsMade (.named name body)
  | anonymous (body : KeyFunction.Body C) : IsMade (.anonymous body)

/-- Something that can be called. -/
inductive Callable (C : Type) where
  | predicate (p : Predicate C)
  | keyFunction (f : KeyFunction C)

/-- What to put in the place of every predicate and of every key function. -/
structure CallableMap (C : Type) where
  predicate : Predicate C → Predicate C
  keyFunction : KeyFunction C → KeyFunction C

namespace CallableMap

def apply (m : CallableMap C) : Callable C → Callable C
  | .predicate p => .predicate (m.predicate p)
  | .keyFunction f => .keyFunction (m.keyFunction f)

/-- First one map, then another. -/
def andThen (m n : CallableMap C) : CallableMap C :=
  ⟨n.predicate ∘ m.predicate, n.keyFunction ∘ m.keyFunction⟩

/-- Take the functions away and leave the names. -/
def forget : CallableMap C := ⟨fun p => { p with body := none }, fun f => { f with body := none }⟩

end CallableMap

namespace Callable

def name : Callable C → Option String
  | .predicate p => p.name
  | .keyFunction f => f.name

def isBound : Callable C → Bool
  | .predicate p => p.isBound
  | .keyFunction f => f.isBound

/-- The callable comes from one of the ways to make one. -/
def IsMade : Callable C → Prop
  | .predicate p => p.IsMade
  | .keyFunction f => f.IsMade

/-- A callable without a function has a name. -/
theorem IsMade.name_isSome {c : Callable C} (h : c.IsMade) (hb : c.isBound = false) :
    c.name.isSome = true := by
  cases c with
  | predicate p =>
    cases h with
    | reference name => rfl
    | named name body => rfl
    | anonymous body => cases hb
  | keyFunction f =>
    cases h with
    | reference name => rfl
    | named name body => rfl
    | anonymous body => cases hb

end Callable

/-! ## Conditions -/

namespace Operator

def callables : Operator C → List (Callable C)
  | .builtIn _ => []
  | .custom p => [.predicate p]

def mapCallables (m : CallableMap C) : Operator C → Operator C
  | .builtIn comparator => .builtIn comparator
  | .custom p => .custom (m.predicate p)

end Operator

namespace Condition

/-- The predicate, and a predicate in place of the operator. -/
def callables (c : Condition C) : List (Callable C) :=
  c.predicate.toList.map .predicate ++ c.operator.callables

def mapCallables (m : CallableMap C) (c : Condition C) : Condition C :=
  { c with
    predicate := c.predicate.map m.predicate
    operator := c.operator.mapCallables m }

theorem callables_mapCallables (m : CallableMap C) (c : Condition C) :
    (c.mapCallables m).callables = c.callables.map m.apply := by
  have hp : (c.predicate.map m.predicate).toList.map Callable.predicate =
      (c.predicate.toList.map Callable.predicate).map m.apply := by
    cases c.predicate <;> rfl
  have ho : (c.operator.mapCallables m).callables = c.operator.callables.map m.apply := by
    cases c.operator <;> rfl
  unfold callables
  rw [List.map_append, ← hp, ← ho]
  rfl

theorem mapCallables_mapCallables (m n : CallableMap C) (c : Condition C) :
    (c.mapCallables m).mapCallables n = c.mapCallables (m.andThen n) := by
  have ho : (c.operator.mapCallables m).mapCallables n = c.operator.mapCallables (m.andThen n) := by
    cases c.operator <;> rfl
  have hp : (c.predicate.map m.predicate).map n.predicate =
      c.predicate.map (m.andThen n).predicate := Option.map_map ..
  simp only [mapCallables, ho, hp]

end Condition

/-! ## Rules and step maps -/

namespace Rule

mutual

/-- The conditions of a rule, at any depth. -/
def conditions : Rule C → List (Condition C)
  | .target _ => []
  | .group rules => conditionsOfAll rules
  | .branch c _ => [c]

def conditionsOfAll : List (Rule C) → List (Condition C)
  | [] => []
  | rule :: rest => conditions rule ++ conditionsOfAll rest

end

mutual

def callables : Rule C → List (Callable C)
  | .target _ => []
  | .group rules => callablesOfAll rules
  | .branch c _ => c.callables

def callablesOfAll : List (Rule C) → List (Callable C)
  | [] => []
  | rule :: rest => callables rule ++ callablesOfAll rest

end

mutual

/-- The callables of a rule are those of its conditions. -/
theorem callables_eq (rule : Rule C) :
    rule.callables = rule.conditions.flatMap Condition.callables := by
  cases rule with
  | target id => simp [callables, conditions]
  | group rules => simp only [callables, conditions, callablesOfAll_eq rules]
  | branch c next => simp [callables, conditions]

theorem callablesOfAll_eq (rules : List (Rule C)) :
    callablesOfAll rules = (conditionsOfAll rules).flatMap Condition.callables := by
  cases rules with
  | nil => simp [callablesOfAll, conditionsOfAll]
  | cons rule rest =>
    simp only [callablesOfAll, conditionsOfAll, callables_eq rule, callablesOfAll_eq rest,
      List.flatMap_append]

end

mutual

def mapCallables (m : CallableMap C) : Rule C → Rule C
  | .target id => .target id
  | .group rules => .group (mapCallablesOfAll m rules)
  | .branch c next => .branch (c.mapCallables m) next

def mapCallablesOfAll (m : CallableMap C) : List (Rule C) → List (Rule C)
  | [] => []
  | rule :: rest => mapCallables m rule :: mapCallablesOfAll m rest

end

mutual

theorem callables_mapCallables (m : CallableMap C) (rule : Rule C) :
    (rule.mapCallables m).callables = rule.callables.map m.apply := by
  cases rule with
  | target id => simp [mapCallables, callables]
  | group rules => simp only [mapCallables, callables, callablesOfAll_mapCallablesOfAll m rules]
  | branch c next => simp only [mapCallables, callables, Condition.callables_mapCallables]

theorem callablesOfAll_mapCallablesOfAll (m : CallableMap C) (rules : List (Rule C)) :
    callablesOfAll (mapCallablesOfAll m rules) = (callablesOfAll rules).map m.apply := by
  cases rules with
  | nil => simp [mapCallablesOfAll, callablesOfAll]
  | cons rule rest =>
    simp only [mapCallablesOfAll, callablesOfAll, callables_mapCallables m rule,
      callablesOfAll_mapCallablesOfAll m rest, List.map_append]

end

mutual

theorem conditions_mapCallables (m : CallableMap C) (rule : Rule C) :
    (rule.mapCallables m).conditions = rule.conditions.map (Condition.mapCallables m) := by
  cases rule with
  | target id => simp [mapCallables, conditions]
  | group rules => simp only [mapCallables, conditions, conditionsOfAll_mapCallablesOfAll m rules]
  | branch c next => simp [mapCallables, conditions]

theorem conditionsOfAll_mapCallablesOfAll (m : CallableMap C) (rules : List (Rule C)) :
    conditionsOfAll (mapCallablesOfAll m rules) =
      (conditionsOfAll rules).map (Condition.mapCallables m) := by
  cases rules with
  | nil => simp [mapCallablesOfAll, conditionsOfAll]
  | cons rule rest =>
    simp only [mapCallablesOfAll, conditionsOfAll, conditions_mapCallables m rule,
      conditionsOfAll_mapCallablesOfAll m rest, List.map_append]

end

mutual

theorem mapCallables_mapCallables (m n : CallableMap C) (rule : Rule C) :
    (rule.mapCallables m).mapCallables n = rule.mapCallables (m.andThen n) := by
  cases rule with
  | target id => simp only [mapCallables]
  | group rules => simp only [mapCallables, mapCallablesOfAll_mapCallablesOfAll m n rules]
  | branch c next => simp only [mapCallables, Condition.mapCallables_mapCallables]

theorem mapCallablesOfAll_mapCallablesOfAll (m n : CallableMap C) (rules : List (Rule C)) :
    mapCallablesOfAll n (mapCallablesOfAll m rules) = mapCallablesOfAll (m.andThen n) rules := by
  cases rules with
  | nil => simp only [mapCallablesOfAll]
  | cons rule rest =>
    simp only [mapCallablesOfAll, mapCallables_mapCallables m n rule,
      mapCallablesOfAll_mapCallablesOfAll m n rest]

end

end Rule

namespace Step

def conditions (step : Step C) : List (Condition C) := step.next.toList.flatMap Rule.conditions

def callables (step : Step C) : List (Callable C) := step.next.toList.flatMap Rule.callables

def mapCallables (m : CallableMap C) (step : Step C) : Step C :=
  ⟨step.next.map (Rule.mapCallables m)⟩

theorem callables_mapCallables (m : CallableMap C) (step : Step C) :
    (step.mapCallables m).callables = step.callables.map m.apply := by
  cases step with
  | mk next => cases next <;> simp [mapCallables, callables, Rule.callables_mapCallables]

theorem mapCallables_mapCallables (m n : CallableMap C) (step : Step C) :
    (step.mapCallables m).mapCallables n = step.mapCallables (m.andThen n) := by
  cases step with
  | mk next => cases next <;> simp [mapCallables, Rule.mapCallables_mapCallables]

end Step

namespace StepMap

def callables (steps : StepMap C) : List (Callable C) :=
  steps.entries.flatMap fun e => e.2.callables

def mapCallables (m : CallableMap C) (steps : StepMap C) : StepMap C where
  entries := steps.entries.map fun e => (e.1, e.2.mapCallables m)
  distinct := by
    have hk : (steps.entries.map fun e => (e.1, e.2.mapCallables m)).map Prod.fst =
        steps.entries.map Prod.fst := by simp
    rw [hk]
    exact steps.distinct

theorem callables_mapCallables (m : CallableMap C) (steps : StepMap C) :
    (steps.mapCallables m).callables = steps.callables.map m.apply := by
  simp only [callables, mapCallables, List.flatMap_map, List.map_flatMap,
    Step.callables_mapCallables]

theorem mapCallables_mapCallables (m n : CallableMap C) (steps : StepMap C) :
    (steps.mapCallables m).mapCallables n = steps.mapCallables (m.andThen n) := by
  simp [mapCallables, Step.mapCallables_mapCallables]

end StepMap

/-! ## Selectors and field sets -/

namespace Selector

mutual

/-- The conditions of a selector and of the outcomes in it, at any depth. -/
def conditions : Selector C → List (Condition C)
  | .key _ => []
  | .function _ => []
  | .sequence entries => conditionsOfEntries entries

def conditionsOfEntry : Entry C → List (Condition C)
  | .key _ => []
  | .function _ => []
  | .branch c outcome => c :: conditionsOfOutcome outcome

def conditionsOfEntries : List (Entry C) → List (Condition C)
  | [] => []
  | e :: rest => conditionsOfEntry e ++ conditionsOfEntries rest

def conditionsOfOutcome : Option (Selector C) → List (Condition C)
  | none => []
  | some s => conditions s

end

mutual

def callables : Selector C → List (Callable C)
  | .key _ => []
  | .function f => [.keyFunction f]
  | .sequence entries => callablesOfEntries entries

def callablesOfEntries : List (Entry C) → List (Callable C)
  | [] => []
  | .key _ :: rest => callablesOfEntries rest
  | .function f :: rest => .keyFunction f :: callablesOfEntries rest
  | .branch c outcome :: rest =>
    c.callables ++ (callablesOfOutcome outcome ++ callablesOfEntries rest)

def callablesOfOutcome : Option (Selector C) → List (Callable C)
  | none => []
  | some s => callables s

end

mutual

def mapCallables (m : CallableMap C) : Selector C → Selector C
  | .key k => .key k
  | .function f => .function (m.keyFunction f)
  | .sequence entries => .sequence (mapCallablesOfEntries m entries)

def mapCallablesOfEntries (m : CallableMap C) : List (Entry C) → List (Entry C)
  | [] => []
  | .key k :: rest => .key k :: mapCallablesOfEntries m rest
  | .function f :: rest => .function (m.keyFunction f) :: mapCallablesOfEntries m rest
  | .branch c outcome :: rest =>
    .branch (c.mapCallables m) (mapCallablesOfOutcome m outcome) :: mapCallablesOfEntries m rest

def mapCallablesOfOutcome (m : CallableMap C) : Option (Selector C) → Option (Selector C)
  | none => none
  | some s => some (mapCallables m s)

end

mutual

theorem callables_mapCallables (m : CallableMap C) (s : Selector C) :
    (s.mapCallables m).callables = s.callables.map m.apply := by
  cases s with
  | key k => simp [mapCallables, callables]
  | function f => simp [mapCallables, callables, CallableMap.apply]
  | sequence entries =>
    simp only [mapCallables, callables, callablesOfEntries_mapCallablesOfEntries m entries]

theorem callablesOfEntries_mapCallablesOfEntries (m : CallableMap C) (entries : List (Entry C)) :
    callablesOfEntries (mapCallablesOfEntries m entries) =
      (callablesOfEntries entries).map m.apply := by
  match entries with
  | [] => simp [mapCallablesOfEntries, callablesOfEntries]
  | .key k :: rest =>
    simp only [mapCallablesOfEntries, callablesOfEntries,
      callablesOfEntries_mapCallablesOfEntries m rest]
  | .function f :: rest =>
    simp only [mapCallablesOfEntries, callablesOfEntries,
      callablesOfEntries_mapCallablesOfEntries m rest, List.map_cons, CallableMap.apply]
  | .branch c outcome :: rest =>
    simp only [mapCallablesOfEntries, callablesOfEntries,
      callablesOfEntries_mapCallablesOfEntries m rest,
      callablesOfOutcome_mapCallablesOfOutcome m outcome,
      Condition.callables_mapCallables, List.map_append]

theorem callablesOfOutcome_mapCallablesOfOutcome (m : CallableMap C)
    (outcome : Option (Selector C)) :
    callablesOfOutcome (mapCallablesOfOutcome m outcome) =
      (callablesOfOutcome outcome).map m.apply := by
  cases outcome with
  | none => simp [mapCallablesOfOutcome, callablesOfOutcome]
  | some s => simp only [mapCallablesOfOutcome, callablesOfOutcome, callables_mapCallables m s]

end

mutual

theorem mapCallables_mapCallables (m n : CallableMap C) (s : Selector C) :
    (s.mapCallables m).mapCallables n = s.mapCallables (m.andThen n) := by
  cases s with
  | key k => simp only [mapCallables]
  | function f => simp only [mapCallables, CallableMap.andThen, Function.comp_apply]
  | sequence entries => simp only [mapCallables, mapCallablesOfEntries_twice m n entries]

theorem mapCallablesOfEntries_twice (m n : CallableMap C) (entries : List (Entry C)) :
    mapCallablesOfEntries n (mapCallablesOfEntries m entries) =
      mapCallablesOfEntries (m.andThen n) entries := by
  match entries with
  | [] => simp only [mapCallablesOfEntries]
  | .key k :: rest => simp only [mapCallablesOfEntries, mapCallablesOfEntries_twice m n rest]
  | .function f :: rest =>
    simp only [mapCallablesOfEntries, mapCallablesOfEntries_twice m n rest, CallableMap.andThen,
      Function.comp_apply]
  | .branch c outcome :: rest =>
    simp only [mapCallablesOfEntries, mapCallablesOfEntries_twice m n rest,
      mapCallablesOfOutcome_twice m n outcome, Condition.mapCallables_mapCallables]

theorem mapCallablesOfOutcome_twice (m n : CallableMap C) (outcome : Option (Selector C)) :
    mapCallablesOfOutcome n (mapCallablesOfOutcome m outcome) =
      mapCallablesOfOutcome (m.andThen n) outcome := by
  cases outcome with
  | none => simp only [mapCallablesOfOutcome]
  | some s => simp only [mapCallablesOfOutcome, mapCallables_mapCallables m n s]

end

end Selector

namespace FieldOptions

def callables (options : FieldOptions C) : List (Callable C) :=
  Selector.callablesOfOutcome options.contentKey

def mapCallables (m : CallableMap C) (options : FieldOptions C) : FieldOptions C :=
  ⟨Selector.mapCallablesOfOutcome m options.contentKey⟩

end FieldOptions

namespace FieldSet

def callables (fields : FieldSet C) : List (Callable C) :=
  fields.entries.flatMap fun e => e.2.callables

def mapCallables (m : CallableMap C) (fields : FieldSet C) : FieldSet C where
  entries := fields.entries.map fun e => (e.1, e.2.mapCallables m)
  ascending := List.pairwise_map.2 fields.ascending

theorem callables_mapCallables (m : CallableMap C) (fields : FieldSet C) :
    (fields.mapCallables m).callables = fields.callables.map m.apply := by
  simp only [callables, mapCallables, FieldOptions.callables, FieldOptions.mapCallables,
    List.flatMap_map, List.map_flatMap, Selector.callablesOfOutcome_mapCallablesOfOutcome]

theorem mapCallables_mapCallables (m n : CallableMap C) (fields : FieldSet C) :
    (fields.mapCallables m).mapCallables n = fields.mapCallables (m.andThen n) := by
  simp [mapCallables, FieldOptions.mapCallables, Selector.mapCallablesOfOutcome_twice]

end FieldSet

end FormRouting
