import FormRouting.Rule
import FormRouting.FieldSet

/-!
# Binding names to functions

A registry holds functions under names, predicates and key functions apart.
Binding gives every callable that has a name but no function the function
registered under its name. It stops at the first name that is not registered;
what was bound before stays bound.

The order decides which name is reported. Within a condition the predicate comes
before the operator.

* A step map is bound step by step; in a step the last condition comes first.
* A selector sequence is bound entry by entry, and then the outcomes of its
  entries, the last one first.
* A field set is bound by ascending name.

Steps, entries and fields are bound by one fold, `Attempt.each`, over the binder of what stands
under a name, `Attempt.named`. It keeps the names (`names_each_named`).
-/

namespace FormRouting

variable {C : Type}

inductive BindError where
  | unknownPredicate (name : String)
  | unknownKeyFunction (name : String)
deriving DecidableEq, Inhabited

namespace BindError

def name : BindError → String
  | .unknownPredicate name => name
  | .unknownKeyFunction name => name

def message : BindError → String
  | .unknownPredicate name => "Predicate '" ++ name ++ "' not registered"
  | .unknownKeyFunction name => "Key function '" ++ name ++ "' not registered"

end BindError

/-- What binding has left behind, and why it stopped if it did. -/
structure Attempt (α : Type) where
  state : α
  error : Option BindError := none

namespace Attempt

variable {α β : Type}

def map (f : α → β) (a : Attempt α) : Attempt β := ⟨f a.state, a.error⟩

/-- One attempt, and after it, unless it stopped, another one on `untouched`. -/
def both (first : Attempt α) (second : Attempt β) (untouched : β) : Attempt (α × β) :=
  match first.error with
  | some e => ⟨(first.state, untouched), some e⟩
  | none => ⟨(first.state, second.state), second.error⟩

/-- An attempt on every element of a list, from the first to the last, until one stops. -/
def each (f : α → Attempt α) : List α → Attempt (List α)
  | [] => ⟨[], none⟩
  | x :: rest => (both (f x) (each f rest) rest).map fun (x, rest) => x :: rest

/-- An attempt on what stands under a name. -/
def named (f : α → Attempt α) (entry : String × α) : Attempt (String × α) :=
  (f entry.2).map (entry.1, ·)

/-- What does not change when one element after the other is attempted does not change in the list,
wherever that stops. -/
theorem each_keeps {f : α → Attempt α} {g : List α → β}
    (hcons : ∀ (x : α) {rest rest' : List α}, g rest' = g rest →
      g ((f x).state :: rest') = g (x :: rest)) (l : List α) : g (each f l).state = g l := by
  induction l with
  | nil => rfl
  | cons x rest ih =>
    simp only [each, Attempt.map, both]
    cases (f x).error with
    | some e => exact hcons x rfl
    | none => exact hcons x ih

/-- What no attempt changes in an element is the same in all elements of the list. -/
theorem map_state_each {f : α → Attempt α} {g : α → β} (h : ∀ x, g (f x).state = g x)
    (l : List α) : (each f l).state.map g = l.map g := by
  refine each_keeps (g := List.map g) (fun x rest rest' hrest => ?_) l
  rw [List.map_cons, List.map_cons, h, hrest]

/-- The names stay. -/
theorem names_each_named (f : α → Attempt α) (entries : List (String × α)) :
    (each (named f) entries).state.map Prod.fst = entries.map Prod.fst :=
  map_state_each (fun _ => rfl) entries

theorem ascends_each_named (f : α → Attempt α) {entries : List (String × α)}
    (h : NamesAscend entries) : NamesAscend (each (named f) entries).state := by
  have hnames : (entries.map Prod.fst).Pairwise (· < ·) := List.pairwise_map.2 h
  rw [← names_each_named f] at hnames
  exact List.pairwise_map.1 hnames

end Attempt

structure Registry (C : Type) where
  predicates : Table (Predicate.Body C) := Table.empty
  keyFunctions : Table (KeyFunction.Body C) := Table.empty
deriving Inhabited

namespace Registry

def empty : Registry C := {}

def registerPredicate (r : Registry C) (name : String) (body : Predicate.Body C) : Registry C :=
  { r with predicates := r.predicates.insert name body }

def registerKeyFunction (r : Registry C) (name : String) (body : KeyFunction.Body C) :
    Registry C :=
  { r with keyFunctions := r.keyFunctions.insert name body }

def hasPredicate (r : Registry C) (name : String) : Bool := r.predicates.contains name

/-- A bound predicate of this name. -/
def predicate? (r : Registry C) (name : String) : Option (Predicate C) :=
  (r.predicates.get? name).map (Predicate.named name)

/-- A bound key function of this name. -/
def keyFunction? (r : Registry C) (name : String) : Option (KeyFunction C) :=
  (r.keyFunctions.get? name).map (KeyFunction.named name)

/-- A predicate that has a function or no name is left alone. -/
def bindPredicate (r : Registry C) (p : Predicate C) : Attempt (Predicate C) :=
  match p.body, p.name with
  | none, some name =>
    match r.predicates.get? name with
    | some body => ⟨p.bind body, none⟩
    | none => ⟨p, some (.unknownPredicate name)⟩
  | _, _ => ⟨p, none⟩

/-- A key function that has a function or no name is left alone. -/
def bindKeyFunction (r : Registry C) (f : KeyFunction C) : Attempt (KeyFunction C) :=
  match f.body, f.name with
  | none, some name =>
    match r.keyFunctions.get? name with
    | some body => ⟨f.bind body, none⟩
    | none => ⟨f, some (.unknownKeyFunction name)⟩
  | _, _ => ⟨f, none⟩

def bindOptional (r : Registry C) : Option (Predicate C) → Attempt (Option (Predicate C))
  | none => ⟨none, none⟩
  | some p => (r.bindPredicate p).map some

def bindOperator (r : Registry C) : Operator C → Attempt (Operator C)
  | .builtIn comparator => ⟨.builtIn comparator, none⟩
  | .custom p => (r.bindPredicate p).map .custom

def bindCondition (r : Registry C) (c : Condition C) : Attempt (Condition C) :=
  (Attempt.both (r.bindOptional c.predicate) (r.bindOperator c.operator) c.operator).map
    fun (predicate, operator) => { c with predicate := predicate, operator := operator }

mutual

def bindRule (r : Registry C) : Rule C → Attempt (Rule C)
  | .target id => ⟨.target id, none⟩
  | .branch c target => (r.bindCondition c).map (.branch · target)
  | .group rules => (bindRules r rules).map .group

/-- The last rule comes first. -/
def bindRules (r : Registry C) : List (Rule C) → Attempt (List (Rule C))
  | [] => ⟨[], none⟩
  | rule :: rest =>
    (Attempt.both (bindRules r rest) (bindRule r rule) rule).map fun (rest, rule) => rule :: rest

end

def bindStep (r : Registry C) (step : Step C) : Attempt (Step C) :=
  match step.next with
  | none => ⟨step, none⟩
  | some rule => (r.bindRule rule).map fun rule => ⟨some rule⟩

/-- Bind steps under their names, from the first to the last. -/
def bindSteps (r : Registry C) (entries : List (String × Step C)) :
    Attempt (List (String × Step C)) :=
  .each (.named r.bindStep) entries

/-- Bind every predicate of a step map. -/
def bindStepMap (r : Registry C) (steps : StepMap C) : Attempt (StepMap C) :=
  ⟨⟨(r.bindSteps steps.entries).state,
      Attempt.names_each_named r.bindStep steps.entries ▸ steps.distinct⟩,
    (r.bindSteps steps.entries).error⟩

/-- Bind an entry except for its outcome. -/
def bindEntry (r : Registry C) : Entry C → Attempt (Entry C)
  | .key k => ⟨.key k, none⟩
  | .function f => (r.bindKeyFunction f).map .function
  | .branch c outcome => (r.bindCondition c).map (.branch · outcome)

/-- Bind entries except for their outcomes, from the first to the last. -/
def bindEntries (r : Registry C) (entries : List (Entry C)) : Attempt (List (Entry C)) :=
  .each r.bindEntry entries

mutual

/-- Bind every predicate and key function of a selector. -/
def bindSelector (r : Registry C) : Selector C → Attempt (Selector C)
  | .key k => ⟨.key k, none⟩
  | .function f => (r.bindKeyFunction f).map .function
  | .sequence entries =>
    match (r.bindEntries entries).error with
    | some e => ⟨.sequence (r.bindEntries entries).state, some e⟩
    | none => (bindOutcomes r entries).map .sequence

/-- Bind the outcomes of entries from the last to the first; everything else of the entries
is bound already. -/
def bindOutcomes (r : Registry C) : List (Entry C) → Attempt (List (Entry C))
  | [] => ⟨[], none⟩
  | .key k :: rest => (bindOutcomes r rest).map (.key k :: ·)
  | .function f :: rest =>
    (bindOutcomes r rest).map (.function (r.bindKeyFunction f).state :: ·)
  | .branch c outcome :: rest =>
    (Attempt.both (bindOutcomes r rest) (bindOutcome r outcome) outcome).map
      fun (rest, outcome) => .branch (r.bindCondition c).state outcome :: rest

def bindOutcome (r : Registry C) : Option (Selector C) → Attempt (Option (Selector C))
  | none => ⟨none, none⟩
  | some s => (bindSelector r s).map some

end

def bindOptions (r : Registry C) (options : FieldOptions C) : Attempt (FieldOptions C) :=
  (r.bindOutcome options.contentKey).map fun key => ⟨key⟩

/-- Bind options under the names of their fields, from the first to the last. -/
def bindFields (r : Registry C) (entries : List (String × FieldOptions C)) :
    Attempt (List (String × FieldOptions C)) :=
  .each (.named r.bindOptions) entries

/-- Bind the selectors of every field. -/
def bindFieldSet (r : Registry C) (fields : FieldSet C) : Attempt (FieldSet C) :=
  ⟨⟨(r.bindFields fields.entries).state,
      Attempt.ascends_each_named r.bindOptions fields.ascending⟩,
    (r.bindFields fields.entries).error⟩

end Registry

end FormRouting
