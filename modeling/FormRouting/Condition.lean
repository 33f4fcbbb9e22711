import FormRouting.Comparator
import FormRouting.Trace

/-!
# Conditions

A condition tests one field. It is decided by its predicate if it has one, else
by its operator if that is a predicate, else by a comparator between the current
value of the field and the value of the condition.
-/

namespace FormRouting

variable {C : Type}

inductive Operator (C : Type) where
  | builtIn (comparator : Comparator)
  | custom (predicate : Predicate C)

namespace Operator

instance : Inhabited (Operator C) := ⟨.builtIn .implicit⟩

def isImplicit : Operator C → Bool
  | .builtIn .implicit => true
  | _ => false

end Operator

structure Condition (C : Type) where
  field : String := ""
  operator : Operator C := .builtIn .implicit
  value : Option Json := none
  /-- When present, decides the condition on its own. -/
  predicate : Option (Predicate C) := none
deriving Inhabited

namespace Condition

/-- Nothing is written in the condition. -/
def isBlank (c : Condition C) : Bool :=
  c.field.isEmpty && c.value.isNone && c.predicate.isNone && c.operator.isImplicit

/-- Nothing is written in the condition, and no outcome either. -/
def isBlankWith {α : Type} (c : Condition C) (outcome : Option α) : Bool :=
  c.isBlank && outcome.isNone

def operands (c : Condition C) : Operands := ⟨c.field, c.value⟩

/-- What decides a condition. -/
inductive Decider (C : Type) where
  | predicate (p : Predicate C)
  | comparator (c : Comparator)

/-- The predicate wins over the operator. -/
def decider (c : Condition C) : Decider C :=
  match c.predicate, c.operator with
  | some p, _ => .predicate p
  | none, .custom p => .predicate p
  | none, .builtIn comparator => .comparator comparator

/-- Call a predicate; without a function the condition does not match. -/
def callPredicate (c : Condition C) (p : Predicate C) (current : Option Json) (ctx : C) :
    Traced Bool :=
  match p.body with
  | some body => ⟨body current ctx c.operands, [.call p.name current c.operands]⟩
  | none => ⟨false, [.notice (.unboundPredicate p.name c.field)]⟩

/-- Evaluate the condition for a current value of its field. -/
def evaluate (c : Condition C) (current : Option Json) (ctx : C) : Traced Bool :=
  match c.decider with
  | .predicate p => c.callPredicate p current ctx
  | .comparator comparator => ⟨comparator.holds current c.value, []⟩

end Condition

end FormRouting
