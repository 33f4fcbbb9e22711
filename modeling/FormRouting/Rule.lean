import FormRouting.Condition

/-!
# Step maps

What follows each step of a form. A step has at most one rule; a rule is a fixed
target, a group of rules, or a condition with a target of its own.
-/

namespace FormRouting

inductive Rule (C : Type) where
  /-- The step that follows in any case. -/
  | target (id : String)
  /-- Alternatives, in declared order. -/
  | group (rules : List (Rule C))
  /-- The step that follows if the condition holds. -/
  | branch (condition : Condition C) (target : Option String)
deriving Inhabited

/-- A step; without a rule it is terminal. -/
structure Step (C : Type) where
  next : Option (Rule C) := none
deriving Inhabited

namespace Step

/-- A step with nothing after it. -/
def terminal {C : Type} : Step C := ⟨none⟩

end Step

/-- Steps by identifier, in declaration order. -/
abbrev StepMap (C : Type) := Table (Step C)

end FormRouting
