import FormRouting.Condition

/-!
# Selectors

How a key is chosen: a fixed key, a key function, or a sequence of entries of
which the first hit counts. A condition entry hands over to its outcome, which is
a selector again.
-/

namespace FormRouting

mutual

inductive Selector (C : Type) where
  | key (key : String)
  | function (f : KeyFunction C)
  /-- The first entry that hits decides. -/
  | sequence (entries : List (Entry C))

inductive Entry (C : Type) where
  /-- A fallback key; ends the scan. -/
  | key (key : String)
  /-- A fallback function; ends the scan. -/
  | function (f : KeyFunction C)
  /-- Hits when the condition holds. -/
  | branch (condition : Condition C) (outcome : Option (Selector C))

end

namespace Selector

instance {C : Type} : Inhabited (Selector C) := ⟨.sequence []⟩

end Selector

end FormRouting
