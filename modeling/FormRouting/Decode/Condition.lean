import FormRouting.Decode.Record
import FormRouting.Condition

/-!
# Decoding conditions

A condition is a record of a field, an operator, a value, a predicate and an
outcome, all optional. What kind of outcome it has depends on where it stands.

The operator is a comparator symbol or the name of a predicate; left out, empty
or `null` it is the implicit comparator.
-/

namespace FormRouting.Decode

variable {C α : Type}

/-- A predicate is written by its name. -/
def predicate (t : Tree) : Decoded (Predicate C) := do
  let name ← string t
  if name.isEmpty then throw .emptyPredicateName
  return .reference name

def operator (t : Tree) : Decoded (Operator C) :=
  match t with
  | .null => .ok (.builtIn .implicit)
  | .string s =>
    if s.isEmpty then .ok (.builtIn .implicit)
    else
      match Comparator.ofSymbol? s with
      | some comparator => .ok (.builtIn comparator)
      | none => .ok (.custom (.reference s))
  | other => .error (.mismatch .operator other)

/-- The names of a condition's fields in their order. -/
def conditionFields : List (List String) := [["field"], ["op"], ["value"], ["fn"], ["next", "key"]]

/-- The fields of a condition that have been read. -/
structure ConditionParts (C α : Type) where
  field : Option String := none
  operator : Option (Operator C) := none
  value : Option (Option Json) := none
  predicate : Option (Option (Predicate C)) := none
  outcome : Option (Option α) := none

namespace ConditionParts

/-- The condition and its outcome, with defaults for what was not written. -/
def finish (parts : ConditionParts C α) : Condition C × Option α :=
  ({ field := parts.field.getD ""
     operator := parts.operator.getD (.builtIn .implicit)
     value := parts.value.getD none
     predicate := parts.predicate.getD none },
    parts.outcome.getD none)

/-- Read one entry of a condition that is written with names. -/
def read (format : Format) (outcome : Tree → Decoded α) (parts : ConditionParts C α)
    (name value : Tree) : Decoded (ConditionParts C α) := do
  match ← field? format conditionFields name with
  | some 0 =>
    if parts.field.isSome then throw (.duplicateField "field")
    return { parts with field := some (← string value) }
  | some 1 =>
    if parts.operator.isSome then throw (.duplicateField "op")
    return { parts with operator := some (← Decode.operator value) }
  | some 2 =>
    if parts.value.isSome then throw (.duplicateField "value")
    return { parts with value := some (← optional json value) }
  | some 3 =>
    if parts.predicate.isSome then throw (.duplicateField "fn")
    return { parts with predicate := some (← optional Decode.predicate value) }
  | some _ =>
    if parts.outcome.isSome then throw (.duplicateField "next")
    return { parts with outcome := some (← optional outcome value) }
  | none =>
    skip value
    return parts

end ConditionParts

/-- A condition written with names. -/
def conditionEntries (format : Format) (outcome : Tree → Decoded α) (parts : ConditionParts C α) :
    List (Tree × Tree) → Decoded (ConditionParts C α)
  | [] => .ok parts
  | (name, value) :: rest => do
    let parts ← parts.read format outcome name value
    conditionEntries format outcome parts rest

/-- A condition written as a list of its fields. -/
def conditionItems (format : Format) (outcome : Tree → Decoded α) (items : List Tree) :
    Decoded (Condition C × Option α) := do
  let (field, rest) ← next "" string items
  let (operator, rest) ← next (.builtIn .implicit) Decode.operator rest
  let (value, rest) ← next none (optional json) rest
  let (predicate, rest) ← next none (optional Decode.predicate) rest
  let (outcome, rest) ← next none (optional outcome) rest
  listEnd format items.length rest
  return ({ field, operator, value, predicate }, outcome)

/-- A condition and its outcome. -/
def condition (format : Format) (outcome : Tree → Decoded α) (t : Tree) :
    Decoded (Condition C × Option α) :=
  match t with
  | .record entries => (conditionEntries format outcome {} entries).map ConditionParts.finish
  | .list items => conditionItems format outcome items
  | other => .error (.mismatch .condition other)

end FormRouting.Decode
