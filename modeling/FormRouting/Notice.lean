import FormRouting.Diagnostic

/-!
# Notices

Messages for the log. They report soft failures and progress and never change a
result.
-/

namespace FormRouting

inductive Notice where
  /-- A condition depends on a predicate without a function and does not match. -/
  | unboundPredicate (name : Option String) (field : String)
  /-- A key function without a function gives no key. -/
  | unboundKeyFunction (name : Option String)
  | matched (field : String)
  | contentKeyRemoved (field : String)
  /-- A condition with nothing written in it gives no edge. -/
  | blankCondition (step : String)
  /-- An entry beside the groups of a sequence gives no edge. -/
  | bareEntry (step : String)
  | undrawn (diagnostic : Diagnostic)
  | compiled (steps nodes edges : Nat)
  | loaded (steps : Nat)
deriving DecidableEq, Inhabited

inductive Level where
  | debug
  | warn
deriving DecidableEq, Inhabited

namespace Notice

def level : Notice → Level
  | .unboundPredicate .. | .unboundKeyFunction _ | .undrawn _ => .warn
  | _ => .debug

private def shown (name : Option String) : String := name.getD "<anonymous>"

def message : Notice → String
  | .unboundPredicate name field =>
    "Predicate '" ++ shown name ++ "' is not bound; treating condition on '" ++ field ++
      "' as unmatched"
  | .unboundKeyFunction name =>
    "Key function '" ++ shown name ++ "' is not bound; no key selected"
  | .matched field => "Condition on '" ++ field ++ "' matched"
  | .contentKeyRemoved field => "Field '" ++ field ++ "': content key removed"
  | .blankCondition step => "Step '" ++ step ++ "': empty next step condition ignored"
  | .bareEntry step =>
    "Step '" ++ step ++ "': bare entry in next step sequence produces no edge"
  | .undrawn diagnostic => diagnostic.message
  | .compiled steps nodes edges =>
    "Compiled " ++ toString steps ++ " steps into " ++ toString nodes ++ " nodes and " ++
      toString edges ++ " edges"
  | .loaded steps => "Loaded " ++ toString steps ++ " steps"

end Notice

end FormRouting
