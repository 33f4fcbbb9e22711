import FormRouting.Compilation
import FormRouting.Decode.Rule

/-!
# Form definitions

A form definition is a JSON value that holds a step map. It is either not a
definition at all, because it is not an object, or has a rule that cannot be
read, or it compiles.
-/

namespace FormRouting

variable {C : Type}

inductive DefinitionError where
  | invalidDefinition
  | invalidRule (cause : DecodeError)
deriving DecidableEq, Inhabited

def DefinitionError.message : DefinitionError → String
  | .invalidDefinition => "Invalid form definition"
  | .invalidRule cause => "Invalid rule: " ++ cause.message .json

/-- The value is an object. -/
def Json.isObject : Json → Bool
  | .object _ => true
  | _ => false

namespace StepMap

/-- The step map of a form definition. -/
def ofDefinition (definition : Json) : Except DefinitionError (StepMap C) :=
  if definition.isObject then
    match Decode.stepMap .json definition.toTree with
    | .ok steps => .ok steps
    | .error cause => .error (.invalidRule cause)
  else .error .invalidDefinition

/-- The drawing of a form definition. -/
def compileDefinition (definition : Json) : Except DefinitionError Compilation :=
  (ofDefinition (C := Unit) definition).map compile

end StepMap

end FormRouting
