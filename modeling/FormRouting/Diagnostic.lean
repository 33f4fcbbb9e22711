/-!
# Diagnostics

A branch of a step that cannot be drawn does not stop the drawing; it leaves a
diagnostic that names the step.
-/

namespace FormRouting

/-- The part of a condition that decides a branch and has no name to show. -/
inductive Discriminator where
  | function
  | operator
deriving DecidableEq, Inhabited

inductive Diagnostic where
  /-- The branch is decided by something without a name, so its edge has no label. -/
  | unlabelable (step : String) (discriminator : Discriminator)
  /-- The branch leads nowhere. -/
  | missingTarget (step : String)
deriving DecidableEq, Inhabited

namespace Diagnostic

/-- The step that the diagnostic is about. -/
def step : Diagnostic → String
  | .unlabelable step _ => step
  | .missingTarget step => step

def message : Diagnostic → String
  | .unlabelable step .function =>
    "step '" ++ step ++ "': unnamed function in next step condition"
  | .unlabelable step .operator =>
    "step '" ++ step ++ "': unnamed function used as operator"
  | .missingTarget step => "step '" ++ step ++ "': condition has no next step"

end Diagnostic

end FormRouting
