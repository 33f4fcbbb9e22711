import FormRouting.Decode.Condition
import FormRouting.Rule

/-!
# Decoding step maps

A rule is read as a target, else as a group, else as a condition: a string is a
target, a list whose elements are all rules is a group, and what is left has to
be a condition.

* `Rule.ofTree?`: the rule that a tree stands for.
* `Decode.stepMap`: a step map. A repeated identifier keeps its first place and
  its last step.
-/

namespace FormRouting

variable {C : Type}

/-- A condition with the step that follows. -/
def Rule.branchOfTree? (t : Tree) : Option (Rule C) :=
  match Decode.condition .choice Decode.string t with
  | .ok (condition, outcome) => some (.branch condition outcome)
  | .error _ => none

mutual

/-- The first form that fits, in the order target, group, condition. -/
def Rule.ofTree? : Tree → Option (Rule C)
  | .string s => some (.target s)
  | .list items =>
    match Rule.listOfTrees? items with
    | some rules => some (.group rules)
    | none => Rule.branchOfTree? (.list items)
  | .record entries => Rule.branchOfTree? (.record entries)
  | _ => none

def Rule.listOfTrees? : List Tree → Option (List (Rule C))
  | [] => some []
  | t :: rest =>
    match Rule.ofTree? t, Rule.listOfTrees? rest with
    | some rule, some rules => some (rule :: rules)
    | _, _ => none

end

namespace Decode

def rule (t : Tree) : Decoded (Rule C) := do
  plain t
  match Rule.ofTree? t with
  | some rule => return rule
  | none => throw (.noForm .rule)

def stepFields : List (List String) := [["next"]]

/-- A step written with names; `read` is its rule once that has been read. -/
def stepEntries (format : Format) (read : Option (Option (Rule C))) :
    List (Tree × Tree) → Decoded (Step C)
  | [] => .ok ⟨read.getD none⟩
  | (name, value) :: rest => do
    match ← field? format stepFields name with
    | some _ =>
      if read.isSome then throw (.duplicateField "next")
      let next ← optional rule value
      stepEntries format (some next) rest
    | none =>
      skip value
      stepEntries format read rest

/-- A step. In a YAML document a tagged null is a step without a rule. -/
def step (format : Format) (t : Tree) : Decoded (Step C) :=
  match t.untag with
  | .record entries => stepEntries format none entries
  | .list items =>
    if format = .yaml then .error (.mismatch .step (.list items))
    else do
      let (rule, rest) ← next none (optional rule) items
      listEnd format items.length rest
      return ⟨rule⟩
  | .null => if format = .yaml then .ok .terminal else .error (.mismatch .step .null)
  | other => .error (.mismatch .step other)

/-- Steps under their identifiers, added to `steps` one after the other. -/
def stepMapEntries (format : Format) (steps : StepMap C) :
    List (Tree × Tree) → Decoded (StepMap C)
  | [] => .ok steps
  | (name, value) :: rest => do
    let id ← string name
    let step ← optional (step format) value
    stepMapEntries format (steps.insert id (step.getD .terminal)) rest

def stepMap (format : Format) (t : Tree) : Decoded (StepMap C) :=
  match t.untag with
  | .record entries => stepMapEntries format Table.empty entries
  | other => .error (.mismatch .stepMap other)

end Decode

end FormRouting
