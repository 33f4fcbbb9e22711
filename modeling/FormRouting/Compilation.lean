import FormRouting.Rule
import FormRouting.Graph
import FormRouting.Json.Label

/-!
# Drawing a step map

Every step becomes a node. A fixed target gives an edge without a label and a
condition an edge labelled with its test. A group only branches into the groups
inside it: their rules are drawn, the entries beside them give no edge.

* `Rule.expand`: what rules add to the drawing, drawn from a stack of pending rules.
* `Rule.contributions`: what one rule adds to the drawing, in order.
* `StepMap.compile`: the graph of a step map with the diagnostics of the branches
  that could not be drawn.
* `StepMap.compileNotices`: the notices that compiling writes.
-/

namespace FormRouting

variable {C : Type}

/-- What a rule adds to a drawing. -/
inductive Contribution where
  | edge (target : String) (label : Option String)
  | diagnostic (diagnostic : Diagnostic)
  | notice (notice : Notice)
deriving Inhabited

/-- The identifiers that targets are matched with. -/
structure Targets where
  declared : List String

namespace Targets

/-- The text starts with a slash, like the path of an address. -/
def isPath (s : String) : Bool := s.toList.head? == some '/'

/-- Some step is named by a path. -/
def pathKeyed (t : Targets) : Bool := t.declared.any isPath

/-- The step that a target means. Where steps are named by paths, a target may leave out the
leading slash, unless the bare name is a step. -/
def normalize (t : Targets) (target : String) : String :=
  if !t.pathKeyed || isPath target || t.declared.contains target then target else "/" ++ target

end Targets

/-- The words for a condition on an edge, or the part that has none. -/
def Condition.label (c : Condition C) : Except Discriminator String :=
  match c.predicate, c.operator with
  | some p, _ => p.name.elim (.error .function) .ok
  | none, .custom p => p.name.elim (.error .operator) .ok
  | none, .builtIn comparator =>
    .ok (c.field ++ " " ++ comparator.symbol ++ " " ++ Json.optionalLabel c.value)

namespace Rule

/-- What a condition adds. A label that is missing is reported before a target that is. -/
def branchContribution (targets : Targets) (source : String) (c : Condition C)
    (target : Option String) : Contribution :=
  if c.isBlankWith target then .notice (.blankCondition source)
  else
    match c.label, target with
    | .error discriminator, _ => .diagnostic (.unlabelable source discriminator)
    | .ok _, none => .diagnostic (.missingTarget source)
    | .ok label, some t =>
      if t.isEmpty then .diagnostic (.missingTarget source)
      else .edge (targets.normalize t) (some label)

/-- A notice for every entry of a group that is not a group. -/
def bareEntries (source : String) : List (Rule C) → List Contribution
  | [] => []
  | .group _ :: rest => bareEntries source rest
  | _ :: rest => .notice (.bareEntry source) :: bareEntries source rest

/-- The rules of the groups among the entries of a group, in declared order. -/
def branches : List (Rule C) → List (Rule C)
  | [] => []
  | .group inner :: rest => inner ++ branches rest
  | _ :: rest => branches rest

/-- What a rule adds before anything inside it. -/
def ownContributions (targets : Targets) (source : String) : Rule C → List Contribution
  | .target t => if t.isEmpty then [] else [.edge (targets.normalize t) none]
  | .branch c t => [branchContribution targets source c t]
  | .group rules => bareEntries source rules

/-- The rules that are drawn in place of a rule. -/
def opened : Rule C → List (Rule C)
  | .group rules => branches rules
  | _ => []

mutual

/-- The number of rules in a rule, itself included. -/
def size : Rule C → Nat
  | .group rules => totalSize rules + 1
  | _ => 1

def totalSize : List (Rule C) → Nat
  | [] => 0
  | rule :: rest => size rule + totalSize rest

end

theorem totalSize_append (a b : List (Rule C)) :
    totalSize (a ++ b) = totalSize a + totalSize b := by
  induction a with
  | nil => simp [totalSize]
  | cons rule rest ih => simp only [List.cons_append, totalSize, ih]; omega

theorem totalSize_branches_le (rules : List (Rule C)) :
    totalSize (branches rules) ≤ totalSize rules := by
  induction rules with
  | nil => simp [branches]
  | cons rule rest ih =>
    cases rule with
    | group inner => simp only [branches, totalSize_append, totalSize, size]; omega
    | target _ => simp only [branches, totalSize]; omega
    | branch _ _ => simp only [branches, totalSize]; omega

theorem totalSize_opened_lt (rule : Rule C) : totalSize rule.opened < rule.size := by
  cases rule with
  | group rules =>
    have := totalSize_branches_le rules
    simp only [opened, size]; omega
  | target _ => simp [opened, totalSize, size]
  | branch _ _ => simp [opened, totalSize, size]

/-- Draw the pending rules, the next one first. A group leaves the rules of its groups pending,
before everything that was pending already. -/
def expand (targets : Targets) (source : String) : List (Rule C) → List Contribution
  | [] => []
  | rule :: pending =>
    rule.ownContributions targets source ++ expand targets source (rule.opened ++ pending)
termination_by pending => totalSize pending
decreasing_by
  have := totalSize_opened_lt rule
  simp only [totalSize_append, totalSize]; omega

/-- What a rule adds to the drawing of the step `source`, in declared order. -/
def contributions (targets : Targets) (source : String) (rule : Rule C) : List Contribution :=
  expand targets source [rule]

end Rule

/-- A graph, and what could not be drawn in it. -/
structure Compilation where
  graph : Graph := {}
  diagnostics : List Diagnostic := []
deriving DecidableEq, Inhabited

namespace Compilation

/-- Add a contribution of the step `source`. -/
def add (source : String) (out : Compilation) : Contribution → Compilation
  | .edge target label => { out with graph := out.graph.addEdge source target label }
  | .diagnostic d => { out with diagnostics := out.diagnostics ++ [d] }
  | .notice _ => out

/-- Add a step and everything its rule adds. -/
def addStep (out : Compilation) (id : String) (contributions : List Contribution) : Compilation :=
  contributions.foldl (add id) { out with graph := out.graph.setNode id }

end Compilation

namespace StepMap

/-- The identifiers of a step map as targets. -/
def targets (steps : StepMap C) : Targets := ⟨steps.keys⟩

/-- What the rule of one step adds. -/
def stepContributions (targets : Targets) (id : String) (step : Step C) : List Contribution :=
  match step.next with
  | some rule => rule.contributions targets id
  | none => []

/-- The graph of a step map. -/
def compile (steps : StepMap C) : Compilation :=
  steps.entries.foldl (fun out e => out.addStep e.1 (stepContributions (targets steps) e.1 e.2)) {}

/-- The notices of compiling: about ignored parts of the rules, then about every diagnostic, then
a summary. -/
def compileNotices (steps : StepMap C) : List Notice :=
  let ignored := steps.entries.flatMap fun e =>
    (stepContributions (targets steps) e.1 e.2).filterMap fun
      | .notice n => some n
      | _ => none
  let result := compile steps
  ignored ++ result.diagnostics.map Notice.undrawn ++
    [.compiled steps.size result.graph.nodes.length result.graph.edges.length]

end StepMap

end FormRouting
