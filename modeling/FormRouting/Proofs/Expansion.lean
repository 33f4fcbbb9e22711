import FormRouting.Compilation
import Mathlib.Data.List.Basic

/-!
# Which parts of a rule are drawn

A rule is drawn from a stack of pending rules, where a group is replaced by the
rules of the groups inside it. These lemmas show what comes out in the end: the
ends of the rule with an even number of groups around them, from left to right.

* `Rule.leaves`: the ends of a rule, each with the number of groups around it.
* `Leaf.item?`: the edge or the diagnostic that an end gives, if any.
* `drawn_leaves_step`: one turn of the stack. A rule draws what it adds itself
  and then what it opens.
* `items_expand`: a whole run of the stack.
-/

namespace FormRouting

variable {C : Type}

/-- An end of a rule: a fixed target, or a condition with the target it may have. -/
inductive Leaf (C : Type) where
  | target (id : String)
  | branch (condition : Condition C) (target : Option String)

/-- What an end of a rule leaves in the result. -/
inductive Item where
  | edge (edge : Edge)
  | diagnostic (diagnostic : Diagnostic)
deriving DecidableEq

namespace Item

def edge? : Item → Option Edge
  | .edge e => some e
  | .diagnostic _ => none

def diagnostic? : Item → Option Diagnostic
  | .edge _ => none
  | .diagnostic d => some d

end Item

namespace Leaf

/-- The item of a condition that can be put into words. -/
def labelled (targets : Targets) (source label : String) (next : Option String) : Item :=
  match next with
  | none => .diagnostic (.missingTarget source)
  | some t =>
    if t = "" then .diagnostic (.missingTarget source)
    else .edge ⟨source, targets.normalize t, some label⟩

/-- **What an end of the rule of `source` gives.** An empty target and a blank condition give
nothing, any other condition exactly one item: its predicate decides, else its operator. -/
def item? (targets : Targets) (source : String) : Leaf C → Option Item
  | .target t => if t = "" then none else some (.edge ⟨source, targets.normalize t, none⟩)
  | .branch c next =>
    if c.isBlankWith next then none
    else
      match c.predicate with
      | some p =>
        match p.name with
        | none => some (.diagnostic (.unlabelable source .function))
        | some name => some (labelled targets source name next)
      | none =>
        match c.operator with
        | .custom p =>
          match p.name with
          | none => some (.diagnostic (.unlabelable source .operator))
          | some name => some (labelled targets source name next)
        | .builtIn comparator =>
          some (labelled targets source
            (c.field ++ " " ++ comparator.symbol ++ " " ++ Json.optionalLabel c.value) next)

end Leaf

namespace Rule

mutual

/-- **The ends of a rule from left to right**, each with the number of groups around it, where
`depth` groups are around the rule. -/
def leaves (depth : Nat) : Rule C → List (Nat × Leaf C)
  | .target t => [(depth, .target t)]
  | .branch c next => [(depth, .branch c next)]
  | .group rules => leavesOfAll (depth + 1) rules

def leavesOfAll (depth : Nat) : List (Rule C) → List (Nat × Leaf C)
  | [] => []
  | rule :: rest => leaves depth rule ++ leavesOfAll depth rest

end

end Rule

namespace Leaf

/-- The leaves with an even number of groups around them. -/
def even (leaves : List (Nat × Leaf C)) : List (Leaf C) :=
  (leaves.filter fun l => l.1 % 2 = 0).map Prod.snd

/-- The items of the leaves of even depth. -/
def drawn (targets : Targets) (source : String) (leaves : List (Nat × Leaf C)) : List Item :=
  (even leaves).filterMap (item? targets source)

end Leaf

/-- The items of a step: those of the leaves of even depth in its rule. -/
def Step.drawn (targets : Targets) (source : String) (step : Step C) : List Item :=
  match step.next with
  | none => []
  | some rule => Leaf.drawn targets source (rule.leaves 0)

/-- What a contribution leaves in the result. -/
def Contribution.item? (source : String) : Contribution → Option Item
  | .edge target label => some (.edge ⟨source, target, label⟩)
  | .diagnostic d => some (.diagnostic d)
  | .notice _ => none

open Rule

variable {targets : Targets} {source : String}

/-! ## Leaves -/

theorem leavesOfAll_append (depth : Nat) (a b : List (Rule C)) :
    leavesOfAll depth (a ++ b) = leavesOfAll depth a ++ leavesOfAll depth b := by
  induction a with
  | nil => simp [leavesOfAll]
  | cons rule rest ih => simp only [List.cons_append, leavesOfAll, ih, List.append_assoc]

theorem even_singleton (depth : Nat) (leaf : Leaf C) :
    Leaf.even [(depth, leaf)] = if depth % 2 = 0 then [leaf] else [] := by
  unfold Leaf.even
  by_cases h : depth % 2 = 0 <;> simp [h]

theorem even_append (a b : List (Nat × Leaf C)) : Leaf.even (a ++ b) = Leaf.even a ++ Leaf.even b := by
  unfold Leaf.even; rw [List.filter_append, List.map_append]

theorem drawn_append (a b : List (Nat × Leaf C)) :
    Leaf.drawn targets source (a ++ b) =
      Leaf.drawn targets source a ++ Leaf.drawn targets source b := by
  unfold Leaf.drawn; rw [even_append, List.filterMap_append]

mutual

/-- Two more groups around a rule change nothing in its leaves of even depth. -/
theorem even_leaves_add_two (depth : Nat) :
    ∀ rule : Rule C, Leaf.even (rule.leaves (depth + 2)) = Leaf.even (rule.leaves depth)
  | .target t => by simp only [leaves, even_singleton, Nat.add_mod_right]
  | .branch c next => by simp only [leaves, even_singleton, Nat.add_mod_right]
  | .group rules => by
    simp only [leaves]
    exact even_leavesOfAll_add_two (depth + 1) rules

theorem even_leavesOfAll_add_two (depth : Nat) :
    ∀ rules : List (Rule C),
      Leaf.even (leavesOfAll (depth + 2) rules) = Leaf.even (leavesOfAll depth rules)
  | [] => by simp [leavesOfAll]
  | rule :: rest => by
    simp only [leavesOfAll, even_append]
    rw [even_leaves_add_two depth rule, even_leavesOfAll_add_two depth rest]

end

/-- Inside one group, the leaves of even depth are those of the groups in it. -/
theorem even_leaves_branches (rules : List (Rule C)) :
    Leaf.even (leavesOfAll 1 rules) = Leaf.even (leavesOfAll 0 (branches rules)) := by
  induction rules with
  | nil => simp [leavesOfAll, branches]
  | cons rule rest ih =>
    simp only [leavesOfAll, even_append, ih]
    cases rule with
    | target t => simp [leaves, branches, Leaf.even]
    | branch c next => simp [leaves, branches, Leaf.even]
    | group inner =>
      simp only [leaves, branches, leavesOfAll_append, even_append]
      rw [even_leavesOfAll_add_two 0 inner]

/-! ## One turn of the stack -/

theorem items_bareEntries (rules : List (Rule C)) :
    (bareEntries source rules).filterMap (Contribution.item? source) = [] := by
  induction rules with
  | nil => rfl
  | cons rule rest ih =>
    cases rule with
    | target t => rw [bareEntries, List.filterMap_cons_none rfl, ih]; simp
    | branch c next => rw [bareEntries, List.filterMap_cons_none rfl, ih]; simp
    | group inner => rw [bareEntries, ih]

/-- A condition that can be put into words adds its labelled item. -/
theorem item_of_label_ok {c : Condition C} {next : Option String} {label : String}
    (hb : c.isBlankWith next = false) (hl : c.label = .ok label) :
    (branchContribution targets source c next).item? source =
      some (Leaf.labelled targets source label next) := by
  unfold branchContribution Leaf.labelled
  rw [if_neg (by simp [hb]), hl]
  cases next with
  | none => rfl
  | some t =>
    by_cases ht : t = ""
    · simp [ht, Contribution.item?]
    · simp [ht, Contribution.item?]

theorem item_of_label_error {c : Condition C} {next : Option String} {d : Discriminator}
    (hb : c.isBlankWith next = false) (hl : c.label = .error d) :
    (branchContribution targets source c next).item? source =
      some (.diagnostic (.unlabelable source d)) := by
  unfold branchContribution
  rw [if_neg (by simp [hb]), hl]
  rfl

/-- A condition adds what it gives as a leaf. -/
theorem item_branchContribution (c : Condition C) (next : Option String) :
    (branchContribution targets source c next).item? source =
      Leaf.item? targets source (.branch c next) := by
  cases hb : c.isBlankWith next with
  | true => simp [branchContribution, Leaf.item?, hb, Contribution.item?]
  | false =>
    simp only [Leaf.item?, hb, Bool.false_eq_true, if_false]
    cases hp : c.predicate with
    | some p =>
      cases hn : p.name with
      | none =>
        have hl : c.label = .error .function := by simp [Condition.label, hp, hn]
        rw [item_of_label_error hb hl]; simp only [hn]
      | some name =>
        have hl : c.label = .ok name := by simp [Condition.label, hp, hn]
        rw [item_of_label_ok hb hl]; simp only [hn]
    | none =>
      cases ho : c.operator with
      | custom p =>
        cases hn : p.name with
        | none =>
          have hl : c.label = .error .operator := by simp [Condition.label, hp, ho, hn]
          rw [item_of_label_error hb hl]; simp only [hn]
        | some name =>
          have hl : c.label = .ok name := by simp [Condition.label, hp, ho, hn]
          rw [item_of_label_ok hb hl]; simp only [hn]
      | builtIn comparator =>
        have hl : c.label = .ok (c.field ++ " " ++ comparator.symbol ++ " " ++
            Json.optionalLabel c.value) := by simp only [Condition.label, hp, ho]
        rw [item_of_label_ok hb hl]

/-- **One turn of the stack.** The leaves of even depth of a rule give what the rule adds itself,
and then what the rules that it opens give. -/
theorem drawn_leaves_step (rule : Rule C) :
    Leaf.drawn targets source (rule.leaves 0) =
      (rule.ownContributions targets source).filterMap (Contribution.item? source) ++
        Leaf.drawn targets source (leavesOfAll 0 rule.opened) := by
  cases rule with
  | target t =>
    by_cases ht : t = "" <;>
      simp [leaves, leavesOfAll, Leaf.drawn, Leaf.even, Leaf.item?, ownContributions, opened,
        Contribution.item?, ht]
  | branch c next =>
    simp [leaves, leavesOfAll, Leaf.drawn, Leaf.even, ownContributions, opened,
      item_branchContribution, List.filterMap_cons]
  | group rules =>
    simp only [leaves, ownContributions, opened, items_bareEntries, List.nil_append, Leaf.drawn]
    rw [even_leaves_branches]

/-! ## A whole run -/

/-- **What a run of the stack draws.** Pending rules give the items of their leaves of even depth,
in order. -/
theorem items_expand (pending : List (Rule C)) :
    (expand targets source pending).filterMap (Contribution.item? source) =
      Leaf.drawn targets source (leavesOfAll 0 pending) := by
  -- along the run, what is drawn so far and the leaves of the pending rules give the same items
  fun_induction expand targets source pending with
  | case1 => simp [leavesOfAll, Leaf.drawn, Leaf.even]
  | case2 rule pending ih =>
    rw [List.filterMap_append, ih, leavesOfAll_append, drawn_append, leavesOfAll, drawn_append,
      drawn_leaves_step, List.append_assoc]

theorem items_stepContributions (step : Step C) :
    (StepMap.stepContributions targets source step).filterMap (Contribution.item? source) =
      step.drawn targets source := by
  unfold StepMap.stepContributions Step.drawn
  cases step.next with
  | none => rfl
  | some rule =>
    simp only [contributions, items_expand, leavesOfAll, List.append_nil]

end FormRouting
