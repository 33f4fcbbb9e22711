import FormRouting.Proofs.Binding.Untouched
import FormRouting.Proofs.ByName
import FormRouting.Proofs.Drawing

/-!
# Rules that are read can be drawn

A branch that is decided by a function without a name has no label and is not drawn.
Rules built in a program can have such branches, rules that are read cannot: their
predicates are made from names. Binding puts functions to the names and takes none away,
however far it comes, so that the branches keep their labels.

* `missingTarget_of_item?`: one branch.
* `mem_conditions_of_mem_leaves`: the conditions at the ends of a rule are its conditions.
* `labelable_of_named`: where all callables have names, only targets are missing.
* `read_rules_labelable`: **rules that were read carry names only, and can be drawn before
  and after every binding.**
-/

namespace FormRouting

variable {C : Type}

/-- Every branch has a label: what is not drawn has no target. -/
def StepMap.Labelable (steps : StepMap C) : Prop :=
  ∀ d ∈ steps.compile.diagnostics, ∃ id, d = .missingTarget id

/-! ## Branches -/

variable {targets : Targets} {source : String}

theorem missingTarget_of_labelled {label : String} {next : Option String} {d : Diagnostic}
    (h : Leaf.labelled targets source label next = .diagnostic d) : d = .missingTarget source := by
  unfold Leaf.labelled at h
  split at h
  · cases h
    rfl
  · split at h <;> cases h
    rfl

/-- **One branch.** With names, it has a label. -/
theorem missingTarget_of_item? {c : Condition C} {next : Option String} {d : Diagnostic}
    (hc : ∀ x ∈ c.callables, x.name.isSome = true)
    (h : Leaf.item? targets source (.branch c next) = some (.diagnostic d)) :
    d = .missingTarget source := by
  simp only [Leaf.item?] at h
  split at h
  · cases h
  · -- the predicate decides the branch if there is one, else the operator
    cases hp : c.predicate with
    | some p =>
      have hname : p.name.isSome = true :=
        hc (.predicate p) (by simp [Condition.callables, hp])
      obtain ⟨name, hname⟩ := Option.isSome_iff_exists.1 hname
      simp only [hp, hname] at h
      exact missingTarget_of_labelled (Option.some.inj h)
    | none =>
      cases ho : c.operator with
      | custom p =>
        have hname : p.name.isSome = true :=
          hc (.predicate p) (by simp [Condition.callables, Operator.callables, ho])
        obtain ⟨name, hname⟩ := Option.isSome_iff_exists.1 hname
        simp only [hp, ho, hname] at h
        exact missingTarget_of_labelled (Option.some.inj h)
      | builtIn comparator =>
        simp only [hp, ho] at h
        exact missingTarget_of_labelled (Option.some.inj h)

/-! ## Rules -/

namespace Rule

mutual

/-- A condition at an end of a rule is one of its conditions. -/
theorem mem_conditions_of_mem_leaves {depth n : Nat} {rule : Rule C} {c : Condition C}
    {next : Option String} (h : (n, Leaf.branch c next) ∈ rule.leaves depth) :
    c ∈ rule.conditions := by
  cases rule with
  | target id => simp [leaves] at h
  | group rules =>
    simp only [leaves] at h
    simp only [conditions]
    exact mem_conditionsOfAll_of_mem_leavesOfAll h
  | branch c' next' =>
    simp only [leaves, List.mem_singleton] at h
    cases h
    simp [conditions]

theorem mem_conditionsOfAll_of_mem_leavesOfAll {depth n : Nat} {rules : List (Rule C)}
    {c : Condition C} {next : Option String} (h : (n, Leaf.branch c next) ∈ leavesOfAll depth rules) :
    c ∈ conditionsOfAll rules := by
  cases rules with
  | nil => simp [leavesOfAll] at h
  | cons rule rest =>
    simp only [leavesOfAll, List.mem_append] at h
    simp only [conditionsOfAll, List.mem_append]
    exact h.imp mem_conditions_of_mem_leaves mem_conditionsOfAll_of_mem_leavesOfAll

end

/-- The rule of a step, where all callables in it have names. -/
theorem missingTarget_of_mem_drawn {rule : Rule C} {d : Diagnostic}
    (hr : ∀ x ∈ rule.callables, x.name.isSome = true)
    (h : Item.diagnostic d ∈ Leaf.drawn targets source (rule.leaves 0)) :
    d = .missingTarget source := by
  obtain ⟨leaf, hleaf, hitem⟩ := List.mem_filterMap.1 h
  obtain ⟨⟨n, leaf⟩, hmem, rfl⟩ := List.mem_map.1 hleaf
  cases leaf with
  | target t =>
    simp only [Leaf.item?] at hitem
    split at hitem <;> cases hitem
  | branch c next =>
    have hc : c ∈ rule.conditions := mem_conditions_of_mem_leaves (List.mem_of_mem_filter hmem)
    refine missingTarget_of_item? (fun x hx => hr x ?_) hitem
    rw [callables_eq]
    exact List.mem_flatMap.2 ⟨c, hc, hx⟩

end Rule

/-! ## Step maps -/

namespace StepMap

/-- **Where all callables have names, only targets are missing.** -/
theorem labelable_of_named {steps : StepMap C}
    (h : ∀ x ∈ steps.callables, x.name.isSome = true) : steps.Labelable := by
  intro d hd
  rw [diagnostics_compile] at hd
  obtain ⟨i, hi, hid⟩ := List.mem_filterMap.1 hd
  obtain rfl : i = .diagnostic d := by
    cases i with
    | edge e => cases hid
    | diagnostic d' => exact congrArg Item.diagnostic (Option.some.inj hid)
  obtain ⟨e, he, hdrawn⟩ := List.mem_flatMap.1 hi
  unfold Step.drawn at hdrawn
  cases hnext : e.2.next with
  | none => simp [hnext] at hdrawn
  | some rule =>
    simp only [hnext] at hdrawn
    refine ⟨e.1, Rule.missingTarget_of_mem_drawn (fun x hx => h x ?_) hdrawn⟩
    refine List.mem_flatMap.2 ⟨e, he, List.mem_flatMap.2 ⟨rule, ?_, hx⟩⟩
    exact Option.mem_toList.2 hnext

/-- What is given by names has names. -/
theorem ByName.named {steps : StepMap C} (h : steps.ByName) :
    ∀ x ∈ steps.callables, x.name.isSome = true := by
  intro x hx
  obtain ⟨e, he, hx⟩ := List.mem_flatMap.1 hx
  obtain ⟨rule, hrule, hx⟩ := List.mem_flatMap.1 hx
  rw [Rule.callables_eq] at hx
  obtain ⟨c, hc, hx⟩ := List.mem_flatMap.1 hx
  have hbyName := h c (List.mem_flatMap.2 ⟨e, he, List.mem_flatMap.2 ⟨rule, hrule, hc⟩⟩)
  rcases List.mem_append.1 hx with hx | hx
  · obtain ⟨p, hp, rfl⟩ := List.mem_map.1 hx
    obtain ⟨name, -, rfl⟩ := hbyName.predicate p (Option.mem_toList.1 hp)
    rfl
  · cases ho : c.operator with
    | builtIn comparator => simp [Operator.callables, ho] at hx
    | custom p =>
      obtain ⟨⟨name, -, rfl⟩, -⟩ := hbyName.operator p ho
      simp only [Operator.callables, ho, List.mem_singleton] at hx
      rw [hx]
      rfl

/-- Binding takes no name away, even if it stops. -/
theorem named_bindStepMap {steps : StepMap C} (h : ∀ x ∈ steps.callables, x.name.isSome = true)
    (r : Registry C) : ∀ x ∈ callables (r.bindStepMap steps).state, x.name.isSome = true := by
  have hnames : ∀ s : StepMap C, (∀ x ∈ s.callables, x.name.isSome = true) ↔
      ∀ name ∈ s.callables.map Callable.name, name.isSome = true := fun s => by
    rw [List.forall_mem_map]
  rw [hnames, r.names_bindStepMap, ← hnames]
  exact h

end StepMap

/-- **Rules that are read can be drawn.** In every condition that is read, at any depth of a step
map or of a selector, the predicates are given by names. So all branches of a step map that was
read have labels, and still have them after a binding, whether it has stopped or not. -/
theorem read_rules_labelable :
    (∀ steps : StepMap C, steps.IsRead → steps.ByName ∧ steps.Labelable ∧
      ∀ r : Registry C, StepMap.Labelable (r.bindStepMap steps).state) ∧
    (∀ s : Selector C, s.IsRead → s.ByName) ∧
    ∀ (α : Type) (format : Format) (decode : Tree → Decoded α) (t : Tree) (c : Condition C)
      (outcome : Option α), Decode.condition format decode t = .ok (c, outcome) → c.ByName := by
  refine ⟨fun steps h => ?_, fun s h => h.byName, fun _ _ _ _ _ _ => Decode.byName_condition⟩
  have hnamed := h.byName.named
  exact ⟨h.byName, StepMap.labelable_of_named hnamed, fun r =>
    StepMap.labelable_of_named (StepMap.named_bindStepMap hnamed r)⟩

/-! ### A binding that stops -/

/-- A predicate in each place, one in a list and one in a record. -/
def namedDefinition : Json :=
  .object [("a", .object [("next", .array [.string "b",
    .array [.array [.string "age", .string "isAdult", .number (.int 18), .null, .string "b"],
      .object [("fn", .string "isMember")]]])]), ("b", .null)]

/-- The last predicate is not registered. -/
def adultRegistry : Registry Unit :=
  Registry.empty.registerPredicate "isMember" fun _ _ _ => true

def namedSteps : StepMap Unit where
  entries :=
    [("a", ⟨some (.group [.target "b", .group
      [.branch
        { field := "age", operator := .custom (.reference "isAdult"),
          value := some (.number (.int 18)) } (some "b"),
        .branch { predicate := some (.reference "isMember") } none]])⟩), ("b", .terminal)]
  distinct := by decide

/-- The binding binds one predicate and stops at the other; what can be drawn stays the same. -/
theorem labelable_namedSteps :
    namedSteps.IsRead ∧
      (adultRegistry.bindStepMap namedSteps).error = some (.unknownPredicate "isAdult") ∧
      StepMap.Labelable (adultRegistry.bindStepMap namedSteps).state := by
  have hread : namedSteps.IsRead := .value namedDefinition rfl
  obtain ⟨hsteps, -⟩ := read_rules_labelable (C := Unit)
  exact ⟨hread, rfl, (hsteps namedSteps hread).2.2 adultRegistry⟩

end FormRouting
