import FormRouting.Proofs.WellDrawn

/-!
# The normal form of a target

A step map names its targets freely, and `Targets.normalize` says which step is meant:
the target as it is written, or the target behind a slash. What is meant can as well be
written, and then the map is drawn as it is written.

* `normalize_eq`, `normalize_eq_self_iff`: the normal form, and which targets are in it.
  `normalize_normalize`: a normal form is in normal form.
* `Rule.retarget`, `StepMap.retarget`: the same rules with other targets, at every depth.
* `item?_eq_asWritten`: what an end of a rule gives is what it gives as it is written once its
  target is in normal form.
* `mem_edges_iff_ends`: which edges a step map has, end by end of its rules.
* `targets_have_normal_form`: **every edge leads to the normal form of a target, and a map
  whose targets are all replaced by their normal forms is drawn alike.**
-/

namespace FormRouting

variable {C : Type}

/-! ## The normal form -/

/-- The text starts with a slash. -/
def StartsWithSlash (s : String) : Prop := ∃ rest, s = "/" ++ rest

theorem isPath_iff {s : String} : Targets.isPath s = true ↔ StartsWithSlash s := by
  rw [Targets.isPath, beq_iff_eq, List.head?_eq_some_iff]
  constructor
  · rintro ⟨rest, hs⟩
    refine ⟨String.ofList rest, String.toList_inj.1 ?_⟩
    rw [hs, String.toList_append, String.toList_ofList (l := rest)]
    rfl
  · rintro ⟨rest, rfl⟩
    exact ⟨rest.toList, String.toList_append⟩

instance (s : String) : Decidable (StartsWithSlash s) := decidable_of_iff _ isPath_iff

namespace Targets

variable {targets : Targets}

/-- The target is the name of a step already, or cannot be the rest of one. -/
def IsNormal (targets : Targets) (t : String) : Prop :=
  t ∈ targets.declared ∨ StartsWithSlash t ∨ ∀ id ∈ targets.declared, ¬ StartsWithSlash id

instance (t : String) : Decidable (targets.IsNormal t) :=
  inferInstanceAs (Decidable (_ ∨ _ ∨ _))

theorem pathKeyed_eq_false_iff :
    targets.pathKeyed = false ↔ ∀ id ∈ targets.declared, ¬ StartsWithSlash id := by
  simp only [pathKeyed, List.any_eq_false, isPath_iff]

/-- **The normal form**: the target itself, else the target behind a slash. -/
theorem normalize_eq (t : String) :
    targets.normalize t = if targets.IsNormal t then t else "/" ++ t := by
  have hiff : (!targets.pathKeyed || isPath t || targets.declared.contains t) = true ↔
      targets.IsNormal t := by
    rw [Bool.or_eq_true, Bool.or_eq_true, Bool.not_eq_true', pathKeyed_eq_false_iff, isPath_iff,
      List.contains_iff_mem, IsNormal]
    tauto
  unfold normalize
  simp only [hiff]

theorem slash_append_ne (t : String) : "/" ++ t ≠ t := by
  intro h
  have hlength := congrArg String.length h
  rw [String.length_append] at hlength
  have : "/".length = 1 := rfl
  omega

/-- Just the targets in normal form are left as they are. -/
theorem normalize_eq_self_iff {t : String} : targets.normalize t = t ↔ targets.IsNormal t := by
  rw [normalize_eq]
  split
  · next h => exact ⟨fun _ => h, fun _ => rfl⟩
  · next h => exact ⟨fun heq => absurd heq (slash_append_ne t), fun h' => absurd h' h⟩

theorem isNormal_normalize (t : String) : targets.IsNormal (targets.normalize t) := by
  rw [normalize_eq]
  split
  · next h => exact h
  · exact .inr (.inl ⟨t, rfl⟩)

theorem normalize_normalize (t : String) :
    targets.normalize (targets.normalize t) = targets.normalize t :=
  normalize_eq_self_iff.2 (isNormal_normalize t)

/-- No identifiers, so that every target stays as it is written. -/
def asWritten : Targets := ⟨[]⟩

theorem normalize_asWritten (t : String) : asWritten.normalize t = t :=
  normalize_eq_self_iff.2 (.inr (.inr (List.forall_mem_nil _)))

end Targets

/-! ## The ends of a rule -/

/-- Change a target. An empty target is none, and is left as it is. -/
def unlessEmpty (f : String → String) (t : String) : String := if t = "" then t else f t

theorem unlessEmpty_normalize_twice (targets : Targets) (t : String) :
    unlessEmpty targets.normalize (unlessEmpty targets.normalize t) =
      unlessEmpty targets.normalize t := by
  by_cases ht : t = ""
  · simp [unlessEmpty, ht]
  · have hn : targets.normalize t ≠ "" := normalize_ne_empty ht
    simp only [unlessEmpty, if_neg ht, if_neg hn, Targets.normalize_normalize]

namespace Leaf

/-- The target that is written at an end of a rule. -/
def next? : Leaf C → Option String
  | .target t => some t
  | .branch _ next => next

/-- The label for the edge of an end, or the part of its condition that has no name. -/
def words : Leaf C → Except Discriminator (Option String)
  | .target _ => .ok none
  | .branch c _ => c.label.map some

/-- The end with another target. -/
def retarget (f : String → String) : Leaf C → Leaf C
  | .target t => .target (unlessEmpty f t)
  | .branch c next => .branch c (next.map (unlessEmpty f))

variable {targets : Targets} {source : String}

theorem item?_branch (c : Condition C) (next : Option String) :
    (Leaf.branch c next).item? targets source =
      if c.isBlankWith next then none
      else
        match c.label with
        | .error d => some (.diagnostic (.unlabelable source d))
        | .ok label => some (labelled targets source label next) := by
  rw [← item_branchContribution]
  cases hb : c.isBlankWith next with
  | true => simp [Rule.branchContribution, hb, Contribution.item?]
  | false =>
    cases hl : c.label with
    | error d => simp [item_of_label_error hb hl]
    | ok label => simp [item_of_label_ok hb hl]

/-- A condition with a target is never blank. -/
theorem isBlankWith_some (c : Condition C) (t : String) : c.isBlankWith (some t) = false := by
  rw [Condition.isBlankWith, Option.isNone_some, Bool.and_false]

theorem labelled_eq_edge_iff {label : String} {next : Option String} {e : Edge} :
    labelled targets source label next = .edge e ↔
      ∃ t, t ≠ "" ∧ next = some t ∧ e = ⟨source, targets.normalize t, some label⟩ := by
  unfold labelled
  cases next with
  | none => simp
  | some t =>
    by_cases ht : t = ""
    · simp [ht]
    · simp [ht, eq_comm]

/-- **When an end gives an edge**: it names a target, and its condition can be put into words. -/
theorem item?_eq_edge_iff {leaf : Leaf C} {e : Edge} :
    leaf.item? targets source = some (.edge e) ↔
      ∃ t label, t ≠ "" ∧ leaf.next? = some t ∧ leaf.words = .ok label ∧
        e = ⟨source, targets.normalize t, label⟩ := by
  cases leaf with
  | target t =>
    by_cases ht : t = ""
    · simp [item?, next?, ht]
    · simp [item?, next?, words, ht, eq_comm]
  | branch c next =>
    rw [item?_branch]
    cases hl : c.label with
    | error d => simp [words, hl, Except.map]
    | ok label =>
      simp only [next?, words, hl, Except.map, Except.ok.injEq]
      constructor
      · intro h
        split at h
        · cases h
        · obtain ⟨t, ht, hnext, he⟩ := labelled_eq_edge_iff.1 (Option.some.inj h)
          exact ⟨t, some label, ht, hnext, rfl, he⟩
      · rintro ⟨t, -, ht, rfl, rfl, he⟩
        rw [isBlankWith_some, if_neg Bool.false_ne_true]
        exact congrArg some (labelled_eq_edge_iff.2 ⟨t, ht, rfl, he⟩)

/-! ## Ends with other targets -/

theorem labelled_eq_asWritten (label : String) (next : Option String) :
    labelled targets source label next =
      labelled .asWritten source label (next.map (unlessEmpty targets.normalize)) := by
  cases next with
  | none => rfl
  | some t =>
    by_cases ht : t = ""
    · simp [labelled, unlessEmpty, ht]
    · simp [labelled, unlessEmpty, ht, normalize_ne_empty ht, Targets.normalize_asWritten]

/-- **What an end gives is what it gives as it is written, once its target is in normal form.** -/
theorem item?_eq_asWritten (leaf : Leaf C) :
    leaf.item? targets source = (leaf.retarget targets.normalize).item? .asWritten source := by
  cases leaf with
  | target t =>
    by_cases ht : t = ""
    · simp [retarget, unlessEmpty, item?, ht]
    · simp [retarget, unlessEmpty, item?, ht, normalize_ne_empty ht, Targets.normalize_asWritten]
  | branch c next =>
    have hblank : c.isBlankWith (next.map (unlessEmpty targets.normalize)) =
        c.isBlankWith next := by
      cases next <;> rfl
    simp only [retarget, item?_branch, hblank, ← labelled_eq_asWritten]

/-- An end is put into normal form once. -/
theorem retarget_normalize_twice (leaf : Leaf C) :
    (leaf.retarget targets.normalize).retarget targets.normalize =
      leaf.retarget targets.normalize := by
  cases leaf with
  | target t => exact congrArg Leaf.target (unlessEmpty_normalize_twice targets t)
  | branch c next =>
    refine congrArg (Leaf.branch c) ?_
    rw [Option.map_map]
    exact Option.map_congr fun t _ => unlessEmpty_normalize_twice targets t

theorem item?_retarget_normalize (leaf : Leaf C) :
    (leaf.retarget targets.normalize).item? targets source = leaf.item? targets source := by
  rw [item?_eq_asWritten, retarget_normalize_twice, ← item?_eq_asWritten]

end Leaf

/-! ## Rules with other targets -/

namespace Rule

mutual

/-- The rule with other targets, at every depth. -/
def retarget (f : String → String) : Rule C → Rule C
  | .target t => .target (unlessEmpty f t)
  | .branch c next => .branch c (next.map (unlessEmpty f))
  | .group rules => .group (retargetAll f rules)

def retargetAll (f : String → String) : List (Rule C) → List (Rule C)
  | [] => []
  | rule :: rest => retarget f rule :: retargetAll f rest

end

mutual

/-- The ends keep their places and their depths. -/
theorem leaves_retarget (f : String → String) (depth : Nat) (rule : Rule C) :
    (rule.retarget f).leaves depth = (rule.leaves depth).map fun l => (l.1, l.2.retarget f) := by
  cases rule with
  | target t => simp only [retarget, leaves, List.map_singleton, Leaf.retarget]
  | branch c next => simp only [retarget, leaves, List.map_singleton, Leaf.retarget]
  | group rules => simp only [retarget, leaves, leavesOfAll_retargetAll f (depth + 1) rules]

theorem leavesOfAll_retargetAll (f : String → String) (depth : Nat) (rules : List (Rule C)) :
    leavesOfAll depth (retargetAll f rules) =
      (leavesOfAll depth rules).map fun l => (l.1, l.2.retarget f) := by
  cases rules with
  | nil => simp only [retargetAll, leavesOfAll, List.map_nil]
  | cons rule rest =>
    simp only [retargetAll, leavesOfAll, leaves_retarget f depth rule,
      leavesOfAll_retargetAll f depth rest, List.map_append]

end

end Rule

namespace Leaf

theorem even_retarget (f : String → String) (leaves : List (Nat × Leaf C)) :
    even (leaves.map fun l => (l.1, l.2.retarget f)) = (even leaves).map (retarget f) := by
  unfold even
  rw [List.filter_map, List.map_map, List.map_map]
  rfl

end Leaf

namespace Step

/-- The ends of even depth in the rule of a step. -/
def ends (step : Step C) : List (Leaf C) :=
  match step.next with
  | none => []
  | some rule => Leaf.even (rule.leaves 0)

/-- The step with other targets in its rule. -/
def retarget (f : String → String) (step : Step C) : Step C := ⟨step.next.map (Rule.retarget f)⟩

variable {targets : Targets} {source : String}

theorem drawn_eq (step : Step C) :
    step.drawn targets source = step.ends.filterMap (Leaf.item? targets source) := by
  unfold drawn ends
  cases step.next <;> rfl

theorem ends_retarget (f : String → String) (step : Step C) :
    (step.retarget f).ends = step.ends.map (Leaf.retarget f) := by
  obtain ⟨next⟩ := step
  cases next with
  | none => rfl
  | some rule =>
    simp only [retarget, ends, Option.map_some, Rule.leaves_retarget, Leaf.even_retarget]

/-- A step is drawn alike once its targets are in normal form. -/
theorem drawn_retarget_normalize (step : Step C) :
    (step.retarget targets.normalize).drawn targets source = step.drawn targets source := by
  rw [drawn_eq, drawn_eq, ends_retarget, List.filterMap_map]
  exact List.filterMap_congr fun leaf _ => leaf.item?_retarget_normalize

end Step

namespace StepMap

/-- The step map with other targets in all rules. -/
def retarget (f : String → String) (steps : StepMap C) : StepMap C where
  entries := steps.entries.map fun e => (e.1, e.2.retarget f)
  distinct := by
    rw [List.map_map]
    exact steps.distinct

variable {steps others : StepMap C}

/-- The drawing of a map is known from the items of its steps. -/
theorem compile_eq_of_drawn
    (h : steps.entries.map (fun e => (e.1, e.2.drawn steps.targets e.1)) =
      others.entries.map fun e => (e.1, e.2.drawn others.targets e.1)) :
    steps.compile = others.compile := by
  have houtline : steps.outline = others.outline := by
    have := congrArg (List.map fun p : String × List Item => (p.1, p.2.filterMap Item.edge?)) h
    rw [List.map_map, List.map_map] at this
    exact this
  have hdrawn : steps.drawn = others.drawn := by
    have := congrArg (List.flatMap Prod.snd) h
    rw [List.flatMap_map, List.flatMap_map] at this
    exact this
  have hgraph : steps.compile.graph = others.compile.graph := by
    calc steps.compile.graph
        = ⟨steps.compile.graph.nodes, steps.compile.graph.edges⟩ := rfl
      _ = ⟨others.compile.graph.nodes, others.compile.graph.edges⟩ := by
        rw [nodes_compile, edges_compile, nodes_compile, edges_compile, houtline]
  have hdiagnostics : steps.compile.diagnostics = others.compile.diagnostics := by
    rw [diagnostics_compile, diagnostics_compile, hdrawn]
  calc steps.compile = ⟨steps.compile.graph, steps.compile.diagnostics⟩ := rfl
    _ = ⟨others.compile.graph, others.compile.diagnostics⟩ := by rw [hgraph, hdiagnostics]

theorem keys_retarget (f : String → String) (steps : StepMap C) :
    (steps.retarget f).keys = steps.keys := by
  rw [Table.keys, retarget, List.map_map]
  rfl

/-- **A map whose targets are in normal form is drawn alike.** -/
theorem compile_retarget_normalize (steps : StepMap C) :
    (steps.retarget steps.targets.normalize).compile = steps.compile := by
  have htargets : (steps.retarget steps.targets.normalize).targets = steps.targets := by
    rw [targets, keys_retarget, targets]
  refine compile_eq_of_drawn ?_
  rw [htargets, retarget, List.map_map]
  refine List.map_congr_left fun e _ => ?_
  exact congrArg (Prod.mk e.1) (Step.drawn_retarget_normalize e.2)

/-! ## Where the edges lead -/

/-- **The edges, end by end.** An end of a rule that names a target gives an edge to the normal
form of it, unless its condition cannot be put into words, and there are no other edges. -/
theorem mem_edges_iff_ends {e : Edge} :
    e ∈ steps.compile.graph.edges ↔
      ∃ s ∈ steps.entries, ∃ leaf ∈ s.2.ends, ∃ t label, t ≠ "" ∧ leaf.next? = some t ∧
        leaf.words = .ok label ∧ e = ⟨s.1, steps.targets.normalize t, label⟩ := by
  rw [mem_edges_compile]
  constructor
  · rintro ⟨s, hs, he, -⟩
    rw [mem_edges_iff, Step.drawn_eq, List.mem_filterMap] at he
    obtain ⟨leaf, hleaf, he⟩ := he
    exact ⟨s, hs, leaf, hleaf, Leaf.item?_eq_edge_iff.1 he⟩
  · rintro ⟨s, hs, leaf, hleaf, hends⟩
    have he : e ∈ s.2.edges steps.targets s.1 := by
      rw [mem_edges_iff, Step.drawn_eq, List.mem_filterMap]
      exact ⟨leaf, hleaf, Leaf.item?_eq_edge_iff.2 hends⟩
    exact ⟨s, hs, he, (belongsTo_of_mem_edges he).1⟩

/-- Every node is in normal form. -/
theorem isNormal_of_mem_nodes {x : String} (h : x ∈ steps.compile.graph.nodes) :
    steps.targets.IsNormal x := by
  rcases mem_nodes_compile.1 h with hkey | ⟨e, he, rfl⟩
  · exact .inl hkey
  · obtain ⟨s, -, leaf, -, t, label, -, -, -, rfl⟩ := mem_edges_iff_ends.1 he
    exact Targets.isNormal_normalize t

/-- A bare name that only stands behind a slash among the steps is not in normal form. -/
theorem not_isNormal_of_slash {t : String} (hslash : ¬ StartsWithSlash t) (ht : t ∉ steps.keys)
    (hpath : "/" ++ t ∈ steps.keys) : ¬ steps.targets.IsNormal t := by
  rintro (h | h | h)
  · exact ht h
  · exact hslash h
  · exact h _ hpath ⟨t, rfl⟩

/-- **Targets have a normal form.** A target means itself if it is a step, if it starts with a slash
or if no step does, and else the name behind a slash. The edges lead to what the targets mean: to
the step itself where it is declared; to the step behind the slash where only that is declared, and
then the bare name is no node. Written in normal form at every depth, the targets of a map give the
same nodes, edges and diagnostics. -/
theorem targets_have_normal_form (steps : StepMap C) :
    (∀ t, steps.targets.normalize t =
      if t ∈ steps.keys ∨ StartsWithSlash t ∨ ∀ id ∈ steps.keys, ¬ StartsWithSlash id then t
      else "/" ++ t) ∧
    (∀ e, e ∈ steps.compile.graph.edges ↔
      ∃ s ∈ steps.entries, ∃ leaf ∈ s.2.ends, ∃ t label, t ≠ "" ∧ leaf.next? = some t ∧
        leaf.words = .ok label ∧ e = ⟨s.1, steps.targets.normalize t, label⟩) ∧
    (∀ t ∈ steps.keys, steps.targets.normalize t = t) ∧
    (∀ t, ¬ StartsWithSlash t → t ∉ steps.keys → "/" ++ t ∈ steps.keys →
      steps.targets.normalize t = "/" ++ t ∧ t ∉ steps.compile.graph.nodes) ∧
    (steps.retarget steps.targets.normalize).compile = steps.compile := by
  refine ⟨Targets.normalize_eq, fun e => mem_edges_iff_ends, ?_, ?_, compile_retarget_normalize steps⟩
  · intro t ht
    exact Targets.normalize_eq_self_iff.2 (.inl ht)
  · intro t hslash ht hpath
    have hnot := not_isNormal_of_slash hslash ht hpath
    refine ⟨?_, fun hnode => hnot (isNormal_of_mem_nodes hnode)⟩
    rw [Targets.normalize_eq, if_neg hnot]

/-! ### A bare name beside a path -/

/-- The start names three targets: a step that is declared with and without a slash, one that is
declared with a slash only, and one that is not declared. -/
def mixedNames : StepMap Unit where
  entries := [("/start", ⟨some (.group [.group [.target "x", .target "y",
    .branch { field := "age" } (some "end")]])⟩), ("x", .terminal), ("/x", .terminal),
    ("/y", .terminal)]
  distinct := by decide

theorem normalize_mixedNames :
    ("x" ∈ mixedNames.keys ∧ mixedNames.targets.normalize "x" = "x") ∧
    (¬ StartsWithSlash "y" ∧ "y" ∉ mixedNames.keys ∧ "/" ++ "y" ∈ mixedNames.keys ∧
      mixedNames.targets.normalize "y" = "/y" ∧ "y" ∉ mixedNames.compile.graph.nodes) ∧
    (⟨"/start", "/y", none⟩ : Edge) ∈ mixedNames.compile.graph.edges ∧
    (mixedNames.retarget mixedNames.targets.normalize).compile = mixedNames.compile := by
  obtain ⟨-, hedges, hdeclared, hslash, hcompile⟩ := targets_have_normal_form mixedNames
  have hx : "x" ∈ mixedNames.keys := by decide
  have hbare : ¬ StartsWithSlash "y" := by decide
  have hy : "y" ∉ mixedNames.keys := by decide
  have hpath : "/" ++ "y" ∈ mixedNames.keys := by decide
  obtain ⟨hnormal, hnode⟩ := hslash "y" hbare hy hpath
  refine ⟨⟨hx, hdeclared "x" hx⟩, ⟨hbare, hy, hpath, hnormal, hnode⟩, ?_, hcompile⟩
  refine (hedges _).2 ⟨_, List.mem_cons_self, .target "y", ?_, "y", none, by decide, rfl, rfl, ?_⟩
  · simp [Step.ends, Rule.leaves, Rule.leavesOfAll, Leaf.even]
  · rw [hnormal]
    rfl

end StepMap

end FormRouting
