import FormRouting.Proofs.Drawing

/-!
# The drawn graph is well formed

What holds of the nodes, the edges and the diagnostics of every drawing, however
the rules refer to each other: to steps declared later, to the step itself or to
names that no step has.

* `belongsTo_of_item?`: an item names the step whose rule gives it.
* `mem_edges_compile`, `mem_nodes_compile`: where edges and nodes come from.
* `compile_wellDrawn`: **the drawing of every step map is well formed.**
-/

namespace FormRouting

variable {C : Type} {targets : Targets} {source : String}

/-- The item is about the step `source`, and if it is an edge, it leads somewhere. -/
def Item.BelongsTo (source : String) : Item → Prop
  | .edge e => e.source = source ∧ e.target ≠ ""
  | .diagnostic d => d.step = source

/-! ## The items of one step -/

/-- A target that is written is not normalized away. -/
theorem normalize_ne_empty {t : String} (h : t ≠ "") : targets.normalize t ≠ "" := by
  unfold Targets.normalize
  split
  · exact h
  · intro he
    have hlen := congrArg String.length he
    rw [String.length_append] at hlen
    have : "/".length = 1 := rfl
    have : "".length = 0 := rfl
    omega

theorem belongsTo_labelled (label : String) (next : Option String) :
    (Leaf.labelled targets source label next).BelongsTo source := by
  unfold Leaf.labelled
  cases next with
  | none => rfl
  | some t =>
    by_cases ht : t = ""
    · simp only [ht, if_true]; rfl
    · simp only [ht, if_false]; exact ⟨rfl, normalize_ne_empty ht⟩

theorem belongsTo_of_item? {leaf : Leaf C} {i : Item}
    (h : leaf.item? targets source = some i) : i.BelongsTo source := by
  cases leaf with
  | target t =>
    simp only [Leaf.item?] at h
    split at h
    · cases h
    · rename_i ht
      cases h
      exact ⟨rfl, normalize_ne_empty ht⟩
  | branch c next =>
    simp only [Leaf.item?] at h
    split at h
    · cases h
    · split at h
      · split at h <;> cases h
        · rfl
        · exact belongsTo_labelled _ next
      · split at h
        · split at h <;> cases h
          · rfl
          · exact belongsTo_labelled _ next
        · cases h
          exact belongsTo_labelled _ next

theorem belongsTo_of_mem_drawn {step : Step C} {i : Item} (h : i ∈ step.drawn targets source) :
    i.BelongsTo source := by
  unfold Step.drawn at h
  cases hn : step.next with
  | none => simp [hn] at h
  | some rule =>
    simp only [hn, Leaf.drawn] at h
    obtain ⟨leaf, -, hi⟩ := List.mem_filterMap.1 h
    exact belongsTo_of_item? hi

theorem mem_edges_iff {step : Step C} {e : Edge} :
    e ∈ step.edges targets source ↔ Item.edge e ∈ step.drawn targets source := by
  unfold Step.edges
  rw [List.mem_filterMap]
  constructor
  · rintro ⟨i, hi, he⟩
    cases i with
    | edge e' => cases he; exact hi
    | diagnostic d => cases he
  · intro h; exact ⟨_, h, rfl⟩

/-- The edges of a step start there and lead somewhere. -/
theorem belongsTo_of_mem_edges {step : Step C} {e : Edge} (h : e ∈ step.edges targets source) :
    e.source = source ∧ e.target ≠ "" :=
  belongsTo_of_mem_drawn (mem_edges_iff.1 h)

/-! ## The whole drawing -/

namespace StepMap

variable {steps : StepMap C}

/-- An edge is drawn by the rule of its source. -/
theorem mem_edges_compile {e : Edge} :
    e ∈ steps.compile.graph.edges ↔
      ∃ s ∈ steps.entries, e ∈ s.2.edges steps.targets s.1 ∧ e.source = s.1 := by
  rw [edges_compile, List.mem_flatMap]
  simp only [outline, List.mem_map]
  constructor
  · rintro ⟨-, ⟨s, hs, rfl⟩, he⟩
    exact ⟨s, hs, he, (belongsTo_of_mem_edges he).1⟩
  · rintro ⟨s, hs, he, -⟩
    exact ⟨_, ⟨s, hs, rfl⟩, he⟩

/-- Steps of the outline mention their own names and the targets of their edges. -/
theorem mem_flatMap_mentions {part : List (String × List Edge)} {x : String} :
    x ∈ part.flatMap mentions ↔
      x ∈ part.map Prod.fst ∨ ∃ e ∈ part.flatMap Prod.snd, e.target = x := by
  simp only [List.mem_flatMap, mentions, List.mem_cons, List.mem_map]
  constructor
  · rintro ⟨o, ho, hx | ⟨e, he, hx⟩⟩
    · exact .inl ⟨o, ho, hx.symm⟩
    · exact .inr ⟨e, ⟨o, ho, he⟩, hx⟩
  · rintro (⟨o, ho, hx⟩ | ⟨e, ⟨o, ho, he⟩, hx⟩)
    · exact ⟨o, ho, .inl hx.symm⟩
    · exact ⟨o, ho, .inr ⟨e, he, hx⟩⟩

/-- The nodes are the steps and the targets of the edges. -/
theorem mem_nodes_compile {x : String} :
    x ∈ steps.compile.graph.nodes ↔
      x ∈ steps.keys ∨ ∃ e ∈ steps.compile.graph.edges, e.target = x := by
  rw [nodes_compile, Graph.mem_distinct, edges_compile, ← outline_keys, mem_flatMap_mentions]
  exact and_iff_left List.not_mem_nil

theorem nodes_compile_nodup (steps : StepMap C) : steps.compile.graph.nodes.Nodup := by
  rw [nodes_compile]; exact Graph.nodup_distinct _ _

theorem mem_keys_of_mem_entries {s : String × Step C} (h : s ∈ steps.entries) : s.1 ∈ steps.keys :=
  List.mem_map_of_mem h

/-- There is one step for an identifier. -/
theorem eq_of_mem_entries {s s' : String × Step C} (h : s ∈ steps.entries) (h' : s' ∈ steps.entries)
    (he : s.1 = s'.1) : s = s' :=
  List.inj_on_of_nodup_map steps.distinct h h' he

end StepMap

theorem Graph.mem_sinks {g : Graph} {x : String} :
    x ∈ g.sinks ↔ x ∈ g.nodes ∧ ∀ e ∈ g.edges, e.source ≠ x := by
  unfold sinks
  rw [List.mem_filter]
  simp

/-- **What a well-formed drawing of a step map is.** -/
structure StepMap.WellDrawn (steps : StepMap C) (out : Compilation) : Prop where
  nodes_nodup : out.graph.nodes.Nodup
  declared_once : ∀ id ∈ steps.keys, out.graph.nodes.count id = 1
  /-- The nodes are the steps and the targets of the edges. -/
  mem_nodes : ∀ x, x ∈ out.graph.nodes ↔
    x ∈ steps.keys ∨ ∃ e ∈ out.graph.edges, e.target = x
  source_declared : ∀ e ∈ out.graph.edges, e.source ∈ steps.keys
  target_node : ∀ e ∈ out.graph.edges, e.target ≠ "" ∧ e.target ∈ out.graph.nodes
  undeclared : ∀ x ∈ out.graph.nodes, x ∉ steps.keys →
    (∃ e ∈ out.graph.edges, e.target = x) ∧ x ∈ out.graph.sinks
  /-- A step is a sink exactly if its rule gives no edge. -/
  declared_sink : ∀ s ∈ steps.entries,
    s.1 ∈ out.graph.sinks ↔ s.2.edges steps.targets s.1 = []
  diagnostic_declared : ∀ d ∈ out.diagnostics, d.step ∈ steps.keys

namespace StepMap

variable {steps : StepMap C}

/-- A declared step without edges is a sink, and only such a step. -/
theorem mem_sinks_compile {s : String × Step C} (hs : s ∈ steps.entries) :
    s.1 ∈ steps.compile.graph.sinks ↔ s.2.edges steps.targets s.1 = [] := by
  rw [Graph.mem_sinks, List.eq_nil_iff_forall_not_mem]
  constructor
  · rintro ⟨-, hsink⟩ e he
    have hsrc := (belongsTo_of_mem_edges he).1
    exact hsink e (mem_edges_compile.2 ⟨s, hs, he, hsrc⟩) hsrc
  · intro hnone
    refine ⟨mem_nodes_compile.2 (.inl (mem_keys_of_mem_entries hs)), fun e he heq => ?_⟩
    obtain ⟨s', hs', he', hsrc⟩ := mem_edges_compile.1 he
    have : s' = s := eq_of_mem_entries hs' hs (hsrc.symm.trans heq)
    exact hnone e (this ▸ he')

theorem step_declared_of_mem_diagnostics {d : Diagnostic} (h : d ∈ steps.compile.diagnostics) :
    d.step ∈ steps.keys := by
  rw [diagnostics_compile] at h
  obtain ⟨i, hi, hd⟩ := List.mem_filterMap.1 h
  obtain ⟨s, hs, hi⟩ := List.mem_flatMap.1 hi
  cases i with
  | edge e => cases hd
  | diagnostic d' =>
    cases hd
    have hb : (Item.diagnostic d).BelongsTo s.1 := belongsTo_of_mem_drawn hi
    exact hb ▸ mem_keys_of_mem_entries hs

/-- **The drawing of every step map is well formed.** -/
theorem compile_wellDrawn (steps : StepMap C) : steps.WellDrawn steps.compile := by
  have hsource : ∀ e ∈ steps.compile.graph.edges, e.source ∈ steps.keys := by
    intro e he
    obtain ⟨s, hs, -, hsrc⟩ := mem_edges_compile.1 he
    exact hsrc ▸ mem_keys_of_mem_entries hs
  refine ⟨nodes_compile_nodup steps, ?_, fun _ => mem_nodes_compile, hsource, ?_, ?_,
    fun _ => mem_sinks_compile, fun _ => step_declared_of_mem_diagnostics⟩
  · intro id hid
    exact List.count_eq_one_of_mem (nodes_compile_nodup steps) (mem_nodes_compile.2 (.inl hid))
  · intro e he
    obtain ⟨s, -, hdrawn, -⟩ := mem_edges_compile.1 he
    exact ⟨(belongsTo_of_mem_edges hdrawn).2, mem_nodes_compile.2 (.inr ⟨e, he, rfl⟩)⟩
  · intro x hx hnot
    refine ⟨(mem_nodes_compile.1 hx).resolve_left hnot, Graph.mem_sinks.2 ⟨hx, ?_⟩⟩
    intro e he heq
    exact hnot (heq ▸ hsource e he)

end StepMap

end FormRouting
