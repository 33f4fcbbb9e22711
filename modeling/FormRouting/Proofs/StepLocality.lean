import FormRouting.Proofs.WellDrawn

/-!
# The drawing of a step is local

All steps of a map are drawn into one graph, and the targets of all rules are matched
with the identifiers of all steps. Still what a step gives depends on its own rule
and on which identifiers there are, not on the rules of other steps and not on the
order of the steps.

* `Compilation.edgesOf`, `Compilation.diagnosticsOf`: what one step has left in a
  drawing.
* `edgesOf_compile`, `diagnosticsOf_compile`: it is what the rule of the step gives.
* `normalize_congr`, `drawn_congr`: which identifiers there are is all that counts for
  the targets of a rule.
* `compile_is_local`: **a step is drawn alike in all step maps with the same
  identifiers**, so neither order nor another step's rule matters.
-/

namespace FormRouting

variable {C : Type}

namespace Compilation

/-- The edges that start at a step, in order. -/
def edgesOf (out : Compilation) (id : String) : List Edge :=
  out.graph.edges.filter fun e => e.source = id

/-- The diagnostics about a step, in order. -/
def diagnosticsOf (out : Compilation) (id : String) : List Diagnostic :=
  out.diagnostics.filter fun d => d.step = id

end Compilation

/-! ## The part of one step -/

/-- Where every entry gives things under its own name, the things under one name are those that its
entry gives. -/
theorem filter_flatMap_of_key {α β : Type} {entries : List (String × α)}
    {f : String × α → List β} {key : β → String} (hd : (entries.map Prod.fst).Nodup)
    (hkey : ∀ e ∈ entries, ∀ b ∈ f e, key b = e.1) (id : String) :
    (entries.flatMap f).filter (fun b => key b = id) =
      (entries.lookup id).elim [] fun a => f (id, a) := by
  induction entries with
  | nil => rfl
  | cons e rest ih =>
    obtain ⟨hfirst, hrest⟩ := List.forall_mem_cons.1 hkey
    obtain ⟨hnot, hdrest⟩ := List.nodup_cons.1 hd
    rw [List.flatMap_cons, List.filter_append, ih hdrest hrest]
    by_cases he : e.1 = id
    · subst he
      have hall : (f e).filter (fun b => key b = e.1) = f e :=
        List.filter_eq_self.2 fun b hb => decide_eq_true (hfirst b hb)
      rw [hall, lookup_eq_none_of_notMem hnot, List.lookup_cons_self]
      exact List.append_nil _
    · have hnone : (f e).filter (fun b => key b = id) = [] :=
        List.filter_eq_nil_iff.2 fun b hb => by
          rw [hfirst b hb]
          exact fun h => he (of_decide_eq_true h)
      rw [hnone, List.lookup_cons, beq_false_of_ne (Ne.symm he)]
      rfl

namespace StepMap

variable {steps others : StepMap C} {id : String}

theorem edgesOf_compile (steps : StepMap C) (id : String) :
    steps.compile.edgesOf id = (steps.get? id).elim [] (Step.edges steps.targets id) := by
  unfold Compilation.edgesOf
  rw [edges_compile, outline, List.flatMap_map]
  exact filter_flatMap_of_key steps.distinct (fun s _ e he => (belongsTo_of_mem_edges he).1) id

theorem diagnosticsOf_compile (steps : StepMap C) (id : String) :
    steps.compile.diagnosticsOf id =
      (steps.get? id).elim [] fun step =>
        (step.drawn steps.targets id).filterMap Item.diagnostic? := by
  unfold Compilation.diagnosticsOf
  rw [diagnostics_compile, drawn, List.filterMap_flatMap]
  refine filter_flatMap_of_key steps.distinct (fun s _ d hd => ?_) id
  obtain ⟨i, hi, hid⟩ := List.mem_filterMap.1 hd
  have hb := belongsTo_of_mem_drawn hi
  cases i with
  | edge e => cases hid
  | diagnostic d' =>
    cases hid
    exact hb

/-! ## Two step maps with the same identifiers -/

/-- Targets are matched with the set of identifiers. -/
theorem normalize_congr (h : ∀ x, x ∈ steps.keys ↔ x ∈ others.keys) :
    steps.targets.normalize = others.targets.normalize := by
  have hpath : steps.targets.pathKeyed = others.targets.pathKeyed := by
    rw [Bool.eq_iff_iff]
    simp only [Targets.pathKeyed, targets, List.any_eq_true, h]
  funext t
  have hmem : steps.targets.declared.contains t = others.targets.declared.contains t := by
    rw [Bool.eq_iff_iff]
    simp only [targets, List.contains_iff_mem, h]
  simp only [Targets.normalize, hpath, hmem]

/-- Only what becomes of the targets in it decides how a rule is drawn. -/
theorem drawn_congr {targets targets' : Targets} (h : targets.normalize = targets'.normalize)
    (source : String) (step : Step C) : step.drawn targets source = step.drawn targets' source := by
  have hitem : Leaf.item? (C := C) targets source = Leaf.item? targets' source := by
    funext leaf
    cases leaf <;> simp only [Leaf.item?, Leaf.labelled, h]
  simp only [Step.drawn, Leaf.drawn, hitem]

/-- **One step in two maps.** -/
theorem parts_congr (hids : ∀ x, x ∈ steps.keys ↔ x ∈ others.keys)
    (hstep : steps.get? id = others.get? id) :
    steps.compile.edgesOf id = others.compile.edgesOf id ∧
      steps.compile.diagnosticsOf id = others.compile.diagnosticsOf id := by
  have hdrawn := drawn_congr (C := C) (normalize_congr hids)
  rw [edgesOf_compile, edgesOf_compile, diagnosticsOf_compile, diagnosticsOf_compile, hstep]
  cases others.get? id with
  | none => exact ⟨rfl, rfl⟩
  | some step => simp only [Option.elim_some, Step.edges, hdrawn, and_self]

/-- Drawings of maps with the same identifiers have the same nodes if all steps have the same
edges. -/
theorem nodes_perm (hids : ∀ x, x ∈ steps.keys ↔ x ∈ others.keys)
    (hedges : ∀ id, steps.compile.edgesOf id = others.compile.edgesOf id) :
    steps.compile.graph.nodes.Perm others.compile.graph.nodes := by
  have hmem : ∀ e, e ∈ steps.compile.graph.edges ↔ e ∈ others.compile.graph.edges := by
    intro e
    have he : ∀ out : Compilation, e ∈ out.graph.edges ↔ e ∈ out.edgesOf e.source := by
      intro out
      simp [Compilation.edgesOf]
    rw [he, he, hedges]
  refine (List.perm_ext_iff_of_nodup (nodes_compile_nodup steps) (nodes_compile_nodup others)).2 ?_
  intro x
  simp only [mem_nodes_compile, hids, hmem]

/-! ## Reordered step maps -/

theorem keys_of_perm (h : steps.entries.Perm others.entries) (x : String) :
    x ∈ steps.keys ↔ x ∈ others.keys :=
  (h.map Prod.fst).mem_iff

end StepMap

/-- **The drawing of a step is local.** In step maps with the same identifiers, a step with the same
rule has the same edges and diagnostics, whatever the rules of the other steps are. So the order of
the steps changes neither the nodes nor any step's part, and a step that is defined anew changes
the part of no other step. -/
theorem compile_is_local :
    (∀ (steps others : StepMap C) (id : String), (∀ x, x ∈ steps.keys ↔ x ∈ others.keys) →
      steps.get? id = others.get? id →
        steps.compile.edgesOf id = others.compile.edgesOf id ∧
          steps.compile.diagnosticsOf id = others.compile.diagnosticsOf id) ∧
    (∀ steps others : StepMap C, steps.entries.Perm others.entries →
      steps.compile.graph.nodes.Perm others.compile.graph.nodes ∧
        ∀ id, steps.compile.edgesOf id = others.compile.edgesOf id ∧
          steps.compile.diagnosticsOf id = others.compile.diagnosticsOf id) ∧
    ∀ (steps : StepMap C) (id : String) (step : Step C), id ∈ steps.keys → ∀ other, other ≠ id →
      let redefined : StepMap C := steps.insert id step
      redefined.compile.edgesOf other = steps.compile.edgesOf other ∧
        redefined.compile.diagnosticsOf other = steps.compile.diagnosticsOf other := by
  refine ⟨fun steps others id hids hstep => StepMap.parts_congr hids hstep, ?_, ?_⟩
  · intro steps others hperm
    have hids := StepMap.keys_of_perm hperm
    have hparts := fun id => StepMap.parts_congr hids (Table.get?_of_perm hperm id)
    exact ⟨StepMap.nodes_perm hids fun id => (hparts id).1, hparts⟩
  · intro steps id step hid other hother
    refine StepMap.parts_congr (fun x => ?_) ?_
    · rw [Table.keys_insert, if_pos hid]
    · rw [Table.get?_insert, if_neg hother]

/-! ### Two drafts of a form -/

/-- From the start to the end, and a branch that leads nowhere. -/
def draft : StepMap Unit where
  entries := [("/start", ⟨some (.target "end")⟩), ("/end", ⟨some (.branch { field := "x" } none)⟩)]
  distinct := by decide

/-- The same steps in the other order. -/
def reordered : StepMap Unit where
  entries := [("/end", ⟨some (.branch { field := "x" } none)⟩), ("/start", ⟨some (.target "end")⟩)]
  distinct := by decide

/-- The end comes back to the start. -/
def revised : StepMap Unit := draft.insert "/end" ⟨some (.target "start")⟩

/-- The start has its edge to the end in all three drafts, and the branch that leads nowhere is
reported in both orders. -/
theorem edgesOf_start :
    ((∀ x, x ∈ draft.keys ↔ x ∈ revised.keys) ∧ draft.get? "/start" = revised.get? "/start" ∧
      revised.compile.edgesOf "/start" = [⟨"/start", "/end", none⟩]) ∧
    (draft.entries.Perm reordered.entries ∧
      reordered.compile.diagnosticsOf "/end" = [.missingTarget "/end"]) ∧
    ("/end" ∈ draft.keys ∧ "/start" ≠ "/end" ∧
      revised.compile.diagnosticsOf "/start" = draft.compile.diagnosticsOf "/start") := by
  obtain ⟨hsame, hperm, hinsert⟩ := compile_is_local (C := Unit)
  have hids : ∀ x, x ∈ draft.keys ↔ x ∈ revised.keys := fun x => Iff.rfl
  have hreordered : draft.entries.Perm reordered.entries := List.Perm.swap _ _ _
  refine ⟨⟨hids, rfl, ?_⟩, ⟨hreordered, ?_⟩, by decide, by decide, ?_⟩
  · rw [← (hsame draft revised "/start" hids rfl).1, StepMap.edgesOf_compile]
    rfl
  · rw [← ((hperm draft reordered hreordered).2 "/end").2, StepMap.diagnosticsOf_compile]
    rfl
  · exact (hinsert draft "/end" _ (by decide) "/start" (by decide)).2

end FormRouting
