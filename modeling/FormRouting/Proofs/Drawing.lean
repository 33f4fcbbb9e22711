import FormRouting.Proofs.Expansion
import FormRouting.Proofs.FirstMention

/-!
# The drawing of a whole step map

Drawing goes through the steps in declaration order and takes what each of them
adds into the graph or into the diagnostics. These lemmas say what the nodes, the
edges and the diagnostics are at the end, in terms of the items of the steps.

* `edges_foldl_add`, `nodes_foldl_add`: the contributions of one step.
* `edges_compile`, `diagnostics_compile`, `nodes_compile`: the whole drawing.
* `compile_draws_even_leaves`: **the edges and the diagnostics are those of the
  leaves of even depth**, step by step and from left to right.
-/

namespace FormRouting

variable {C : Type}

/-- The edges that the rule of the step `source` gives. -/
def Step.edges (targets : Targets) (source : String) (step : Step C) : List Edge :=
  (step.drawn targets source).filterMap Item.edge?

/-- The steps in declaration order, each with the edges that its rule gives. -/
def StepMap.outline (steps : StepMap C) : List (String × List Edge) :=
  steps.entries.map fun e => (e.1, e.2.edges steps.targets e.1)

/-- The items of all steps, in declaration order. -/
def StepMap.drawn (steps : StepMap C) : List Item :=
  steps.entries.flatMap fun e => e.2.drawn steps.targets e.1

/-- The names that a step mentions: its own, then the targets of its edges. -/
def mentions (step : String × List Edge) : List String :=
  step.1 :: step.2.map Edge.target

/-- **A run collects what its steps add.** If every step of a fold puts something at the end of a
list that is kept in the state, the whole fold puts all of it there, in order. -/
theorem foldl_collects {σ α β : Type} {f : σ → α → σ} (view : σ → List β) {adds : α → List β}
    (h : ∀ s a, view (f s a) = view s ++ adds a) (l : List α) (s : σ) :
    view (l.foldl f s) = view s ++ l.flatMap adds := by
  induction l generalizing s with
  | nil => simp
  | cons a rest ih => rw [List.foldl_cons, ih, h, List.flatMap_cons, List.append_assoc]

namespace Compilation

variable {source : String}

/-! ## The contributions of one step -/

theorem edges_foldl_add (contributions : List Contribution) (out : Compilation) :
    (contributions.foldl (add source) out).graph.edges =
      out.graph.edges ++
        (contributions.filterMap (Contribution.item? source)).filterMap Item.edge? := by
  rw [List.filterMap_filterMap, List.filterMap_eq_flatMap_toList]
  refine foldl_collects (fun out : Compilation => out.graph.edges) (fun out c => ?_) contributions out
  cases c with
  | edge target label => exact Graph.edges_addEdge out.graph source target label
  | diagnostic d => exact (List.append_nil _).symm
  | notice n => exact (List.append_nil _).symm

theorem diagnostics_foldl_add (contributions : List Contribution) (out : Compilation) :
    (contributions.foldl (add source) out).diagnostics =
      out.diagnostics ++
        (contributions.filterMap (Contribution.item? source)).filterMap Item.diagnostic? := by
  rw [List.filterMap_filterMap, List.filterMap_eq_flatMap_toList]
  refine foldl_collects Compilation.diagnostics (fun out c => ?_) contributions out
  cases c with
  | edge target label => exact (List.append_nil _).symm
  | diagnostic d => rfl
  | notice n => exact (List.append_nil _).symm

/-- Once the step is a node, only the targets of its edges are new. -/
theorem nodes_foldl_add (contributions : List Contribution) (out : Compilation)
    (h : source ∈ out.graph.nodes) :
    (contributions.foldl (add source) out).graph.nodes =
      (((contributions.filterMap (Contribution.item? source)).filterMap Item.edge?).map
        Edge.target).foldl Graph.mention out.graph.nodes := by
  induction contributions generalizing out with
  | nil => simp
  | cons c rest ih =>
    rw [List.foldl_cons]
    cases c with
    | edge target label =>
      have hn : (out.add source (.edge target label)).graph.nodes =
          Graph.mention out.graph.nodes target := by
        simp only [add, Graph.nodes_addEdge, Graph.mention_of_mem h]
      rw [ih _ (by rw [hn]; exact Graph.mem_mention.2 (.inl h)), hn]
      simp [Contribution.item?, Item.edge?]
    | diagnostic d => exact ih (out.add source (.diagnostic d)) h
    | notice n => exact ih (out.add source (.notice n)) h

variable (targets : Targets)

/-! ## One step -/

/-- The turn of the drawing that takes in a step. -/
def takeStep (out : Compilation) (e : String × Step C) : Compilation :=
  out.addStep e.1 (StepMap.stepContributions targets e.1 e.2)

theorem edges_takeStep (out : Compilation) (e : String × Step C) :
    (takeStep targets out e).graph.edges = out.graph.edges ++ e.2.edges targets e.1 := by
  unfold takeStep addStep Step.edges
  rw [edges_foldl_add, items_stepContributions, Graph.edges_setNode]

theorem diagnostics_takeStep (out : Compilation) (e : String × Step C) :
    (takeStep targets out e).diagnostics =
      out.diagnostics ++ (e.2.drawn targets e.1).filterMap Item.diagnostic? := by
  unfold takeStep addStep
  rw [diagnostics_foldl_add, items_stepContributions]

theorem nodes_takeStep (out : Compilation) (e : String × Step C) :
    (takeStep targets out e).graph.nodes =
      (mentions (e.1, e.2.edges targets e.1)).foldl Graph.mention out.graph.nodes := by
  unfold takeStep addStep mentions Step.edges
  have hn : ({ out with graph := out.graph.setNode e.1 } : Compilation).graph.nodes =
      Graph.mention out.graph.nodes e.1 := Graph.nodes_setNode _ _
  rw [nodes_foldl_add _ _ (by rw [hn]; exact Graph.mem_mention.2 (.inr rfl)), hn,
    items_stepContributions, List.foldl_cons]

end Compilation

/-! ## All steps -/

namespace StepMap

open Compilation

theorem compile_eq_foldl (steps : StepMap C) :
    steps.compile = steps.entries.foldl (takeStep steps.targets) {} := rfl

theorem edges_compile (steps : StepMap C) :
    steps.compile.graph.edges = steps.outline.flatMap Prod.snd := by
  rw [compile_eq_foldl, foldl_collects (fun out : Compilation => out.graph.edges)
    (edges_takeStep steps.targets)]
  simp only [outline, List.flatMap_map, List.nil_append]

theorem diagnostics_compile (steps : StepMap C) :
    steps.compile.diagnostics = steps.drawn.filterMap Item.diagnostic? := by
  rw [compile_eq_foldl, foldl_collects diagnostics (diagnostics_takeStep steps.targets), drawn,
    List.filterMap_flatMap]
  rfl

/-- **The nodes are the mentioned names, in the order of first mention.** -/
theorem nodes_compile (steps : StepMap C) :
    steps.compile.graph.nodes = Graph.distinct [] (steps.outline.flatMap mentions) := by
  have hrun : ∀ (l : List (String × Step C)) (out : Compilation),
      (l.foldl (takeStep steps.targets) out).graph.nodes =
        (l.flatMap fun e => mentions (e.1, e.2.edges steps.targets e.1)).foldl Graph.mention
          out.graph.nodes := by
    intro l
    induction l with
    | nil => intro out; rfl
    | cons e rest ih =>
      intro out
      rw [List.foldl_cons, ih, nodes_takeStep, List.flatMap_cons, List.foldl_append]
  rw [compile_eq_foldl, hrun, Graph.foldl_mention]
  simp only [outline, List.flatMap_map]
  rfl

/-- The steps of the outline are those of the map, in the same order. -/
theorem outline_keys (steps : StepMap C) : steps.outline.map Prod.fst = steps.keys := by
  simp only [outline, Table.keys, List.map_map]
  rfl

/-- **What drawing a step map leaves.** The edges and the diagnostics are those of the leaves of
even depth, for the steps in declaration order and within a step from left to right. -/
theorem compile_draws_even_leaves (steps : StepMap C) :
    steps.compile.graph.edges = steps.drawn.filterMap Item.edge? ∧
      steps.compile.diagnostics = steps.drawn.filterMap Item.diagnostic? := by
  refine ⟨?_, diagnostics_compile steps⟩
  rw [edges_compile, drawn, List.filterMap_flatMap]
  simp only [outline, List.flatMap_map]
  rfl

end StepMap

end FormRouting
