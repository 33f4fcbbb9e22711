import FormRouting.Proofs.WellDrawn

/-!
# Where the declared steps stand among the nodes

A target becomes a node when its edge is drawn, and it may be a step whose turn
has not come yet. So an edge that leads over some declared step puts its target
before that step. This is the only way in which the nodes leave the declared
order.

* `ForwardInOrder`: no edge leads over a step that is not drawn yet.
* `mem_mentioned_iff`: which steps are nodes before a given edge is drawn.
* `declared_order_iff`: the declared steps are all among the nodes, and they
  stand there in declared order **exactly if** the edges are forward in order.
* `leadingOver_reordered`: three steps where they do not.
-/

namespace FormRouting

variable {C : Type} {steps : StepMap C}

/-- **No edge leads over a step that is still missing.** The steps declared between the source of
an edge and its target, if that is a declared step as well, are targets of earlier edges. -/
def ForwardInOrder (declared : List String) (edges : List Edge) : Prop :=
  ∀ before e after, edges = before ++ e :: after → e.target ∈ declared →
    ∀ x ∈ declared, declared.idxOf e.source < declared.idxOf x →
      declared.idxOf x < declared.idxOf e.target → ∃ d ∈ before, d.target = x

/-- A place in the joined lists is a place in one of them. -/
theorem flatMap_eq_append_cons {α β : Type} {f : α → List β} {l : List α} {before after : List β}
    {y : β} (h : l.flatMap f = before ++ y :: after) :
    ∃ front a back u v, l = front ++ a :: back ∧ f a = u ++ y :: v ∧
      before = front.flatMap f ++ u := by
  induction l generalizing before with
  | nil => simp at h
  | cons a rest ih =>
    rw [List.flatMap_cons, List.append_eq_append_iff] at h
    rcases h with ⟨w, hbefore, hrest⟩ | ⟨w, ha, hw⟩
    · obtain ⟨front, b, back, u, v, rfl, hb, rfl⟩ := ih hrest
      exact ⟨a :: front, b, back, u, v, rfl, hb, by rw [hbefore, List.flatMap_cons,
        List.append_assoc]⟩
    · cases w with
      | nil =>
        have hw : rest.flatMap f = [] ++ y :: after := hw.symm
        obtain ⟨front, b, back, u, v, rfl, hb, hu⟩ := ih hw
        refine ⟨a :: front, b, back, u, v, rfl, hb, ?_⟩
        rw [List.flatMap_cons, List.append_assoc, ← hu, ha, List.append_nil, List.append_nil]
      | cons z v =>
        rw [List.cons_append, List.cons.injEq] at hw
        obtain ⟨rfl, -⟩ := hw
        exact ⟨[], a, rest, before, v, rfl, ha, rfl⟩

/-- The names up to the place of `k` are those before it and `k` itself. -/
theorem idxOf_le_iff {front back : List String} {k x : String} (hk : k ∉ front) :
    (front ++ k :: back).idxOf x ≤ (front ++ k :: back).idxOf k ↔ x ∈ front ∨ x = k := by
  have hplace : (front ++ k :: back).idxOf k = front.length := by
    rw [List.idxOf_append_of_notMem hk, List.idxOf_cons_self, Nat.add_zero]
  rw [hplace]
  by_cases hxf : x ∈ front
  · have := List.idxOf_lt_length_of_mem hxf
    rw [List.idxOf_append_of_mem hxf]
    exact ⟨fun _ => .inl hxf, fun _ => by omega⟩
  · rw [List.idxOf_append_of_notMem hxf]
    by_cases hxk : x = k
    · subst hxk
      exact ⟨fun _ => .inr rfl, fun _ => by rw [List.idxOf_cons_self]; omega⟩
    · rw [List.idxOf_cons_ne back (fun e => hxk e.symm)]
      exact ⟨fun h => by omega, fun h => (h.elim hxf hxk).elim⟩

namespace StepMap

/-! ## The turn of a step -/

section

variable {front back : List (String × List Edge)} {k : String} {es u : List Edge}

theorem keys_of_outline (h : steps.outline = front ++ (k, es) :: back) :
    steps.keys = front.map Prod.fst ++ k :: back.map Prod.fst := by
  rw [← outline_keys, h, List.map_append, List.map_cons]

theorem notMem_front (h : steps.outline = front ++ (k, es) :: back) : k ∉ front.map Prod.fst := by
  have hd := steps.keys_nodup
  rw [keys_of_outline h, List.nodup_append] at hd
  intro hk
  exact hd.2.2 k hk k List.mem_cons_self rfl

/-- The edges of a step start there. -/
theorem source_of_outline (h : steps.outline = front ++ (k, es) :: back) {e : Edge} (he : e ∈ es) :
    e.source = k := by
  have hmem : (k, es) ∈ steps.outline := h ▸ List.mem_append_right _ List.mem_cons_self
  obtain ⟨s, -, hs⟩ := List.mem_map.1 hmem
  cases hs
  exact (belongsTo_of_mem_edges he).1

/-- **What is a node when an edge is drawn.** In the turn of the step `k`, after its edges `u`, a
name was mentioned if its turn came already or an edge leads to it. -/
theorem mem_mentioned_iff (h : steps.outline = front ++ (k, es) :: back) {x : String} :
    x ∈ front.flatMap mentions ++ k :: u.map Edge.target ↔
      steps.keys.idxOf x ≤ steps.keys.idxOf k ∨
        ∃ d ∈ front.flatMap Prod.snd ++ u, d.target = x := by
  rw [keys_of_outline h, idxOf_le_iff (notMem_front h), List.mem_append, mem_flatMap_mentions,
    List.mem_cons]
  simp only [List.mem_append]
  constructor
  · rintro ((hf | ⟨d, hd, ht⟩) | (hk | hu))
    · exact .inl (.inl hf)
    · exact .inr ⟨d, .inl hd, ht⟩
    · exact .inl (.inr hk)
    · obtain ⟨d, hd, ht⟩ := List.mem_map.1 hu
      exact .inr ⟨d, .inr hd, ht⟩
  · rintro ((hf | hk) | ⟨d, hd | hd, ht⟩)
    · exact .inl (.inl hf)
    · exact .inr (.inl hk)
    · exact .inl (.inr ⟨d, hd, ht⟩)
    · exact .inr (.inr (List.mem_map.2 ⟨d, hd, ht⟩))

end

/-! ## The order of the nodes -/

/-- Every declared step comes up after all steps declared before it. -/
def MentionedInOrder (steps : StepMap C) : Prop :=
  ∀ before y after, steps.outline.flatMap mentions = before ++ y :: after → y ∈ steps.keys →
    ∀ x ∈ steps.keys, steps.keys.idxOf x < steps.keys.idxOf y → x ∈ before

theorem forwardInOrder_of_mentionedInOrder (h : steps.MentionedInOrder) :
    ForwardInOrder steps.keys steps.compile.graph.edges := by
  intro before e after hedges het x hx hsx hxt
  rw [edges_compile] at hedges
  obtain ⟨front, ⟨k, es⟩, back, u, v, hout, hes, rfl⟩ := flatMap_eq_append_cons hedges
  have hes : es = u ++ e :: v := hes
  have hsrc : e.source = k :=
    source_of_outline hout (hes ▸ List.mem_append_right _ List.mem_cons_self)
  -- up to the target of `e`, the run mentioned the steps before `k`, then `k` and the targets of `u`
  have hmentions : steps.outline.flatMap mentions =
      (front.flatMap mentions ++ k :: u.map Edge.target) ++
        e.target :: (v.map Edge.target ++ back.flatMap mentions) := by
    rw [hout, hes]
    simp [mentions]
  have hmem := h _ _ _ hmentions het x hx hxt
  rcases (mem_mentioned_iff hout).1 hmem with hle | hd
  · rw [hsrc] at hsx; omega
  · exact hd

theorem mentionedInOrder_of_forwardInOrder
    (h : ForwardInOrder steps.keys steps.compile.graph.edges) : steps.MentionedInOrder := by
  intro before y after hmentions hy x hx hlt
  obtain ⟨front, ⟨k, es⟩, back, w, v, hout, hw, rfl⟩ := flatMap_eq_append_cons hmentions
  have hw : k :: es.map Edge.target = w ++ y :: v := hw
  cases w with
  | nil =>
    -- the turn of `y` itself: the steps declared before it had theirs
    obtain ⟨rfl, -⟩ := List.cons.inj hw
    rw [List.append_nil]
    have hle : steps.keys.idxOf x ≤ steps.keys.idxOf k := by omega
    rw [keys_of_outline hout, idxOf_le_iff (notMem_front hout)] at hle
    rcases hle with hf | hk
    · exact mem_flatMap_mentions.2 (.inl hf)
    · subst hk; omega
  | cons z w =>
    -- an edge of the step `k` leads to `y`
    obtain ⟨rfl, htail⟩ := List.cons.inj hw
    obtain ⟨u, rest, rfl, rfl, hrest⟩ := List.map_eq_append_iff.1 htail
    obtain ⟨e, v', rfl, rfl, -⟩ := List.map_eq_cons_iff.1 hrest
    refine (mem_mentioned_iff hout).2 ?_
    by_cases hle : steps.keys.idxOf x ≤ steps.keys.idxOf k
    · exact .inl hle
    · have hsrc : e.source = k :=
        source_of_outline hout (List.mem_append_right _ List.mem_cons_self)
      have hedges : steps.compile.graph.edges =
          (front.flatMap Prod.snd ++ u) ++ e :: (v' ++ back.flatMap Prod.snd) := by
        rw [edges_compile, hout]
        simp
      exact .inr (h _ _ _ hedges hy x hx (by rw [hsrc]; omega) hlt)

theorem mem_mentions_of_mem_keys {x : String} (hx : x ∈ steps.keys) :
    x ∈ steps.outline.flatMap mentions :=
  mem_flatMap_mentions.2 (.inl (outline_keys steps ▸ hx))

/-- **When the declared steps keep their order.** All of them are among the nodes, once each, and
they stand there as declared exactly if no edge leads over a step that is still missing. -/
theorem declared_order_iff (steps : StepMap C) :
    (steps.compile.graph.nodes.filter (· ∈ steps.keys)).Perm steps.keys ∧
      (steps.compile.graph.nodes.filter (· ∈ steps.keys) = steps.keys ↔
        ForwardInOrder steps.keys steps.compile.graph.edges) := by
  constructor
  · refine (List.perm_ext_iff_of_nodup ((nodes_compile_nodup steps).filter _)
      steps.keys_nodup).2 fun x => ?_
    rw [List.mem_filter, mem_nodes_compile, decide_eq_true_iff]
    exact ⟨fun hx => hx.2, fun hx => ⟨.inl hx, hx⟩⟩
  · rw [nodes_compile, Graph.filter_distinct_eq_iff steps.keys_nodup
      fun _ => mem_mentions_of_mem_keys]
    exact ⟨forwardInOrder_of_mentionedInOrder, mentionedInOrder_of_forwardInOrder⟩

/-- Three steps, where the first leads over the second to the third. -/
def leadingOver : StepMap Unit :=
  Table.ofList [("a", ⟨some (.target "c")⟩), ("b", .terminal), ("c", .terminal)]

/-- The third step becomes a node before the second. -/
theorem leadingOver_reordered :
    leadingOver.keys = ["a", "b", "c"] ∧
      leadingOver.compile.graph.nodes.filter (· ∈ leadingOver.keys) = ["a", "c", "b"] ∧
      leadingOver.compile.graph.nodes.filter (· ∈ leadingOver.keys) ≠ leadingOver.keys := by
  decide +kernel

end StepMap

end FormRouting
