import FormRouting.Graph
import Mathlib.Data.List.Basic
import Mathlib.Data.List.Induction
import Mathlib.Data.List.Nodup
import Mathlib.Data.List.Perm.Basic

/-!
# The order of first mention

A graph takes in a node when it is first mentioned and never moves it. So its
nodes are the mentioned names without the later occurrences (`foldl_mention`),
and what matters for their order is which names were mentioned before which.

* `distinct_append`, `mem_distinct`, `nodup_distinct`: what keeping the first
  occurrences does to a list.
* `pairwise_distinct`: a relation that every first mention has to all earlier
  mentions holds along the kept list.
* `filter_distinct_eq_iff`: some of the names keep a given order **exactly if**
  none of them is mentioned before all that come earlier in that order.
-/

namespace FormRouting

namespace Graph

/-- The nodes after a name is mentioned. -/
def mention (nodes : List String) (id : String) : List String :=
  if id ∈ nodes then nodes else nodes ++ [id]

theorem nodes_setNode (g : Graph) (id : String) : (g.setNode id).nodes = mention g.nodes id := by
  unfold setNode mention
  split <;> rfl

theorem edges_setNode (g : Graph) (id : String) : (g.setNode id).edges = g.edges := by
  unfold setNode
  split <;> rfl

/-- An edge mentions its source and then its target. -/
theorem nodes_addEdge (g : Graph) (source target : String) (label : Option String) :
    (g.addEdge source target label).nodes = mention (mention g.nodes source) target := by
  simp only [addEdge, nodes_setNode]

theorem edges_addEdge (g : Graph) (source target : String) (label : Option String) :
    (g.addEdge source target label).edges = g.edges ++ [⟨source, target, label⟩] := by
  simp only [addEdge, edges_setNode]

theorem mention_of_mem {nodes : List String} {id : String} (h : id ∈ nodes) :
    mention nodes id = nodes := if_pos h

theorem mem_mention {nodes : List String} {id x : String} :
    x ∈ mention nodes id ↔ x ∈ nodes ∨ x = id := by
  unfold mention
  split
  · rename_i h
    exact ⟨Or.inl, fun hx => hx.elim (fun h => h) (fun hx => hx ▸ h)⟩
  · rw [List.mem_append, List.mem_singleton]

/-! ## Keeping the first occurrences -/

/-- Only which names were seen counts, not their order. -/
theorem distinct_congr {seen seen' : List String} (h : ∀ x, x ∈ seen ↔ x ∈ seen') (l : List String) :
    distinct seen l = distinct seen' l := by
  induction l generalizing seen seen' with
  | nil => rfl
  | cons x rest ih =>
    simp only [distinct, h x]
    split
    · exact ih h
    · have hx : ∀ y, y ∈ x :: seen ↔ y ∈ x :: seen' := fun y => by simp only [List.mem_cons, h y]
      rw [ih hx]

theorem mem_distinct {seen l : List String} {x : String} :
    x ∈ distinct seen l ↔ x ∈ l ∧ x ∉ seen := by
  induction l generalizing seen with
  | nil => simp [distinct]
  | cons y rest ih =>
    unfold distinct
    by_cases hy : y ∈ seen
    · rw [if_pos hy, ih, List.mem_cons]
      exact ⟨fun h => ⟨.inr h.1, h.2⟩, fun h => ⟨h.1.resolve_left fun e => h.2 (e ▸ hy), h.2⟩⟩
    · rw [if_neg hy, List.mem_cons, ih, List.mem_cons, List.mem_cons]
      by_cases hx : x = y
      · simp [hx, hy]
      · simp [hx]

theorem nodup_distinct (seen l : List String) : (distinct seen l).Nodup := by
  induction l generalizing seen with
  | nil => exact List.nodup_nil
  | cons y rest ih =>
    unfold distinct
    split
    · exact ih seen
    · exact List.nodup_cons.2 ⟨fun h => (mem_distinct.1 h).2 List.mem_cons_self, ih _⟩

theorem distinct_append (seen a b : List String) :
    distinct seen (a ++ b) = distinct seen a ++ distinct (a ++ seen) b := by
  induction a generalizing seen with
  | nil => rfl
  | cons x rest ih =>
    simp only [List.cons_append, distinct]
    split
    · rename_i hx
      rw [ih]
      refine congrArg _ (distinct_congr (fun y => ?_) b)
      simp only [List.mem_append, List.mem_cons]
      exact ⟨Or.inr, fun h => h.elim (fun e => .inr (e ▸ hx)) fun h => h⟩
    · rw [ih, List.cons_append]
      refine congrArg _ (congrArg _ (distinct_congr (fun y => ?_) b))
      simp only [List.mem_append, List.mem_cons]
      tauto

/-- **The nodes after a run of mentions**: those before it, then the new ones as first mentioned. -/
theorem foldl_mention (ids nodes : List String) :
    ids.foldl mention nodes = nodes ++ distinct nodes ids := by
  induction ids generalizing nodes with
  | nil => simp [distinct]
  | cons id rest ih =>
    rw [List.foldl_cons, ih]
    simp only [mention, distinct]
    split
    · rfl
    · rw [List.append_assoc, List.singleton_append]
      refine congrArg _ (congrArg _ (distinct_congr (fun y => ?_) rest))
      simp [or_comm]

/-! ## The kept order -/

theorem pairwise_distinct {R : String → String → Prop} (l : List String)
    (h : ∀ before y after, l = before ++ y :: after → y ∉ before → ∀ x ∈ before, R x y) :
    (distinct [] l).Pairwise R := by
  -- from the right: the last mention adds at most itself, at the end
  induction l using List.reverseRecOn with
  | nil => exact List.Pairwise.nil
  | append_singleton l y ih =>
    rw [distinct_append, List.append_nil]
    refine List.pairwise_append.2 ⟨ih ?_, ?_, ?_⟩
    · intro before z after hl hz x hx
      exact h before z (after ++ [y]) (by rw [hl]; simp) hz x hx
    · unfold distinct
      split <;> simp [distinct]
    · intro x hx z hz
      obtain ⟨hz, hzl⟩ := mem_distinct.1 hz
      rw [List.mem_singleton] at hz
      subst hz
      exact h l z [] rfl hzl x (mem_distinct.1 hx).1

variable {order l : List String}

theorem pairwise_idxOf_lt (ho : order.Nodup) :
    order.Pairwise fun x y => order.idxOf x < order.idxOf y := by
  rw [List.pairwise_iff_getElem]
  intro i j hi hj hij
  rw [ho.idxOf_getElem i hi, ho.idxOf_getElem j hj]
  exact hij

/-- If the kept names stand in their order, a name has a smaller place than one that is first
mentioned after it. -/
theorem idxOf_lt_of_filter_distinct_eq (h : (distinct [] l).filter (· ∈ order) = order)
    {before after : List String} {x y : String} (hl : l = before ++ y :: after) (hy : y ∈ order)
    (hxb : x ∉ before) (hne : x ≠ y) : order.idxOf y < order.idxOf x := by
  have hsplit : l = (before ++ [y]) ++ after := by rw [hl, List.append_assoc]; rfl
  rw [hsplit, distinct_append, List.append_nil, List.filter_append] at h
  set front := (distinct [] (before ++ [y])).filter (· ∈ order) with hfront
  set back := (distinct (before ++ [y]) after).filter (· ∈ order) with hback
  have hyf : y ∈ front := by
    rw [hfront, List.mem_filter, mem_distinct]
    exact ⟨⟨List.mem_append_right _ (List.mem_singleton_self y), List.not_mem_nil⟩, by simpa using hy⟩
  have hxf : x ∉ front := by
    rw [hfront, List.mem_filter, mem_distinct, List.mem_append, List.mem_singleton]
    rintro ⟨⟨hx' | hx', -⟩, -⟩
    · exact hxb hx'
    · exact hne hx'
  rw [← h, List.idxOf_append_of_mem hyf, List.idxOf_append_of_notMem hxf]
  have := List.idxOf_lt_length_of_mem hyf
  omega

/-- **When some names keep a given order.** The mentioned names that stand in `order` keep that
order exactly if each of them is mentioned only after all that precede it in `order`. -/
theorem filter_distinct_eq_iff (ho : order.Nodup) (hmem : ∀ x ∈ order, x ∈ l) :
    (distinct [] l).filter (· ∈ order) = order ↔
      ∀ before y after, l = before ++ y :: after → y ∈ order →
        ∀ x ∈ order, order.idxOf x < order.idxOf y → x ∈ before := by
  constructor
  · intro h before y after hl hy x hx hlt
    by_contra hxb
    have hne : x ≠ y := fun e => by subst e; omega
    have := idxOf_lt_of_filter_distinct_eq h hl hy hxb hne
    omega
  · intro h
    have hperm : ((distinct [] l).filter (· ∈ order)).Perm order := by
      refine (List.perm_ext_iff_of_nodup ((nodup_distinct [] l).filter _) ho).2 fun x => ?_
      rw [List.mem_filter, mem_distinct]
      exact ⟨fun hx => by simpa using hx.2,
        fun hx => ⟨⟨hmem x hx, List.not_mem_nil⟩, by simpa using hx⟩⟩
    have hkept : (distinct [] l).Pairwise fun x y =>
        x ∈ order → y ∈ order → order.idxOf x < order.idxOf y := by
      refine pairwise_distinct l fun before y after hl hyb x hxb hx hy => ?_
      by_contra hnot
      have hne : order.idxOf y ≠ order.idxOf x := fun e =>
        hyb ((List.idxOf_inj hy).1 e ▸ hxb)
      -- so `y` had to be mentioned before the first mention of `x`
      obtain ⟨first, rest, hsplit⟩ := List.append_of_mem hxb
      have hyf : y ∈ first := by
        refine h first x (rest ++ y :: after) ?_ hx y hy (by omega)
        rw [hl, hsplit]; simp
      exact hyb (hsplit ▸ List.mem_append_left _ hyf)
    have hsorted : ((distinct [] l).filter (· ∈ order)).Pairwise fun x y =>
        order.idxOf x < order.idxOf y := by
      refine (hkept.filter _).imp_of_mem fun hx hy hxy => ?_
      exact hxy (by simpa using (List.mem_filter.1 hx).2) (by simpa using (List.mem_filter.1 hy).2)
    exact List.Perm.eq_of_pairwise (fun x y _ _ h1 h2 => absurd h1 (Nat.lt_asymm h2)) hsorted
      (pairwise_idxOf_lt ho) hperm

end Graph

end FormRouting
