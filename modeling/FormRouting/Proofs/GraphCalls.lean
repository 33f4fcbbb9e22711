import FormRouting.Proofs.Drawing

/-!
# Graphs made by calls

A graph is made by adding nodes and edges to an empty one, in any order and as often as
one likes. It keeps the names that were mentioned, each once, and all edges. What it
answers about the nodes after a node, and about the nodes with nothing after them, is
read off the edges.

* `Call.run`: one call; `nodes_run`, `edges_run`: what it does to nodes and edges.
* `distinct_eq_eraseDups`: to keep first mentions is to drop the later ones.
* `nodes_ofCalls`, `edges_ofCalls`: all calls.
* `successors_eq_nil_iff`, `sinks_eq`: the two queries agree.
* `Indexed`: the graph beside a set of its nodes, which is asked in place of the list;
  `mirrors_run`: a call keeps the set and the list in step.
* `calls_are_kept`: **what a graph keeps of its calls**, in both forms.
-/

namespace FormRouting.Graph

/-- A call that adds to a graph. -/
inductive Call where
  | node (id : String)
  | edge (source target : String) (label : Option String)
deriving DecidableEq

namespace Call

/-- The names that a call mentions. An edge mentions its source, and then its target. -/
def names : Call → List String
  | .node id => [id]
  | .edge source target _ => [source, target]

def edge? : Call → Option Edge
  | .node _ => none
  | .edge source target label => some ⟨source, target, label⟩

def run (g : Graph) : Call → Graph
  | .node id => g.setNode id
  | .edge source target label => g.addEdge source target label

end Call

/-- The graph after some calls on an empty one. -/
def ofCalls (calls : List Call) : Graph := calls.foldl Call.run empty

/-! ## One call -/

theorem nodes_run (g : Graph) (c : Call) : (c.run g).nodes = c.names.foldl mention g.nodes := by
  cases c with
  | node id => exact nodes_setNode g id
  | edge source target label => exact nodes_addEdge g source target label

theorem edges_run (g : Graph) (c : Call) : (c.run g).edges = g.edges ++ c.edge?.toList := by
  cases c with
  | node id => exact (edges_setNode g id).trans (List.append_nil _).symm
  | edge source target label => exact edges_addEdge g source target label

/-! ## All calls -/

/-- To keep the first occurrences is to drop the later ones. -/
theorem distinct_eq_eraseDups (l : List String) : distinct [] l = l.eraseDups := by
  -- from the end: whether the last name is kept is decided by all names before it
  induction l using List.reverseRecOn with
  | nil => rfl
  | append_singleton l x ih =>
    rw [distinct_append, List.eraseDups_append, ih, List.append_nil]
    by_cases h : x ∈ l <;> simp [distinct, List.removeAll, List.eraseDups_cons, h]

theorem nodes_foldl_run (calls : List Call) (g : Graph) :
    (calls.foldl Call.run g).nodes = (calls.flatMap Call.names).foldl mention g.nodes := by
  induction calls generalizing g with
  | nil => rfl
  | cons c rest ih => rw [List.foldl_cons, ih, nodes_run, List.flatMap_cons, List.foldl_append]

/-- **The nodes are the mentioned names**, in the order of their first mention. -/
theorem nodes_ofCalls (calls : List Call) :
    (ofCalls calls).nodes = (calls.flatMap Call.names).eraseDups := by
  rw [ofCalls, nodes_foldl_run, foldl_mention, ← distinct_eq_eraseDups]
  rfl

/-- **The edges are the added ones**, every one of them. -/
theorem edges_ofCalls (calls : List Call) :
    (ofCalls calls).edges = calls.filterMap Call.edge? := by
  rw [List.filterMap_eq_flatMap_toList]
  exact foldl_collects Graph.edges edges_run calls empty

/-! ## The nodes after a node -/

theorem mem_successors {g : Graph} {x y : String} :
    y ∈ g.successors x ↔ ∃ e ∈ g.edges, e.source = x ∧ e.target = y := by
  simp [successors, mem_distinct, and_assoc]

theorem successors_eq_nil_iff {g : Graph} {x : String} :
    g.successors x = [] ↔ ∀ e ∈ g.edges, e.source ≠ x := by
  rw [List.eq_nil_iff_forall_not_mem]
  constructor
  · intro h e he hx
    exact h e.target (mem_successors.2 ⟨e, he, hx, rfl⟩)
  · intro h y hy
    obtain ⟨e, he, hx, -⟩ := mem_successors.1 hy
    exact h e he hx

/-- The sinks are the nodes that no node comes after. -/
theorem sinks_eq (g : Graph) : g.sinks = g.nodes.filter fun x => g.successors x = [] := by
  refine List.filter_congr fun x _ => ?_
  rw [Bool.eq_iff_iff, decide_eq_true_iff, successors_eq_nil_iff]
  simp

/-! ## The set of the nodes -/

/-- A graph beside the set of its nodes. To ask for a node, the list is not searched. -/
structure Indexed where
  nodes : List String := []
  known : Std.HashSet String := ∅
  edges : List Edge := []

namespace Indexed

variable {i : Indexed} {g : Graph}

/-- A name that is new to the set is a new node. -/
def setNode (i : Indexed) (id : String) : Indexed :=
  let (isKnown, known) := i.known.containsThenInsert id
  if isKnown then { i with known := known }
  else { i with known := known, nodes := i.nodes ++ [id] }

def addEdge (i : Indexed) (source target : String) (label : Option String) : Indexed :=
  let i := (i.setNode source).setNode target
  { i with edges := i.edges ++ [⟨source, target, label⟩] }

def hasNode (i : Indexed) (id : String) : Bool := i.known.contains id

def run (i : Indexed) : Call → Indexed
  | .node id => i.setNode id
  | .edge source target label => i.addEdge source target label

def ofCalls (calls : List Call) : Indexed := calls.foldl run {}

/-- The nodes and the edges are those of a graph, and the set is that of the nodes. -/
structure Mirrors (i : Indexed) (g : Graph) : Prop where
  nodes : i.nodes = g.nodes
  edges : i.edges = g.edges
  known : ∀ x, x ∈ i.known ↔ x ∈ g.nodes

theorem mirrors_setNode (h : i.Mirrors g) (id : String) : (i.setNode id).Mirrors (g.setNode id) := by
  have hset : i.setNode id =
      { i with known := i.known.insert id, nodes := mention i.nodes id } := by
    unfold setNode mention
    simp only [Std.HashSet.containsThenInsert_fst, Std.HashSet.containsThenInsert_snd,
      Std.HashSet.contains_iff_mem, h.known, h.nodes]
    split <;> rfl
  rw [hset]
  refine ⟨?_, ?_, fun x => ?_⟩
  · rw [nodes_setNode, h.nodes]
  · rw [edges_setNode, h.edges]
  · rw [nodes_setNode, mem_mention, Std.HashSet.mem_insert, h.known, beq_iff_eq, or_comm,
      eq_comm]

theorem mirrors_addEdge (h : i.Mirrors g) (source target : String) (label : Option String) :
    (i.addEdge source target label).Mirrors (g.addEdge source target label) := by
  have hboth := mirrors_setNode (mirrors_setNode h source) target
  refine ⟨hboth.nodes, ?_, hboth.known⟩
  simp only [addEdge, Graph.addEdge, hboth.edges]

/-- **A call keeps set and list in step.** -/
theorem mirrors_run (h : i.Mirrors g) (c : Call) : (i.run c).Mirrors (c.run g) := by
  cases c with
  | node id => exact mirrors_setNode h id
  | edge source target label => exact mirrors_addEdge h source target label

theorem mirrors_ofCalls (calls : List Call) : (ofCalls calls).Mirrors (Graph.ofCalls calls) := by
  have hrun : ∀ (i : Indexed) (g : Graph), i.Mirrors g →
      (calls.foldl run i).Mirrors (calls.foldl Call.run g) := by
    induction calls with
    | nil => exact fun i g h => h
    | cons c rest ih => exact fun i g h => ih _ _ (mirrors_run h c)
  exact hrun {} empty ⟨rfl, rfl, fun x => by simp [empty]⟩

end Indexed

/-! ## What is kept -/

/-- **What a graph has of the calls that made it.** -/
structure Keeps (g : Graph) (calls : List Call) : Prop where
  nodes_nodup : g.nodes.Nodup
  /-- All mentioned names, in the order of their first mention. -/
  nodes : g.nodes = (calls.flatMap Call.names).eraseDups
  hasNode : ∀ x, g.hasNode x = true ↔ x ∈ g.nodes
  endpoints : ∀ e ∈ g.edges, e.source ∈ g.nodes ∧ e.target ∈ g.nodes
  /-- All added edges in order, parallel ones and loops among them. -/
  edges : g.edges = calls.filterMap Call.edge?
  successors_nodup : ∀ x, (g.successors x).Nodup
  /-- The targets of the edges of a node, in the order of their first occurrence. -/
  successors : ∀ x, g.successors x =
    ((g.edges.filter fun e => e.source = x).map Edge.target).eraseDups
  successors_other : ∀ x, x ∉ g.nodes → g.successors x = []
  sinks : g.sinks = g.nodes.filter fun x => g.successors x = []

theorem endpoints_ofCalls {calls : List Call} {e : Edge} (h : e ∈ (ofCalls calls).edges) :
    e.source ∈ (ofCalls calls).nodes ∧ e.target ∈ (ofCalls calls).nodes := by
  rw [edges_ofCalls, List.mem_filterMap] at h
  obtain ⟨c, hc, he⟩ := h
  have hnames : e.source ∈ c.names ∧ e.target ∈ c.names := by
    cases c with
    | node id => cases he
    | edge source target label =>
      cases he
      simp [Call.names]
  rw [nodes_ofCalls, List.mem_eraseDups, List.mem_eraseDups]
  exact ⟨List.mem_flatMap_of_mem hc hnames.1, List.mem_flatMap_of_mem hc hnames.2⟩

/-- **A graph keeps its calls**, whatever they are: the mentioned names once each, in order, and all
edges; and its queries agree with each other. So does a graph that keeps the set of its nodes beside
their list: it has the same nodes and edges, and a name is in the set exactly if it is a node. -/
theorem calls_are_kept (calls : List Call) :
    (ofCalls calls).Keeps calls ∧
      (Indexed.ofCalls calls).nodes = (ofCalls calls).nodes ∧
      (Indexed.ofCalls calls).edges = (ofCalls calls).edges ∧
      ∀ x, (Indexed.ofCalls calls).hasNode x = true ↔ x ∈ (ofCalls calls).nodes := by
  have hmirrors := Indexed.mirrors_ofCalls calls
  refine ⟨?_, hmirrors.nodes, hmirrors.edges, hmirrors.known⟩
  exact
    { nodes_nodup := by rw [nodes_ofCalls, ← distinct_eq_eraseDups]; exact nodup_distinct _ _
      nodes := nodes_ofCalls calls
      hasNode := fun x => decide_eq_true_iff
      endpoints := fun e => endpoints_ofCalls
      edges := edges_ofCalls calls
      successors_nodup := fun x => nodup_distinct _ _
      successors := fun x => distinct_eq_eraseDups _
      successors_other := fun x hx => successors_eq_nil_iff.2 fun e he heq =>
        hx (heq ▸ (endpoints_ofCalls he).1)
      sinks := sinks_eq _ }

end FormRouting.Graph
