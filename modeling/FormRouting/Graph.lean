/-!
# Graphs

Directed graphs of steps. Nodes keep the order of their first mention and edges
the order in which they were added; parallel edges and loops are kept.
-/

namespace FormRouting

structure Edge where
  source : String
  target : String
  /-- The condition in words; `none` for an unconditional transition. -/
  label : Option String
deriving DecidableEq, Inhabited

structure Graph where
  nodes : List String := []
  edges : List Edge := []
deriving DecidableEq, Inhabited

namespace Graph

def empty : Graph := {}

/-- Add a node unless it is there already. -/
def setNode (g : Graph) (id : String) : Graph :=
  if id ∈ g.nodes then g else { g with nodes := g.nodes ++ [id] }

/-- Add an edge, and first its source and its target. -/
def addEdge (g : Graph) (source target : String) (label : Option String) : Graph :=
  let g := (g.setNode source).setNode target
  { g with edges := g.edges ++ [⟨source, target, label⟩] }

def hasNode (g : Graph) (id : String) : Bool := id ∈ g.nodes

/-- The elements of a list without the later occurrences. -/
def distinct (seen : List String) : List String → List String
  | [] => []
  | x :: rest => if x ∈ seen then distinct seen rest else x :: distinct (x :: seen) rest

/-- The nodes one transition away, in the order of the edges. -/
def successors (g : Graph) (id : String) : List String :=
  distinct [] ((g.edges.filter fun e => e.source = id).map Edge.target)

/-- The nodes without an outgoing edge, in the order of the nodes. -/
def sinks (g : Graph) : List String :=
  g.nodes.filter fun n => !(g.edges.any fun e => e.source = n)

end Graph

end FormRouting
