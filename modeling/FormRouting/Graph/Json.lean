import FormRouting.Graph
import FormRouting.Json.Value

/-!
# Graphs as JSON

An object with the nodes and the edges. A node has its name under `v`; an edge
goes from `v` to `w` and has its label, if any, under `value`.
-/

namespace FormRouting.Graph

def nodeJson (id : String) : Json := .object [("v", .string id)]

def edgeJson (e : Edge) : Json :=
  .object ([("v", .string e.source), ("w", .string e.target)] ++
    (match e.label with
      | some label => [("value", .string label)]
      | none => []))

def toJson (g : Graph) : Json :=
  .object [("nodes", .array (g.nodes.map nodeJson)), ("edges", .array (g.edges.map edgeJson))]

end FormRouting.Graph
