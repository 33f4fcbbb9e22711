import FormRouting.Graph

/-!
# Graphs as DOT text

One statement a line: the nodes, then the edges. Names and labels are quoted; in
them a backslash and a quote are written after a backslash.

A backslash is written twice first, and then every quote after one more, so that the
backslash of a quote is not taken for one of the name.
-/

namespace FormRouting.Graph

/-- Write a word in place of a character wherever it stands. -/
def replaceChar (c : Char) (word cs : List Char) : List Char :=
  cs.flatMap fun d => if d = c then word else [d]

/-- What stands between the quotes. -/
def dotEscape (cs : List Char) : List Char :=
  replaceChar '"' ['\\', '"'] (replaceChar '\\' ['\\', '\\'] cs)

def dotQuote (s : String) : String := "\"" ++ String.ofList (dotEscape s.toList) ++ "\""

def dotNode (id : String) : String := "    " ++ dotQuote id ++ ";\n"

def dotEdge (e : Edge) : String :=
  "    " ++ dotQuote e.source ++ " -> " ++ dotQuote e.target ++
    (match e.label with
      | some label => " [label=" ++ dotQuote label ++ "]"
      | none => "") ++ ";\n"

def toDot (g : Graph) : String :=
  "digraph \x7b\n" ++ String.join (g.nodes.map dotNode) ++ String.join (g.edges.map dotEdge) ++
    "\x7d\n"

end FormRouting.Graph
