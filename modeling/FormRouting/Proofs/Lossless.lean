import FormRouting.Graph.Dot
import FormRouting.Graph.Json
import FormRouting.Proofs.Comparison.SameValue
import Mathlib.Data.List.Basic

/-!
# Writing a graph loses nothing

A graph is written as DOT text or as JSON. A reader for each of the two gets back the
nodes and the edges in their order, whatever characters are in the names and labels,
so two graphs that are written alike are one graph.

* `dotEscape_eq_flatMap`: the two replacements that escape a name are one pass over it.
* `readName_escaped`: a quoted name ends at the first quote that no backslash stands before.
* `readStatement_text`: a line of DOT text is read up to its end and no further.
* `ofDot?_toDot`: **the DOT text of a graph is read back as the graph.**
* `ofJson?_toJson`: **so is its JSON.**
* `graph_recovered`: both, and what follows for two graphs.
-/

namespace FormRouting.Graph

/-! ## Reading DOT text -/

/-- A line of DOT text. -/
inductive Statement where
  | node (id : String)
  | edge (edge : Edge)

namespace Statement

def node? : Statement → Option String
  | .node id => some id
  | .edge _ => none

def edge? : Statement → Option Edge
  | .node _ => none
  | .edge e => some e

/-- How the line is written. -/
def text : Statement → String
  | .node id => dotNode id
  | .edge e => dotEdge e

end Statement

/-- The characters of a name up to its closing quote, and the text behind it. A backslash is
dropped, and the character after it belongs to the name. -/
def readName : List Char → Option (List Char × List Char)
  | [] => none
  | '"' :: rest => some ([], rest)
  | ['\\'] => none
  | '\\' :: c :: rest => (readName rest).map fun r => (c :: r.1, r.2)
  | c :: rest => (readName rest).map fun r => (c :: r.1, r.2)

def readQuoted : List Char → Option (String × List Char)
  | '"' :: rest => (readName rest).map fun r => (String.ofList r.1, r.2)
  | _ => none

/-- The text behind a word that it starts with. -/
def behind? (word : String) (cs : List Char) : Option (List Char) := cs.dropPrefix? word.toList

/-- The first line of a text, and the text behind it. -/
def readStatement (cs : List Char) : Option (Statement × List Char) := do
  let (name, cs) ← readQuoted (← behind? "    " cs)
  match behind? ";\n" cs with
  | some rest => return (.node name, rest)
  | none =>
    let (target, cs) ← readQuoted (← behind? " -> " cs)
    match behind? ";\n" cs with
    | some rest => return (.edge ⟨name, target, none⟩, rest)
    | none =>
      let (label, cs) ← readQuoted (← behind? " [label=" cs)
      return (.edge ⟨name, target, some label⟩, ← behind? "];\n" cs)

/-- The lines up to the closing brace, which ends the text. `fuel` bounds the lines. -/
def readStatements : Nat → List Char → Option (List Statement)
  | 0, _ => none
  | fuel + 1, cs =>
    match behind? "\x7d\n" cs with
    | some rest => if rest.isEmpty then some [] else none
    | none => do
      let (first, rest) ← readStatement cs
      return first :: (← readStatements fuel rest)

/-- The graph of a DOT text: its nodes and its edges, in the order of the lines. -/
def ofDot? (text : String) : Option Graph := do
  let cs ← behind? "digraph \x7b\n" text.toList
  let statements ← readStatements cs.length cs
  return ⟨statements.filterMap Statement.node?, statements.filterMap Statement.edge?⟩

/-! ## What is read back from DOT text -/

/-- What is written for a character of a name. -/
def escapeChar (c : Char) : List Char :=
  if c = '\\' then ['\\', '\\'] else if c = '"' then ['\\', '"'] else [c]

/-- **The two replacements are one pass over the name.** The second one meets no quote in what the
first one has written. -/
theorem dotEscape_eq_flatMap (cs : List Char) : dotEscape cs = cs.flatMap escapeChar := by
  rw [dotEscape, replaceChar, replaceChar, List.flatMap_assoc]
  refine List.flatMap_congr fun c _ => ?_
  by_cases hc : c = '\\'
  · simp [escapeChar, hc]
  · simp [escapeChar, hc]

/-- **A name is read up to its closing quote.** -/
theorem readName_escaped (cs rest : List Char) :
    readName (dotEscape cs ++ '"' :: rest) = some (cs, rest) := by
  rw [dotEscape_eq_flatMap]
  induction cs with
  | nil => rfl
  | cons c cs ih =>
    rw [List.flatMap_cons, List.append_assoc]
    by_cases hb : c = '\\'
    · subst hb
      simp [escapeChar, readName, ih]
    · by_cases hq : c = '"'
      · subst hq
        simp [escapeChar, readName, ih]
      · simp [escapeChar, hb, hq, readName, ih]

theorem readQuoted_dotQuote (s : String) (rest : List Char) :
    readQuoted ((dotQuote s).toList ++ rest) = some (s, rest) := by
  have htext : (dotQuote s).toList ++ rest = '"' :: (dotEscape s.toList ++ '"' :: rest) := by
    simp [dotQuote]
  rw [htext, readQuoted, readName_escaped, Option.map_some, String.ofList_toList]

theorem behind?_append (word : String) (rest : List Char) :
    behind? word (word.toList ++ rest) = some rest :=
  List.dropPrefix?_eq_some_iff.2 ⟨word.toList, rfl, beq_self_eq_true _⟩

/-- A text does not start with a word if its first character is another one. -/
theorem behind?_eq_none {word : String} {c d : Char} {w cs : List Char} (hw : word.toList = c :: w)
    (h : d ≠ c) : behind? word (d :: cs) = none := by
  rw [behind?, hw, List.dropPrefix?, if_neg (by simpa using h)]

/-- Behind the first name of a line, a node ends and an edge goes on. -/
theorem behind?_arrow (rest : List Char) : behind? ";\n" (" -> ".toList ++ rest) = none :=
  behind?_eq_none rfl (by decide)

/-- Behind the second name of an edge, a label may follow. -/
theorem behind?_label (rest : List Char) : behind? ";\n" (" [label=".toList ++ rest) = none :=
  behind?_eq_none rfl (by decide)

/-- **A line is read up to its end.** No name or label in it can be taken for what stands around
it. -/
theorem readStatement_text (s : Statement) (rest : List Char) :
    readStatement (s.text.toList ++ rest) = some (s, rest) := by
  match s with
  | .node id =>
    have htext : (Statement.node id).text.toList ++ rest =
        "    ".toList ++ ((dotQuote id).toList ++ (";\n".toList ++ rest)) := by
      simp [Statement.text, dotNode]
    rw [htext]
    simp only [readStatement, Option.bind_eq_bind, Option.pure_def, behind?_append,
      readQuoted_dotQuote, Option.bind_some]
  | .edge ⟨source, target, none⟩ =>
    have htext : (Statement.edge ⟨source, target, none⟩).text.toList ++ rest =
        "    ".toList ++ ((dotQuote source).toList ++
          (" -> ".toList ++ ((dotQuote target).toList ++ (";\n".toList ++ rest)))) := by
      simp [Statement.text, dotEdge]
    rw [htext]
    simp only [readStatement, Option.bind_eq_bind, Option.pure_def, behind?_append,
      readQuoted_dotQuote, behind?_arrow, Option.bind_some]
  | .edge ⟨source, target, some label⟩ =>
    have htext : (Statement.edge ⟨source, target, some label⟩).text.toList ++ rest =
        "    ".toList ++ ((dotQuote source).toList ++
          (" -> ".toList ++ ((dotQuote target).toList ++
            (" [label=".toList ++ ((dotQuote label).toList ++ ("];\n".toList ++ rest)))))) := by
      simp [Statement.text, dotEdge]
    rw [htext]
    simp only [readStatement, Option.bind_eq_bind, Option.pure_def, behind?_append,
      readQuoted_dotQuote, behind?_arrow, behind?_label, Option.bind_some]

/-- A line does not start with the closing brace. -/
theorem behind?_closing (s : Statement) (rest : List Char) :
    behind? "\x7d\n" (s.text.toList ++ rest) = none := by
  cases s with
  | node id =>
    simp only [Statement.text, dotNode, String.toList_append, List.append_assoc]
    exact behind?_eq_none rfl (by decide)
  | edge e =>
    simp only [Statement.text, dotEdge, String.toList_append, List.append_assoc]
    exact behind?_eq_none rfl (by decide)

/-- **All lines are read, one after the other.** -/
theorem readStatements_texts {statements : List Statement} {fuel : Nat}
    (h : statements.length < fuel) :
    readStatements fuel (statements.flatMap (fun s => s.text.toList) ++ "\x7d\n".toList) =
      some statements := by
  induction statements generalizing fuel with
  | nil =>
    cases fuel with
    | zero => exact absurd h (Nat.not_lt_zero _)
    | succ fuel => rfl
  | cons s rest ih =>
    cases fuel with
    | zero => exact absurd h (Nat.not_lt_zero _)
    | succ fuel =>
      have hrest := ih (Nat.lt_of_succ_lt_succ h)
      rw [List.flatMap_cons, List.append_assoc, readStatements, behind?_closing]
      simp only [readStatement_text, hrest, Option.bind_eq_bind, Option.bind_some, Option.pure_def]

/-- The lines of a graph. -/
def statements (g : Graph) : List Statement := g.nodes.map .node ++ g.edges.map .edge

theorem toList_toDot (g : Graph) :
    g.toDot.toList =
      "digraph \x7b\n".toList ++
        (g.statements.flatMap (fun s => s.text.toList) ++ "\x7d\n".toList) := by
  simp only [toDot, statements, String.toList_append, String.toList_join, List.flatMap_map,
    List.flatMap_append, List.append_assoc]
  rfl

/-- A line has at least one character, so a text is longer than the number of its lines. -/
theorem length_lt_of_texts (statements : List Statement) :
    statements.length <
      (statements.flatMap (fun s => s.text.toList) ++ "\x7d\n".toList).length := by
  induction statements with
  | nil => decide
  | cons s rest ih =>
    have hline : 0 < s.text.toList.length := by
      cases s <;> simp [Statement.text, dotNode, dotEdge]
    rw [List.flatMap_cons, List.append_assoc, List.length_append, List.length_cons]
    omega

/-- **The DOT text of a graph is read back as the graph.** -/
theorem ofDot?_toDot (g : Graph) : ofDot? g.toDot = some g := by
  have hnodes : g.statements.filterMap Statement.node? = g.nodes := by
    simp [statements, List.filterMap_append, List.filterMap_map, Function.comp_def,
      Statement.node?]
  have hedges : g.statements.filterMap Statement.edge? = g.edges := by
    simp [statements, List.filterMap_append, List.filterMap_map, Function.comp_def,
      Statement.edge?]
  have hread := readStatements_texts (length_lt_of_texts g.statements)
  rw [ofDot?, toList_toDot, behind?_append]
  simp only [Option.bind_eq_bind, Option.bind_some, hread, hnodes, hedges, Option.pure_def]

/-! ## Reading JSON -/

/-- A text among the members of an object. -/
def textMember? (name : String) (v : Json) : Option String :=
  match v.member? name with
  | some (.string s) => some s
  | _ => none

/-- The items of an array among the members of an object. -/
def itemsMember? (name : String) (v : Json) : Option (List Json) :=
  match v.member? name with
  | some (.array items) => some items
  | _ => none

def edgeOfJson? (v : Json) : Option Edge := do
  return ⟨← textMember? "v" v, ← textMember? "w" v, textMember? "value" v⟩

/-- The graph of a JSON value: its nodes and its edges, in the order of the arrays. -/
def ofJson? (v : Json) : Option Graph := do
  let nodes ← (← itemsMember? "nodes" v).mapM (textMember? "v")
  let edges ← (← itemsMember? "edges" v).mapM edgeOfJson?
  return ⟨nodes, edges⟩

/-- What is read back item by item is read back as a list. -/
theorem mapM_map_of_forall {α β : Type} {write : α → β} {read : β → Option α}
    (h : ∀ a, read (write a) = some a) (l : List α) : (l.map write).mapM read = some l := by
  induction l with
  | nil => rfl
  | cons a rest ih =>
    rw [List.map_cons, List.mapM_cons, h, ih]
    rfl

theorem edgeOfJson?_edgeJson (e : Edge) : edgeOfJson? (edgeJson e) = some e := by
  obtain ⟨source, target, label⟩ := e
  cases label <;> rfl

/-- **The JSON of a graph is read back as the graph.** -/
theorem ofJson?_toJson (g : Graph) : ofJson? g.toJson = some g := by
  have hnode : ∀ id, textMember? "v" (nodeJson id) = some id := fun _ => rfl
  have hnodes : (g.nodes.map nodeJson).mapM (textMember? "v") = some g.nodes :=
    mapM_map_of_forall hnode g.nodes
  have hedges : (g.edges.map edgeJson).mapM edgeOfJson? = some g.edges :=
    mapM_map_of_forall edgeOfJson?_edgeJson g.edges
  have hnodesMember : itemsMember? "nodes" g.toJson = some (g.nodes.map nodeJson) := rfl
  have hedgesMember : itemsMember? "edges" g.toJson = some (g.edges.map edgeJson) := rfl
  simp only [ofJson?, hnodesMember, hedgesMember, hnodes, hedges, Option.bind_eq_bind,
    Option.bind_some, Option.pure_def]

/-! ## Two graphs that are written alike -/

theorem nodeJson_same_iff {a b : String} : (nodeJson a).same (nodeJson b) = true ↔ a = b := by
  simp [nodeJson, Json.same, Json.membersIn, Json.memberOf]

theorem edgeJson_same_iff {e f : Edge} : (edgeJson e).same (edgeJson f) = true ↔ e = f := by
  obtain ⟨source, target, label⟩ := e
  obtain ⟨source', target', label'⟩ := f
  cases label <;> cases label' <;>
    simp [edgeJson, Json.same, Json.membersIn, Json.memberOf]

/-- Arrays of what is told apart by its JSON. -/
theorem sameItems_map_iff {α : Type} {write : α → Json}
    (h : ∀ {a b}, (write a).same (write b) = true ↔ a = b) {l l' : List α} :
    Json.sameItems (l.map write) (l'.map write) = true ↔ l = l' := by
  rw [Json.sameItems_iff, List.forall₂_map_left_iff, List.forall₂_map_right_iff]
  simp only [h, List.forall₂_eq_eq_eq]

/-- Even as values, where the order of members does not count, the JSON of two graphs differs. -/
theorem toJson_same_iff {g h : Graph} : g.toJson.same h.toJson = true ↔ g = h := by
  obtain ⟨nodes, edges⟩ := g
  obtain ⟨nodes', edges'⟩ := h
  simp [toJson, Json.same, Json.membersIn, Json.memberOf, sameItems_map_iff nodeJson_same_iff,
    sameItems_map_iff edgeJson_same_iff]

/-- **A written graph is recovered.** From its DOT text and from its JSON a reader gets back every
graph, node by node and edge by edge, in order and with the labels. So graphs with the same text, or
with the same JSON value, are the same. -/
theorem graph_recovered :
    (∀ g : Graph, ofDot? g.toDot = some g) ∧ (∀ g : Graph, ofJson? g.toJson = some g) ∧
    (∀ g h : Graph, g.toDot = h.toDot ↔ g = h) ∧
    ∀ g h : Graph, g.toJson.same h.toJson = true ↔ g = h := by
  refine ⟨ofDot?_toDot, ofJson?_toJson, fun g h => ⟨fun heq => ?_, fun heq => heq ▸ rfl⟩,
    fun g h => toJson_same_iff⟩
  have hread : some g = some h := by rw [← ofDot?_toDot, heq, ofDot?_toDot]
  exact Option.some.inj hread

end FormRouting.Graph
