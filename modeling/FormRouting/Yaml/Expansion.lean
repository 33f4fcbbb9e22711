import FormRouting.Yaml.Document
import FormRouting.Yaml.Scalar

/-!
# Trees of YAML nodes

A node becomes a tree when its scalars are given their values and its aliases
are replaced by what they stand for. So that this comes to an end, collections are
nested only so deep, and aliases are followed only so often in one document.

* `Node.resolve`: a node in place of an alias.
* `Node.tree`: the tree of a node.

The functions take the root of the document, in which aliases are looked up, first.
-/

namespace FormRouting.Yaml

/-- How deep collections may be nested. -/
def maxDepth : Nat := 128

/-- How often aliases may be followed for each part of a document. -/
def aliasesPerPart : Nat := 100

/-- A result that depends on how often aliases may still be followed; `none` if the document
cannot be taken as what it should be. -/
abbrev Expansion (α : Type) := StateT Nat Option α

/-- How the keys of mappings are taken. -/
inductive Keys where
  /-- A key is a value of its own. -/
  | values
  /-- A key is the text of a scalar, whatever it stands for. -/
  | texts
deriving DecidableEq

namespace Node

/-- Follow an alias to the node in the document that it stands for. -/
def resolve (root : Node Nat) : Node Nat → Expansion (Node Nat)
  | .alias n => fun steps =>
    match steps with
    | 0 => none
    | steps + 1 => (root.anchored? n).map fun node => (node, steps)
  | node => pure node

/-- The text of a scalar. -/
def text (root node : Node Nat) : Expansion String := do
  match ← resolve root node with
  | .scalar _ _ text => return text
  | _ => failure

/-- A node under its tag. Only a tag of the application's own is kept. -/
def keepTag (p : Properties Nat) (body : Tree) : Tree :=
  match p.tag with
  | some tag => if Scalar.isOwnTag tag then .tagged tag body else body
  | none => body

/-- The tree of a node whose collections are nested at most `depth` deep. -/
def tree (root : Node Nat) (keys : Keys) : (depth : Nat) → Node Nat → Expansion Tree
  | 0, node => do
    match ← resolve root node with
    | .scalar p plain text => StateT.lift (Scalar.tree? p.tag plain text)
    | _ => failure
  | depth + 1, node => do
    match ← resolve root node with
    | .alias _ => failure
    | .scalar p plain text => StateT.lift (Scalar.tree? p.tag plain text)
    | .sequence p items => return keepTag p (.list (← items.mapM (tree root keys depth)))
    | .mapping p entries =>
      let entries ← entries.mapM fun (key, value) => do
        let key ←
          if keys = .texts then Tree.string <$> text root key else tree root keys depth key
        return (key, ← tree root keys depth value)
      return keepTag p (.record entries)

/-- The entries of a node that is taken as a record, with the texts of their keys and the values as
they are. A scalar with nothing written is a record too. -/
def entries (root node : Node Nat) : Expansion (List (String × Node Nat)) := do
  match ← resolve root node with
  | .mapping _ entries => entries.mapM fun (key, value) => do return (← text root key, value)
  | .scalar _ true "" => return []
  | _ => failure

/-- The node itself, not what it is an alias of, stands for no value at all. -/
def isNothing : Node Nat → Expansion Bool
  | .scalar p plain text => StateT.lift (Scalar.isNothing? p.tag plain text)
  | _ => pure false

end Node

/-- Run an expansion of a document. -/
def Expansion.run? {α : Type} (root : Node Nat) (x : Expansion α) : Option α :=
  (StateT.run x (aliasesPerPart * root.weight)).map (·.1)

end FormRouting.Yaml
