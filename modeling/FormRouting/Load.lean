import FormRouting.Yaml.Expansion
import FormRouting.Definition
import FormRouting.Decode.Selector
import FormRouting.Decode.Values
import FormRouting.Notice

/-!
# Loading

Step maps, selectors, field sets and field values from YAML text; a JSON text is
YAML too. What is wrong with the document itself comes before that it is followed
by another one.

* `StepMap.load`, `Selector.load`, `FieldSet.load`, `FieldValues.load`.
-/

namespace FormRouting

inductive LoadError where
  /-- At some place the text breaks the format, or holds what cannot stand there. -/
  | unreadable
  | severalDocuments
  | decode (cause : DecodeError)
  /-- The document is no record of steps. -/
  | notADefinition
deriving DecidableEq, Inhabited

/-- The words of an error; an unreadable place has none. -/
def LoadError.message? : LoadError → Option String
  | .unreadable => none
  | .severalDocuments =>
    some "deserializing from YAML containing more than one document is not supported"
  | .decode cause => some (cause.message .yaml)
  | .notADefinition => some (DefinitionError.message .invalidDefinition)

abbrev Loaded (α : Type) := Except LoadError α

namespace Yaml.Document

variable {α : Type}

/-- A result that has nothing to say about where it fails. -/
def orUnreadable : Option α → Loaded α
  | some result => .ok result
  | none => .error .unreadable

def load (text : String) : Loaded Document := orUnreadable (ofText? text)

/-- The result of a document that nothing comes after. -/
def alone (d : Document) (result : α) : Loaded α :=
  if d.isBroken then .error .unreadable
  else if d.isContinued then .error .severalDocuments
  else .ok result

/-- The tree of the whole document; a document without a root is `null`. -/
def tree (d : Document) : Loaded Tree :=
  match d.root with
  | none => .ok .null
  | some root => orUnreadable (Expansion.run? root (root.tree .values maxDepth root))

end Yaml.Document

open Yaml

variable {C : Type}

/-- A step map. No record in the document, read or not, repeats a name. -/
def StepMap.load (text : String) : Loaded (StepMap C) := do
  let document ← Document.load text
  let tree ← document.tree
  if tree.hasRepeatedName then throw .unreadable
  let tree ← document.alone tree
  match tree.untag with
  | .record _ =>
    match Decode.stepMap .yaml tree with
    | .ok steps => return steps
    | .error cause => throw (.decode cause)
  | _ => throw .notADefinition

/-- What is reported once a step map has been loaded. -/
def StepMap.loadNotices (steps : StepMap C) : List Notice := [.loaded steps.size]

def Selector.load (text : String) : Loaded (Selector C) := do
  let document ← Document.load text
  let tree ← document.tree
  if tree.obstacle?.isSome then throw .unreadable
  match Selector.ofTree? tree with
  | some selector => document.alone selector
  | none => throw (.decode (.noForm .selector))

/-- The options of a field; what is not known is not looked at. -/
def FieldOptions.ofNode (root node : Node Nat) : Expansion (FieldOptions C) := do
  let entries ← root.entries node
  match entries.filter fun e => Decode.optionsFields.any (·.contains e.1) with
  | [] => return {}
  | [(_, value)] =>
    let value ← root.resolve value
    if ← value.isNothing then return {}
    let tree ← root.tree .values (maxDepth - 2) value
    match Decode.selector tree with
    | .ok selector => return ⟨some selector⟩
    | .error _ => failure
  | _ => failure

def FieldSet.ofNode (root : Node Nat) : Expansion (FieldSet C) := do
  let entries ← root.entries root
  entries.foldlM (fun fields (name, node) => do
    return fields.insert name (← FieldOptions.ofNode root node)) FieldSet.empty

/-- A field set; of fields with the same name the last one counts. -/
def FieldSet.load (text : String) : Loaded (FieldSet C) := do
  let document ← Document.load text
  match document.root with
  | none => document.alone FieldSet.empty
  | some root =>
    let fields ← Document.orUnreadable (Expansion.run? root (FieldSet.ofNode root))
    document.alone fields

def FieldValues.ofNode (root : Node Nat) : Expansion FieldValues := do
  if ← root.isNothing then return .empty
  let entries ← root.entries root
  entries.foldlM (fun values (name, node) => do
    let tree ← root.tree .texts (maxDepth - 1) node
    match Decode.json tree with
    | .ok value => return values.insert name value
    | .error _ => failure) FieldValues.empty

/-- Field values; of values with the same name the last one counts. -/
def FieldValues.load (text : String) : Loaded FieldValues := do
  let document ← Document.load text
  match document.root with
  | none => document.alone .empty
  | some root =>
    let values ← Document.orUnreadable (Expansion.run? root (FieldValues.ofNode root))
    document.alone values

end FormRouting
