import FormRouting.Yaml.Token

/-!
# YAML nodes

What the tokens of a document say: scalars, sequences and mappings, with the
anchors and tags before them, and aliases in place of nodes that stand elsewhere.

Nodes are read by recursive descent. Whether a token may begin a node depends on
the place: blocks do not stand inside brackets, and only a mapping's entry can be
a sequence whose dashes are not indented any further.
-/

namespace FormRouting.Yaml

/-- What stands before a node. -/
structure Properties (α : Type) where
  anchor : Option α := none
  tag : Option String := none
deriving DecidableEq, Inhabited

/-- A node whose anchors and aliases are called by an `α`. -/
inductive Node (α : Type) where
  | alias (target : α)
  | scalar (properties : Properties α) (plain : Bool) (text : String)
  | sequence (properties : Properties α) (items : List (Node α))
  | mapping (properties : Properties α) (entries : List (Node α × Node α))
deriving Inhabited

/-- What the handles of tags stand for. -/
abbrev Handles := List (String × String)

namespace Handles

/-- The handles that need no declaration. -/
def standard : Handles := [("!", "!"), ("!!", "tag:yaml.org,2002:")]

/-- A tag in full; without a handle the suffix is the tag. -/
def fullTag? (handles : Handles) (handle suffix : String) : Option String :=
  if handle.isEmpty then some suffix else (handles.lookup handle).map (· ++ suffix)

end Handles

namespace Node

/-- Where a node stands. -/
inductive Place where
  | flow
  | block
  /-- A key or a value of a block mapping. -/
  | blockEntry
deriving DecidableEq

variable {α : Type}

/-- A node where nothing is written. -/
def empty : Node α := .scalar {} true ""

/-- A node and the tokens after it. -/
abbrev Reading (β : Type) := Option (β × List Token)

/-- An anchor and a tag, in either order. -/
def properties? (handles : Handles) : List Token → Reading (Properties String)
  | .anchor a :: .tag h s :: rest =>
    (handles.fullTag? h s).map fun t => ({ anchor := some a, tag := some t }, rest)
  | .tag h s :: .anchor a :: rest =>
    (handles.fullTag? h s).map fun t => ({ anchor := some a, tag := some t }, rest)
  | .anchor a :: rest => some ({ anchor := some a }, rest)
  | .tag h s :: rest => (handles.fullTag? h s).map fun t => ({ tag := some t }, rest)
  | rest => some ({}, rest)

/-- The tag `!` says that a scalar is what it looks like. -/
def dropBareTag (p : Properties String) : Properties String :=
  if p.tag = some "!" then { p with tag := none } else p

/-- A comma parts the items inside brackets. -/
def afterComma : List Token → Option (List Token)
  | .flowEntry :: rest => some rest
  | _ => none

mutual

/-- The node at the start of the tokens. `fuel` bounds the depth of the descent. -/
def read (handles : Handles) : Nat → Place → List Token → Reading (Node String)
  | 0, _, _ => none
  | _, _, .alias name :: rest => some (.alias name, rest)
  | fuel + 1, place, tokens =>
    match properties? handles tokens with
    | none => none
    | some (_, []) => none
    | some (p, t :: rest) =>
      match t, place with
      | .scalar plain text, _ => some (.scalar (dropBareTag p) plain text, rest)
      | .sequenceStart, _ =>
        (flowItems handles fuel true rest).map fun r => (.sequence p r.1, r.2)
      | .mappingStart, _ =>
        (flowEntries handles fuel true rest).map fun r => (.mapping p r.1, r.2)
      | .blockSequence, .block | .blockSequence, .blockEntry =>
        (blockItems handles fuel rest).map fun r => (.sequence p r.1, r.2)
      | .blockMapping, .block | .blockMapping, .blockEntry =>
        (blockEntries handles fuel rest).map fun r => (.mapping p r.1, r.2)
      | .blockEntry, .blockEntry =>
        (dashedItems handles fuel (t :: rest)).map fun r => (.sequence p r.1, r.2)
      | _, _ => if p = {} then none else some (.scalar p true "", t :: rest)

/-- A node that may be left out before any of the tokens `ends`. -/
def readOr (handles : Handles) (ends : List Token) :
    Nat → Place → List Token → Reading (Node String)
  | _, _, [] => none
  | 0, _, _ => none
  | fuel + 1, place, t :: rest =>
    if ends.contains t then some (empty, t :: rest) else read handles fuel place (t :: rest)

/-- The items of a block sequence up to its end. -/
def blockItems (handles : Handles) : Nat → List Token → Reading (List (Node String))
  | fuel + 1, .blockEntry :: rest =>
    match readOr handles [.blockEntry, .blockEnd] fuel .block rest with
    | some (item, rest) => (blockItems handles fuel rest).map fun r => (item :: r.1, r.2)
    | none => none
  | _ + 1, .blockEnd :: rest => some ([], rest)
  | _, _ => none

/-- The items of a sequence whose dashes are not indented; it has no end of its own. -/
def dashedItems (handles : Handles) : Nat → List Token → Reading (List (Node String))
  | fuel + 1, .blockEntry :: rest =>
    match readOr handles [.blockEntry, .key, .value, .blockEnd] fuel .block rest with
    | some (item, rest) => (dashedItems handles fuel rest).map fun r => (item :: r.1, r.2)
    | none => none
  | _, [] => none
  | _, rest => some ([], rest)

/-- The entries of a block mapping up to its end. A value may be left out with its mark. -/
def blockEntries (handles : Handles) : Nat → List Token → Reading (List (Node String × Node String))
  | fuel + 1, .key :: rest =>
    match readOr handles [.key, .value, .blockEnd] fuel .blockEntry rest with
    | some (key, .value :: rest) =>
      match readOr handles [.key, .value, .blockEnd] fuel .blockEntry rest with
      | some (value, rest) =>
        (blockEntries handles fuel rest).map fun r => ((key, value) :: r.1, r.2)
      | none => none
    | some (key, rest) => (blockEntries handles fuel rest).map fun r => ((key, empty) :: r.1, r.2)
    | none => none
  | _ + 1, .blockEnd :: rest => some ([], rest)
  | _, _ => none

/-- The items of a sequence in brackets up to its end. A key begins a mapping of one entry. -/
def flowItems (handles : Handles) : Nat → (first : Bool) → List Token →
    Reading (List (Node String))
  | 0, _, _ => none
  | _, _, .sequenceEnd :: rest => some ([], rest)
  | fuel + 1, first, tokens =>
    match (if first then some tokens else afterComma tokens) with
    | none => none
    | some (.sequenceEnd :: rest) => some ([], rest)
    | some (.key :: rest) =>
      match singleEntry handles fuel rest with
      | some (entry, rest) =>
        (flowItems handles fuel false rest).map fun r => (.mapping {} [entry] :: r.1, r.2)
      | none => none
    | some tokens =>
      match read handles fuel .flow tokens with
      | some (item, rest) => (flowItems handles fuel false rest).map fun r => (item :: r.1, r.2)
      | none => none

/-- The entry of a sequence that begins with a key. When the key is left out, the mark that
follows is passed over with it. -/
def singleEntry (handles : Handles) : Nat → List Token → Reading (Node String × Node String)
  | fuel + 1, t :: rest =>
    match (if [.value, .flowEntry, .sequenceEnd].contains t then some (empty, rest)
        else read handles fuel .flow (t :: rest)) with
    | some (key, rest) =>
      (valueOr handles [.flowEntry, .sequenceEnd] fuel rest).map fun r => ((key, r.1), r.2)
    | none => none
  | _, _ => none

/-- A value after its mark, or nothing. -/
def valueOr (handles : Handles) (ends : List Token) : Nat → List Token → Reading (Node String)
  | fuel + 1, .value :: rest => readOr handles ends fuel .flow rest
  | _, [] => none
  | _, rest => some (empty, rest)

/-- The entries of a mapping in brackets up to its end. A node without a key mark is a key without
a value. -/
def flowEntries (handles : Handles) : Nat → (first : Bool) → List Token →
    Reading (List (Node String × Node String))
  | 0, _, _ => none
  | _, _, .mappingEnd :: rest => some ([], rest)
  | fuel + 1, first, tokens =>
    match (if first then some tokens else afterComma tokens) with
    | none => none
    | some (.mappingEnd :: rest) => some ([], rest)
    | some (.key :: rest) =>
      match readOr handles [.value, .flowEntry, .mappingEnd] fuel .flow rest with
      | none => none
      | some (key, rest) =>
        match valueOr handles [.flowEntry, .mappingEnd] fuel rest with
        | some (value, rest) =>
          (flowEntries handles fuel false rest).map fun r => ((key, value) :: r.1, r.2)
        | none => none
    | some tokens =>
      match read handles fuel .flow tokens with
      | some (key, rest) =>
        (flowEntries handles fuel false rest).map fun r => ((key, empty) :: r.1, r.2)
      | none => none

end

end Node

end FormRouting.Yaml
