import FormRouting.Yaml.Node

/-!
# Anchors and aliases

An anchor takes the number of different names that have been used before it, and
an alias the number that its name has at its place. Using a name again does not
give back its old number, so two names can come to share one. An alias stands
for the last node in the document with its number, which can come after the alias.

* `Node.number?`: names replaced by numbers.
* `Node.anchored?`: the node with a number.
-/

namespace FormRouting.Yaml

/-- The names used so far, each once, with their numbers. -/
abbrev Names := List (String × Nat)

namespace Names

/-- Use a name for an anchor. -/
def declare (names : Names) (name : String) : Names :=
  (name, names.length) :: names.filter fun e => e.1 != name

end Names

namespace Properties

/-- Number the anchor, if there is one. -/
def number (p : Properties String) (names : Names) : Properties Nat × Names :=
  match p.anchor with
  | some name => ({ anchor := some names.length, tag := p.tag }, names.declare name)
  | none => ({ tag := p.tag }, names)

end Properties

namespace Node

mutual

/-- Replace names by numbers; an alias must come after some anchor of its name. -/
def number? (names : Names) : Node String → Option (Node Nat × Names)
  | .alias name => (names.lookup name).map fun n => (.alias n, names)
  | .scalar p plain text => some (.scalar (p.number names).1 plain text, (p.number names).2)
  | .sequence p items =>
    (numberItems? (p.number names).2 items).map fun r => (.sequence (p.number names).1 r.1, r.2)
  | .mapping p entries =>
    (numberEntries? (p.number names).2 entries).map fun r => (.mapping (p.number names).1 r.1, r.2)

def numberItems? (names : Names) : List (Node String) → Option (List (Node Nat) × Names)
  | [] => some ([], names)
  | x :: rest =>
    match number? names x with
    | some (x, names) => (numberItems? names rest).map fun r => (x :: r.1, r.2)
    | none => none

def numberEntries? (names : Names) :
    List (Node String × Node String) → Option (List (Node Nat × Node Nat) × Names)
  | [] => some ([], names)
  | (k, v) :: rest =>
    match number? names k with
    | none => none
    | some (k, names) =>
      match number? names v with
      | some (v, names) => (numberEntries? names rest).map fun r => ((k, v) :: r.1, r.2)
      | none => none

end

mutual

/-- The last node in reading order with the anchor `n`. -/
def anchored? (n : Nat) : Node Nat → Option (Node Nat)
  | .alias _ => none
  | .scalar p plain text => if p.anchor = some n then some (.scalar p plain text) else none
  | .sequence p items =>
    (anchoredItem? n items).or (if p.anchor = some n then some (.sequence p items) else none)
  | .mapping p entries =>
    (anchoredPair? n entries).or (if p.anchor = some n then some (.mapping p entries) else none)

def anchoredItem? (n : Nat) : List (Node Nat) → Option (Node Nat)
  | [] => none
  | x :: rest => (anchoredItem? n rest).or (anchored? n x)

def anchoredPair? (n : Nat) : List (Node Nat × Node Nat) → Option (Node Nat)
  | [] => none
  | (k, v) :: rest => (anchoredPair? n rest).or ((anchored? n v).or (anchored? n k))

end

mutual

/-- How much is written: one for a scalar or an alias, two for the ends of a collection. -/
def weight {α : Type} : Node α → Nat
  | .sequence _ items => 2 + itemsWeight items
  | .mapping _ entries => 2 + entriesWeight entries
  | _ => 1

def itemsWeight {α : Type} : List (Node α) → Nat
  | [] => 0
  | x :: rest => weight x + itemsWeight rest

def entriesWeight {α : Type} : List (Node α × Node α) → Nat
  | [] => 0
  | (k, v) :: rest => weight k + weight v + entriesWeight rest

end

end Node

end FormRouting.Yaml
