import FormRouting.Json.Value

/-!
# Trees

A document that has been read but not yet understood. JSON values, JSON texts and
YAML texts all become trees, and the decoders of rules, selectors and field
options work on trees.

A tree can hold what a JSON value cannot: names that are not strings, repeated
names, tagged nodes, floating-point values that are not finite, and the places
where a text stops making sense.

* `Json.toTree`: the tree of a JSON value.
* `Tree.toJson?`: the JSON value that a tree stands for.
* `Tree.obstacle?`: the first thing in a tree that no value may contain.
-/

namespace FormRouting

/-- Why a place in a text cannot be read. -/
inductive Fault where
  /-- The text breaks the format here. -/
  | malformed
  /-- The text ends too early. -/
  | endOfText
  /-- The text ends where a comma or the end of a container should stand. -/
  | unclosed
deriving DecidableEq, Inhabited

/-- The floating-point values that have no decimal. -/
inductive NonFinite where
  | notANumber
  | infinity (negative : Bool)
deriving DecidableEq, Inhabited

inductive Tree where
  | null
  | bool (value : Bool)
  | number (value : Number)
  | nonFinite (value : NonFinite)
  | string (value : String)
  | list (items : List Tree)
  | record (entries : List (Tree × Tree))
  | tagged (tag : String) (body : Tree)
  /-- A place that cannot be read, and the reason. Who only passes over it fails for the reason
  `passing`, or not at all. -/
  | fault (reason : Fault) (passing : Option Fault)
deriving Inhabited

/-- What stands in the way of taking a tree as a value. -/
inductive Obstacle where
  | tag
  | fault (reason : Fault)
deriving DecidableEq, Inhabited

namespace Tree

/-- The node under its tags. -/
def untag : Tree → Tree
  | .tagged _ body => untag body
  | t => t

mutual

/-- The first tag or fault in reading order. -/
def obstacle? : Tree → Option Obstacle
  | .tagged _ _ => some .tag
  | .fault reason _ => some (.fault reason)
  | .list items => obstacleInItems? items
  | .record entries => obstacleInEntries? entries
  | _ => none

def obstacleInItems? : List Tree → Option Obstacle
  | [] => none
  | t :: rest => (obstacle? t).or (obstacleInItems? rest)

def obstacleInEntries? : List (Tree × Tree) → Option Obstacle
  | [] => none
  | (k, v) :: rest => ((obstacle? k).or (obstacle? v)).or (obstacleInEntries? rest)

end

mutual

/-- Why the tree cannot even be passed over. -/
def passingFault? : Tree → Option Fault
  | .tagged _ body => passingFault? body
  | .fault _ passing => passing
  | .list items => passingFaultInItems? items
  | .record entries => passingFaultInEntries? entries
  | _ => none

def passingFaultInItems? : List Tree → Option Fault
  | [] => none
  | t :: rest => (passingFault? t).or (passingFaultInItems? rest)

def passingFaultInEntries? : List (Tree × Tree) → Option Fault
  | [] => none
  | (k, v) :: rest => ((passingFault? k).or (passingFault? v)).or (passingFaultInEntries? rest)

end

mutual

/-- The value that a tree stands for. Names must be strings; a repeated name keeps its first
place and its last value; a floating-point value that is not finite is `null`. -/
def toJson? : Tree → Option Json
  | .null => some .null
  | .bool b => some (.bool b)
  | .number n => some (.number n)
  | .nonFinite _ => some .null
  | .string s => some (.string s)
  | .list items => (itemsToJson? items).map .array
  | .record entries => (entriesToJson? entries).map Json.ofMembers
  | .tagged _ _ => none
  | .fault _ _ => none

def itemsToJson? : List Tree → Option (List Json)
  | [] => some []
  | t :: rest => (toJson? t).bind fun v => (itemsToJson? rest).map (v :: ·)

def entriesToJson? : List (Tree × Tree) → Option (List (String × Json))
  | [] => some []
  | (.string k, v) :: rest =>
    (toJson? v).bind fun v => (entriesToJson? rest).map ((k, v) :: ·)
  | _ :: _ => none

end

mutual

/-- Equality of trees, whatever the order of a record's entries. -/
def same : Tree → Tree → Bool
  | .null, .null => true
  | .bool a, .bool b => a == b
  | .number a, .number b => a.same b
  | .nonFinite a, .nonFinite b => a == b
  | .string a, .string b => a == b
  | .list a, .list b => sameItems a b
  | .record a, .record b => entriesIn a b && b.all fun e => entryOf a e
  | .tagged s a, .tagged t b => s == t && same a b
  | _, _ => false

def sameItems : List Tree → List Tree → Bool
  | [], [] => true
  | x :: xs, y :: ys => same x y && sameItems xs ys
  | _, _ => false

/-- Every entry of the first list has an equal one in the second. -/
def entriesIn : List (Tree × Tree) → List (Tree × Tree) → Bool
  | [], _ => true
  | (k, v) :: rest, other => (other.any fun e => same k e.1 && same v e.2) && entriesIn rest other

/-- Some entry of the list equals the given one. -/
def entryOf : List (Tree × Tree) → Tree × Tree → Bool
  | [], _ => false
  | (k, v) :: rest, e => (same k e.1 && same v e.2) || entryOf rest e

end

/-- Some name is written twice in a list of entries. -/
def repeatsName : List (Tree × Tree) → Bool
  | [] => false
  | (k, _) :: rest => (rest.any fun e => same k e.1) || repeatsName rest

mutual

/-- Some record inside the tree writes a name twice. -/
def hasRepeatedName : Tree → Bool
  | .list items => anyHasRepeatedName items
  | .record entries => repeatsName entries || anyEntryHasRepeatedName entries
  | .tagged _ body => hasRepeatedName body
  | _ => false

def anyHasRepeatedName : List Tree → Bool
  | [] => false
  | t :: rest => hasRepeatedName t || anyHasRepeatedName rest

def anyEntryHasRepeatedName : List (Tree × Tree) → Bool
  | [] => false
  | (k, v) :: rest => hasRepeatedName k || hasRepeatedName v || anyEntryHasRepeatedName rest

end

end Tree

namespace Json

mutual

/-- A value as a tree. -/
def toTree : Json → Tree
  | .null => .null
  | .bool b => .bool b
  | .number n => .number n
  | .string s => .string s
  | .array items => .list (itemsToTree items)
  | .object members => .record (membersToTree members)

def itemsToTree : List Json → List Tree
  | [] => []
  | v :: rest => toTree v :: itemsToTree rest

def membersToTree : List (String × Json) → List (Tree × Tree)
  | [] => []
  | (k, v) :: rest => (.string k, toTree v) :: membersToTree rest

end

end Json

end FormRouting
