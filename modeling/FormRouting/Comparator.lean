import FormRouting.Json.Value

/-!
# Comparators

The built-in tests between the current value of a field and the value written in
a rule. Either side may be missing.

* Numbers are ordered by their nearest binary64 numbers, strings by their
  characters, and `false` comes before `true`; no other pair is ordered.
* Loose equality takes a missing value for `null` and compares numbers like the
  ordering does; everything else has to be the same value.
* Membership looks for the same value in an array.
-/

namespace FormRouting

inductive Comparator where
  | greater
  | greaterOrEqual
  | less
  | lessOrEqual
  | equal
  | notEqual
  | member
  /-- Loose equality that is written `=` or left out. -/
  | implicit
deriving DecidableEq, Inhabited

namespace Comparator

def all : List Comparator :=
  [.greater, .greaterOrEqual, .less, .lessOrEqual, .equal, .notEqual, .member, .implicit]

def symbol : Comparator → String
  | .greater => ">"
  | .greaterOrEqual => ">="
  | .less => "<"
  | .lessOrEqual => "<="
  | .equal => "=="
  | .notEqual => "!="
  | .member => "in"
  | .implicit => "="

/-- The comparator written as `symbol`. -/
def ofSymbol? (symbol : String) : Option Comparator := all.find? fun c => c.symbol == symbol

/-- The order of two values; `none` for a pair that is not ordered. -/
def order? : Option Json → Option Json → Option Ordering
  | some (.number a), some (.number b) => some (compare a.toBinary64.units b.toBinary64.units)
  | some (.string a), some (.string b) => some (compare a b)
  | some (.bool a), some (.bool b) => some (compare a b)
  | _, _ => none

/-- A missing value for `null`. -/
def definite : Option Json → Option Json
  | some .null => none
  | v => v

/-- Equality up to the kind of number, and up to `null` for a missing value. -/
def looselyEqual (current expected : Option Json) : Bool :=
  match definite current, definite expected with
  | none, none => true
  | some (.number a), some (.number b) => a.toBinary64.same b.toBinary64
  | some a, some b => a.same b
  | _, _ => false

/-- The current value is the same as some element of the expected array. -/
def isMember : Option Json → Option Json → Bool
  | some v, some (.array items) => items.any fun item => item.same v
  | _, _ => false

/-- The comparator holds between the current and the expected value. -/
def holds (c : Comparator) (current expected : Option Json) : Bool :=
  match c with
  | .greater => order? current expected == some .gt
  | .greaterOrEqual => order? current expected == some .gt || order? current expected == some .eq
  | .less => order? current expected == some .lt
  | .lessOrEqual => order? current expected == some .lt || order? current expected == some .eq
  | .equal | .implicit => looselyEqual current expected
  | .notEqual => !looselyEqual current expected
  | .member => isMember current expected

end Comparator

end FormRouting
