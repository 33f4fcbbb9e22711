import FormRouting.Table
import FormRouting.Binary64

/-!
# JSON values

Field values, and the values that rules compare them with. A whole number and a
floating-point number are different values even when they are numerically equal.

* `Json.same`: equality of values. The order of an object's members does not
  count, and the two floating-point zeros are one value.
-/

namespace FormRouting

/-- A JSON number: a whole number of at most 64 bits, or a finite binary64 number. -/
inductive Number where
  | int (value : Int)
  | float (value : Binary64)
deriving DecidableEq, Inhabited

namespace Number

/-- The nearest binary64 number, through which all numbers are ordered. -/
def toBinary64 : Number → Binary64
  | .int n => Binary64.ofInt n
  | .float x => x

/-- Equality of number values: whole numbers never equal floating-point ones. -/
def same : Number → Number → Bool
  | .int a, .int b => a == b
  | .float a, .float b => a.same b
  | _, _ => false

end Number

inductive Json where
  | null
  | bool (value : Bool)
  | number (value : Number)
  | string (value : String)
  | array (items : List Json)
  | object (members : List (String × Json))
deriving Inhabited

namespace Json

/-- The member of an object; other values have none. -/
def member? (name : String) : Json → Option Json
  | .object members => members.lookup name
  | _ => none

/-- The element of an array; other values have none. -/
def item? (index : Nat) : Json → Option Json
  | .array items => items[index]?
  | _ => none

/-- An object from members in written order. A repeated name keeps its first place and its
last value. -/
def ofMembers (members : List (String × Json)) : Json :=
  .object (members.foldl (fun ms m => putEntry m.1 m.2 ms) [])

mutual

/-- Equality of values, whatever the order of an object's members. -/
def same : Json → Json → Bool
  | .null, .null => true
  | .bool a, .bool b => a == b
  | .number a, .number b => a.same b
  | .string a, .string b => a == b
  | .array a, .array b => sameItems a b
  | .object a, .object b => membersIn a b && b.all fun m => memberOf a m
  | _, _ => false

def sameItems : List Json → List Json → Bool
  | [], [] => true
  | x :: xs, y :: ys => same x y && sameItems xs ys
  | _, _ => false

/-- Every member of the first list has an equal one in the second. -/
def membersIn : List (String × Json) → List (String × Json) → Bool
  | [], _ => true
  | (k, v) :: rest, other =>
    (other.any fun m => m.1 == k && same v m.2) && membersIn rest other

/-- Some member of the list equals the given one. -/
def memberOf : List (String × Json) → String × Json → Bool
  | [], _ => false
  | (k, v) :: rest, m => (m.1 == k && same v m.2) || memberOf rest m

end

end Json

end FormRouting
