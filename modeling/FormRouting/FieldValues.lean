import FormRouting.Json.Value
import FormRouting.Text.Digit

/-!
# Field values

The current values of a form, and how a rule finds the one it asks for. A name
can be a path of segments between dots; a value stored under the whole name comes
first.
-/

namespace FormRouting

/-- The current value of a field by name; `none` for a field without one. -/
abbrev Source := String → Option Json

/-- Field values held in memory. -/
structure FieldValues where
  fields : Table Json
deriving Inhabited

namespace FieldValues

def empty : FieldValues := ⟨Table.empty⟩

/-- The members of an object; any other value gives no field. -/
def ofJson : Json → FieldValues
  | .object members => ⟨Table.ofList members⟩
  | _ => empty

def toJson (values : FieldValues) : Json := .object values.fields.entries

/-- Set a field, replacing any earlier value. -/
def insert (values : FieldValues) (name : String) (value : Json) : FieldValues :=
  ⟨values.fields.insert name value⟩

/-- The values after setting the fields one after the other. -/
def ofList (entries : List (String × Json)) : FieldValues := ⟨Table.ofList entries⟩

/-- The value stored under exactly this name. -/
def get? (values : FieldValues) (name : String) : Option Json := values.fields.get? name

def size (values : FieldValues) : Nat := values.fields.size

def isEmpty (values : FieldValues) : Bool := values.fields.isEmpty

/-- The parts of a path between its dots; there is always at least one. -/
def splitDots : List Char → List (List Char)
  | [] => [[]]
  | c :: rest =>
    if c = '.' then [] :: splitDots rest
    else
      match splitDots rest with
      | [] => [[c]]
      | s :: others => (c :: s) :: others

def segments (path : String) : List String := (splitDots path.toList).map String.ofList

/-- The array index that a segment denotes: decimal digits, possibly after a plus sign, of a
number below `2 ^ 64`. -/
def index? (segment : String) : Option Nat :=
  let digits :=
    match segment.toList with
    | '+' :: rest => rest
    | cs => cs
  (Digit.number? 10 digits).bind fun n => if n < Nat.pow 2 64 then some n else none

/-- From a value to its element or member. -/
def enter (value : Json) (segment : String) : Option Json :=
  match value with
  | .array _ => (index? segment).bind value.item?
  | _ => value.member? segment

/-- From a value along the segments of a path. -/
def navigate : List String → Json → Option Json
  | [], value => some value
  | segment :: rest, value => (enter value segment).bind (navigate rest)

/-- The value under the whole path, else the value reached segment by segment. -/
def getPath? (values : FieldValues) (path : String) : Option Json :=
  match values.get? path with
  | some value => some value
  | none =>
    match segments path with
    | [] => none
    | first :: rest => (values.get? first).bind (navigate rest)

/-- Field values as a source of fields. -/
def source (values : FieldValues) : Source := values.getPath?

/-- A plain object as a source: fields are found by their exact names. -/
def exactSource (members : List (String × Json)) : Source := fun name => members.lookup name

/-- Values are equal when they have the same fields with the same values. -/
def same (a b : FieldValues) : Bool := a.toJson.same b.toJson

end FieldValues

end FormRouting
