import FormRouting.Tree
import FormRouting.Decimal.Round
import FormRouting.Text.Digit

/-!
# YAML scalars

What a plain scalar stands for: nothing, a truth value, a whole number, a
floating-point number, or else its text. A standard tag asks for one of these.

Whole numbers are decimal, or hexadecimal, octal or binary after `0x`, `0o` and
`0b`. Those between 64 and 128 bits are refused; larger decimal ones are taken as
floating-point numbers.
-/

namespace FormRouting.Yaml.Scalar

def isNullWord (text : String) : Bool := ["null", "Null", "NULL", "~"].contains text

def boolWord? (text : String) : Option Bool :=
  if ["true", "True", "TRUE"].contains text then some true
  else if ["false", "False", "FALSE"].contains text then some false
  else none

/-- Several digits of which the first is zero. They are not a number. -/
def isPadded : List Char → Bool
  | '0' :: c :: rest => (c :: rest).all Char.isDigit
  | _ => false

/-- A whole number without its sign. -/
def magnitude? : List Char → Option Nat
  | '0' :: 'x' :: ds => Digit.number? 16 ds
  | '0' :: 'o' :: ds => Digit.number? 8 ds
  | '0' :: 'b' :: ds => Digit.number? 2 ds
  | ds => if isPadded ds then none else Digit.number? 10 ds

/-- A number under a sign. -/
def signed (negative : Bool) (n : Nat) : Int := if negative then -(n : Int) else n

/-- A sign, positive when there is none, and what follows it. -/
def splitSign : List Char → Bool × List Char
  | '-' :: rest => (true, rest)
  | '+' :: rest => (false, rest)
  | cs => (false, cs)

def integer? (cs : List Char) : Option Int :=
  (magnitude? (splitSign cs).2).map (signed (splitSign cs).1)

/-- The power of ten after a number: nothing, or `e`, a sign and digits. -/
def exponent? : List Char → Option Int
  | [] => some 0
  | e :: rest =>
    if e = 'e' ∨ e = 'E' then (Digit.number? 10 (splitSign rest).2).map (signed (splitSign rest).1)
    else none

/-- A decimal without its sign: digits with at most one point, and a power of ten. -/
def decimal? (cs : List Char) : Option Decimal :=
  let whole := cs.takeWhile Char.isDigit
  let rest := cs.dropWhile Char.isDigit
  let afterPoint := rest.head? = some '.'
  let fraction := if afterPoint then (rest.drop 1).takeWhile Char.isDigit else []
  let rest := if afterPoint then (rest.drop 1).dropWhile Char.isDigit else rest
  match Digit.number? 10 (whole ++ fraction), exponent? rest with
  | some coefficient, some exponent => some ⟨coefficient, exponent - fraction.length⟩
  | _, _ => none

/-- A floating-point number that has no decimal. -/
def nonFinite? (text : String) : Option NonFinite :=
  if [".nan", ".NaN", ".NAN"].contains text then some .notANumber
  else if [".inf", ".Inf", ".INF", "+.inf", "+.Inf", "+.INF"].contains text then
    some (.infinity false)
  else if ["-.inf", "-.Inf", "-.INF"].contains text then some (.infinity true)
  else none

/-- A floating-point number. One that is out of range is none. -/
def float? (text : String) : Option Tree :=
  match nonFinite? text with
  | some x => some (.nonFinite x)
  | none =>
    let (negative, cs) := splitSign text.toList
    ((decimal? cs).bind (Decimal.toBinary64? negative)).map fun x => .number (.float x)

/-- A whole number fits 64 bits, signed or not. -/
def fitsWord (n : Int) : Bool := -(Nat.pow 2 63 : Int) ≤ n && n < (Nat.pow 2 64 : Int)

/-- A whole number fits 128 bits, signed or not. -/
def fitsDoubleWord (n : Int) : Bool :=
  -(Nat.pow 2 127 : Int) ≤ n && n < (Nat.pow 2 128 : Int)

/-- What a plain scalar stands for; `none` if it is a number that is refused. -/
def plain? (text : String) : Option Tree :=
  let float :=
    if isPadded (splitSign text.toList).2 then some (.string text)
    else some ((float? text).getD (.string text))
  if text.isEmpty || isNullWord text then some .null
  else
    match boolWord? text with
    | some b => some (.bool b)
    | none =>
      match integer? text.toList with
      | some n =>
        if fitsWord n then some (.number (.int n)) else if fitsDoubleWord n then none else float
      | none => float

/-- The tags of the values that a scalar can stand for. -/
inductive Kind where
  | null
  | bool
  | int
  | float
deriving DecidableEq

def Kind.ofTag? (tag : String) : Option Kind :=
  if tag = "tag:yaml.org,2002:null" then some .null
  else if tag = "tag:yaml.org,2002:bool" then some .bool
  else if tag = "tag:yaml.org,2002:int" then some .int
  else if tag = "tag:yaml.org,2002:float" then some .float
  else none

/-- The value of a kind that a text writes, whether it is quoted or not. -/
def ofKind? (text : String) : Kind → Option Tree
  | .null => if isNullWord text then some .null else none
  | .bool => (boolWord? text).map .bool
  | .int => ((integer? text.toList).filter fitsWord).map fun n => .number (.int n)
  | .float => float? text

/-- A tag of the application's own begins with an exclamation mark. -/
def isOwnTag (tag : String) : Bool := tag.toList.head? == some '!'

/-- What a scalar under a tag stands for. A tag of the application's own keeps the value that
the scalar has without it. -/
def tree? (tag : Option String) (plain : Bool) (text : String) : Option Tree :=
  let untagged := if plain then plain? text else some (.string text)
  match tag with
  | none => untagged
  | some tag =>
    match Kind.ofTag? tag with
    | some kind => ofKind? text kind
    | none => if isOwnTag tag then untagged.map (.tagged tag) else some (.string text)

/-- The scalar stands for no value at all; `none` if its tag asks for that and its text does not. -/
def isNothing? (tag : Option String) (plain : Bool) (text : String) : Option Bool :=
  if !plain then some false
  else
    match tag with
    | none => some (text.isEmpty || isNullWord text)
    | some tag =>
      if Kind.ofTag? tag != some .null then some false
      else if isNullWord text then some true
      else none

end FormRouting.Yaml.Scalar
