import FormRouting.Json.Value
import FormRouting.Text.Digit

/-!
# Reading JSON numbers

A number without fraction and exponent that fits 64 bits is a whole number; every
other one is a floating-point number. Its leading digits, as many as fit an
unsigned 64-bit word, are rounded to binary64 first, and then multiplied or
divided once by a rounded power of ten; so the result can differ in the last bit
from the nearest number to the decimal.
-/

namespace FormRouting.Number

/-- The greatest unsigned 64-bit word. -/
def maxWord : Nat := Nat.pow 2 64 - 1

/-- The exponent beyond which a written exponent is not read as a number any more. -/
def maxExponent : Nat := Nat.pow 2 31 - 1

/-- The leading digits that fit a word, and how many digits follow them. -/
def takeWhole (word : Nat) : List Char → Nat × Nat
  | [] => (word, 0)
  | c :: rest =>
    let next := word * 10 + Digit.decimal c
    if next ≤ maxWord then takeWhole next rest else (word, rest.length + 1)

/-- The word with as many digits of the fraction appended as fit, and their number. -/
def takeFraction (word : Nat) : List Char → Nat × Nat
  | [] => (word, 0)
  | c :: rest =>
    let next := word * 10 + Digit.decimal c
    if next ≤ maxWord then ((takeFraction next rest).1, (takeFraction next rest).2 + 1)
    else (word, 0)

/-- `x * 10 ^ exponent`, in one multiplication or division where the power of ten is a binary64
number. Below that range the number is divided by `10 ^ 308` until it is or has vanished. -/
def scale (x : Binary64) (exponent : Int) : Option Binary64 :=
  if exponent > 308 then (if x.isZero then some x else none)
  else if 0 ≤ exponent then
    let y := x.mul (Binary64.powTen exponent.toNat)
    if y.inRange then some y else none
  else if -308 ≤ exponent then some (x.div (Binary64.powTen (-exponent).toNat))
  else if x.isZero then some x
  else scale (x.div (Binary64.powTen 308)) (exponent + 308)
termination_by (-exponent).toNat

/-- The floating-point number with the given leading word; `none` if it is out of range. -/
def ofParts (negative : Bool) (word : Nat) (exponent : Int) : Option Number :=
  (scale (Binary64.ofInt word) exponent).map fun x => .float { x with negative := negative }

/-- The value of a written number: sign, digits, digits after the point, and the exponent with
its sign. `none` if it is out of range. -/
def ofDigits (negative : Bool) (whole : List Char) (fraction : List Char)
    (exponent : Option (Bool × List Char)) : Option Number :=
  let (word, dropped) := takeWhole 0 whole
  if fraction.isEmpty ∧ exponent.isNone ∧ dropped = 0 then
    if !negative then some (.int word)
    else if word = 0 ∨ word > Nat.pow 2 63 then
      some (.float { Binary64.ofInt word with negative := true })
    else some (.int (-(word : Int)))
  else
    let (word, taken) := takeFraction word fraction
    let start : Int := (dropped : Int) - taken
    match exponent with
    | none => ofParts negative word start
    | some (below, digits) =>
      let written := digits.foldl (fun n c => n * 10 + Digit.decimal c) 0
      if written > maxExponent then
        if word ≠ 0 ∧ !below then none
        else some (.float { Binary64.ofInt 0 with negative := negative })
      else ofParts negative word (if below then start - written else start + written)

end FormRouting.Number
