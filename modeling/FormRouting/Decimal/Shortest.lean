import FormRouting.Binary64

/-!
# Shortest decimals

The decimal that stands for a binary64 number in text: the fewest digits that
round back to the number, and among those the nearest to it.

The reals that round to a number form an interval around it, whose ends belong
to it when the significand is even. On the grid of decimals with `n` digits only
the two neighbours of the number need testing: if any point of the grid lies in
the interval, one of the two does.
-/

namespace FormRouting

/-- The decimal `coefficient * 10 ^ exponent`. -/
structure Decimal where
  coefficient : Nat
  exponent : Int
deriving DecidableEq, Inhabited

namespace Decimal

/-- The number of decimal digits of `n`, `1` for zero. -/
def digitCount (n : Nat) : Nat := (Nat.toDigits 10 n).length

/-- The exponent of the first digit of `num / den`, for a positive ratio. -/
def leadingExponent (num den : Nat) : Int :=
  if den ≤ num then (digitCount (num / den) : Int) - 1 else -(digitCount (den / num) : Int)

/-- `coefficient * 10 ^ exponent` as a numerator and a denominator. -/
def ratio (d : Decimal) : Nat × Nat :=
  if 0 ≤ d.exponent then (d.coefficient * Nat.pow 10 d.exponent.toNat, 1)
  else (d.coefficient, Nat.pow 10 (-d.exponent).toNat)

/-- Trailing zeros of the coefficient moved into the exponent; `fuel` bounds their number. -/
def trim : Nat → Decimal → Decimal
  | 0, d => d
  | fuel + 1, d =>
    if d.coefficient % 10 = 0 ∧ d.coefficient ≠ 0 then
      trim fuel ⟨d.coefficient / 10, d.exponent + 1⟩
    else d

/-- The decimal rounds to `significand * 2 ^ shift` units. Below a power of two the
neighbouring number is only half as far away. -/
def roundsTo (significand shift : Nat) (d : Decimal) : Bool :=
  let unit := Nat.pow 2 shift
  let below := if significand = Nat.pow 2 52 ∧ shift ≠ 0 then unit else 2 * unit
  let centre := 4 * (significand * unit)
  let low := (centre - below) * d.ratio.2
  let high := (centre + 2 * unit) * d.ratio.2
  let point := 4 * Nat.pow 2 1074 * d.ratio.1
  if significand % 2 = 0 then low ≤ point ∧ point ≤ high else low < point ∧ point < high

/-- The decimal with at most `digits` digits that rounds to the number, if there is one. -/
def shortestWith? (significand shift : Nat) (digits : Nat) : Option Decimal :=
  let num := significand * Nat.pow 2 shift
  let den := Nat.pow 2 1074
  let exponent := leadingExponent num den - (digits : Int) + 1
  let floor :=
    if 0 ≤ exponent then num / (den * Nat.pow 10 exponent.toNat)
    else num * Nat.pow 10 (-exponent).toNat / den
  let lower : Decimal := ⟨floor, exponent⟩
  let upper : Decimal := ⟨floor + 1, exponent⟩
  -- twice the number against the sum of its neighbours, all times the denominators
  let twice := 2 * num * lower.ratio.2
  let sum := (lower.ratio.1 + upper.ratio.1) * den
  let nearest := if twice < sum ∨ (twice = sum ∧ floor % 2 = 0) then lower else upper
  let other := if nearest = lower then upper else lower
  if roundsTo significand shift nearest then some nearest
  else if roundsTo significand shift other then some other
  else none

/-- The shortest decimal of the magnitude of a number; seventeen digits always suffice. -/
def shortest (x : Binary64) : Decimal :=
  if x.significand = 0 then ⟨0, 0⟩
  else
    match (List.range 17).findSome? fun n => shortestWith? x.significand x.shift (n + 1) with
    | some d => trim 17 d
    | none => ⟨0, 0⟩

end Decimal

end FormRouting
