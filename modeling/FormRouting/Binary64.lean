/-!
# Binary64 numbers

Finite floating-point numbers with a 53-bit significand, in exact integer
arithmetic. Every such number is a whole multiple of `2 ^ -1074`, so `units`
gives its value as an integer and comparison is comparison of integers.

Rounding is to nearest, a half to the even neighbour. The exponent of a result
is not bounded; `inRange` says whether it fits the format.
-/

namespace FormRouting

/-- The number `± significand * 2 ^ shift` in units of `2 ^ -1074`. The sign is kept for zero. -/
structure Binary64 where
  negative : Bool
  significand : Nat
  shift : Nat
deriving DecidableEq, Inhabited

namespace Binary64

/-- The value in units of `2 ^ -1074`. -/
def units (x : Binary64) : Int :=
  if x.negative then -((x.significand * Nat.pow 2 x.shift : Nat) : Int)
  else ((x.significand * Nat.pow 2 x.shift : Nat) : Int)

/-- Numeric equality: the two zeros are equal. -/
def same (x y : Binary64) : Bool := x.units == y.units

def isZero (x : Binary64) : Bool := x.significand == 0

def neg (x : Binary64) : Binary64 := { x with negative := !x.negative }

/-- The exponent fits the format: the largest one belongs to `(2 ^ 53 - 1) * 2 ^ 971`. -/
def inRange (x : Binary64) : Bool := x.shift ≤ 2045

/-- `num / unit` to the nearest integer, a half to the even one. -/
def roundDiv (num unit : Nat) : Nat :=
  let floor := num / unit
  let rest := 2 * (num % unit)
  if rest > unit ∨ (rest = unit ∧ floor % 2 = 1) then floor + 1 else floor

/-- The nearest number to `± num / den`. -/
def round (negative : Bool) (num den : Nat) : Binary64 :=
  let scaled := num * Nat.pow 2 1074
  let shift := (scaled / den).log2 + 1 - 53
  let significand := roundDiv scaled (den * Nat.pow 2 shift)
  if significand = Nat.pow 2 53 then ⟨negative, Nat.pow 2 52, shift + 1⟩
  else ⟨negative, significand, shift⟩

/-- The nearest number to an integer. -/
def ofInt (n : Int) : Binary64 := round (n < 0) n.natAbs 1

/-- The nearest number to `10 ^ k`. -/
def powTen (k : Nat) : Binary64 := round false (Nat.pow 10 k) 1

def mul (x y : Binary64) : Binary64 :=
  round (x.negative != y.negative)
    (x.significand * y.significand * Nat.pow 2 (x.shift + y.shift)) (Nat.pow 2 2148)

def div (x y : Binary64) : Binary64 :=
  round (x.negative != y.negative) (x.significand * Nat.pow 2 x.shift)
    (y.significand * Nat.pow 2 y.shift)

end Binary64

end FormRouting
