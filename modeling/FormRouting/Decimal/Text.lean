import FormRouting.Decimal.Shortest

/-!
# Decimals as text

Two ways to write a decimal: all digits in their places, or one digit before the
point and an exponent. Both keep a mark (a point or an exponent) that tells a
floating-point number from an integer.
-/

namespace FormRouting.Decimal

/-- The digits of the coefficient. -/
def digits (d : Decimal) : List Char := Nat.toDigits 10 d.coefficient

/-- The exponent of the first digit. -/
def magnitude (d : Decimal) : Int := d.exponent + (d.digits.length : Int) - 1

private def zeros (n : Nat) : List Char := List.replicate n '0'

/-- All digits in their places, with at least one digit on either side of the point. -/
def positional (d : Decimal) : String :=
  let before := d.magnitude + 1
  if before ≤ 0 then
    String.ofList ('0' :: '.' :: (zeros (-before).toNat ++ d.digits))
  else
    let n := before.toNat
    let rest := d.digits.drop n
    String.ofList (d.digits.take n ++ zeros (n - d.digits.length) ++ '.' ::
      (if rest.isEmpty then ['0'] else rest))

/-- One digit, the others after a point, and an exponent with its sign. -/
def scientific (d : Decimal) : String :=
  let exponent := d.magnitude
  let mantissa :=
    match d.digits with
    | [] => ['0']
    | first :: [] => [first]
    | first :: rest => first :: '.' :: rest
  String.ofList mantissa ++ (if exponent < 0 then "e-" else "e+") ++ toString exponent.natAbs

end FormRouting.Decimal

namespace FormRouting.Binary64

/-- The text of a number under a choice of notation for its shortest decimal. -/
def textWith (write : Decimal → String) (x : Binary64) : String :=
  (if x.negative then "-" else "") ++ write (Decimal.shortest x)

/-- Shortest digits, positional for first digits from `10 ^ -5` to `10 ^ 15`, else with an
exponent. -/
def text (x : Binary64) : String :=
  x.textWith fun d =>
    if -5 ≤ d.magnitude ∧ d.magnitude ≤ 15 then d.positional else d.scientific

/-- Shortest digits, always positional. -/
def positionalText (x : Binary64) : String := x.textWith Decimal.positional

end FormRouting.Binary64
