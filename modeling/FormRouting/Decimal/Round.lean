import FormRouting.Decimal.Shortest

/-!
# Decimals as numbers

The nearest binary64 number to a decimal. Decimals far outside the format are
recognised by their first digit, so that no large power of ten is computed.
-/

namespace FormRouting.Decimal

/-- The number is out of range if the exponent of its first digit is greater. -/
def maxMagnitude : Int := 309

/-- The number rounds to zero if the exponent of its first digit is smaller. -/
def minMagnitude : Int := -330

/-- The nearest number to `± coefficient * 10 ^ exponent`; `none` if it is out of range. -/
def toBinary64? (negative : Bool) (d : Decimal) : Option Binary64 :=
  let magnitude := d.exponent + digitCount d.coefficient - 1
  if d.coefficient = 0 ∨ magnitude < minMagnitude then some ⟨negative, 0, 0⟩
  else if maxMagnitude < magnitude then none
  else
    let x := Binary64.round negative d.ratio.1 d.ratio.2
    if x.inRange then some x else none

end FormRouting.Decimal
