/-!
# Digits

The numbers that texts write in digits of a base up to sixteen. From ten on, the
digits are letters in either case.
-/

namespace FormRouting.Digit

/-- The value of a decimal digit. -/
def decimal (c : Char) : Nat := c.toNat - '0'.toNat

/-- The value of a digit below `base`. -/
def value? (base : Nat) (c : Char) : Option Nat :=
  let value :=
    if '0' ≤ c ∧ c ≤ '9' then decimal c
    else if 'a' ≤ c ∧ c ≤ 'f' then c.toNat - 'a'.toNat + 10
    else if 'A' ≤ c ∧ c ≤ 'F' then c.toNat - 'A'.toNat + 10
    else base
  if value < base then some value else none

/-- The number that the digits write after the number `n`. -/
def extend? (base n : Nat) : List Char → Option Nat
  | [] => some n
  | c :: rest => (value? base c).bind fun d => extend? base (n * base + d) rest

/-- The number of at least one digit. -/
def number? (base : Nat) (cs : List Char) : Option Nat :=
  if cs.isEmpty then none else extend? base 0 cs

end FormRouting.Digit
