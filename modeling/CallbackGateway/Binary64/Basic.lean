/-!
# Binary floating-point numbers of 64 bits

Numbers are bit patterns; all arithmetic is exact on natural numbers followed by one rounding
to nearest, ties to even. A magnitude is the pattern without its sign bit, so magnitudes are
ordered as the numbers they stand for.
-/

namespace CallbackGateway

/-- A number of the interchange format with 1 sign bit, 11 exponent bits and 52 fraction bits. -/
structure Binary64 where
  bits : UInt64
  deriving DecidableEq, Repr, Inhabited

namespace Binary64

/-- The magnitude of infinity; every finite magnitude is below it. -/
def infinity : Nat := 0x7FF0000000000000

/-- The number with a sign and a magnitude. -/
def ofMagnitude (negative : Bool) (magnitude : Nat) : Binary64 :=
  ⟨UInt64.ofNat ((if negative then 0x8000000000000000 else 0) + magnitude)⟩

/-- The number zero. -/
def zero : Binary64 := ofMagnitude false 0

/-- A pattern that stands for no number. -/
def notANumber : Binary64 := ⟨0x7FF8000000000000⟩

/-- Whether the sign bit is set. -/
def isNegative (x : Binary64) : Bool := 0x8000000000000000 ≤ x.bits

/-- The magnitude of a number. -/
def magnitude (x : Binary64) : Nat := x.bits.toNat % 0x8000000000000000

/-- Whether a pattern stands for no number. -/
def isNotANumber (x : Binary64) : Bool := infinity < x.magnitude

/-- The weight of the bit in front of the fraction. -/
def leadingBit : Nat := 0x10000000000000

/-- A power of ten. -/
def tenTo (exponent : Nat) : Nat := Nat.pow 10 exponent

/-- A finite magnitude as a quotient of natural numbers. -/
def quotient (magnitude : Nat) : Nat × Nat :=
  let field := magnitude / leadingBit
  let fraction := magnitude % leadingBit
  if field = 0 then (fraction, 1 <<< 1074)
  else if field < 1075 then (fraction + leadingBit, 1 <<< (1075 - field))
  else ((fraction + leadingBit) <<< (field - 1075), 1)

/-- Divide and round to nearest, ties to even. -/
def divideNearest (numerator denominator : Nat) : Nat :=
  let floor := numerator / denominator
  let twice := 2 * (numerator % denominator)
  if denominator < twice ∨ twice = denominator ∧ floor % 2 = 1 then floor + 1 else floor

/-- The binary exponent of the last place kept when a positive quotient is rounded. -/
def lastPlace (numerator denominator : Nat) : Int :=
  let gap : Int := (numerator.log2 : Int) - denominator.log2
  let below : Bool :=
    if 0 ≤ gap then numerator < denominator <<< gap.toNat
    else numerator <<< (-gap).toNat < denominator
  max ((if below then gap - 1 else gap) - 52) (-1074)

/-- The magnitude nearest to a quotient, infinity if it is too large. -/
def nearest (numerator denominator : Nat) : Nat :=
  if numerator = 0 then 0
  else
    let place := lastPlace numerator denominator
    let steps :=
      if place ≤ 0 then divideNearest (numerator <<< (-place).toNat) denominator
      else divideNearest numerator (denominator <<< place.toNat)
    min infinity ((place + 1074).toNat * leadingBit + steps)

/-- The number of decimal digits of a natural number. -/
def digitCount (n : Nat) : Nat := (Nat.toDigits 10 n).length

/-- The magnitude nearest to a natural number times a power of ten. -/
def nearestDecimal (digits : Nat) (exponent : Int) : Nat :=
  let size : Int := digitCount digits + exponent
  if digits = 0 ∨ size < -330 then 0
  else if 320 < size then infinity
  else if 0 ≤ exponent then nearest (digits * tenTo exponent.toNat) 1
  else nearest digits (tenTo (-exponent).toNat)

/-- The product of two finite magnitudes, rounded once. -/
def times (left right : Nat) : Nat :=
  let (a, b) := quotient left
  let (c, d) := quotient right
  nearest (a * c) (b * d)

/-- The quotient of a finite magnitude by a positive finite one, rounded once. -/
def dividedBy (left right : Nat) : Nat :=
  let (a, b) := quotient left
  let (c, d) := quotient right
  nearest (a * d) (b * c)

end Binary64

end CallbackGateway
