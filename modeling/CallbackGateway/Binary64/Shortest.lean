import CallbackGateway.Binary64.Basic

/-!
# The shortest decimal text

A finite number is written with the fewest digits that read back as it, the nearest such
digits first. The format record says where positional notation ends.
-/

namespace CallbackGateway.Binary64

/-- A decimal number: digits times a power of ten. -/
structure Decimal where
  digits : Nat
  exponent : Int
  deriving DecidableEq, Repr

/-- The least power of ten that raises a positive quotient to one or more, up to a bound. -/
def raisingPower (numerator denominator : Nat) : Nat → Nat → Nat
  | 0, power => power
  | bound + 1, power =>
    if denominator ≤ numerator * tenTo power then power
    else raisingPower numerator denominator bound (power + 1)

/-- The decimal exponent of the first digit of a positive quotient. -/
def leadingExponent (numerator denominator : Nat) : Int :=
  if denominator ≤ numerator then (digitCount (numerator / denominator) : Int) - 1
  else -(raisingPower numerator denominator 400 1 : Int)

/-- The digits on a decimal grid that read back as a magnitude, the nearer of two. -/
def onGrid? (magnitude : Nat) (exponent : Int) : Option Decimal :=
  let (numerator, denominator) := quotient magnitude
  let scaledUp := if exponent < 0 then numerator * tenTo (-exponent).toNat else numerator
  let unit := if exponent < 0 then denominator else denominator * tenTo exponent.toNat
  let low := scaledUp / unit
  let readsBack (digits : Nat) : Bool := nearestDecimal digits exponent == magnitude
  let closer := divideNearest scaledUp unit
  let other := if closer = low then low + 1 else low
  if readsBack closer then some ⟨closer, exponent⟩
  else if readsBack other then some ⟨other, exponent⟩
  else none

/-- The shortest decimal of a positive finite magnitude among grids of ever more digits. -/
def shortestFrom (magnitude : Nat) (leading : Int) : Nat → Nat → Decimal
  | 0, count => ⟨0, leading - count⟩
  | bound + 1, count =>
    match onGrid? magnitude (leading - count) with
    | some decimal => decimal
    | none => shortestFrom magnitude leading bound (count + 1)

/-- The shortest decimal that reads back as a positive finite magnitude. The first grid is one
place above the leading digit, where a magnitude just below a power of ten has one digit. -/
def shortest (magnitude : Nat) : Decimal :=
  let (numerator, denominator) := quotient magnitude
  shortestFrom magnitude (leadingExponent numerator denominator + 1) 20 0

/-- How numbers are laid out: the exponents of the first digit that are written positionally. -/
structure Layout where
  lowest : Int
  highest : Int

/-- Numbers from one hundred-thousandth to below ten to the sixteenth are written positionally. -/
def Layout.plain : Layout := ⟨-5, 15⟩

/-- Digits with a point after the given number of them. -/
def withPoint (digits : List Char) (before : Nat) : List Char :=
  digits.take before ++ '.' :: (if digits.drop before = [] then ['0'] else digits.drop before)

/-- The text of a positive decimal in a layout. -/
def Layout.write (layout : Layout) (decimal : Decimal) : List Char :=
  let digits := Nat.toDigits 10 decimal.digits
  let leading : Int := decimal.exponent + digits.length - 1
  if layout.lowest ≤ leading ∧ leading ≤ layout.highest then
    if leading < 0 then ['0', '.'] ++ List.replicate ((-leading).toNat - 1) '0' ++ digits
    else withPoint (digits ++ List.replicate (leading.toNat + 1 - digits.length) '0')
      (leading.toNat + 1)
  else
    let mantissa := if digits.length = 1 then digits else withPoint digits 1
    let sign := if leading < 0 then '-' else '+'
    mantissa ++ 'e' :: sign :: Nat.toDigits 10 leading.natAbs

/-- The text of a finite number. -/
def render (x : Binary64) : List Char :=
  let magnitude := x.magnitude
  let text := if magnitude = 0 then ['0', '.', '0'] else Layout.plain.write (shortest magnitude)
  if x.isNegative then '-' :: text else text

end CallbackGateway.Binary64
