import CallbackGateway.Binary64.Shortest
import CallbackGateway.Json.Token
import CallbackGateway.Text.Integer

/-!
# JSON numbers

A number is an integer of 64 bits if it is written as one and fits. Any other number is
rounded: as many leading digits as fit into 64 bits are rounded to a floating-point number,
which is then multiplied or divided by a power of ten. A number that gets too large is refused.
-/

namespace CallbackGateway.Json

open Binary64 Text

/-- A number. -/
inductive Number
  | integer (n : Int)
  | real (x : Binary64)
  deriving DecidableEq, Repr

/-- The largest significand. -/
def largestSignificand : Nat := 18446744073709551615

/-- The largest exponent that is taken as it is. -/
def largestExponent : Int := 2147483647

/-- Extend a significand by digits as long as it fits; the digits that are left. -/
def absorb (significand : Nat) : List Nat → Nat × List Nat
  | [] => (significand, [])
  | d :: rest =>
    if largestSignificand < significand * 10 + d then (significand, d :: rest)
    else absorb (significand * 10 + d) rest

/-- The magnitude of a power of ten that is a floating-point number. -/
def tenth (power : Nat) : Nat := nearestDecimal 1 power

/-- Scale a significand by a power of ten; none if the result is too large. A power below the
smallest that is a floating-point number is applied in two steps. -/
def scale? (significand : Nat) (exponent : Int) : Option Nat :=
  let start := nearest significand 1
  if start = 0 then some 0
  else if 308 < exponent then none
  else if 0 ≤ exponent then
    let product := times start (tenth exponent.toNat)
    if product = infinity then none else some product
  else if -308 ≤ exponent then some (dividedBy start (tenth (-exponent).toNat))
  else some (dividedBy (dividedBy start (tenth 308)) (tenth (min 308 (-exponent - 308).toNat)))

/-- The magnitude of a number that is not an integer of 64 bits. -/
def Numeral.magnitude? (numeral : Numeral) : Option Nat :=
  let (whole, dropped) := absorb 0 numeral.whole
  let (significand, unused) := absorb whole numeral.fraction
  let start : Int := dropped.length - (numeral.fraction.length - unused.length : Int)
  match numeral.exponent with
  | none => scale? significand start
  | some exponent =>
    if largestExponent < exponent then if significand = 0 then some 0 else none
    else if exponent < -largestExponent then some 0
    else scale? significand (start + exponent)

/-- The integer that a number is written as, if it fits. A negative zero is no integer. -/
def Numeral.integer? (numeral : Numeral) : Option Int :=
  let size := digitsValue numeral.whole
  if !numeral.isWhole then none
  else if numeral.negative then
    if 1 ≤ size ∧ size ≤ 9223372036854775808 then some (-size) else none
  else if size ≤ largestSignificand then some size
  else none

/-- The number that is written. -/
def Numeral.value? (numeral : Numeral) : Option Number :=
  match numeral.integer? with
  | some n => some (.integer n)
  | none => numeral.magnitude?.map fun m => .real (ofMagnitude numeral.negative m)

/-- The text of a number. -/
def Number.text : Number → List Char
  | .integer n => (decimal n).toList
  | .real x => render x

end CallbackGateway.Json
