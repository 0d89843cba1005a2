import CallbackGateway.Binary64.Basic
import CallbackGateway.Text.Integer

/-!
# Reading decimal numbers

A whole text is read as a decimal number: an optional sign, digits with an optional point,
and an optional exponent; or, in any letter case, the names of infinity and of the pattern
that is no number. The value is the number nearest to what the text says.
-/

namespace CallbackGateway.Binary64

open Text

/-- A decimal digit. -/
def isDigit (c : Char) : Bool := '0' ≤ c && c ≤ '9'

/-- The exponent after its letter: an optional sign and at least one digit. -/
def exponent? : List Char → Option Int
  | '+' :: digits => (natural? 10 digits).map Int.ofNat
  | '-' :: digits => (natural? 10 digits).map fun n => -Int.ofNat n
  | digits => (natural? 10 digits).map Int.ofNat

/-- The exponent that ends a number, zero if the number has none. -/
def trailingExponent? : List Char → Option Int
  | [] => some 0
  | c :: rest => if c == 'e' || c == 'E' then exponent? rest else none

/-- The magnitude of an unsigned decimal number. -/
def decimalMagnitude? (text : List Char) : Option Nat :=
  let whole := text.takeWhile isDigit
  let afterWhole := text.dropWhile isDigit
  let (fraction, rest) := match afterWhole with
    | '.' :: tail => (tail.takeWhile isDigit, tail.dropWhile isDigit)
    | tail => ([], tail)
  match natural? 10 (whole ++ fraction), trailingExponent? rest with
  | some digits, some exponent => some (nearestDecimal digits (exponent - fraction.length))
  | _, _ => none

/-- The number that an unsigned text names or spells. -/
def readUnsigned? (negative : Bool) (text : List Char) : Option Binary64 :=
  let name := text.map Char.toLower
  if name = ['i', 'n', 'f'] ∨ name = ['i', 'n', 'f', 'i', 'n', 'i', 't', 'y'] then
    some (ofMagnitude negative infinity)
  else if name = ['n', 'a', 'n'] then some notANumber
  else (decimalMagnitude? text).map (ofMagnitude negative)

/-- The number that a whole text spells. -/
def read? : List Char → Option Binary64
  | '-' :: rest => readUnsigned? true rest
  | '+' :: rest => readUnsigned? false rest
  | text => readUnsigned? false text

end CallbackGateway.Binary64
