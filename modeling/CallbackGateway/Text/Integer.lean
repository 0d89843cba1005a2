/-!
# Decimal integers

Reading a whole text as one integer of a bounded range: an optional sign and at least one
ASCII digit. A minus sign is read only where the range has negative numbers.
-/

namespace CallbackGateway.Text

/-- The value of a digit in a base of at most thirty-six. -/
def digitIn? (base : Nat) (c : Char) : Option Nat :=
  let value? : Option Nat :=
    if '0' ≤ c && c ≤ '9' then some (c.toNat - 48)
    else if 'a' ≤ c && c ≤ 'z' then some (c.toNat - 87)
    else if 'A' ≤ c && c ≤ 'Z' then some (c.toNat - 55)
    else none
  value?.filter (· < base)

/-- Continue a number with more digits. -/
def digitsFrom? (base : Nat) (value : Nat) : List Char → Option Nat
  | [] => some value
  | c :: rest => (digitIn? base c).bind fun d => digitsFrom? base (value * base + d) rest

/-- A non-empty run of digits in a base. -/
def natural? (base : Nat) : List Char → Option Nat
  | [] => none
  | digits => digitsFrom? base 0 digits

/-- A range of integers, both ends included. -/
structure IntegerRange where
  lowest : Int
  highest : Int
  deriving DecidableEq, Repr

/-- The signed integers of 64 bits. -/
def IntegerRange.signed64 : IntegerRange := ⟨-9223372036854775808, 9223372036854775807⟩

/-- The unsigned integers of 32 bits. -/
def IntegerRange.unsigned32 : IntegerRange := ⟨0, 4294967295⟩

/-- The unsigned integers of 64 bits. -/
def IntegerRange.unsigned64 : IntegerRange := ⟨0, 18446744073709551615⟩

/-- Keep an integer of the range. -/
def IntegerRange.keep? (range : IntegerRange) (n : Int) : Option Int :=
  if range.lowest ≤ n ∧ n ≤ range.highest then some n else none

/-- The integer of the range that the whole text spells. -/
def IntegerRange.read? (range : IntegerRange) : List Char → Option Int
  | '+' :: digits => (natural? 10 digits).bind fun n => range.keep? n
  | '-' :: digits =>
    if range.lowest < 0 then (natural? 10 digits).bind fun n => range.keep? (-n) else none
  | digits => (natural? 10 digits).bind fun n => range.keep? n

/-- The decimal text of an integer. -/
def decimal (n : Int) : String := toString n

/-- What is kept lies in the range. -/
theorem IntegerRange.keep?_eq_some_iff {range : IntegerRange} {n m : Int} :
    range.keep? n = some m ↔ (range.lowest ≤ n ∧ n ≤ range.highest) ∧ n = m := by
  rw [keep?, Option.ite_none_right_eq_some, Option.some.injEq]

end CallbackGateway.Text
