import CallbackGateway.Text.Utf8

/-!
# Base64

Three bytes are written as four letters. The canonical reading takes back exactly what is
written, padding included; the loose reading takes letters without padding and drops the spare
low bits of the last letter.
-/

namespace CallbackGateway.Base64

/-- The letter of a value below sixty-four. -/
def letter (n : Nat) : Char :=
  if n < 26 then Char.ofNat (65 + n)
  else if n < 52 then Char.ofNat (71 + n)
  else if n < 62 then Char.ofNat (n - 4)
  else if n = 62 then '+'
  else '/'

/-- The value of a letter. -/
def value? (c : Char) : Option Nat :=
  if 'A' ≤ c ∧ c ≤ 'Z' then some (c.toNat - 65)
  else if 'a' ≤ c ∧ c ≤ 'z' then some (c.toNat - 71)
  else if '0' ≤ c ∧ c ≤ '9' then some (c.toNat + 4)
  else if c = '+' then some 62
  else if c = '/' then some 63
  else none

/-- A character of the alphabet. -/
def isLetter (c : Char) : Bool := (value? c).isSome

/-- The letters of three bytes. -/
def quad (a b c : UInt8) : List Char :=
  let n := a.toNat * 65536 + b.toNat * 256 + c.toNat
  [letter (n / 262144), letter (n / 4096 % 64), letter (n / 64 % 64), letter (n % 64)]

/-- The three bytes that four values spell. -/
def triple (a b c d : Nat) : Bytes :=
  let n := a * 262144 + b * 4096 + c * 64 + d
  [UInt8.ofNat (n / 65536), UInt8.ofNat (n / 256 % 256), UInt8.ofNat (n % 256)]

/-- The letters of a sequence of bytes, padded to a multiple of four. -/
def encode : Bytes → List Char
  | [] => []
  | [a] => (quad a 0 0).take 2 ++ ['=', '=']
  | [a, b] => (quad a b 0).take 3 ++ ['=']
  | a :: b :: c :: rest => quad a b c ++ encode rest

/-- Read what `encode` writes: padding in full, spare bits zero. -/
def decode? : List Char → Option Bytes
  | [] => some []
  | [a, b, '=', '='] => do
    let first ← value? a
    let second ← value? b
    if second % 16 = 0 then some ((triple first second 0 0).take 1) else none
  | [a, b, c, '='] => do
    let first ← value? a
    let second ← value? b
    let third ← value? c
    if third % 4 = 0 then some ((triple first second third 0).take 2) else none
  | a :: b :: c :: d :: rest => do
    let first ← value? a
    let second ← value? b
    let third ← value? c
    let fourth ← value? d
    let tail ← decode? rest
    some (triple first second third fourth ++ tail)
  | _ => none

/-- Read letters without padding, dropping the spare bits of the last one. -/
def decodeLoose? : List Char → Option Bytes
  | [] => some []
  | [_] => none
  | [a, b] => do
    let first ← value? a
    let second ← value? b
    some ((triple first second 0 0).take 1)
  | [a, b, c] => do
    let first ← value? a
    let second ← value? b
    let third ← value? c
    some ((triple first second third 0).take 2)
  | a :: b :: c :: d :: rest => do
    let first ← value? a
    let second ← value? b
    let third ← value? c
    let fourth ← value? d
    let tail ← decodeLoose? rest
    some (triple first second third fourth ++ tail)

/-- Every letter is the letter of its value. -/
theorem value?_letter : ∀ n < 64, value? (letter n) = some n := by decide +kernel

/-- Padding is no letter. -/
theorem value?_padding : value? '=' = none := by decide

/-- The letters of the bytes come in groups of four. -/
theorem encode_length (bytes : Bytes) : (encode bytes).length = 4 * ((bytes.length + 2) / 3) := by
  fun_induction encode bytes with
  | case1 => rfl
  | case2 => simp [quad]
  | case3 => simp [quad]
  | case4 a b c rest ih =>
    simp only [quad, List.length_append, List.length_cons, List.length_nil, ih]
    omega

end CallbackGateway.Base64
