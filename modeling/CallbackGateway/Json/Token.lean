import CallbackGateway.Text.Utf8

/-!
# JSON tokens

Bytes are cut into punctuation, words, numbers and strings. What a string or a number says is
left open here: a string is kept as raw bytes and numeric escapes, so that text which is never
used need not be well formed beyond its quotes and escapes.
-/

namespace CallbackGateway.Json

/-- The byte of an ASCII character. -/
def byte (c : Char) : UInt8 := UInt8.ofNat c.toNat

/-- White space between tokens. -/
def isSpace (b : UInt8) : Bool :=
  b == byte ' ' || b == byte '\n' || b == byte '\t' || b == byte '\r'

/-- A decimal digit. -/
def isDigit (b : UInt8) : Bool := byte '0' ≤ b && b ≤ byte '9'

/-- A part of a string. -/
inductive Part
  /-- A byte that stands for itself. -/
  | raw (b : UInt8)
  /-- An escape by a number of four hexadecimal digits. -/
  | code (n : Nat)
  deriving DecidableEq, Repr

/-- A string that was not interpreted. -/
abbrev Quoted := List Part

/-- The written form of a number. -/
structure Numeral where
  negative : Bool
  /-- The digits before the point. -/
  whole : List Nat
  /-- The digits after the point. -/
  fraction : List Nat
  /-- The exponent, if there is one. -/
  exponent : Option Int
  deriving DecidableEq, Repr

/-- Whether a number is written without a point and without an exponent. -/
def Numeral.isWhole (numeral : Numeral) : Bool :=
  numeral.fraction.isEmpty && numeral.exponent.isNone

/-- The smallest parts of a document. -/
inductive Token
  | openObject
  | closeObject
  | openArray
  | closeArray
  | comma
  | colon
  | null
  | boolean (value : Bool)
  | number (numeral : Numeral)
  | string (quoted : Quoted)
  deriving DecidableEq, Repr

/-- The value of a hexadecimal digit. -/
def hexDigit? (b : UInt8) : Option Nat :=
  if byte '0' ≤ b && b ≤ byte '9' then some (b.toNat - 48)
  else if byte 'a' ≤ b && b ≤ byte 'f' then some (b.toNat - 87)
  else if byte 'A' ≤ b && b ≤ byte 'F' then some (b.toNat - 55)
  else none

/-- The number of four hexadecimal digits. -/
def hexCode? (a b c d : UInt8) : Option Nat := do
  let a ← hexDigit? a
  let b ← hexDigit? b
  let c ← hexDigit? c
  let d ← hexDigit? d
  return ((a * 16 + b) * 16 + c) * 16 + d

/-- The byte that a one-letter escape stands for. -/
def escaped? (b : UInt8) : Option UInt8 :=
  if b == byte '"' || b == byte '\\' || b == byte '/' then some b
  else if b == byte 'b' then some 8
  else if b == byte 'f' then some 12
  else if b == byte 'n' then some 10
  else if b == byte 'r' then some 13
  else if b == byte 't' then some 9
  else none

/-- Put a part in front of what was read. -/
def consPart (part : Part) (read : Option (Quoted × Bytes)) : Option (Quoted × Bytes) :=
  read.map fun (quoted, after) => (part :: quoted, after)

/-- The string after an opening quote, and the bytes after its closing quote. -/
def quoted? : Bytes → Option (Quoted × Bytes)
  | [] => none
  | b :: rest =>
    if b == byte '"' then some ([], rest)
    else if b == byte '\\' then
      match rest with
      | [] => none
      | e :: afterLetter =>
        if e == byte 'u' then
          match afterLetter with
          | w :: x :: y :: z :: afterCode =>
            (hexCode? w x y z).bind fun n => consPart (.code n) (quoted? afterCode)
          | _ => none
        else (escaped? e).bind fun b => consPart (.raw b) (quoted? afterLetter)
    else if b < byte ' ' then none
    else consPart (.raw b) (quoted? rest)

/-- The digits at the start. -/
def leadingDigits (bytes : Bytes) : List Nat :=
  (bytes.takeWhile isDigit).map fun b => b.toNat - 48

/-- What follows the digits at the start. -/
def afterDigits (bytes : Bytes) : Bytes := bytes.dropWhile isDigit

/-- The digits before the point: a zero in front stands alone. -/
def whole? : Bytes → Option (List Nat × Bytes)
  | [] => none
  | b :: rest =>
    if b == byte '0' then some ([0], rest)
    else if isDigit b then some (leadingDigits (b :: rest), afterDigits (b :: rest))
    else none

/-- The digits after the point, none if there is no point. -/
def fraction? : Bytes → Option (List Nat × Bytes)
  | [] => some ([], [])
  | b :: rest =>
    if b == byte '.' then
      match leadingDigits rest with
      | [] => none
      | digits => some (digits, afterDigits rest)
    else some ([], b :: rest)

/-- The sign in front of an exponent. -/
def exponentSign : Bytes → Bool × Bytes
  | [] => (false, [])
  | b :: rest =>
    if b == byte '-' then (true, rest) else if b == byte '+' then (false, rest)
    else (false, b :: rest)

/-- The number that digits spell. -/
def digitsValue (digits : List Nat) : Nat := digits.foldl (fun n d => n * 10 + d) 0

/-- The exponent, none if there is no exponent letter. -/
def exponent? : Bytes → Option (Option Int × Bytes)
  | [] => some (none, [])
  | b :: rest =>
    if b == byte 'e' || b == byte 'E' then
      let (negative, digits) := exponentSign rest
      match leadingDigits digits with
      | [] => none
      | found =>
        let size : Int := digitsValue found
        some (some (if negative then -size else size), afterDigits digits)
    else some (none, b :: rest)

/-- The number at the start, after its sign. -/
def numeral? (negative : Bool) (bytes : Bytes) : Option (Numeral × Bytes) := do
  let (whole, rest) ← whole? bytes
  let (fraction, rest) ← fraction? rest
  let (exponent, rest) ← exponent? rest
  return (⟨negative, whole, fraction, exponent⟩, rest)

/-- A word that is spelled out after its first letter. -/
def word? (letters : List Char) (token : Token) (bytes : Bytes) : Option (Token × Bytes) :=
  if (letters.map byte).isPrefixOf bytes then some (token, bytes.drop letters.length) else none

/-- The token of one byte. -/
def punctuation? (b : UInt8) : Option Token :=
  if b == byte '\x7b' then some .openObject
  else if b == byte '\x7d' then some .closeObject
  else if b == byte '[' then some .openArray
  else if b == byte ']' then some .closeArray
  else if b == byte ',' then some .comma
  else if b == byte ':' then some .colon
  else none

/-- A token that was built from what was read. -/
def built {α : Type} (build : α → Token) (read : Option (α × Bytes)) : Option (Token × Bytes) :=
  read.map fun pair => (build pair.1, pair.2)

/-- The token that starts with a byte and is longer than it. -/
def longToken? (b : UInt8) (rest : Bytes) : Option (Token × Bytes) :=
  if b == byte '"' then built .string (quoted? rest)
  else if b == byte 'n' then word? ['u', 'l', 'l'] .null rest
  else if b == byte 't' then word? ['r', 'u', 'e'] (.boolean true) rest
  else if b == byte 'f' then word? ['a', 'l', 's', 'e'] (.boolean false) rest
  else if b == byte '-' then built .number (numeral? true rest)
  else built .number (numeral? false (b :: rest))

/-- The token that starts with a byte, and the bytes after it. -/
def token? (b : UInt8) (rest : Bytes) : Option (Token × Bytes) :=
  match punctuation? b with
  | some token => some (token, rest)
  | none => longToken? b rest

/-- A part is put in front of what could be read. -/
theorem consPart_eq_some {part : Part} {read : Option (Quoted × Bytes)} {quoted : Quoted}
    {after : Bytes} (h : consPart part read = some (quoted, after)) :
    ∃ tail, read = some (tail, after) ∧ quoted = part :: tail := by
  obtain ⟨⟨tail, rest⟩, hr, he⟩ := Option.map_eq_some_iff.mp h
  simp only [Prod.mk.injEq] at he
  exact ⟨tail, by rw [hr, he.2], he.1.symm⟩

/-- A string takes at least one byte. -/
theorem quoted?_length {bytes after : Bytes} {quoted : Quoted}
    (h : quoted? bytes = some (quoted, after)) : after.length < bytes.length := by
  fun_induction quoted? bytes generalizing quoted with
  | case1 => simp at h
  | case2 b rest hb =>
    simp only [Option.some.injEq, Prod.mk.injEq] at h
    rw [← h.2, List.length_cons]
    omega
  | case3 => simp at h
  | case4 b hb hs e he w x y z afterCode ih =>
    obtain ⟨n, _, hn⟩ := Option.bind_eq_some_iff.mp h
    obtain ⟨tail, ht, _⟩ := consPart_eq_some hn
    have := ih ht
    simp only [List.length_cons]
    omega
  | case5 => simp at h
  | case6 b hb hs e afterLetter he ih =>
    obtain ⟨n, _, hn⟩ := Option.bind_eq_some_iff.mp h
    obtain ⟨tail, ht, _⟩ := consPart_eq_some hn
    have := ih ht
    simp only [List.length_cons]
    omega
  | case7 => simp at h
  | case8 b rest hb hs hc ih =>
    obtain ⟨tail, ht, _⟩ := consPart_eq_some h
    have := ih ht
    simp only [List.length_cons]
    omega

/-- Skipping digits makes nothing longer. -/
theorem afterDigits_length (bytes : Bytes) : (afterDigits bytes).length ≤ bytes.length := by
  rw [afterDigits]
  exact (List.dropWhile_sublist _).length_le

/-- A whole part takes at least one byte. -/
theorem whole?_length {bytes after : Bytes} {digits : List Nat}
    (h : whole? bytes = some (digits, after)) : after.length < bytes.length := by
  unfold whole? at h
  split at h
  · simp at h
  · rename_i b rest
    split at h
    · simp only [Option.some.injEq, Prod.mk.injEq] at h
      rw [← h.2, List.length_cons]
      omega
    · split at h
      · rename_i hd
        simp only [Option.some.injEq, Prod.mk.injEq] at h
        have := afterDigits_length rest
        rw [← h.2, afterDigits, List.dropWhile_cons, if_pos hd, List.length_cons]
        rw [afterDigits] at this
        omega
      · simp at h

/-- A fraction makes nothing longer. -/
theorem fraction?_length {bytes after : Bytes} {digits : List Nat}
    (h : fraction? bytes = some (digits, after)) : after.length ≤ bytes.length := by
  unfold fraction? at h
  split at h
  · simp only [Option.some.injEq, Prod.mk.injEq] at h
    simp [← h.2]
  · rename_i b rest
    split at h
    · split at h
      · simp at h
      · simp only [Option.some.injEq, Prod.mk.injEq] at h
        have := afterDigits_length rest
        rw [← h.2, List.length_cons]
        omega
    · simp only [Option.some.injEq, Prod.mk.injEq] at h
      exact h.2 ▸ Nat.le_refl _

/-- A sign makes nothing longer. -/
theorem exponentSign_length (bytes : Bytes) :
    (exponentSign bytes).2.length ≤ bytes.length := by
  unfold exponentSign
  split
  · simp
  · split
    · simp
    · split <;> simp

/-- An exponent makes nothing longer. -/
theorem exponent?_length {bytes after : Bytes} {exponent : Option Int}
    (h : exponent? bytes = some (exponent, after)) : after.length ≤ bytes.length := by
  unfold exponent? at h
  split at h
  · simp only [Option.some.injEq, Prod.mk.injEq] at h
    simp [← h.2]
  · rename_i b rest
    split at h
    · dsimp only at h
      split at h
      · simp at h
      · simp only [Option.some.injEq, Prod.mk.injEq] at h
        have := afterDigits_length (exponentSign rest).2
        have := exponentSign_length rest
        rw [← h.2, List.length_cons]
        omega
    · simp only [Option.some.injEq, Prod.mk.injEq] at h
      exact h.2 ▸ Nat.le_refl _

/-- A number takes at least one byte. -/
theorem numeral?_length {negative : Bool} {bytes after : Bytes} {numeral : Numeral}
    (h : numeral? negative bytes = some (numeral, after)) : after.length < bytes.length := by
  obtain ⟨⟨whole, afterWhole⟩, hw, h⟩ := Option.bind_eq_some_iff.mp h
  obtain ⟨⟨fraction, afterFraction⟩, hf, h⟩ := Option.bind_eq_some_iff.mp h
  obtain ⟨⟨exponent, afterExponent⟩, he, h⟩ := Option.bind_eq_some_iff.mp h
  have := whole?_length hw
  have := fraction?_length hf
  have := exponent?_length he
  simp only [Option.pure_def, Option.some.injEq, Prod.mk.injEq] at h
  rw [← h.2]
  omega

/-- A word makes nothing longer. -/
theorem word?_length {letters : List Char} {token found : Token} {bytes after : Bytes}
    (h : word? letters token bytes = some (found, after)) : after.length ≤ bytes.length := by
  unfold word? at h
  split at h
  · simp only [Option.some.injEq, Prod.mk.injEq] at h
    rw [← h.2, List.length_drop]
    omega
  · simp at h

/-- A token of what was read leaves what the reading left. -/
theorem built_length {α : Type} {build : α → Token} {read : Option (α × Bytes)} {bound : Nat}
    {token : Token} {after : Bytes} (h : built build read = some (token, after))
    (hr : ∀ value tail, read = some (value, tail) → tail.length ≤ bound) :
    after.length ≤ bound := by
  obtain ⟨⟨value, tail⟩, hv, he⟩ := Option.map_eq_some_iff.mp h
  simp only [Prod.mk.injEq] at he
  rw [← he.2]
  exact hr value tail hv

/-- A token of several bytes makes nothing longer, its first byte not counted. -/
theorem longToken?_length {b : UInt8} {rest after : Bytes} {token : Token}
    (h : longToken? b rest = some (token, after)) : after.length ≤ rest.length := by
  unfold longToken? at h
  split at h
  · exact built_length h fun _ _ hq => Nat.le_of_lt (quoted?_length hq)
  split at h
  · exact word?_length h
  split at h
  · exact word?_length h
  split at h
  · exact word?_length h
  split at h
  · exact built_length h fun _ _ hn => Nat.le_of_lt (numeral?_length hn)
  · exact built_length h fun _ _ hn => Nat.le_of_lt_succ (numeral?_length hn)

/-- Every token takes at least the byte it starts with. -/
theorem token?_length {b : UInt8} {rest after : Bytes} {token : Token}
    (h : token? b rest = some (token, after)) : after.length ≤ rest.length := by
  unfold token? at h
  split at h
  · simp only [Option.some.injEq, Prod.mk.injEq] at h
    simp [← h.2]
  · exact longToken?_length h

/-- The tokens of a document, if all of it can be cut into tokens. -/
def tokens? (bytes : Bytes) : Option (List Token) :=
  match _h : bytes.dropWhile isSpace with
  | [] => some []
  | b :: rest =>
    match _t : token? b rest with
    | some (token, after) => (tokens? after).map (token :: ·)
    | none => none
termination_by bytes.length
decreasing_by
  have hd : (bytes.dropWhile isSpace).length ≤ bytes.length :=
    (List.dropWhile_sublist _).length_le
  have ht := token?_length _t
  rw [_h, List.length_cons] at hd
  omega

end CallbackGateway.Json
