import CallbackGateway.Json.Number
import CallbackGateway.Proofs.Text.Decimal
import CallbackGateway.Text.Utf8

/-!
# Integers read back

The decimal text of an integer is read as a number with its sign and its digits, if what follows
cannot go on with the number. An integer of 64 bits is the value of that number.
-/

namespace CallbackGateway.Json

open Text

/-- The number that is written for an integer. -/
def integerNumeral (n : Int) : Numeral where
  negative := n < 0
  whole := (Nat.toDigits 10 n.natAbs).map fun c => c.toNat - 48
  fraction := []
  exponent := none

/-- Whether a number cannot go on with some bytes. -/
def EndsNumber (bytes : Bytes) : Prop :=
  ∀ b ∈ bytes.head?, isDigit b = false ∧ b ≠ byte '.' ∧ b ≠ byte 'e' ∧ b ≠ byte 'E'

/-- The bytes of digits. -/
def digitBytes (m : Nat) : Bytes := Utf8.encode (Nat.toDigits 10 m)

/-- A digit is one byte. -/
theorem encodeChar_digit {c : Char} (h : c.isDigit = true) :
    Utf8.encodeChar c = [byte c] ∧ isDigit (byte c) = true ∧ (byte c).toNat = c.toNat := by
  rw [Char.isDigit_iff_toNat] at h
  have hlow : '0'.toNat = 48 := rfl
  have hhigh : '9'.toNat = 57 := rfl
  have hnat : (byte c).toNat = c.toNat := by
    rw [byte, UInt8.toNat_ofNat']
    omega
  refine ⟨?_, ?_, hnat⟩
  · unfold Utf8.encodeChar
    exact if_pos (by omega)
  · have h0 : (byte '0').toNat = 48 := rfl
    have h9 : (byte '9').toNat = 57 := rfl
    rw [isDigit, Bool.and_eq_true, decide_eq_true_eq, decide_eq_true_eq, UInt8.le_iff_toNat_le,
      UInt8.le_iff_toNat_le]
    omega

/-- Digits are written one byte each. -/
theorem encode_digits {text : List Char} (h : ∀ c ∈ text, c.isDigit = true) :
    Utf8.encode text = text.map byte := by
  induction text with
  | nil => rfl
  | cons c rest ih =>
    rw [Utf8.encode_cons, (encodeChar_digit (h c List.mem_cons_self)).1,
      ih fun d hd => h d (List.mem_cons_of_mem _ hd)]
    rfl

/-- A number is written with digits. -/
theorem isDigit_toDigits {m : Nat} : ∀ c ∈ Nat.toDigits 10 m, c.isDigit = true := fun _ hc =>
  Nat.isDigit_of_mem_toDigits (by decide) (by decide) hc

/-- The digits of a number are written as bytes. -/
theorem digitBytes_eq (m : Nat) : digitBytes m = (Nat.toDigits 10 m).map byte :=
  encode_digits isDigit_toDigits

/-- No number but zero starts with a zero. -/
theorem head?_toDigits {m : Nat} (h : m ≠ 0) : (Nat.toDigits 10 m).head? ≠ some '0' := by
  induction m using Nat.strongRecOn with
  | _ m ih =>
    rw [Nat.toDigits_eq_if (by decide)]
    split
    · simpa using h
    · have hhead := ih (m / 10) (by omega) (by omega)
      obtain ⟨c, rest, hcons⟩ :=
        List.exists_cons_of_ne_nil (Nat.toDigits_ne_nil (n := m / 10) (b := 10))
      rw [hcons] at hhead ⊢
      exact hhead

/-- Digits are read up to a byte that is none. -/
theorem leadingDigits_digitBytes (m : Nat) {rest : Bytes}
    (h : ∀ b ∈ rest.head?, isDigit b = false) :
    leadingDigits (digitBytes m ++ rest) = (Nat.toDigits 10 m).map (fun c => c.toNat - 48) ∧
      afterDigits (digitBytes m ++ rest) = rest := by
  have hall : ∀ b ∈ digitBytes m, isDigit b = true := by
    intro b hb
    rw [digitBytes_eq] at hb
    obtain ⟨c, hc, rfl⟩ := List.mem_map.mp hb
    exact (encodeChar_digit (isDigit_toDigits c hc)).2.1
  have hrest : rest.takeWhile isDigit = [] ∧ rest.dropWhile isDigit = rest := by
    cases rest with
    | nil => exact ⟨rfl, rfl⟩
    | cons b rest =>
      have hb := h b rfl
      rw [List.takeWhile_cons_of_neg (by simp [hb]), List.dropWhile_cons_of_neg (by simp [hb])]
      exact ⟨rfl, rfl⟩
  constructor
  · rw [leadingDigits, List.takeWhile_append_of_pos hall, hrest.1, List.append_nil,
      digitBytes_eq, List.map_map]
    refine List.map_congr_left fun c hc => ?_
    rw [Function.comp_apply, (encodeChar_digit (isDigit_toDigits c hc)).2.2]
  · rw [afterDigits, List.dropWhile_append_of_pos hall, hrest.2]

/-- The digits of a number are read up to the first byte that is none. -/
theorem whole?_digitBytes (m : Nat) {rest : Bytes} (h : ∀ b ∈ rest.head?, isDigit b = false) :
    whole? (digitBytes m ++ rest) =
      some ((Nat.toDigits 10 m).map (fun c => c.toNat - 48), rest) := by
  obtain ⟨hleading, hafter⟩ := leadingDigits_digitBytes m h
  by_cases hm : m = 0
  · subst hm
    rfl
  · have hhead := head?_toDigits hm
    have hdigits : ∀ c ∈ Nat.toDigits 10 m, c.isDigit = true := isDigit_toDigits
    rw [digitBytes_eq] at hleading hafter ⊢
    obtain ⟨c, others, hcons⟩ := List.exists_cons_of_ne_nil (Nat.toDigits_ne_nil (n := m) (b := 10))
    rw [hcons] at hleading hafter hhead hdigits ⊢
    obtain ⟨-, hdigit, hnat⟩ := encodeChar_digit (hdigits c List.mem_cons_self)
    have hzero : byte c ≠ byte '0' := by
      intro heq
      have := congrArg UInt8.toNat heq
      rw [hnat] at this
      exact hhead (by rw [List.head?_cons, Option.some.injEq]; exact Char.toNat_inj.mp this)
    rw [List.map_cons, List.cons_append] at hleading hafter ⊢
    rw [whole?, if_neg (by simpa using hzero), if_pos hdigit, hleading, hafter]

/-- The digits of an integer are read as its number. -/
theorem numeral?_digitBytes (n : Int) {rest : Bytes} (h : EndsNumber rest) :
    numeral? (n < 0) (digitBytes n.natAbs ++ rest) = some (integerNumeral n, rest) := by
  have hfraction : fraction? rest = some ([], rest) := by
    cases rest with
    | nil => rfl
    | cons b rest =>
      obtain ⟨-, hpoint, -, -⟩ := h b rfl
      rw [fraction?, if_neg (by simpa using hpoint)]
  have hexponent : exponent? rest = some (none, rest) := by
    cases rest with
    | nil => rfl
    | cons b rest =>
      obtain ⟨-, -, he, hE⟩ := h b rfl
      rw [exponent?, if_neg (by simp [he, hE])]
  rw [numeral?, whole?_digitBytes _ fun b hb => (h b hb).1]
  simp only [Option.bind_eq_bind, Option.bind_some, hfraction, hexponent]
  rfl

/-! ## The value of the number -/

/-- The digits of a number have its value. -/
theorem digitsValue_toDigits (m : Nat) :
    digitsValue ((Nat.toDigits 10 m).map fun c => c.toNat - 48) = m := by
  rw [digitsValue, List.foldl_map]
  exact foldl_toDigits m

/-- An integer of 64 bits, with or without a sign. -/
def FitsInteger (n : Int) : Prop :=
  IntegerRange.signed64.lowest ≤ n ∧ n ≤ IntegerRange.unsigned64.highest

instance (n : Int) : Decidable (FitsInteger n) := inferInstanceAs (Decidable (_ ∧ _))

/-- An integer of 64 bits is the value of its number. -/
theorem value?_integerNumeral {n : Int} (h : FitsInteger n) :
    (integerNumeral n).value? = some (.integer n) := by
  obtain ⟨hlow, hhigh⟩ := h
  have hsmallest : IntegerRange.signed64.lowest = -9223372036854775808 := rfl
  have hlargest : IntegerRange.unsigned64.highest = 18446744073709551615 := rfl
  have hinteger : (integerNumeral n).integer? = some n := by
    have hsize : digitsValue (integerNumeral n).whole = n.natAbs := digitsValue_toDigits n.natAbs
    have hwhole : (integerNumeral n).isWhole = true := rfl
    have hnegative : (integerNumeral n).negative = decide (n < 0) := rfl
    rw [Numeral.integer?, hwhole, hnegative, hsize]
    by_cases hn : n < 0
    · have hrange : 1 ≤ n.natAbs ∧ n.natAbs ≤ 9223372036854775808 := by omega
      simp only [hn, decide_true, Bool.not_true, Bool.false_eq_true, if_false, if_true,
        if_pos hrange, Option.some.injEq]
      omega
    · have hrange : n.natAbs ≤ largestSignificand := by
        rw [largestSignificand]
        omega
      simp only [hn, decide_false, Bool.not_true, Bool.false_eq_true, if_false,
        if_pos hrange, Option.some.injEq]
      omega
  rw [Numeral.value?, hinteger]

end CallbackGateway.Json
