import CallbackGateway.Proofs.Text.Decimal

/-!
# Decimal numerals

A text is read as an integer of a range just if it writes the integer in decimal: a sign or none,
and then at least one digit. A minus sign stands only in ranges with negative integers, even in
front of zero.
-/

namespace CallbackGateway.Text

/-- Whether a text writes an integer of a range in decimal. -/
inductive IsIntegerText (range : IntegerRange) : List Char → Int → Prop
  | plain {digits : List Char} (hne : digits ≠ []) (hdigits : ∀ c ∈ digits, c.isDigit = true)
      (hrange : range.Contains (Nat.ofDigitChars 10 digits 0)) :
      IsIntegerText range digits (Nat.ofDigitChars 10 digits 0)
  | plus {digits : List Char} (hne : digits ≠ []) (hdigits : ∀ c ∈ digits, c.isDigit = true)
      (hrange : range.Contains (Nat.ofDigitChars 10 digits 0)) :
      IsIntegerText range ('+' :: digits) (Nat.ofDigitChars 10 digits 0)
  | minus {digits : List Char} (hsigned : range.lowest < 0) (hne : digits ≠ [])
      (hdigits : ∀ c ∈ digits, c.isDigit = true)
      (hrange : range.Contains (-(Nat.ofDigitChars 10 digits 0 : Int))) :
      IsIntegerText range ('-' :: digits) (-(Nat.ofDigitChars 10 digits 0 : Int))

/-- The decimal digits are the ten characters that count as digits. -/
theorem digitIn?_ten (c : Char) :
    digitIn? 10 c = if c.isDigit then some (c.toNat - 48) else none := by
  have hle (d e : Char) : d ≤ e ↔ d.toNat ≤ e.toNat := Iff.rfl
  have hmarks : '0'.toNat = 48 ∧ '9'.toNat = 57 ∧ 'a'.toNat = 97 ∧ 'A'.toNat = 65 := by decide
  obtain ⟨h0, h9, ha, hA⟩ := hmarks
  have hdigit : c.isDigit = true ↔ 48 ≤ c.toNat ∧ c.toNat ≤ 57 := Char.isDigit_iff_toNat
  unfold digitIn?
  simp only [hle, h0, h9, ha, hA, Bool.and_eq_true, decide_eq_true_eq, ← hdigit]
  by_cases h : c.isDigit = true
  · have hbounds := hdigit.mp h
    have hsmall : decide (c.toNat - 48 < 10) = true := decide_eq_true (by omega)
    rw [if_pos h, if_pos h, Option.filter_some, if_pos hsmall]
  · -- letters count ten at least
    rw [if_neg h, if_neg h]
    split
    · rename_i hlower
      have hlarge : ¬ decide (c.toNat - 87 < 10) = true := by
        rw [decide_eq_true_eq]
        omega
      rw [Option.filter_some, if_neg hlarge]
    · split
      · rename_i hupper
        have hlarge : ¬ decide (c.toNat - 55 < 10) = true := by
          rw [decide_eq_true_eq]
          omega
        rw [Option.filter_some, if_neg hlarge]
      · rfl

/-- Characters are read as decimal digits just if all of them are digits, and the value is the one
they stand for. -/
theorem digitsFrom?_ten_eq_some_iff {value m : Nat} {digits : List Char} :
    digitsFrom? 10 value digits = some m ↔
      (∀ c ∈ digits, c.isDigit = true) ∧ Nat.ofDigitChars 10 digits value = m := by
  induction digits generalizing value with
  | nil => simp [digitsFrom?, Nat.ofDigitChars]
  | cons c rest ih =>
    have hzero : '0'.toNat = 48 := rfl
    rw [digitsFrom?, digitIn?_ten, List.forall_mem_cons, Nat.ofDigitChars_cons, hzero]
    by_cases h : c.isDigit = true
    · rw [if_pos h, Option.bind_some, ih, Nat.mul_comm, and_iff_right h]
    · rw [if_neg h, Option.bind_none]
      exact iff_of_false (Option.some_ne_none m).symm fun hall => h hall.1.1

/-- Decimal digits are read as the number that they write. -/
theorem natural?_ten_eq_some_iff {digits : List Char} {m : Nat} :
    natural? 10 digits = some m ↔
      digits ≠ [] ∧ (∀ c ∈ digits, c.isDigit = true) ∧ Nat.ofDigitChars 10 digits 0 = m := by
  cases digits with
  | nil => simp [natural?]
  | cons c rest =>
    have hnatural : natural? 10 (c :: rest) = digitsFrom? 10 0 (c :: rest) := rfl
    rw [hnatural, digitsFrom?_ten_eq_some_iff]
    exact ⟨fun h => ⟨List.cons_ne_nil c rest, h⟩, fun h => h.2⟩

/-- A text is read as an integer just if it writes it. -/
theorem IntegerRange.read?_eq_some_iff {range : IntegerRange} {text : List Char} {n : Int} :
    range.read? text = some n ↔ IsIntegerText range text n := by
  constructor
  · intro h
    unfold IntegerRange.read? at h
    split at h
    · obtain ⟨m, hm, h⟩ := Option.bind_eq_some_iff.mp h
      obtain ⟨hne, hdigits, rfl⟩ := natural?_ten_eq_some_iff.mp hm
      obtain ⟨hrange, rfl⟩ := keep?_eq_some_iff.mp h
      exact .plus hne hdigits hrange
    · split at h
      · rename_i hsigned
        obtain ⟨m, hm, h⟩ := Option.bind_eq_some_iff.mp h
        obtain ⟨hne, hdigits, rfl⟩ := natural?_ten_eq_some_iff.mp hm
        obtain ⟨hrange, rfl⟩ := keep?_eq_some_iff.mp h
        exact .minus hsigned hne hdigits hrange
      · cases h
    · obtain ⟨m, hm, h⟩ := Option.bind_eq_some_iff.mp h
      obtain ⟨hne, hdigits, rfl⟩ := natural?_ten_eq_some_iff.mp hm
      obtain ⟨hrange, rfl⟩ := keep?_eq_some_iff.mp h
      exact .plain hne hdigits hrange
  · intro h
    cases h with
    | plain hne hdigits hrange =>
      have hnumber := natural?_ten_eq_some_iff.mpr ⟨hne, hdigits, rfl⟩
      rw [read?_digits hdigits hnumber]
      exact keep?_eq_some_iff.mpr ⟨hrange, rfl⟩
    | plus hne hdigits hrange =>
      have hnumber := natural?_ten_eq_some_iff.mpr ⟨hne, hdigits, rfl⟩
      rw [IntegerRange.read?, hnumber]
      exact keep?_eq_some_iff.mpr ⟨hrange, rfl⟩
    | minus hsigned hne hdigits hrange =>
      have hnumber := natural?_ten_eq_some_iff.mpr ⟨hne, hdigits, rfl⟩
      rw [IntegerRange.read?, if_pos hsigned, hnumber]
      exact keep?_eq_some_iff.mpr ⟨hrange, rfl⟩

end CallbackGateway.Text
