import CallbackGateway.Text.Blank
import CallbackGateway.Text.Integer

/-!
# The decimal text of an integer

A minus sign if the integer is negative, and the digits of its size. So the text is never empty
and holds no character that a document format could take for something else, and an integer of a
range is read back from its text.
-/

namespace CallbackGateway.Text

/-- The sign of an integer as text. -/
def signText (n : Int) : List Char := if n < 0 then ['-'] else []

/-- The text of an integer is its sign and the digits of its size. -/
theorem toList_decimal (n : Int) :
    (decimal n).toList = signText n ++ Nat.toDigits 10 n.natAbs := by
  cases n with
  | ofNat m =>
    have hsign : signText (Int.ofNat m) = [] := if_neg (by simp)
    have hrepr : decimal (Int.ofNat m) = m.repr := rfl
    rw [hsign, hrepr, Nat.toList_repr]
    rfl
  | negSucc m =>
    have hsign : signText (Int.negSucc m) = ['-'] := if_pos (Int.negSucc_lt_zero m)
    have hrepr : decimal (Int.negSucc m) = "-" ++ (m + 1).repr := rfl
    rw [hsign, hrepr, String.toList_append, Nat.toList_repr]
    rfl

/-- The text of an integer holds digits and minus signs only. -/
theorem isDigit_of_mem_decimal {n : Int} {c : Char} (h : c ∈ (decimal n).toList) :
    c.isDigit = true ∨ c = '-' := by
  rw [toList_decimal, List.mem_append] at h
  rcases h with h | h
  · unfold signText at h
    split at h
    · exact .inr (List.mem_singleton.mp h)
    · simp at h
  · exact .inl (Nat.isDigit_of_mem_toDigits (by decide) (by decide) h)

/-- The text of an integer is not empty. -/
theorem decimal_ne_nil (n : Int) : (decimal n).toList ≠ [] := by
  rw [toList_decimal]
  exact List.append_ne_nil_of_right_ne_nil _ Nat.toDigits_ne_nil

/-- The text of an integer holds no character that is neither a digit nor a minus sign. -/
theorem notMem_decimal (n : Int) {c : Char} (h : c.isDigit = false ∧ c ≠ '-') :
    c ∉ (decimal n).toList := by
  intro hm
  rcases isDigit_of_mem_decimal hm with hdigit | hminus
  · simp [h.1] at hdigit
  · exact h.2 hminus

/-- A decimal numeral holds no blank. -/
theorem isBlank_of_mem_decimal {n : Int} {c : Char} (h : c ∈ (decimal n).toList) :
    isBlank c = false := by
  rw [Bool.eq_false_iff]
  intro hblank
  simp only [isBlank, Bool.or_eq_true, Bool.and_eq_true, beq_iff_eq, decide_eq_true_eq] at hblank
  rcases isDigit_of_mem_decimal h with hdigit | rfl
  · rw [Char.isDigit_iff_toNat] at hdigit
    have hlow : '0'.toNat = 48 := rfl
    have hhigh : '9'.toNat = 57 := rfl
    omega
  · have hminus : '-'.toNat = 45 := rfl
    omega

/-! ## Reading the digits -/

/-- Digits in two parts are read part by part. -/
theorem digitsFrom?_append (base value : Nat) (first rest : List Char) :
    digitsFrom? base value (first ++ rest) =
      (digitsFrom? base value first).bind fun n => digitsFrom? base n rest := by
  induction first generalizing value with
  | nil => rfl
  | cons c first ih =>
    rw [List.cons_append, digitsFrom?, digitsFrom?, Option.bind_assoc]
    exact congrArg (Option.bind _) (funext fun d => ih _)

/-- A digit's character is read as the digit, in each base up to sixteen. -/
theorem digitIn?_digitChar {base d : Nat} (hbase : base ≤ 16) (h : d < base) :
    digitIn? base (Nat.digitChar d) = some d := by
  have hvalue : ∀ d < 16, digitIn? 16 (Nat.digitChar d) = some d := by decide
  have hd := hvalue d (Nat.lt_of_lt_of_le h hbase)
  unfold digitIn? at hd ⊢
  rw [Option.filter_eq_some_iff] at hd ⊢
  exact ⟨hd.1, decide_eq_true h⟩

/-- The digits of a number in a base spell it. -/
theorem digitsFrom?_toDigits {base : Nat} (hlow : 1 < base) (hhigh : base ≤ 16) (n : Nat) :
    digitsFrom? base 0 (Nat.toDigits base n) = some n := by
  induction n using Nat.strongRecOn with
  | ind n ih =>
    by_cases hn : n < base
    · rw [Nat.toDigits_of_lt_base hn, digitsFrom?, digitIn?_digitChar hhigh hn, Option.bind_some,
        Nat.zero_mul, Nat.zero_add, digitsFrom?]
    · have hle : base ≤ n := Nat.le_of_not_lt hn
      have hdiv : n / base < n := Nat.div_lt_self (by omega) hlow
      have hmod : n % base < base := Nat.mod_lt n (by omega)
      rw [Nat.toDigits_of_base_le hlow hle, digitsFrom?_append, ih _ hdiv, Option.bind_some,
        digitsFrom?, digitIn?_digitChar hhigh hmod, Option.bind_some, digitsFrom?,
        Nat.div_add_mod' n base]

/-- The decimal digits of a number add up to it. -/
theorem foldl_toDigits (m : Nat) :
    (Nat.toDigits 10 m).foldl (fun n c => n * 10 + (c.toNat - 48)) 0 = m := by
  have hvalue := Nat.ofDigitChars_ten_toDigits (n := m)
  rw [Nat.ofDigitChars_eq_foldl] at hvalue
  have hstep : (fun (n : Nat) (c : Char) => n * 10 + (c.toNat - 48)) =
      fun n c => 10 * n + (c.toNat - '0'.toNat) := by
    funext n c
    rw [Nat.mul_comm]
    rfl
  rw [hstep, hvalue]

/-- A number is read back from its decimal digits. -/
theorem natural?_toDigits (m : Nat) : natural? 10 (Nat.toDigits 10 m) = some m := by
  have hread := digitsFrom?_toDigits (by decide : 1 < 10) (by decide) m
  obtain ⟨c, rest, hcons⟩ := List.exists_cons_of_ne_nil (Nat.toDigits_ne_nil (n := m) (b := 10))
  rw [hcons] at hread ⊢
  exact hread

namespace IntegerRange

variable {range : IntegerRange} {n : Int}

/-- Whether an integer lies in the range. -/
def Contains (range : IntegerRange) (n : Int) : Prop := range.lowest ≤ n ∧ n ≤ range.highest

instance (range : IntegerRange) (n : Int) : Decidable (range.Contains n) :=
  inferInstanceAs (Decidable (_ ∧ _))

/-- Without a sign, a text is read as a number. -/
theorem read?_digits {text : List Char} {m : Nat} (h : ∀ c ∈ text, c.isDigit = true)
    (hnumber : natural? 10 text = some m) : range.read? text = range.keep? m := by
  cases text with
  | nil => simp [natural?] at hnumber
  | cons c rest =>
    have hdigit := h c List.mem_cons_self
    unfold IntegerRange.read?
    split
    · rename_i heq
      obtain ⟨rfl, -⟩ := List.cons.inj heq
      simp at hdigit
    · rename_i heq
      obtain ⟨rfl, -⟩ := List.cons.inj heq
      simp at hdigit
    · rw [hnumber]
      rfl

/-- An integer of the range is read back from its text. -/
theorem read?_decimal (h : range.Contains n) : range.read? (decimal n).toList = some n := by
  have hkeep : range.keep? n = some n := if_pos h
  rw [toList_decimal]
  by_cases hn : n < 0
  · have hlow : range.lowest < 0 := Int.lt_of_le_of_lt h.1 hn
    have hsize : -(n.natAbs : Int) = n := by omega
    rw [signText, if_pos hn, List.singleton_append, IntegerRange.read?, if_pos hlow,
      natural?_toDigits, Option.bind_some, hsize, hkeep]
  · have hsize : (n.natAbs : Int) = n := by omega
    rw [signText, if_neg hn, List.nil_append, read?_digits
      (fun _ hc => Nat.isDigit_of_mem_toDigits (by decide) (by decide) hc)
      (natural?_toDigits n.natAbs), hsize, hkeep]

end IntegerRange

end CallbackGateway.Text
