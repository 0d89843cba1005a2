import CallbackGateway.Binary64.Shortest

/-!
# How long the text of a number is

The shortest decimal of a number has at most 21 digits, and the exponent of its leading digit has
at most three, so the text of a number never has more than 29 characters.
-/

namespace CallbackGateway.Binary64

variable {numerator denominator magnitude : Nat} {leading exponent : Int}

/-! ## Powers of ten -/

/-- A power of ten is positive. -/
theorem tenTo_pos (k : Nat) : 0 < tenTo k := Nat.pow_pos (by decide)

/-- The first power of ten is one. -/
@[simp] theorem tenTo_zero : tenTo 0 = 1 := rfl

/-- Exponents of ten are added. -/
theorem tenTo_add (k l : Nat) : tenTo (k + l) = tenTo k * tenTo l := Nat.pow_add 10 k l

/-- Powers of ten grow with their exponents. -/
theorem tenTo_le_tenTo {k l : Nat} (h : k ≤ l) : tenTo k ≤ tenTo l :=
  Nat.pow_le_pow_right (by decide) h

/-- A number has at most some digits just if it is below a power of ten. -/
theorem digitCount_le_iff {n k : Nat} (hk : 0 < k) : digitCount n ≤ k ↔ n < tenTo k :=
  Nat.length_toDigits_le_iff (by decide) hk

/-- Every number has a digit. -/
theorem digitCount_pos (n : Nat) : 0 < digitCount n := Nat.length_toDigits_pos

/-! ## The leading digit -/

/-- A quotient is below a power of ten. -/
def IsBelow (numerator denominator : Nat) (exponent : Int) : Prop :=
  numerator * tenTo (-exponent).toNat < denominator * tenTo exponent.toNat

/-- On the grid that is `count` places finer, the quotient is below ten to the `count`. -/
theorem IsBelow.scaled (h : IsBelow numerator denominator exponent) (count : Nat) :
    numerator * tenTo (count - exponent).toNat <
      denominator * tenTo (exponent - count).toNat * tenTo count := by
  unfold IsBelow at h
  rcases Int.le_total exponent 0 with hnegative | hpositive
  · obtain ⟨p, rfl⟩ := Int.exists_eq_neg_ofNat hnegative
    have hfine : ((count : Int) - -↑p).toNat = p + count := by omega
    have hcoarse : (-(p : Int) - count).toNat = 0 := by omega
    have hbelow : numerator * tenTo p < denominator := by simpa using h
    rw [hfine, hcoarse, tenTo_zero, Nat.mul_one, tenTo_add, ← Nat.mul_assoc]
    exact Nat.mul_lt_mul_of_pos_right hbelow (tenTo_pos count)
  · obtain ⟨n, rfl⟩ := Int.eq_ofNat_of_zero_le hpositive
    have hbelow : numerator < denominator * tenTo n := by simpa using h
    rcases Nat.le_total count n with hle | hle
    · have hfine : ((count : Int) - ↑n).toNat = 0 := by omega
      have hcoarse : ((n : Int) - count).toNat = n - count := by omega
      rwa [hfine, hcoarse, tenTo_zero, Nat.mul_one, Nat.mul_assoc, ← tenTo_add,
        Nat.sub_add_cancel hle]
    · have hfine : ((count : Int) - ↑n).toNat = count - n := by omega
      have hcoarse : ((n : Int) - count).toNat = 0 := by omega
      calc numerator * tenTo ((count : Int) - ↑n).toNat
          < denominator * tenTo n * tenTo (count - n) := by
            rw [hfine]
            exact Nat.mul_lt_mul_of_pos_right hbelow (tenTo_pos _)
        _ = denominator * tenTo ((n : Int) - count).toNat * tenTo count := by
            rw [hcoarse, tenTo_zero, Nat.mul_one, Nat.mul_assoc, ← tenTo_add,
              Nat.add_sub_cancel' hle]

/-- The power before the one that raises a quotient to one does not. -/
theorem raisingPower_spec (bound : Nat) {power : Nat} (hpower : 1 ≤ power)
    (h : numerator * tenTo (power - 1) < denominator) :
    power ≤ raisingPower numerator denominator bound power ∧
    raisingPower numerator denominator bound power ≤ power + bound ∧
    numerator * tenTo (raisingPower numerator denominator bound power - 1) < denominator := by
  induction bound generalizing power with
  | zero => exact ⟨Nat.le_refl _, Nat.le_refl _, h⟩
  | succ bound ih =>
    rw [raisingPower]
    split
    · exact ⟨Nat.le_refl _, Nat.le_add_right _ _, h⟩
    · rename_i hraised
      obtain ⟨hlow, hhigh, hbelow⟩ := ih (Nat.le_add_left 1 power)
        (Nat.lt_of_not_le (by rwa [Nat.add_sub_cancel]))
      exact ⟨by omega, by omega, hbelow⟩

/-- A quotient is below the power of ten after its leading digit. -/
theorem isBelow_leadingExponent (hpos : 0 < denominator) :
    IsBelow numerator denominator (leadingExponent numerator denominator + 1) := by
  unfold IsBelow leadingExponent
  split
  · have hcount := digitCount_pos (numerator / denominator)
    have hlt := Nat.lt_mul_of_div_lt ((digitCount_le_iff hcount).mp (Nat.le_refl _)) hpos
    generalize digitCount (numerator / denominator) = count at *
    rw [show ((count : Int) - 1 + 1).toNat = count by omega,
      show (-((count : Int) - 1 + 1)).toNat = 0 by omega, tenTo_zero, Nat.mul_one, Nat.mul_comm]
    exact hlt
  · rename_i hsmall
    have hfirst : numerator * tenTo (1 - 1) < denominator := by
      simpa using Nat.lt_of_not_le hsmall
    obtain ⟨hlow, -, hbelow⟩ := raisingPower_spec 400 (Nat.le_refl 1) hfirst
    generalize raisingPower numerator denominator 400 1 = power at *
    rw [show (-(power : Int) + 1).toNat = 0 by omega,
      show (-(-(power : Int) + 1)).toNat = power - 1 by omega, tenTo_zero, Nat.mul_one]
    exact hbelow

/-- The leading exponent of a quotient is limited. -/
theorem leadingExponent_range (denominator : Nat) (h : numerator < tenTo 309) :
    -401 ≤ leadingExponent numerator denominator ∧
      leadingExponent numerator denominator ≤ 308 := by
  unfold leadingExponent
  split
  · have hcount := (digitCount_le_iff (by decide)).mpr
      (Nat.lt_of_le_of_lt (Nat.div_le_self numerator denominator) h)
    have hfirst := digitCount_pos (numerator / denominator)
    omega
  · rename_i hsmall
    have hfirst : numerator * tenTo (1 - 1) < denominator := by
      simpa using Nat.lt_of_not_le hsmall
    obtain ⟨hlow, hhigh, -⟩ := raisingPower_spec 400 (Nat.le_refl 1) hfirst
    omega

/-! ## The shortest decimal -/

/-- Rounding adds one at most. -/
theorem divideNearest_le (numerator denominator : Nat) :
    divideNearest numerator denominator ≤ numerator / denominator + 1 := by
  unfold divideNearest
  dsimp only
  split
  · exact Nat.le_refl _
  · exact Nat.le_succ _

/-- What is found on a grid is at most one place above the quotient. -/
theorem digits_le_of_onGrid? {decimal : Decimal} (h : onGrid? magnitude exponent = some decimal) :
    decimal.exponent = exponent ∧
    decimal.digits ≤ (quotient magnitude).1 * tenTo (-exponent).toNat /
      ((quotient magnitude).2 * tenTo exponent.toNat) + 1 := by
  have hnumerator : (if exponent < 0 then (quotient magnitude).1 * tenTo (-exponent).toNat
      else (quotient magnitude).1) = (quotient magnitude).1 * tenTo (-exponent).toNat := by
    split
    · rfl
    · rw [show (-exponent).toNat = 0 by omega, tenTo_zero, Nat.mul_one]
  have hdenominator : (if exponent < 0 then (quotient magnitude).2
      else (quotient magnitude).2 * tenTo exponent.toNat) =
      (quotient magnitude).2 * tenTo exponent.toNat := by
    split
    · rw [show exponent.toNat = 0 by omega, tenTo_zero, Nat.mul_one]
    · rfl
  unfold onGrid? at h
  simp only [hnumerator, hdenominator] at h
  split at h
  · obtain rfl := Option.some.inj h
    exact ⟨rfl, divideNearest_le _ _⟩
  · split at h <;> split at h
    · obtain rfl := Option.some.inj h
      exact ⟨rfl, Nat.le_refl _⟩
    · cases h
    · obtain rfl := Option.some.inj h
      exact ⟨rfl, Nat.le_succ _⟩
    · cases h

/-- On the grid `count` places below the leading digit there are at most `count` digits, or a one
with as many zeros. -/
theorem shortestFrom_spec
    (hbelow : IsBelow (quotient magnitude).1 (quotient magnitude).2 leading) (bound count : Nat) :
    ∃ places ≤ count + bound,
      (shortestFrom magnitude leading bound count).exponent = leading - places ∧
      (shortestFrom magnitude leading bound count).digits ≤ tenTo places := by
  -- A grid on which nothing reads back is followed by one of a place more, up to the bound.
  induction bound generalizing count with
  | zero => exact ⟨count, Nat.le_refl _, rfl, Nat.zero_le _⟩
  | succ bound ih =>
    rw [shortestFrom]
    split
    · rename_i decimal hfound
      obtain ⟨hexponent, hdigits⟩ := digits_le_of_onGrid? hfound
      rw [Int.neg_sub] at hdigits
      have hscaled := Nat.div_lt_of_lt_mul (hbelow.scaled count)
      exact ⟨count, Nat.le_add_right _ _, hexponent, Nat.le_trans hdigits hscaled⟩
    · obtain ⟨places, hplaces, hspec⟩ := ih (count + 1)
      exact ⟨places, by omega, hspec⟩

/-- A power of two is positive. -/
theorem shiftLeft_one_pos (places : Nat) : 0 < 1 <<< places := by
  rw [Nat.one_shiftLeft]
  exact Nat.two_pow_pos places

/-- Shifting respects the order. -/
theorem shiftLeft_le_shiftLeft {m n k l : Nat} (hmn : m ≤ n) (hkl : k ≤ l) :
    m <<< k ≤ n <<< l := by
  rw [Nat.shiftLeft_eq, Nat.shiftLeft_eq]
  exact Nat.mul_le_mul hmn (Nat.pow_le_pow_right (by decide) hkl)

/-- The quotient of a finite number has a denominator, and a numerator below a power of ten. -/
theorem quotient_bounds (h : magnitude < 0x8000000000000000) :
    0 < (quotient magnitude).2 ∧ (quotient magnitude).1 < tenTo 309 := by
  have hfraction : magnitude % leadingBit < leadingBit := Nat.mod_lt _ (by decide)
  have hfield : magnitude / leadingBit < 2048 :=
    Nat.div_lt_of_lt_mul (Nat.lt_of_lt_of_le h (by decide))
  have hlarge : leadingBit + leadingBit < tenTo 309 := by decide +kernel
  unfold quotient
  dsimp only
  split
  · exact ⟨shiftLeft_one_pos _, by omega⟩
  split
  · exact ⟨shiftLeft_one_pos _, by omega⟩
  · have hshift : (magnitude % leadingBit + leadingBit) <<< (magnitude / leadingBit - 1075) ≤
        (leadingBit + leadingBit) <<< 972 := shiftLeft_le_shiftLeft (by omega) (by omega)
    have hlargest : (leadingBit + leadingBit) <<< 972 < tenTo 309 := by decide +kernel
    exact ⟨Nat.one_pos, Nat.lt_of_le_of_lt hshift hlargest⟩

/-- The shortest decimal has at most 21 digits. -/
theorem shortest_bounds (h : magnitude < 0x8000000000000000) :
    digitCount (shortest magnitude).digits ≤ 21 ∧
      -420 ≤ (shortest magnitude).exponent ∧ (shortest magnitude).exponent ≤ 309 := by
  obtain ⟨hpos, hlarge⟩ := quotient_bounds h
  obtain ⟨hlow, hhigh⟩ := leadingExponent_range (quotient magnitude).2 hlarge
  obtain ⟨places, hplaces, hexponent, hdigits⟩ :=
    shortestFrom_spec (isBelow_leadingExponent hpos) 20 0
  have hdef : shortest magnitude = shortestFrom magnitude
      (leadingExponent (quotient magnitude).1 (quotient magnitude).2 + 1) 20 0 := rfl
  rw [← hdef] at hexponent hdigits
  have hmost : (shortest magnitude).digits < tenTo 21 :=
    Nat.lt_of_le_of_lt (Nat.le_trans hdigits (tenTo_le_tenTo (by omega : places ≤ 20)))
      (by decide)
  exact ⟨(digitCount_le_iff (by decide)).mpr hmost, by omega, by omega⟩

/-! ## Layout -/

/-- A point takes two characters at most. -/
theorem length_withPoint_le (digits : List Char) (before : Nat) :
    (withPoint digits before).length ≤ digits.length + 2 := by
  rw [withPoint, List.length_append, List.length_cons, List.length_take]
  split
  · rw [List.length_singleton]
    omega
  · rw [List.length_drop]
    omega

/-- A decimal of limited digits and exponent is short. -/
theorem length_write_le {decimal : Decimal}
    (hdigits : digitCount decimal.digits ≤ 21)
    (hlow : -420 ≤ decimal.exponent) (hhigh : decimal.exponent ≤ 309) :
    (Layout.plain.write decimal).length ≤ 28 := by
  have hfirst := digitCount_pos decimal.digits
  rw [digitCount] at hdigits hfirst
  unfold Layout.write
  dsimp only
  generalize Nat.toDigits 10 decimal.digits = digits at *
  generalize hleading : decimal.exponent + (digits.length : Int) - 1 = leading
  have hplain : Layout.plain.highest = 15 ∧ Layout.plain.lowest = -5 := ⟨rfl, rfl⟩
  split
  · split
    · rw [List.length_append, List.length_append, List.length_replicate]
      simp only [List.length_cons, List.length_nil]
      omega
    · refine Nat.le_trans (length_withPoint_le _ _) ?_
      rw [List.length_append, List.length_replicate]
      omega
  · have hmantissa : (if digits.length = 1 then digits else withPoint digits 1).length ≤
        digits.length + 2 := by
      split
      · exact Nat.le_add_right _ _
      · exact length_withPoint_le digits 1
    have hthree : tenTo 3 = 1000 := by decide
    have hexponent : digitCount leading.natAbs ≤ 3 :=
      (digitCount_le_iff (by decide)).mpr (by omega)
    rw [digitCount] at hexponent
    rw [List.length_append, List.length_cons, List.length_cons]
    omega

/-- The text of a number has at most 29 characters. -/
theorem length_render_le (x : Binary64) : (render x).length ≤ 29 := by
  have hmagnitude : x.magnitude < 0x8000000000000000 := Nat.mod_lt _ (by decide)
  obtain ⟨hdigits, hlow, hhigh⟩ := shortest_bounds hmagnitude
  have htext : (if x.magnitude = 0 then ['0', '.', '0']
      else Layout.plain.write (shortest x.magnitude)).length ≤ 28 := by
    split
    · decide
    · exact length_write_le hdigits hlow hhigh
  unfold render
  dsimp only
  split
  · exact Nat.succ_le_succ htext
  · exact Nat.le_succ_of_le htext

end CallbackGateway.Binary64
