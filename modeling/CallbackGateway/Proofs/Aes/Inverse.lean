import CallbackGateway.Aes.Chain
import CallbackGateway.Aes.Cipher

/-!
# Decryption undoes encryption

Every step of a round is undone by the step beside it: substitution because the field inverse and
the affine map are undone for every single byte, the mixing of columns because mixing is additive
and is undone for every single byte. Rounds are undone in the opposite order, so one block is
given back under every key.

The field inverse is computed on natural numbers here, where a check of all bytes is cheap.
-/

namespace CallbackGateway.Aes

/-! ## The field inverse -/

/-- The product with the field element two, on numbers. -/
def doubleNat (n : Nat) : Nat := (2 * n) ^^^ (0x11B * (n / 128))

/-- The field product from the low bits up, on numbers. -/
def productNat : Nat → Nat → Nat → Nat
  | 0, _, _ => 0
  | bits + 1, a, b => (a * (b % 2)) ^^^ productNat bits (doubleNat a) (b / 2)

/-- The power 254, on numbers. -/
def inverseNat (a : Nat) : Nat :=
  let a2 := productNat 8 a a
  let a3 := productNat 8 a2 a
  let a6 := productNat 8 a3 a3
  let a12 := productNat 8 a6 a6
  let a15 := productNat 8 a12 a3
  let a30 := productNat 8 a15 a15
  let a60 := productNat 8 a30 a30
  let a120 := productNat 8 a60 a60
  let a240 := productNat 8 a120 a120
  productNat 8 (productNat 8 a240 a12) a2

/-- Doubling is doubling of the numbers. -/
theorem toNat_double (b : UInt8) : (double b).toNat = doubleNat b.toNat := by
  have h : ∀ n : Fin 256, (double (UInt8.ofFin n)).toNat = doubleNat n.val := by decide +kernel
  exact h b.toFin

/-- A product is a product of the numbers. -/
theorem toNat_multiplyFrom (bits : Nat) (a b : UInt8) :
    (multiplyFrom bits a b).toNat = productNat bits a.toNat b.toNat := by
  induction bits generalizing a b with
  | zero => rfl
  | succ bits ih =>
    have hbit : (b &&& 1 = 1) ↔ b.toNat % 2 = 1 := by
      rw [← UInt8.toNat_inj, UInt8.toNat_and]
      exact iff_of_eq (congrArg (· = 1) (Nat.and_one_is_mod _))
    have hterm : (if b &&& 1 = 1 then a else 0).toNat = a.toNat * (b.toNat % 2) := by
      rcases Nat.mod_two_eq_zero_or_one b.toNat with h | h
      · rw [if_neg (by rw [hbit, h]; decide), h, Nat.mul_zero]
        rfl
      · rw [if_pos (hbit.mpr h), h, Nat.mul_one]
    rw [multiplyFrom, productNat, UInt8.toNat_xor, hterm, ih, toNat_double, UInt8.toNat_shiftRight]
    rfl

/-- An inverse is an inverse of the numbers. -/
theorem toNat_inverse (b : UInt8) : (inverse b).toNat = inverseNat b.toNat := by
  simp only [inverse, inverseNat, square, multiply, toNat_multiplyFrom]

/-- Inverting twice changes nothing. -/
theorem inverseNat_inverseNat : ∀ n < 256, inverseNat (inverseNat n) = n := by decide +kernel

/-- The field inverse is its own inverse. -/
theorem inverse_inverse (b : UInt8) : inverse (inverse b) = b := by
  rw [← UInt8.toNat_inj, toNat_inverse, toNat_inverse]
  exact inverseNat_inverseNat _ b.toNat_lt

/-! ## Substitution -/

/-- Gathering the bits undoes spreading them. -/
theorem gather_spread : ∀ n : Fin 256,
    let i := UInt8.ofFin n
    let s := i ^^^ rotate i 1 ^^^ rotate i 2 ^^^ rotate i 3 ^^^ rotate i 4 ^^^ 0x63
    rotate s 1 ^^^ rotate s 3 ^^^ rotate s 6 ^^^ 0x05 = i := by
  decide +kernel

/-- The byte with the substitute of a byte is the byte. -/
theorem restoreByte_substituteByte (b : UInt8) : restoreByte (substituteByte b) = b := by
  have h := gather_spread (inverse b).toFin
  dsimp only at h
  rw [UInt8.ofFin_toFin] at h
  rw [restoreByte, substituteByte, h, inverse_inverse]

/-- The table of substitution agrees with its rule. -/
theorem substitute_eq (b : UInt8) : substitute b = substituteByte b := by
  change substitutes[b.toFin.val] = _
  simp only [substitutes, Vector.getElem_ofFn]
  exact congrArg substituteByte UInt8.ofNat_toNat

/-- The table of restoration agrees with its rule. -/
theorem restore_eq (s : UInt8) : restore s = restoreByte s := by
  change restored[s.toFin.val] = _
  simp only [restored, Vector.getElem_ofFn]
  exact congrArg restoreByte UInt8.ofNat_toNat

/-- The table of restored bytes inverts the table of substitutes. -/
theorem restore_substitute (b : UInt8) : restore (substitute b) = b := by
  rw [restore_eq, substitute_eq, restoreByte_substituteByte]

/-- A block is restored byte by byte. -/
@[simp] theorem restoreBlock_substituteBlock (x : Block) :
    restoreBlock (substituteBlock x) = x := by
  simp only [restoreBlock, substituteBlock, Block.map, Column.map, restore_substitute]

/-! ## Mixing -/

/-- The four terms of two sums change partners. -/
theorem xor_xor_xor_comm (a b c d : UInt8) :
    (a ^^^ b) ^^^ (c ^^^ d) = (a ^^^ c) ^^^ (b ^^^ d) := by
  rw [UInt8.xor_assoc, ← UInt8.xor_assoc b, UInt8.xor_comm b, UInt8.xor_assoc c,
    ← UInt8.xor_assoc a]

/-- The leading bit of a sum is set if it is set in just one of the two. -/
theorem leadingBit_xor (a b : UInt8) : 0x80 ≤ a ^^^ b ↔ (0x80 ≤ a ↔ ¬ 0x80 ≤ b) := by
  have hmsb (x : UInt8) : 0x80 ≤ x ↔ x.toBitVec.msb = true := by
    rw [UInt8.le_iff_toNat_le, BitVec.msb_eq_decide, decide_eq_true_eq]
    rfl
  rw [hmsb, hmsb, hmsb, UInt8.toBitVec_xor, BitVec.msb_xor]
  cases a.toBitVec.msb <;> cases b.toBitVec.msb <;> decide

/-- Doubling is additive. -/
theorem double_xor (a b : UInt8) : double (a ^^^ b) = double a ^^^ double b := by
  have hcarry : (if 0x80 ≤ a ^^^ b then (0x1B : UInt8) else 0) =
      (if 0x80 ≤ a then 0x1B else 0) ^^^ (if 0x80 ≤ b then 0x1B else 0) := by
    simp only [leadingBit_xor]
    by_cases ha : 0x80 ≤ a <;> by_cases hb : 0x80 ≤ b <;> simp [ha, hb]
  rw [double, double, double, UInt8.shiftLeft_xor, hcarry, xor_xor_xor_comm]

/-- Sums of four terms are added term by term. -/
theorem sum_xor (a b c d a' b' c' d' : UInt8) :
    (a ^^^ a') ^^^ (b ^^^ b') ^^^ (c ^^^ c') ^^^ (d ^^^ d') =
      (a ^^^ b ^^^ c ^^^ d) ^^^ (a' ^^^ b' ^^^ c' ^^^ d') := by
  rw [xor_xor_xor_comm a, xor_xor_xor_comm (a ^^^ b), xor_xor_xor_comm (a ^^^ b ^^^ c)]

/-- Mixing is additive. -/
theorem mixColumn_xor (x y : Column) :
    mixColumn (x.xor y) = (mixColumn x).xor (mixColumn y) := by
  simp only [mixColumn, Column.xor, double_xor, Column.mk.injEq]
  refine ⟨?_, ?_, ?_, ?_⟩
  · rw [xor_xor_xor_comm (double x.b), sum_xor]
  · rw [xor_xor_xor_comm (double x.c), sum_xor]
  · rw [xor_xor_xor_comm (double x.d), sum_xor]
  · rw [xor_xor_xor_comm (double x.a), sum_xor]

/-- Unmixing respects sums. -/
theorem unmixByte_xor (a b : UInt8) : unmixByte (a ^^^ b) = (unmixByte a).xor (unmixByte b) := by
  have hthree (a b c a' b' c' : UInt8) :
      (a ^^^ a') ^^^ (b ^^^ b') ^^^ (c ^^^ c') = (a ^^^ b ^^^ c) ^^^ (a' ^^^ b' ^^^ c') := by
    rw [xor_xor_xor_comm a, xor_xor_xor_comm (a ^^^ b)]
  simp only [unmixByte, Column.xor, double_xor, hthree]
  rw [xor_xor_xor_comm]

/-- Unmixing is additive. -/
theorem unmixColumn_xor (x y : Column) :
    unmixColumn (x.xor y) = (unmixColumn x).xor (unmixColumn y) := by
  simp only [unmixColumn, Column.xor, unmixByte_xor, sum_xor]

/-- A column is the sum of columns with one byte each. -/
theorem column_eq_sum (x : Column) :
    x = (((⟨x.a, 0, 0, 0⟩ : Column).xor ⟨0, x.b, 0, 0⟩).xor ⟨0, 0, x.c, 0⟩).xor ⟨0, 0, 0, x.d⟩ := by
  simp only [Column.xor, UInt8.xor_zero, UInt8.zero_xor]

/-- Zero has no bits to move. -/
@[simp] theorem double_zero : double 0 = 0 := by decide

/-- Coefficients of a product cancel in pairs. -/
theorem unmixColumn_mixColumn_single (b : UInt8) :
    unmixColumn (mixColumn ⟨b, 0, 0, 0⟩) = ⟨b, 0, 0, 0⟩ ∧
    unmixColumn (mixColumn ⟨0, b, 0, 0⟩) = ⟨0, b, 0, 0⟩ ∧
    unmixColumn (mixColumn ⟨0, 0, b, 0⟩) = ⟨0, 0, b, 0⟩ ∧
    unmixColumn (mixColumn ⟨0, 0, 0, b⟩) = ⟨0, 0, 0, b⟩ := by
  have left_comm (x y z : UInt8) : x ^^^ (y ^^^ z) = y ^^^ (x ^^^ z) := by
    rw [← UInt8.xor_assoc, UInt8.xor_comm x, UInt8.xor_assoc]
  have cancel (x y : UInt8) : x ^^^ (x ^^^ y) = y := by
    rw [← UInt8.xor_assoc, UInt8.xor_self, UInt8.zero_xor]
  simp [unmixColumn, mixColumn, unmixByte, double_xor, UInt8.xor_assoc, UInt8.xor_comm, left_comm,
    cancel]

/-- Unmixing undoes mixing. -/
theorem unmixColumn_mixColumn (x : Column) : unmixColumn (mixColumn x) = x := by
  rw [column_eq_sum x]
  simp only [mixColumn_xor, unmixColumn_xor]
  rw [(unmixColumn_mixColumn_single x.a).1, (unmixColumn_mixColumn_single x.b).2.1,
    (unmixColumn_mixColumn_single x.c).2.2.1, (unmixColumn_mixColumn_single x.d).2.2.2]

/-- A block is unmixed column by column. -/
@[simp] theorem map_unmixColumn_map_mixColumn (x : Block) :
    (x.map mixColumn).map unmixColumn = x := by
  simp only [Block.map, unmixColumn_mixColumn]

/-! ## Rounds -/

/-- A full round is undone. -/
theorem unround_round (state key : Block) : unround key (round state key) = state := by
  simp [unround, round]

/-- Rounds are undone in reverse order. -/
theorem foldr_unround_foldl_round (keys : List Block) (state : Block) :
    keys.foldr unround (keys.foldl round state) = state := by
  induction keys generalizing state with
  | nil => rfl
  | cons key rest ih => rw [List.foldl_cons, List.foldr_cons, ih, unround_round]

/-- Decryption gives every block back under every schedule of round keys. -/
@[simp] theorem Schedule.decrypt_encrypt (keys : Schedule) (x : Block) :
    keys.decrypt (keys.encrypt x) = x := by
  rw [decrypt, encrypt, Block.xor_xor_cancel, unshiftRows_shiftRows, restoreBlock_substituteBlock,
    foldr_unround_foldl_round, Block.xor_xor_cancel]

end CallbackGateway.Aes
