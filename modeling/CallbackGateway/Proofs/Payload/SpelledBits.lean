import CallbackGateway.Proofs.Payload.Canonical
import Mathlib.Data.Nat.Bitwise

/-!
# Bits of letters and bytes

A letter stands for six bits and a byte for eight, the most significant first. Letters without
padding are read by cutting their bits into bytes: the bits of the bytes are where the bits of the
letters begin, and fewer than eight bits are left over.
-/

namespace CallbackGateway.Base64

/-! ## Bits of numbers -/

/-- The lowest bits of a number, the most significant first. -/
def lowBits : Nat → Nat → List Bool
  | 0, _ => []
  | count + 1, n => n.testBit count :: lowBits count n

/-- As many bits are taken as were asked for. -/
@[simp] theorem length_lowBits (count n : Nat) : (lowBits count n).length = count := by
  induction count with
  | zero => rfl
  | succ count ih => rw [lowBits, List.length_cons, ih]

/-- Bits are the same just if they are the same one by one. -/
theorem lowBits_eq_iff {count a b : Nat} :
    lowBits count a = lowBits count b ↔ ∀ i < count, a.testBit i = b.testBit i := by
  induction count with
  | zero => simp [lowBits]
  | succ count ih =>
    rw [lowBits, lowBits, List.cons.injEq, ih]
    constructor
    · rintro ⟨hlast, hrest⟩ i hi
      rcases Nat.lt_succ_iff_lt_or_eq.mp hi with hi | rfl
      · exact hrest i hi
      · exact hlast
    · exact fun h => ⟨h count count.lt_succ_self, fun i hi => h i (Nat.lt_succ_of_lt hi)⟩

/-- The bits of a number determine it. -/
theorem lowBits_injective {count a b : Nat} (ha : a < 2 ^ count) (hb : b < 2 ^ count)
    (h : lowBits count a = lowBits count b) : a = b := by
  refine Nat.eq_of_testBit_eq fun i => ?_
  by_cases hi : i < count
  · exact lowBits_eq_iff.mp h i hi
  · have hpow : 2 ^ count ≤ 2 ^ i := Nat.pow_le_pow_right (by decide) (Nat.le_of_not_lt hi)
    rw [Nat.testBit_lt_two_pow (Nat.lt_of_lt_of_le ha hpow),
      Nat.testBit_lt_two_pow (Nat.lt_of_lt_of_le hb hpow)]

/-- Where a number consists of two, its bits do. -/
theorem lowBits_add (high low a : Nat) {b : Nat} (h : b < 2 ^ low) :
    lowBits (high + low) (2 ^ low * a + b) = lowBits high a ++ lowBits low b := by
  induction high with
  | zero =>
    rw [Nat.zero_add, lowBits, List.nil_append, lowBits_eq_iff]
    intro i hi
    rw [Nat.testBit_two_pow_mul_add a h, if_pos hi]
  | succ high ih =>
    rw [Nat.succ_add, lowBits, lowBits, List.cons_append, ih, Nat.testBit_two_pow_mul_add a h,
      if_neg (Nat.not_lt.mpr (Nat.le_add_left low high)), Nat.add_sub_cancel]

/-! ## Bits of sequences -/

/-- The bits that a letter stands for. -/
def letterBits (c : Char) : List Bool := lowBits 6 ((value? c).getD 0)

/-- The bits of a byte. -/
def byteBits (b : UInt8) : List Bool := lowBits 8 b.toNat

/-- A letter spells six bits. -/
@[simp] theorem length_letterBits (c : Char) : (letterBits c).length = 6 := length_lowBits 6 _

/-- A byte has eight bits. -/
@[simp] theorem length_byteBits (b : UInt8) : (byteBits b).length = 8 := length_lowBits 8 _

/-- A letter spells the bits of its value. -/
theorem letterBits_of_value? {c : Char} {n : Nat} (h : value? c = some n) :
    letterBits c = lowBits 6 n := by
  rw [letterBits, h, Option.getD_some]

/-- A byte is its bits. -/
theorem byteBits_injective {a b : UInt8} (h : byteBits a = byteBits b) : a = b :=
  UInt8.toNat_inj.mp (lowBits_injective a.toNat_lt b.toNat_lt h)

/-- A letter is the bits that it spells. -/
theorem letterBits_injective {a b : Char} (ha : isLetter a = true) (hb : isLetter b = true)
    (h : letterBits a = letterBits b) : a = b := by
  obtain ⟨v, hv⟩ := Option.isSome_iff_exists.mp ha
  obtain ⟨w, hw⟩ := Option.isSome_iff_exists.mp hb
  obtain ⟨hvlt, rfl⟩ := letter_of_value? hv
  obtain ⟨hwlt, rfl⟩ := letter_of_value? hw
  rw [letterBits_of_value? hv, letterBits_of_value? hw] at h
  exact congrArg letter (lowBits_injective hvlt hwlt h)

section Width

variable {α β : Type} {f : α → List β} {width : Nat} (hwidth : ∀ a, (f a).length = width)

include hwidth

/-- Lists of one length have that length for each item. -/
theorem length_flatMap_of_width (items : List α) :
    (items.flatMap f).length = width * items.length := by
  simp only [List.length_flatMap, hwidth, List.map_const', List.sum_replicate_nat, Nat.mul_comm]

/-- Items of one width are told from what they are written as. -/
theorem eq_of_flatMap_eq (hpos : 0 < width) {items others : List α}
    (hinj : ∀ a ∈ items, ∀ b ∈ others, f a = f b → a = b)
    (h : items.flatMap f = others.flatMap f) : items = others := by
  have hlength := congrArg List.length h
  rw [length_flatMap_of_width hwidth, length_flatMap_of_width hwidth] at hlength
  have hsame : items.length = others.length := Nat.eq_of_mul_eq_mul_left hpos hlength
  clear hlength
  induction items generalizing others with
  | nil => exact (List.eq_nil_of_length_eq_zero hsame.symm).symm
  | cons a items ih =>
    cases others with
    | nil => cases hsame
    | cons b others =>
      rw [List.flatMap_cons, List.flatMap_cons] at h
      obtain ⟨hfirst, hrest⟩ := List.append_inj h ((hwidth a).trans (hwidth b).symm)
      rw [hinj a List.mem_cons_self b List.mem_cons_self hfirst,
        ih (fun c hc d hd => hinj c (List.mem_cons_of_mem _ hc) d (List.mem_cons_of_mem _ hd))
          hrest (Nat.succ.inj hsame)]

end Width

/-! ## Reading letters -/

/-- Three bytes have the bits of the four values that spell them. -/
theorem flatMap_triple {v w x y : Nat} (hv : v < 64) (hw : w < 64) (hx : x < 64) (hy : y < 64) :
    (triple v w x y).flatMap byteBits =
      lowBits 6 v ++ (lowBits 6 w ++ (lowBits 6 x ++ lowBits 6 y)) := by
  obtain ⟨a, b, c, htriple, -, hsum⟩ := exists_quad_of_triple hv hw hx hy
  have hb := b.toNat_lt
  have hc := c.toNat_lt
  have hvalues : lowBits 24 (2 ^ 18 * v + (2 ^ 12 * w + (2 ^ 6 * x + y))) =
      lowBits 6 v ++ (lowBits 6 w ++ (lowBits 6 x ++ lowBits 6 y)) := by
    rw [lowBits_add 6 18 v (by omega), lowBits_add 6 12 w (by omega), lowBits_add 6 6 x hy]
  have hbytes : lowBits 24 (2 ^ 16 * a.toNat + (2 ^ 8 * b.toNat + c.toNat)) =
      byteBits a ++ (byteBits b ++ byteBits c) := by
    rw [lowBits_add 8 16 _ (by omega), lowBits_add 8 8 _ hc, byteBits, byteBits, byteBits]
  have hsame : 2 ^ 16 * a.toNat + (2 ^ 8 * b.toNat + c.toNat) =
      2 ^ 18 * v + (2 ^ 12 * w + (2 ^ 6 * x + y)) := by omega
  rw [htriple, ← hvalues, ← hsame, hbytes]
  simp

/-- What is read has a byte for every eight bits of the letters. -/
theorem length_of_decodeLoose? {letters : List Char} {bytes : Bytes}
    (h : decodeLoose? letters = some bytes) : bytes.length = 6 * letters.length / 8 := by
  fun_induction decodeLoose? letters generalizing bytes with
  | case1 =>
    obtain rfl := Option.some.inj h
    rfl
  | case2 => cases h
  | case3 | case4 =>
    simp only [Option.bind_eq_bind, Option.bind_eq_some_iff] at h
    grind [triple]
  | case5 a b c d rest ih =>
    simp only [Option.bind_eq_bind, Option.bind_eq_some_iff] at h
    obtain ⟨v, -, w, -, x, -, y, -, tail, htail, h⟩ := h
    obtain rfl := Option.some.inj h
    rw [List.length_append, ih htail]
    simp only [triple, List.length_cons, List.length_nil]
    omega

/-- The first of three bytes have the bits with which their values begin. -/
theorem prefix_of_take_triple {v w x y count : Nat} {bits : List Bool} (hv : v < 64) (hw : w < 64)
    (hx : x < 64) (hy : y < 64)
    (hbits : bits <+: lowBits 6 v ++ (lowBits 6 w ++ (lowBits 6 x ++ lowBits 6 y)))
    (hlength : 8 * count ≤ bits.length) :
    ((triple v w x y).take count).flatMap byteBits <+: bits := by
  rw [← flatMap_triple hv hw hx hy] at hbits
  have htake : ((triple v w x y).take count).flatMap byteBits <+:
      (triple v w x y).flatMap byteBits := by
    conv_rhs => rw [← List.take_append_drop count (triple v w x y), List.flatMap_append]
    exact List.prefix_append _ _
  refine List.prefix_of_prefix_length_le htake hbits (Nat.le_trans ?_ hlength)
  rw [length_flatMap_of_width length_byteBits, List.length_take]
  omega

/-- The bits of what is read are where the bits of the letters begin. -/
theorem prefix_of_decodeLoose? {letters : List Char} {bytes : Bytes}
    (h : decodeLoose? letters = some bytes) :
    bytes.flatMap byteBits <+: letters.flatMap letterBits := by
  fun_induction decodeLoose? letters generalizing bytes with
  | case1 =>
    obtain rfl := Option.some.inj h
    exact List.prefix_refl _
  | case2 => cases h
  | case3 first second =>
    simp only [Option.bind_eq_bind, Option.bind_eq_some_iff] at h
    obtain ⟨v, hv, w, hw, h⟩ := h
    obtain rfl := Option.some.inj h
    simp only [List.flatMap_cons, List.flatMap_nil, letterBits_of_value? hv,
      letterBits_of_value? hw, List.append_nil]
    exact prefix_of_take_triple (letter_of_value? hv).1 (letter_of_value? hw).1 (by decide)
      (by decide) ⟨_, List.append_assoc _ _ _⟩ (by simp)
  | case4 first second third =>
    simp only [Option.bind_eq_bind, Option.bind_eq_some_iff] at h
    obtain ⟨v, hv, w, hw, x, hx, h⟩ := h
    obtain rfl := Option.some.inj h
    simp only [List.flatMap_cons, List.flatMap_nil, letterBits_of_value? hv,
      letterBits_of_value? hw, letterBits_of_value? hx, List.append_nil]
    refine prefix_of_take_triple (letter_of_value? hv).1 (letter_of_value? hw).1
      (letter_of_value? hx).1 (by decide) ⟨lowBits 6 0, ?_⟩ (by simp)
    simp only [List.append_assoc]
  | case5 a b c d rest ih =>
    simp only [Option.bind_eq_bind, Option.bind_eq_some_iff] at h
    obtain ⟨v, hv, w, hw, x, hx, y, hy, tail, htail, h⟩ := h
    obtain rfl := Option.some.inj h
    rw [List.flatMap_append, flatMap_triple (letter_of_value? hv).1 (letter_of_value? hw).1
      (letter_of_value? hx).1 (letter_of_value? hy).1]
    simp only [List.flatMap_cons, letterBits_of_value? hv, letterBits_of_value? hw,
      letterBits_of_value? hx, letterBits_of_value? hy, List.append_assoc,
      List.prefix_append_right_inj]
    exact ih htail

/-! ## Letters that can be read -/

/-- Letters are read unless one is left alone. -/
theorem exists_decodeLoose? {letters : List Char} (h : ∀ c ∈ letters, isLetter c = true)
    (hlength : letters.length % 4 ≠ 1) : ∃ bytes, decodeLoose? letters = some bytes := by
  fun_induction decodeLoose? letters with
  | case1 => exact ⟨[], rfl⟩
  | case2 => exact absurd rfl hlength
  | case3 a b =>
    simp only [List.forall_mem_cons, isLetter, Option.isSome_iff_exists] at h
    obtain ⟨⟨v, hv⟩, ⟨w, hw⟩, -⟩ := h
    simp only [hv, hw, Option.bind_eq_bind, Option.bind_some, Option.some.injEq, exists_eq']
  | case4 a b c =>
    simp only [List.forall_mem_cons, isLetter, Option.isSome_iff_exists] at h
    obtain ⟨⟨v, hv⟩, ⟨w, hw⟩, ⟨x, hx⟩, -⟩ := h
    simp only [hv, hw, hx, Option.bind_eq_bind, Option.bind_some, Option.some.injEq, exists_eq']
  | case5 a b c d rest ih =>
    simp only [List.forall_mem_cons] at h
    obtain ⟨ha, hb, hc, hd, hrest⟩ := h
    obtain ⟨tail, htail⟩ := ih hrest (by
      simp only [List.length_cons] at hlength
      omega)
    simp only [isLetter, Option.isSome_iff_exists] at ha hb hc hd
    obtain ⟨v, hv⟩ := ha
    obtain ⟨w, hw⟩ := hb
    obtain ⟨x, hx⟩ := hc
    obtain ⟨y, hy⟩ := hd
    simp only [hv, hw, hx, hy, htail, Option.bind_eq_bind, Option.bind_some, Option.some.injEq,
      exists_eq']

/-- Bytes that leave two over are written as letters, of which the last has two spare bits that are
zero, and the padding; the letters are read back as the bytes. -/
theorem exists_letters_of_encode {bytes : Bytes} (h : bytes.length % 3 = 2) :
    ∃ front top, top < 16 ∧ encode bytes = front ++ [letter (4 * top), '='] ∧
      (∀ c ∈ front, isLetter c = true) ∧
      decodeLoose? (front ++ [letter (4 * top)]) = some bytes := by
  fun_induction encode bytes with
  | case1 => cases h
  | case2 => cases h
  | case3 a b =>
    obtain ⟨h1, h2, h3, -⟩ := value?_quad a b 0
    have htriple := triple_quad a b 0
    generalize hn : a.toNat * 65536 + b.toNat * 256 + UInt8.toNat 0 = n at h1 h2 h3 htriple
    have hzero : UInt8.toNat 0 = 0 := rfl
    have hspare : n / 64 % 64 = 4 * (b.toNat % 16) := by omega
    have hlast : n % 64 = 0 := by omega
    rw [hspare] at h3
    simp only [hspare, hlast] at htriple
    refine ⟨[letter (n / 262144), letter (n / 4096 % 64)], b.toNat % 16, by omega, ?_, ?_, ?_⟩
    · simp only [quad, hn, hspare, List.take_succ_cons, List.take_zero, List.cons_append,
        List.nil_append]
    · simp only [List.forall_mem_cons, isLetter, h1, h2, Option.isSome_some, true_and]
      exact fun c hc => absurd hc List.not_mem_nil
    · simp only [List.cons_append, List.nil_append, decodeLoose?, h1, h2, h3, htriple,
        Option.bind_eq_bind, Option.bind_some, List.take_succ_cons, List.take_zero]
  | case4 a b c rest ih =>
    obtain ⟨front, top, htop, hencode, hfront, hread⟩ := ih (by
      simp only [List.length_cons] at h
      omega)
    obtain ⟨h1, h2, h3, h4⟩ := value?_quad a b c
    refine ⟨quad a b c ++ front, top, htop, ?_, ?_, ?_⟩
    · rw [hencode, List.append_assoc]
    · intro d hd
      rcases List.mem_append.mp hd with hd | hd
      · simp only [quad, List.mem_cons, List.not_mem_nil, or_false] at hd
        rcases hd with rfl | rfl | rfl | rfl <;>
          simp only [isLetter, h1, h2, h3, h4, Option.isSome_some]
      · exact hfront d hd
    · simp only [quad, List.cons_append, List.nil_append, decodeLoose?, h1, h2, h3, h4, hread,
        Option.bind_eq_bind, Option.bind_some, triple_quad]

end CallbackGateway.Base64
