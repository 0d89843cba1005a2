import CallbackGateway.Proofs.Payload.Letters

/-!
# Letters of base64 written back

The canonical reading takes nothing but what is written: every value belongs to one letter, four
values belong to three bytes, and the spare bits in front of the padding are zero. So a text that
can be read is the encoding of what is read from it.
-/

namespace CallbackGateway.Base64

/-- A letter is the letter of its value. -/
theorem letter_of_value? {c : Char} {n : Nat} (h : value? c = some n) : n < 64 ∧ c = letter n := by
  have hchar {low high : Char} (hlow : low ≤ c) (hhigh : c ≤ high) :
      low.toNat ≤ c.toNat ∧ c.toNat ≤ high.toNat := ⟨hlow, hhigh⟩
  have hA : 'A'.toNat = 65 ∧ 'Z'.toNat = 90 ∧ 'a'.toNat = 97 ∧ 'z'.toNat = 122 ∧
      '0'.toNat = 48 ∧ '9'.toNat = 57 := by decide
  unfold value? at h
  split at h
  · rename_i hupper
    obtain ⟨hlow, hhigh⟩ := hchar hupper.1 hupper.2
    obtain rfl := Option.some.inj h
    refine ⟨by omega, ?_⟩
    rw [letter, if_pos (by omega), Nat.add_sub_cancel' (by omega), Char.ofNat_toNat]
  split at h
  · rename_i hlower
    obtain ⟨hlow, hhigh⟩ := hchar hlower.1 hlower.2
    obtain rfl := Option.some.inj h
    refine ⟨by omega, ?_⟩
    rw [letter, if_neg (by omega), if_pos (by omega), Nat.add_sub_cancel' (by omega),
      Char.ofNat_toNat]
  split at h
  · rename_i hdigit
    obtain ⟨hlow, hhigh⟩ := hchar hdigit.1 hdigit.2
    obtain rfl := Option.some.inj h
    refine ⟨by omega, ?_⟩
    rw [letter, if_neg (by omega), if_neg (by omega), if_pos (by omega), Nat.add_sub_cancel,
      Char.ofNat_toNat]
  split at h
  · rename_i hplus
    obtain rfl := Option.some.inj h
    exact ⟨by decide, hplus⟩
  split at h
  · rename_i hslash
    obtain rfl := Option.some.inj h
    exact ⟨by decide, hslash⟩
  · cases h

/-- Three bytes carry 24 bits. -/
theorem toNat_bytes24 {n : Nat} (h : n < 16777216) :
    (UInt8.ofNat (n / 65536)).toNat * 65536 + (UInt8.ofNat (n / 256 % 256)).toNat * 256 +
      (UInt8.ofNat (n % 256)).toNat = n := by
  simp only [UInt8.toNat_ofNat']
  omega

/-- Four values are the six-bit parts of three bytes. -/
theorem exists_quad_of_triple {v w x y : Nat} (hv : v < 64) (hw : w < 64) (hx : x < 64)
    (hy : y < 64) : ∃ a b c, triple v w x y = [a, b, c] ∧
      quad a b c = [letter v, letter w, letter x, letter y] ∧
      a.toNat * 65536 + b.toNat * 256 + c.toNat = v * 262144 + w * 4096 + x * 64 + y := by
  obtain ⟨n, hn⟩ : ∃ n, n = v * 262144 + w * 4096 + x * 64 + y := ⟨_, rfl⟩
  have htriple : triple v w x y =
      [UInt8.ofNat (n / 65536), UInt8.ofNat (n / 256 % 256), UInt8.ofNat (n % 256)] := by
    rw [triple, hn]
  have hsum := toNat_bytes24 (n := n) (by omega)
  obtain ⟨h1, h2, h3, h4⟩ : n / 262144 = v ∧ n / 4096 % 64 = w ∧ n / 64 % 64 = x ∧ n % 64 = y := by
    omega
  refine ⟨_, _, _, htriple, ?_, hsum.trans hn⟩
  rw [quad, hsum, h1, h2, h3, h4]

/-- A byte with the number zero is zero. -/
theorem eq_zero_of_toNat {b : UInt8} (h : b.toNat = 0) : b = 0 := UInt8.toNat_inj.mp h

/-- A text that is read is the encoding of the bytes that are read. -/
theorem eq_encode_of_decode? {text : List Char} {bytes : Bytes} (h : decode? text = some bytes) :
    text = encode bytes := by
  fun_induction decode? text generalizing bytes with
  | case1 =>
    obtain rfl := Option.some.inj h
    rfl
  | case2 first second =>
    simp only [Option.bind_eq_bind, Option.bind_eq_some_iff] at h
    obtain ⟨v, hv, w, hw, h⟩ := h
    obtain ⟨hv', rfl⟩ := letter_of_value? hv
    obtain ⟨hw', rfl⟩ := letter_of_value? hw
    split at h
    · rename_i hspare
      -- With zeros for the padded letters, the bytes that are cut off are zero like the spare bits.
      obtain ⟨a, b, c, htriple, hquad, hsum⟩ :=
        exists_quad_of_triple hv' hw' (show 0 < 64 by decide) (show 0 < 64 by decide)
      have hb := b.toNat_lt
      have hc := c.toNat_lt
      obtain rfl := eq_zero_of_toNat (show b.toNat = 0 by omega)
      obtain rfl := eq_zero_of_toNat (show c.toNat = 0 by omega)
      rw [htriple] at h
      obtain rfl := Option.some.inj h
      rw [List.take_succ_cons, List.take_zero, encode, hquad]
      rfl
    · cases h
  | case3 first second third hpadding =>
    simp only [Option.bind_eq_bind, Option.bind_eq_some_iff] at h
    obtain ⟨v, hv, w, hw, x, hx, h⟩ := h
    obtain ⟨hv', rfl⟩ := letter_of_value? hv
    obtain ⟨hw', rfl⟩ := letter_of_value? hw
    obtain ⟨hx', rfl⟩ := letter_of_value? hx
    split at h
    · rename_i hspare
      obtain ⟨a, b, c, htriple, hquad, hsum⟩ :=
        exists_quad_of_triple hv' hw' hx' (show 0 < 64 by decide)
      have hc := c.toNat_lt
      obtain rfl := eq_zero_of_toNat (show c.toNat = 0 by omega)
      rw [htriple] at h
      obtain rfl := Option.some.inj h
      rw [List.take_succ_cons, List.take_succ_cons, List.take_zero, encode, hquad]
      rfl
    · cases h
  | case4 first second third fourth rest _ _ ih =>
    simp only [Option.bind_eq_bind, Option.bind_eq_some_iff] at h
    obtain ⟨v, hv, w, hw, x, hx, y, hy, tail, htail, h⟩ := h
    obtain ⟨hv', rfl⟩ := letter_of_value? hv
    obtain ⟨hw', rfl⟩ := letter_of_value? hw
    obtain ⟨hx', rfl⟩ := letter_of_value? hx
    obtain ⟨hy', rfl⟩ := letter_of_value? hy
    obtain ⟨a, b, c, htriple, hquad, -⟩ := exists_quad_of_triple hv' hw' hx' hy'
    rw [htriple] at h
    obtain rfl := Option.some.inj h
    rw [ih htail]
    simp only [List.cons_append, List.nil_append, encode, hquad]
  | case5 => simp at h

/-- What is read as bytes is exactly the encoding of the bytes. -/
theorem decode?_eq_some_iff {text : List Char} {bytes : Bytes} :
    decode? text = some bytes ↔ text = encode bytes :=
  ⟨eq_encode_of_decode?, fun h => h ▸ decode?_encode bytes⟩

/-- Different bytes have different encodings. -/
theorem encode_injective : Function.Injective encode := by
  intro first second h
  have hread := decode?_encode first
  rw [h, decode?_encode] at hread
  exact (Option.some.inj hread).symm

end CallbackGateway.Base64
