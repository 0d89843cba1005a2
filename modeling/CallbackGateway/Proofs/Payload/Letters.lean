import CallbackGateway.Base64
import CallbackGateway.Text.Blank

/-!
# Letters of base64 read back

Four letters carry the bits of three bytes. The canonical reading gives every sequence of bytes
back from its letters, and trimming does not touch them, since neither a letter nor the padding
is blank.
-/

namespace CallbackGateway.Base64

/-- The letters of three bytes carry six bits each. -/
theorem triple_quad (a b c : UInt8) :
    let n := a.toNat * 65536 + b.toNat * 256 + c.toNat
    triple (n / 262144) (n / 4096 % 64) (n / 64 % 64) (n % 64) = [a, b, c] := by
  intro n
  have ha := a.toNat_lt
  have hb := b.toNat_lt
  have hc := c.toNat_lt
  have hsum : n / 262144 * 262144 + n / 4096 % 64 * 4096 + n / 64 % 64 * 64 + n % 64 = n := by
    omega
  have h1 : n / 65536 = a.toNat := by omega
  have h2 : n / 256 % 256 = b.toNat := by omega
  have h3 : n % 256 = c.toNat := by omega
  simp only [triple, hsum, h1, h2, h3, UInt8.ofNat_toNat]

/-- The letters of three bytes have their values. -/
theorem value?_quad (a b c : UInt8) :
    let n := a.toNat * 65536 + b.toNat * 256 + c.toNat
    value? (letter (n / 262144)) = some (n / 262144) ∧
      value? (letter (n / 4096 % 64)) = some (n / 4096 % 64) ∧
      value? (letter (n / 64 % 64)) = some (n / 64 % 64) ∧
      value? (letter (n % 64)) = some (n % 64) := by
  intro n
  have ha := a.toNat_lt
  have hb := b.toNat_lt
  have hc := c.toNat_lt
  exact ⟨value?_letter _ (by omega), value?_letter _ (by omega), value?_letter _ (by omega),
    value?_letter _ (by omega)⟩

/-- A letter is not the padding. -/
theorem ne_padding {c : Char} {n : Nat} (h : value? c = some n) : c ≠ '=' := by
  rintro rfl
  simp [value?_padding] at h

/-- Four letters that are no padding are read before what follows them. -/
theorem decode?_cons {a b c d : Char} {v w x y : Nat} (ha : value? a = some v)
    (hb : value? b = some w) (hc : value? c = some x) (hd : value? d = some y)
    (rest : List Char) :
    decode? (a :: b :: c :: d :: rest) = (decode? rest).map (triple v w x y ++ ·) := by
  rw [decode?]
  · simp only [ha, hb, hc, hd, Option.bind_eq_bind, Option.bind_some]
    cases decode? rest <;> rfl
  · intro _ h
    exact absurd h (ne_padding hd)
  · intro h
    exact absurd h (ne_padding hd)

/-- Two letters and the padding are one byte. -/
theorem decode?_two {a b : Char} {v w : Nat} (ha : value? a = some v) (hb : value? b = some w)
    (hw : w % 16 = 0) : decode? [a, b, '=', '='] = some ((triple v w 0 0).take 1) := by
  rw [decode?]
  simp only [ha, hb, Option.bind_eq_bind, Option.bind_some, if_pos hw]

/-- Three letters and the padding are two bytes. -/
theorem decode?_three {a b c : Char} {v w x : Nat} (ha : value? a = some v)
    (hb : value? b = some w) (hc : value? c = some x) (hx : x % 4 = 0) :
    decode? [a, b, c, '='] = some ((triple v w x 0).take 2) := by
  rw [decode?]
  · simp only [ha, hb, hc, Option.bind_eq_bind, Option.bind_some, if_pos hx]
  · exact ne_padding hc

/-- Reading gives the bytes of an encoding back. -/
@[simp] theorem decode?_encode (bytes : Bytes) : decode? (encode bytes) = some bytes := by
  fun_induction encode bytes with
  | case1 => rfl
  | case2 a =>
    obtain ⟨h1, h2, -, -⟩ := value?_quad a 0 0
    have htriple := triple_quad a 0 0
    generalize hn : a.toNat * 65536 + UInt8.toNat 0 * 256 + UInt8.toNat 0 = n at h1 h2 htriple
    have hzero : UInt8.toNat 0 = 0 := rfl
    have h3 : n / 64 % 64 = 0 := by omega
    have h4 : n % 64 = 0 := by omega
    simp only [h3, h4] at htriple
    simp only [quad, hn, List.take_succ_cons, List.take_zero, List.cons_append, List.nil_append]
    rw [decode?_two h1 h2 (by omega), htriple]
    rfl
  | case3 a b =>
    obtain ⟨h1, h2, h3, -⟩ := value?_quad a b 0
    have htriple := triple_quad a b 0
    generalize hn : a.toNat * 65536 + b.toNat * 256 + UInt8.toNat 0 = n at h1 h2 h3 htriple
    have hzero : UInt8.toNat 0 = 0 := rfl
    have h4 : n % 64 = 0 := by omega
    simp only [h4] at htriple
    simp only [quad, hn, List.take_succ_cons, List.take_zero, List.cons_append, List.nil_append]
    rw [decode?_three h1 h2 h3 (by omega), htriple]
    rfl
  | case4 a b c rest ih =>
    obtain ⟨h1, h2, h3, h4⟩ := value?_quad a b c
    rw [quad]
    dsimp only [List.cons_append, List.nil_append]
    rw [decode?_cons h1 h2 h3 h4, ih, triple_quad]
    rfl

/-- Letters are not blank. -/
theorem isBlank_letter : ∀ n < 64, Text.isBlank (letter n) = false := by decide +kernel

/-- No character of an encoding is blank. -/
theorem isBlank_of_mem_encode {bytes : Bytes} {c : Char} (h : c ∈ encode bytes) :
    Text.isBlank c = false := by
  have hquad {a b c : UInt8} {d : Char} (h : d ∈ quad a b c) : Text.isBlank d = false := by
    have ha := a.toNat_lt
    have hb := b.toNat_lt
    have hc := c.toNat_lt
    simp only [quad, List.mem_cons, List.not_mem_nil, or_false] at h
    rcases h with rfl | rfl | rfl | rfl <;> exact isBlank_letter _ (by omega)
  have hpadding : Text.isBlank '=' = false := by decide
  fun_induction encode bytes with
  | case1 => simp at h
  | case2 a =>
    rcases List.mem_append.mp h with h | h
    · exact hquad (List.mem_of_mem_take h)
    · simp only [List.mem_cons, List.not_mem_nil, or_false, or_self] at h
      rw [h, hpadding]
  | case3 a b =>
    rcases List.mem_append.mp h with h | h
    · exact hquad (List.mem_of_mem_take h)
    · rw [List.mem_singleton.mp h, hpadding]
  | case4 a b c rest ih =>
    rcases List.mem_append.mp h with h | h
    · exact hquad h
    · exact ih h

end CallbackGateway.Base64

namespace CallbackGateway.Text

/-- Base64 text has nothing to trim. -/
@[simp] theorem trim_encode (bytes : Bytes) : trim (Base64.encode bytes) = Base64.encode bytes :=
  trim_eq_self fun _ => Base64.isBlank_of_mem_encode

end CallbackGateway.Text
