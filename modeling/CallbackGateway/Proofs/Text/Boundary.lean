import CallbackGateway.Proofs.Text.Utf8

/-!
# Boundaries between characters

No character starts with a byte that continues one, so bytes that spell a text can be cut where
a character starts: both sides spell a text.
-/

namespace CallbackGateway.Text.Utf8

/-- Whether bytes spell a text. -/
def IsText (bytes : Bytes) : Prop := ∃ text, bytes = encode text

/-- Whether all bytes are characters on their own. -/
def IsAscii (bytes : Bytes) : Prop := ∀ b ∈ bytes, b < 0x80

instance (bytes : Bytes) : Decidable (IsAscii bytes) := List.decidableBAll _ bytes

variable {front bytes rest : Bytes}

/-- No bytes are the encoding of the empty text. -/
theorem isText_nil : IsText [] := ⟨[], rfl⟩

/-- Encoded texts one after the other are an encoded text. -/
theorem IsText.append (hfront : IsText front) (hrest : IsText rest) : IsText (front ++ rest) := by
  obtain ⟨text, rfl⟩ := hfront
  obtain ⟨tail, rfl⟩ := hrest
  exact ⟨text ++ tail, (encode_append text tail).symm⟩

/-- The bytes of one character are an encoded text. -/
theorem isText_encodeChar (c : Char) : IsText (encodeChar c) :=
  ⟨[c], by rw [encode_cons, encode_nil, List.append_nil]⟩

/-- ASCII bytes spell a text. -/
theorem IsAscii.isText (h : IsAscii bytes) : IsText bytes := by
  induction bytes with
  | nil => exact isText_nil
  | cons b bytes ih =>
    have hfirst := isText_encodeChar (Char.ofNat b.toNat)
    rw [encodeChar_one (h b List.mem_cons_self)] at hfirst
    exact hfirst.append (ih fun c hc => h c (List.mem_cons_of_mem _ hc))

/-- A tail byte is one between hexadecimal 80 and BF. -/
theorem isTail_iff {b : UInt8} : isTail b = true ↔ 0x80 ≤ b.toNat ∧ b.toNat < 0xC0 := by
  simp only [isTail, Bool.and_eq_true, decide_eq_true_eq, UInt8.le_iff_toNat_le,
    UInt8.lt_iff_toNat_lt, UInt8.reduceToNat]

/-- Only the bytes after the first one of a character continue it. -/
theorem encodeChar_eq_cons (c : Char) : ∃ first tail, encodeChar c = first :: tail ∧
    isTail first = false ∧ ∀ b ∈ tail, isTail b = true := by
  have hc := toNat_range c
  have starts {n : Nat} (hn : n < 256) (h : n < 0x80 ∨ 0xC0 ≤ n) :
      isTail n.toUInt8 = false := by
    rw [Bool.eq_false_iff]
    intro htail
    rw [isTail_iff, toNat_toUInt8 hn] at htail
    omega
  unfold encodeChar
  dsimp only
  split
  · exact ⟨_, [], rfl, starts (by omega) (by omega), by simp⟩
  split
  · refine ⟨_, _, rfl, starts (by omega) (by omega), fun b hb => ?_⟩
    rw [List.mem_singleton.mp hb]
    exact (tail_of_bits (Nat.mod_lt _ (by decide))).1
  split
  · refine ⟨_, _, rfl, starts (by omega) (by omega), fun b hb => ?_⟩
    simp only [List.mem_cons, List.not_mem_nil, or_false] at hb
    rcases hb with rfl | rfl <;> exact (tail_of_bits (Nat.mod_lt _ (by decide))).1
  · refine ⟨_, _, rfl, starts (by omega) (by omega), fun b hb => ?_⟩
    simp only [List.mem_cons, List.not_mem_nil, or_false] at hb
    rcases hb with rfl | rfl | rfl <;> exact (tail_of_bits (Nat.mod_lt _ (by decide))).1

/-- What follows the first character of a text is a text. -/
theorem isText_of_encodeChar_append {c : Char} (h : IsText (encodeChar c ++ rest)) :
    IsText rest := by
  obtain ⟨text, htext⟩ := h
  have hpieces := congrArg pieces htext
  rw [pieces_encodeChar, pieces_encode] at hpieces
  cases text with
  | nil => simp at hpieces
  | cons d text =>
    rw [List.map_cons, List.cons.injEq, Piece.char.injEq] at hpieces
    rw [hpieces.1, encode_cons, List.append_cancel_left_eq] at htext
    exact ⟨text, htext⟩

/-- Where a character starts in a text, the text can be cut. -/
theorem isText_of_append_encodeChar {c : Char} (h : IsText (front ++ (encodeChar c ++ rest))) :
    IsText front ∧ IsText rest := by
  obtain ⟨text, htext⟩ := h
  induction text generalizing front with
  | nil =>
    obtain ⟨first, tail, hfirst, -, -⟩ := encodeChar_eq_cons c
    simp [hfirst] at htext
  | cons d text ih =>
    rw [encode_cons, List.append_eq_append_iff] at htext
    rcases htext with ⟨inner, hchar, hafter⟩ | ⟨tail, rfl, hafter⟩
    · cases inner with
      | nil =>
        rw [List.append_nil] at hchar
        exact ⟨hchar ▸ isText_encodeChar d, isText_of_encodeChar_append ⟨text, hafter⟩⟩
      | cons b inner =>
        cases front with
        | nil =>
          rw [← List.nil_append (b :: inner), ← hchar] at hafter
          exact ⟨isText_nil, isText_of_encodeChar_append ⟨d :: text, hafter⟩⟩
        | cons a front =>
          -- The first byte of the character would continue another one.
          obtain ⟨first, others, hfirst, hstart, -⟩ := encodeChar_eq_cons c
          obtain ⟨own, tail, hown, -, htail⟩ := encodeChar_eq_cons d
          rw [hfirst, List.cons_append, List.cons_append, List.cons.injEq] at hafter
          rw [hown, List.cons_append, List.cons.injEq] at hchar
          have hcontinues := htail b (by simp [hchar.2])
          rw [← hafter.1, hstart] at hcontinues
          exact absurd hcontinues Bool.false_ne_true
    · obtain ⟨hfront, hrest⟩ := ih hafter.symm
      exact ⟨(isText_encodeChar d).append hfront, hrest⟩

end CallbackGateway.Text.Utf8
