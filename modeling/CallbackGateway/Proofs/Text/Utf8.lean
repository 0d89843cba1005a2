import CallbackGateway.Text.Utf8

/-!
# UTF-8 reads back

The bytes of a text are cut into exactly the characters of the text, so strict and lossy decoding
both give the text back. Strict decoding accepts no other bytes: bytes that spell a text are the
bytes of that text.
-/

namespace CallbackGateway.Text.Utf8

/-- A character is below the surrogates or above them. -/
theorem toNat_range (c : Char) :
    c.toNat < 0xD800 ∨ 0xDFFF < c.toNat ∧ c.toNat < 0x110000 := c.valid

/-- A byte that is given by a number below 256 has that number. -/
theorem toNat_toUInt8 {n : Nat} (h : n < 256) : n.toUInt8.toNat = n := by
  rw [Nat.toUInt8, UInt8.toNat_ofNat']
  exact Nat.mod_eq_of_lt h

/-- A byte is got back from its number. -/
theorem toUInt8_toNat (b : UInt8) : b.toNat.toUInt8 = b := UInt8.ofNat_toNat

/-- A continuing byte carries the six bits it was written for. -/
theorem tail_of_bits {n : Nat} (h : n < 0x40) :
    isTail (0x80 + n).toUInt8 = true ∧ tailBits (0x80 + n).toUInt8 = n := by
  have hn : (0x80 + n).toUInt8.toNat = 0x80 + n := toNat_toUInt8 (by omega)
  constructor
  · simp only [isTail, Bool.and_eq_true, decide_eq_true_eq, UInt8.le_iff_toNat_le,
      UInt8.lt_iff_toNat_lt, hn, UInt8.reduceToNat]
    omega
  · rw [tailBits, hn]
    omega

/-- A continuing byte is written for the bits it carries. -/
theorem bits_of_tail {b : UInt8} (h : isTail b = true) :
    tailBits b < 0x40 ∧ (0x80 + tailBits b).toUInt8 = b := by
  simp only [isTail, Bool.and_eq_true, decide_eq_true_eq, UInt8.le_iff_toNat_le,
    UInt8.lt_iff_toNat_lt, UInt8.reduceToNat] at h
  have hb : 0x80 + tailBits b = b.toNat := by
    rw [tailBits]
    omega
  exact ⟨by rw [tailBits]; omega, by rw [hb, toUInt8_toNat]⟩

/-- Which bytes may follow the first byte of a character of three bytes. -/
theorem isSecondOfThree_iff {a b : UInt8} : isSecondOfThree a b = true ↔
    (0x80 ≤ b.toNat ∧ b.toNat < 0xC0) ∧ (a.toNat = 0xE0 → 0xA0 ≤ b.toNat) ∧
      (a.toNat = 0xED → b.toNat < 0xA0) := by
  simp only [isSecondOfThree, isTail, beq_iff_eq, ← UInt8.toNat_inj, UInt8.reduceToNat]
  split
  · simp only [Bool.and_eq_true, decide_eq_true_eq, UInt8.le_iff_toNat_le, UInt8.lt_iff_toNat_lt,
      UInt8.reduceToNat]
    omega
  split
  · simp only [Bool.and_eq_true, decide_eq_true_eq, UInt8.le_iff_toNat_le, UInt8.lt_iff_toNat_lt,
      UInt8.reduceToNat]
    omega
  · simp only [Bool.and_eq_true, decide_eq_true_eq, UInt8.le_iff_toNat_le, UInt8.lt_iff_toNat_lt,
      UInt8.reduceToNat]
    omega

/-- Which bytes may follow the first byte of a character of four bytes. -/
theorem isSecondOfFour_iff {a b : UInt8} : isSecondOfFour a b = true ↔
    (0x80 ≤ b.toNat ∧ b.toNat < 0xC0) ∧ (a.toNat = 0xF0 → 0x90 ≤ b.toNat) ∧
      (a.toNat = 0xF4 → b.toNat < 0x90) := by
  simp only [isSecondOfFour, isTail, beq_iff_eq, ← UInt8.toNat_inj, UInt8.reduceToNat]
  split
  · simp only [Bool.and_eq_true, decide_eq_true_eq, UInt8.le_iff_toNat_le, UInt8.lt_iff_toNat_lt,
      UInt8.reduceToNat]
    omega
  split
  · simp only [Bool.and_eq_true, decide_eq_true_eq, UInt8.le_iff_toNat_le, UInt8.lt_iff_toNat_lt,
      UInt8.reduceToNat]
    omega
  · simp only [Bool.and_eq_true, decide_eq_true_eq, UInt8.le_iff_toNat_le, UInt8.lt_iff_toNat_lt,
      UInt8.reduceToNat]
    omega

/-- The bytes of one byte are one character. -/
theorem pieces_one {n : Nat} (h : n < 0x80) (rest : Bytes) :
    pieces (n.toUInt8 :: rest) = .char (Char.ofNat n) :: pieces rest := by
  have hn : n.toUInt8.toNat = n := toNat_toUInt8 (by omega)
  rw [pieces.eq_def]
  dsimp only
  rw [if_pos (by rw [UInt8.lt_iff_toNat_lt, hn]; exact h), hn]

/-- The bytes of two bytes are one character. -/
theorem pieces_two {n : Nat} (low : 0x80 ≤ n) (high : n < 0x800) (rest : Bytes) :
    pieces ((0xC0 + n / 0x40).toUInt8 :: (0x80 + n % 0x40).toUInt8 :: rest) =
      .char (Char.ofNat n) :: pieces rest := by
  have ha : (0xC0 + n / 0x40).toUInt8.toNat = 0xC0 + n / 0x40 := toNat_toUInt8 (by omega)
  obtain ⟨htail, hbits⟩ := tail_of_bits (n := n % 0x40) (by omega)
  have h1 : ¬ (0xC0 + n / 0x40).toUInt8 < 0x80 := by
    simp only [UInt8.lt_iff_toNat_lt, ha, UInt8.reduceToNat]
    omega
  have h2 : 0xC2 ≤ (0xC0 + n / 0x40).toUInt8 && (0xC0 + n / 0x40).toUInt8 < 0xE0 := by
    simp only [Bool.and_eq_true, decide_eq_true_eq, UInt8.le_iff_toNat_le,
      UInt8.lt_iff_toNat_lt, ha, UInt8.reduceToNat]
    omega
  have hvalue : (0xC0 + n / 0x40) % 0x20 * 0x40 + n % 0x40 = n := by omega
  rw [pieces.eq_def]
  dsimp only
  rw [if_neg h1, if_pos h2]
  simp only [htail, if_true, hbits, ha, hvalue]

/-- The bytes of three bytes are one character, unless it is a surrogate. -/
theorem pieces_three {n : Nat} (low : 0x800 ≤ n) (high : n < 0x10000)
    (hn : n < 0xD800 ∨ 0xDFFF < n) (rest : Bytes) :
    pieces ((0xE0 + n / 0x1000).toUInt8 :: (0x80 + n / 0x40 % 0x40).toUInt8 ::
      (0x80 + n % 0x40).toUInt8 :: rest) = .char (Char.ofNat n) :: pieces rest := by
  have ha : (0xE0 + n / 0x1000).toUInt8.toNat = 0xE0 + n / 0x1000 := toNat_toUInt8 (by omega)
  have hb : (0x80 + n / 0x40 % 0x40).toUInt8.toNat = 0x80 + n / 0x40 % 0x40 :=
    toNat_toUInt8 (by omega)
  obtain ⟨htailB, hbitsB⟩ := tail_of_bits (n := n / 0x40 % 0x40) (by omega)
  obtain ⟨htailC, hbitsC⟩ := tail_of_bits (n := n % 0x40) (by omega)
  have h1 : ¬ (0xE0 + n / 0x1000).toUInt8 < 0x80 := by
    simp only [UInt8.lt_iff_toNat_lt, ha, UInt8.reduceToNat]
    omega
  have h2 : ¬ (0xC2 ≤ (0xE0 + n / 0x1000).toUInt8 && (0xE0 + n / 0x1000).toUInt8 < 0xE0) := by
    simp only [Bool.and_eq_true, decide_eq_true_eq, UInt8.le_iff_toNat_le,
      UInt8.lt_iff_toNat_lt, ha, UInt8.reduceToNat]
    omega
  have h3 : 0xE0 ≤ (0xE0 + n / 0x1000).toUInt8 && (0xE0 + n / 0x1000).toUInt8 < 0xF0 := by
    simp only [Bool.and_eq_true, decide_eq_true_eq, UInt8.le_iff_toNat_le,
      UInt8.lt_iff_toNat_lt, ha, UInt8.reduceToNat]
    omega
  have hsecond : isSecondOfThree (0xE0 + n / 0x1000).toUInt8 (0x80 + n / 0x40 % 0x40).toUInt8 =
      true := by
    rw [isSecondOfThree_iff, ha, hb]
    omega
  have hvalue : (0xE0 + n / 0x1000) % 0x10 * 0x1000 + n / 0x40 % 0x40 * 0x40 + n % 0x40 = n := by
    omega
  rw [pieces.eq_def]
  dsimp only
  rw [if_neg h1, if_neg h2, if_pos h3]
  simp only [hsecond, htailC, if_true, hbitsB, hbitsC, ha, hvalue]

/-- The bytes of four bytes are one character. -/
theorem pieces_four {n : Nat} (low : 0x10000 ≤ n) (high : n < 0x110000) (rest : Bytes) :
    pieces ((0xF0 + n / 0x40000).toUInt8 :: (0x80 + n / 0x1000 % 0x40).toUInt8 ::
      (0x80 + n / 0x40 % 0x40).toUInt8 :: (0x80 + n % 0x40).toUInt8 :: rest) =
        .char (Char.ofNat n) :: pieces rest := by
  have ha : (0xF0 + n / 0x40000).toUInt8.toNat = 0xF0 + n / 0x40000 := toNat_toUInt8 (by omega)
  have hb : (0x80 + n / 0x1000 % 0x40).toUInt8.toNat = 0x80 + n / 0x1000 % 0x40 :=
    toNat_toUInt8 (by omega)
  obtain ⟨htailB, hbitsB⟩ := tail_of_bits (n := n / 0x1000 % 0x40) (by omega)
  obtain ⟨htailC, hbitsC⟩ := tail_of_bits (n := n / 0x40 % 0x40) (by omega)
  obtain ⟨htailD, hbitsD⟩ := tail_of_bits (n := n % 0x40) (by omega)
  have h1 : ¬ (0xF0 + n / 0x40000).toUInt8 < 0x80 := by
    simp only [UInt8.lt_iff_toNat_lt, ha, UInt8.reduceToNat]
    omega
  have h2 : ¬ (0xC2 ≤ (0xF0 + n / 0x40000).toUInt8 && (0xF0 + n / 0x40000).toUInt8 < 0xE0) := by
    simp only [Bool.and_eq_true, decide_eq_true_eq, UInt8.le_iff_toNat_le,
      UInt8.lt_iff_toNat_lt, ha, UInt8.reduceToNat]
    omega
  have h3 : ¬ (0xE0 ≤ (0xF0 + n / 0x40000).toUInt8 && (0xF0 + n / 0x40000).toUInt8 < 0xF0) := by
    simp only [Bool.and_eq_true, decide_eq_true_eq, UInt8.le_iff_toNat_le,
      UInt8.lt_iff_toNat_lt, ha, UInt8.reduceToNat]
    omega
  have h4 : 0xF0 ≤ (0xF0 + n / 0x40000).toUInt8 && (0xF0 + n / 0x40000).toUInt8 < 0xF5 := by
    simp only [Bool.and_eq_true, decide_eq_true_eq, UInt8.le_iff_toNat_le,
      UInt8.lt_iff_toNat_lt, ha, UInt8.reduceToNat]
    omega
  have hsecond : isSecondOfFour (0xF0 + n / 0x40000).toUInt8 (0x80 + n / 0x1000 % 0x40).toUInt8 =
      true := by
    rw [isSecondOfFour_iff, ha, hb]
    omega
  have hvalue : (0xF0 + n / 0x40000) % 0x08 * 0x40000 + n / 0x1000 % 0x40 * 0x1000 +
      n / 0x40 % 0x40 * 0x40 + n % 0x40 = n := by omega
  rw [pieces.eq_def]
  dsimp only
  rw [if_neg h1, if_neg h2, if_neg h3, if_pos h4]
  simp only [hsecond, htailC, htailD, if_true, hbitsB, hbitsC, hbitsD, ha, hvalue]

/-- What is written for a character is cut off as that character. -/
theorem pieces_encodeChar (c : Char) (rest : Bytes) :
    pieces (encodeChar c ++ rest) = .char c :: pieces rest := by
  have hc := toNat_range c
  unfold encodeChar
  dsimp only
  split
  · rename_i h
    rw [List.singleton_append, pieces_one h, Char.ofNat_toNat]
  split
  · simp only [List.cons_append, List.nil_append]
    rw [pieces_two (by omega) (by omega), Char.ofNat_toNat]
  split
  · simp only [List.cons_append, List.nil_append]
    rw [pieces_three (by omega) (by omega) (by omega), Char.ofNat_toNat]
  · simp only [List.cons_append, List.nil_append]
    rw [pieces_four (by omega) (by omega), Char.ofNat_toNat]

/-- The bytes of a text are cut into the characters of the text. -/
theorem pieces_encode (text : List Char) : pieces (encode text) = text.map .char := by
  induction text with
  | nil => rfl
  | cons c rest ih => rw [encode_cons, pieces_encodeChar, ih, List.map_cons]

/-- Pieces that all are characters are collected as their text. -/
theorem collect_map_char (offset : Nat) (text : List Char) :
    collect offset (text.map .char) = .ok text := by
  induction text generalizing offset with
  | nil => rfl
  | cons c rest ih =>
    rw [List.map_cons, collect, ih]
    rfl

/-- Decoding gives an encoded text back. -/
@[simp] theorem decode_encode (text : List Char) : decode (encode text) = .ok text := by
  rw [decode, pieces_encode, collect_map_char]

/-- An encoded text is decoded as itself. -/
@[simp] theorem decode?_encode (text : List Char) : decode? (encode text) = some text := by
  rw [decode?, decode_encode]
  rfl

/-- Lossy decoding gives an encoded text back. -/
@[simp] theorem decodeLossy_encode (text : List Char) : decodeLossy (encode text) = text := by
  rw [decodeLossy, pieces_encode, List.map_map]
  exact List.map_id text

/-- A number that is no surrogate is the number of its character. -/
theorem toNat_ofNat {n : Nat} (h : n < 0xD800 ∨ 0xDFFF < n ∧ n < 0x110000) :
    (Char.ofNat n).toNat = n := by
  have hvalid : n.isValidChar := h
  rw [Char.ofNat, dif_pos hvalid]
  rfl

/-- One byte under hexadecimal 80 is the encoding of the character it stands for. -/
theorem encodeChar_one {a : UInt8} (h : a < 0x80) : encodeChar (Char.ofNat a.toNat) = [a] := by
  simp only [UInt8.lt_iff_toNat_lt, UInt8.reduceToNat] at h
  simp only [encodeChar, toNat_ofNat (n := a.toNat) (by omega)]
  rw [if_pos h, toUInt8_toNat]

/-- Two well-formed bytes are the encoding of the character they stand for. -/
theorem encodeChar_two {a b : UInt8} (ha : 0xC2 ≤ a && a < 0xE0) (hb : isTail b = true) :
    encodeChar (Char.ofNat (a.toNat % 0x20 * 0x40 + tailBits b)) = [a, b] := by
  obtain ⟨hbits, hbyte⟩ := bits_of_tail hb
  simp only [Bool.and_eq_true, decide_eq_true_eq, UInt8.le_iff_toNat_le, UInt8.lt_iff_toNat_lt,
    UInt8.reduceToNat] at ha
  generalize hn : a.toNat % 0x20 * 0x40 + tailBits b = n
  have hfirst : 0xC0 + n / 0x40 = a.toNat := by omega
  have hsecond : n % 0x40 = tailBits b := by omega
  simp only [encodeChar, toNat_ofNat (n := n) (by omega)]
  rw [if_neg (by omega), if_pos (by omega), hfirst, hsecond, hbyte, toUInt8_toNat]

/-- Three well-formed bytes are the encoding of the character they stand for. -/
theorem encodeChar_three {a b c : UInt8} (ha : 0xE0 ≤ a && a < 0xF0)
    (hb : isSecondOfThree a b = true) (hc : isTail c = true) :
    encodeChar (Char.ofNat (a.toNat % 0x10 * 0x1000 + tailBits b * 0x40 + tailBits c)) =
      [a, b, c] := by
  obtain ⟨hbits, hbyte⟩ := bits_of_tail hc
  simp only [Bool.and_eq_true, decide_eq_true_eq, UInt8.le_iff_toNat_le, UInt8.lt_iff_toNat_lt,
    UInt8.reduceToNat] at ha
  rw [isSecondOfThree_iff] at hb
  have hvalue : tailBits b = b.toNat - 0x80 := by
    rw [tailBits]
    omega
  generalize hn : a.toNat % 0x10 * 0x1000 + tailBits b * 0x40 + tailBits c = n
  have hfirst : 0xE0 + n / 0x1000 = a.toNat := by omega
  have hsecond : 0x80 + n / 0x40 % 0x40 = b.toNat := by omega
  have hthird : n % 0x40 = tailBits c := by omega
  simp only [encodeChar, toNat_ofNat (n := n) (by omega)]
  rw [if_neg (by omega), if_neg (by omega), if_pos (by omega), hfirst, hsecond, hthird, hbyte,
    toUInt8_toNat, toUInt8_toNat]

/-- Four well-formed bytes are the encoding of the character they stand for. -/
theorem encodeChar_four {a b c d : UInt8} (ha : 0xF0 ≤ a && a < 0xF5)
    (hb : isSecondOfFour a b = true) (hc : isTail c = true) (hd : isTail d = true) :
    encodeChar (Char.ofNat (a.toNat % 0x08 * 0x40000 + tailBits b * 0x1000 + tailBits c * 0x40 +
      tailBits d)) = [a, b, c, d] := by
  obtain ⟨hbitsC, hbyteC⟩ := bits_of_tail hc
  obtain ⟨hbitsD, hbyteD⟩ := bits_of_tail hd
  simp only [Bool.and_eq_true, decide_eq_true_eq, UInt8.le_iff_toNat_le, UInt8.lt_iff_toNat_lt,
    UInt8.reduceToNat] at ha
  rw [isSecondOfFour_iff] at hb
  have hvalue : tailBits b = b.toNat - 0x80 := by
    rw [tailBits]
    omega
  generalize hn : a.toNat % 0x08 * 0x40000 + tailBits b * 0x1000 + tailBits c * 0x40 +
    tailBits d = n
  have hfirst : 0xF0 + n / 0x40000 = a.toNat := by omega
  have hsecond : 0x80 + n / 0x1000 % 0x40 = b.toNat := by omega
  have hthird : n / 0x40 % 0x40 = tailBits c := by omega
  have hfourth : n % 0x40 = tailBits d := by omega
  simp only [encodeChar, toNat_ofNat (n := n) (by omega)]
  rw [if_neg (by omega), if_neg (by omega), if_neg (by omega), hfirst, hsecond, hthird, hfourth,
    hbyteC, hbyteD, toUInt8_toNat, toUInt8_toNat]

/-- The characters that are collected start with the first piece. -/
theorem collect_char_eq_ok {offset : Nat} {c : Char} {rest : List Piece} {text : List Char}
    (h : collect offset (.char c :: rest) = .ok text) :
    ∃ tail offset', collect offset' rest = .ok tail ∧ text = c :: tail := by
  rw [collect] at h
  cases hr : collect (offset + (encodeChar c).length) rest with
  | error defect => simp [hr, Except.map] at h
  | ok tail =>
    simp only [hr, Except.map, Except.ok.injEq] at h
    exact ⟨tail, _, hr, h.symm⟩

/-- Bytes that start with the bytes of a character spell a text that starts with it. -/
theorem encode_of_collect_char {offset : Nat} {c : Char} {rest start : Bytes} {text : List Char}
    (hc : encodeChar c = start) (h : collect offset (.char c :: pieces rest) = .ok text)
    (ih : ∀ {offset : Nat} {text : List Char}, collect offset (pieces rest) = .ok text →
      encode text = rest) : encode text = start ++ rest := by
  obtain ⟨tail, offset', ht, rfl⟩ := collect_char_eq_ok h
  rw [encode_cons, hc, ih ht]

/-- The text that is collected from the pieces of some bytes has those bytes as its encoding. -/
theorem encode_of_collect_pieces {bytes : Bytes} {offset : Nat} {text : List Char}
    (h : collect offset (pieces bytes) = .ok text) : encode text = bytes := by
  fun_induction pieces bytes generalizing offset text with
  | case1 =>
    cases h
    rfl
  | case2 a rest ha ih => exact encode_of_collect_char (encodeChar_one ha) h ih
  | case4 a ha1 ha2 b rest hb ih => exact encode_of_collect_char (encodeChar_two ha2 hb) h ih
  | case8 a ha1 ha2 ha3 b hb c rest hc ih =>
    exact encode_of_collect_char (encodeChar_three ha3 hb hc) h ih
  | case14 a ha1 ha2 ha3 ha4 b hb c hc d rest hd ih =>
    exact encode_of_collect_char (encodeChar_four ha4 hb hc hd) h ih
  | _ => cases h

/-- Decoding accepts the bytes of texts and nothing else. -/
theorem decode_eq_ok_iff {bytes : Bytes} {text : List Char} :
    decode bytes = .ok text ↔ bytes = encode text := by
  constructor
  · exact fun h => (encode_of_collect_pieces h).symm
  · rintro rfl
    exact decode_encode text

/-! ## Lossy decoding -/

/-- Where pieces do not spell a text, one of them is shown as the replacement character. -/
theorem replacement_mem_of_collect {offset : Nat} {list : List Piece} {defect : Defect}
    (h : collect offset list = .error defect) : replacement ∈ list.map Piece.shown := by
  induction list generalizing offset defect with
  | nil => cases h
  | cons piece rest ih =>
    cases piece with
    | char c =>
      rw [collect] at h
      cases hrest : collect (offset + (encodeChar c).length) rest with
      | ok tail =>
        rw [hrest] at h
        cases h
      | error inner => exact List.mem_cons_of_mem _ (ih hrest)
    | invalid length => exact List.mem_cons_self
    | incomplete => exact List.mem_cons_self

/-- Bytes are shown as a text if they spell it, or if they spell none and the text stands for them
with replacement characters. -/
theorem decodeLossy_eq_iff {bytes : Bytes} {text : List Char} : decodeLossy bytes = text ↔
    bytes = encode text ∨
      decode? bytes = none ∧ decodeLossy bytes = text ∧ replacement ∈ text := by
  constructor
  · intro h
    cases hdecode : decode bytes with
    | ok spelled =>
      obtain rfl := decode_eq_ok_iff.mp hdecode
      rw [decodeLossy_encode] at h
      exact .inl (congrArg encode h)
    | error defect =>
      have hmem := replacement_mem_of_collect hdecode
      rw [← decodeLossy, h] at hmem
      exact .inr ⟨by rw [decode?, hdecode]; rfl, h, hmem⟩
  · rintro (rfl | ⟨-, h, -⟩)
    · exact decodeLossy_encode text
    · exact h

end CallbackGateway.Text.Utf8
