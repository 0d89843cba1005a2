import CallbackGateway.Json.Printer
import CallbackGateway.Proofs.Json.Lexeme
import CallbackGateway.Proofs.Text.Utf8

/-!
# Strings read back

A text that is written as a JSON string is read as the parts that were written for its
characters, and these parts stand for the text.
-/

namespace CallbackGateway.Json

open Text

/-- Whether a character is written as a numeric escape. -/
def isCoded (c : Char) : Bool :=
  c.toNat < 32 && !(c == '\x08' || c == '\x0c' || c == '\n' || c == '\r' || c == '\t')

/-- The parts that are written for a character. -/
def charParts (c : Char) : Quoted :=
  if isCoded c then [.code c.toNat] else (Utf8.encodeChar c).map .raw

/-- The parts that are written for a text. -/
def textParts (text : List Char) : Quoted := text.flatMap charParts

/-- The bytes of a character are its code, or none of them is ASCII. -/
theorem mem_encodeChar {c : Char} {b : UInt8} (h : b ∈ Utf8.encodeChar c) :
    (c.toNat < 0x80 ∧ b.toNat = c.toNat) ∨ 0x80 ≤ b.toNat := by
  have hrange := Utf8.toNat_range c
  unfold Utf8.encodeChar at h
  dsimp only at h
  split at h
  · rename_i hlow
    rw [List.mem_singleton.mp h, Utf8.toNat_toUInt8 (by omega)]
    exact .inl ⟨hlow, rfl⟩
  · right
    split at h
    · simp only [List.mem_cons, List.not_mem_nil, or_false] at h
      rcases h with rfl | rfl <;> rw [Utf8.toNat_toUInt8 (by omega)] <;> omega
    · split at h
      · simp only [List.mem_cons, List.not_mem_nil, or_false] at h
        rcases h with rfl | rfl | rfl <;> rw [Utf8.toNat_toUInt8 (by omega)] <;> omega
      · simp only [List.mem_cons, List.not_mem_nil, or_false] at h
        rcases h with rfl | rfl | rfl | rfl <;> rw [Utf8.toNat_toUInt8 (by omega)] <;> omega

/-- Bytes that may stand in a string as they are. -/
theorem spelled_raw {bytes : Bytes} (h : ∀ b ∈ bytes, b ≠ byte '"' ∧ b ≠ byte '\\' ∧ ¬ b < byte ' ')
    {quoted : Quoted} {written : Bytes} (hrest : QuotedSpelled quoted written) :
    QuotedSpelled (bytes.map .raw ++ quoted) (bytes ++ written) := by
  induction bytes with
  | nil => exact hrest
  | cons b bytes ih =>
    obtain ⟨hquote, hslash, hcontrol⟩ := h b List.mem_cons_self
    exact .raw hquote hslash hcontrol (ih fun c hc => h c (List.mem_cons_of_mem _ hc))

/-- A control character is written as four digits that spell it. -/
theorem encode_encodeByte : ∀ n < 32,
    Utf8.encode (Hex.encodeByte (UInt8.ofNat n)) =
      [byte (Hex.digit (n / 16)), byte (Hex.digit (n % 16))] ∧
    hexCode? (byte '0') (byte '0') (byte (Hex.digit (n / 16))) (byte (Hex.digit (n % 16))) =
      some n := by decide +kernel

/-- The characters with an escape of their own have one byte, and it is not coded. -/
theorem charParts_of_escaped {c : Char} {e b : UInt8} (hcoded : isCoded c = false)
    (hbyte : Utf8.encodeChar c = [b]) (hletter : escaped? e = some b) (hcode : e ≠ byte 'u')
    {quoted : Quoted} {written : Bytes} (h : QuotedSpelled quoted written) :
    QuotedSpelled (charParts c ++ quoted) (byte '\\' :: e :: written) := by
  rw [charParts, hcoded, if_neg (by decide), hbyte]
  exact .letter hcode hletter h

/-- What is written for a character spells its parts. -/
theorem spelled_charParts (c : Char) {quoted : Quoted} {written : Bytes}
    (h : QuotedSpelled quoted written) :
    QuotedSpelled (charParts c ++ quoted) (Utf8.encode (writeChar c) ++ written) := by
  unfold writeChar
  iterate 7
    split
    · rename_i hc
      rw [beq_iff_eq.mp hc]
      exact charParts_of_escaped (by decide) rfl (by decide) (by decide) h
  rename_i hquote hslash hback hform hline hreturn htab
  have hcoded : isCoded c = decide (c.toNat < 32) := by
    simp [isCoded, hback, hform, hline, hreturn, htab]
  split
  · rename_i hcontrol
    obtain ⟨hwritten, hspelled⟩ := encode_encodeByte c.toNat hcontrol
    have hopen :
        Utf8.encode ['\\', 'u', '0', '0'] = [byte '\\', byte 'u', byte '0', byte '0'] := rfl
    rw [charParts, hcoded, if_pos (by simpa using hcontrol), Utf8.encode_append, hwritten, hopen]
    exact .code hspelled h
  · rename_i hcontrol
    have hone : Utf8.encode [c] = Utf8.encodeChar c := by simp
    rw [charParts, hcoded, if_neg (by simpa using hcontrol), hone]
    refine spelled_raw (fun b hb => ?_) h
    have hbyte (d : Char) (hd : d.toNat < 0x80) (hc : c ≠ d) : b ≠ byte d := by
      rintro rfl
      have hd' : (byte d).toNat = d.toNat := Utf8.toNat_toUInt8 (by omega)
      rcases mem_encodeChar hb with ⟨-, heq⟩ | hhigh
      · exact hc (Char.toNat_inj.mp (by rw [← heq, hd']))
      · omega
    refine ⟨hbyte '"' (by decide) (by simpa using hquote),
      hbyte '\\' (by decide) (by simpa using hslash), ?_⟩
    rw [UInt8.lt_iff_toNat_lt]
    have hspace : (byte ' ').toNat = 32 := rfl
    rcases mem_encodeChar hb with ⟨-, heq⟩ | hhigh <;> omega

/-- What is written for a text spells its parts. -/
theorem spelled_textParts (text : List Char) :
    QuotedSpelled (textParts text) (Utf8.encode (text.flatMap writeChar)) := by
  induction text with
  | nil => exact .nil
  | cons c rest ih =>
    rw [List.flatMap_cons, Utf8.encode_append]
    exact spelled_charParts c ih

/-! ## The parts stand for the text -/

/-- Bytes that stand for themselves are in front of the others. -/
theorem quotedBytes?_raw (bytes : Bytes) (rest : Quoted) :
    quotedBytes? (bytes.map .raw ++ rest) = (quotedBytes? rest).map (bytes ++ ·) := by
  induction bytes with
  | nil => simp
  | cons b bytes ih =>
    rw [List.map_cons, List.cons_append, quotedBytes?, ih, Option.map_map]
    rfl

/-- The parts of a character stand for its bytes. -/
theorem quotedBytes?_charParts (c : Char) (rest : Quoted) :
    quotedBytes? (charParts c ++ rest) = (quotedBytes? rest).map (Utf8.encodeChar c ++ ·) := by
  unfold charParts
  split
  · rename_i hcoded
    have hcontrol : c.toNat < 32 := by
      simp only [isCoded, Bool.and_eq_true, decide_eq_true_eq] at hcoded
      exact hcoded.1
    have hhigh : ¬ isHighHalf c.toNat = true := by
      simp [isHighHalf]
      omega
    have hlow : ¬ isLowHalf c.toNat = true := by
      simp [isLowHalf]
      omega
    conv => lhs; unfold quotedBytes?
    rw [List.singleton_append]
    dsimp only
    rw [if_neg hhigh, if_neg hlow, Char.ofNat_toNat]
  · exact quotedBytes?_raw _ rest

/-- The parts of a text stand for it. -/
@[simp] theorem quotedText?_textParts (text : List Char) :
    quotedText? (textParts text) = some (String.ofList text) := by
  have hbytes : quotedBytes? (textParts text) = some (Utf8.encode text) := by
    induction text with
    | nil => rfl
    | cons c rest ih =>
      rw [textParts, List.flatMap_cons, quotedBytes?_charParts, ← textParts, ih]
      rfl
  rw [quotedText?, hbytes, Option.bind_some, Utf8.decode?_encode]
  rfl

end CallbackGateway.Json
