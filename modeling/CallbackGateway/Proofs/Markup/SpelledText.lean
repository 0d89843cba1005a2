import CallbackGateway.Markup.Reference
import CallbackGateway.Proofs.Text.Decimal

/-!
# Characters that are spelled in other ways

A character of a text is written as it is, unless it starts a tag or a reference, or by one of
the five names, or by its number in decimal or hexadecimal digits. Here all of these are read
back as the character.

Leading zeros count as digits: a number has at most seven decimal or six hexadecimal digits,
which is enough for every character. Zero is the number of no character that is read.
-/

namespace CallbackGateway

/-! ## Numerals -/

namespace Text

/-- Zeros in front do not count. -/
theorem digitsFrom?_zeros (base k : Nat) (hbase : 0 < base) (rest : List Char) :
    digitsFrom? base 0 (List.replicate k '0' ++ rest) = digitsFrom? base 0 rest := by
  have hzero : digitIn? base '0' = some 0 := by
    rw [digitIn?, if_pos (by decide), Option.filter_some, if_pos (by simpa using hbase)]
    rfl
  induction k with
  | zero => rfl
  | succ k ih =>
    rw [List.replicate_succ, List.cons_append, digitsFrom?, hzero, Option.bind_some, Nat.zero_mul,
      Nat.zero_add, ih]

/-- The small letter of a capital one comes 32 places later. -/
theorem toNat_toLower {c : Char} (h : c.val ≥ 'A'.val ∧ c.val ≤ 'Z'.val) :
    c.toLower.toNat = c.toNat + 32 := by
  have hhigh : c.val.toNat ≤ 90 := h.2
  have hstep : ('a'.val - 'A'.val).toNat = 32 := rfl
  have hsum : (c.val + ('a'.val - 'A'.val)).toNat = c.val.toNat + 32 := by
    rw [UInt32.toNat_add, hstep]
    exact Nat.mod_eq_of_lt (by omega)
  have hlower : c.toLower = _ := dif_pos h
  rw [hlower]
  exact hsum

/-- A digit counts the same in either case. -/
theorem digitIn?_toLower (base : Nat) (c : Char) : digitIn? base c.toLower = digitIn? base c := by
  by_cases hupper : c.val ≥ 'A'.val ∧ c.val ≤ 'Z'.val
  · have hshift := toNat_toLower hupper
    have hrange : 65 ≤ c.toNat ∧ c.toNat ≤ 90 := hupper
    have hle (d e : Char) : d ≤ e ↔ d.toNat ≤ e.toNat := Iff.rfl
    have hmarks : '0'.toNat = 48 ∧ '9'.toNat = 57 ∧ 'a'.toNat = 97 ∧ 'z'.toNat = 122 ∧
        'A'.toNat = 65 ∧ 'Z'.toNat = 90 := by decide
    obtain ⟨h0, h9, ha, hz, hA, hZ⟩ := hmarks
    have hvalue : c.toNat + 32 - 87 = c.toNat - 55 := by omega
    unfold digitIn?
    simp only [hle, hshift, h0, h9, ha, hz, hA, hZ, Bool.and_eq_true, decide_eq_true_eq]
    rw [if_neg (by omega), if_pos (by omega), if_neg (by omega), if_neg (by omega),
      if_pos (by omega), hvalue]
  · have hlower : c.toLower = c := dif_neg hupper
    rw [hlower]

/-- The case of letters does not count. -/
theorem digitsFrom?_toLower (base value : Nat) (text : List Char) :
    digitsFrom? base value (text.map Char.toLower) = digitsFrom? base value text := by
  induction text generalizing value with
  | nil => rfl
  | cons c text ih =>
    rw [List.map_cons, digitsFrom?, digitsFrom?, digitIn?_toLower]
    exact congrArg (Option.bind _) (funext fun d => ih _)

/-- What is read as a number holds digits only. -/
theorem digitsFrom?_notMem {base value n : Nat} {text : List Char} {c : Char}
    (h : digitsFrom? base value text = some n) (hc : digitIn? base c = none) : c ∉ text := by
  induction text generalizing value with
  | nil => simp
  | cons d text ih =>
    rw [digitsFrom?, Option.bind_eq_some_iff] at h
    obtain ⟨digit, hdigit, hrest⟩ := h
    rw [List.mem_cons, not_or]
    refine ⟨?_, ih hrest⟩
    rintro rfl
    rw [hc] at hdigit
    cases hdigit

/-- A numeral of a number in a base: its digits in either case, with zeros in front. -/
structure IsNumeral (base n : Nat) (digits : List Char) : Prop where
  intro ::
  exists_zeros : ∃ k, digits.map Char.toLower = List.replicate k '0' ++ Nat.toDigits base n

namespace IsNumeral

variable {base n : Nat} {digits : List Char}

/-- A numeral is read as its number. -/
theorem digitsFrom? (h : IsNumeral base n digits) (hlow : 1 < base) (hhigh : base ≤ 16) :
    Text.digitsFrom? base 0 digits = some n := by
  obtain ⟨k, hk⟩ := h
  rw [← digitsFrom?_toLower, hk, digitsFrom?_zeros base k (by omega),
    digitsFrom?_toDigits hlow hhigh]

/-- A numeral has a digit. -/
theorem exists_cons (h : IsNumeral base n digits) : ∃ c rest, digits = c :: rest := by
  obtain ⟨k, hk⟩ := h
  cases digits with
  | nil => simp at hk
  | cons c rest => exact ⟨c, rest, rfl⟩

/-- A numeral is a natural number. -/
theorem natural? (h : IsNumeral base n digits) (hlow : 1 < base) (hhigh : base ≤ 16) :
    Text.natural? base digits = some n := by
  have hdigits := h.digitsFrom? hlow hhigh
  obtain ⟨c, rest, rfl⟩ := h.exists_cons
  exact hdigits

/-- A numeral holds nothing but digits. -/
theorem notMem (h : IsNumeral base n digits) (hlow : 1 < base) (hhigh : base ≤ 16) {c : Char}
    (hc : digitIn? base c = none) : c ∉ digits := digitsFrom?_notMem (h.digitsFrom? hlow hhigh) hc

end IsNumeral

end Text

namespace Markup

open Text

/-! ## Characters -/

/-- The five names. -/
def names : List (Char × String) :=
  [('<', "lt"), ('>', "gt"), ('&', "amp"), ('\'', "apos"), ('"', "quot")]

/-- Which texts are written for a character. -/
inductive CharSpelled : Char → List Char → Prop
  | raw {c : Char} (h : c ≠ '<' ∧ c ≠ '&') : CharSpelled c [c]
  | name {c : Char} {name : String} (h : (c, name) ∈ names) :
      CharSpelled c ('&' :: (name.toList ++ [';']))
  | decimal {c : Char} {digits : List Char} (hzero : c.toNat ≠ 0)
      (hdigits : IsNumeral 10 c.toNat digits) (hlength : digits.length ≤ 7) :
      CharSpelled c ('&' :: '#' :: (digits ++ [';']))
  | hexadecimal {c : Char} {digits : List Char} (hzero : c.toNat ≠ 0)
      (hdigits : IsNumeral 16 c.toNat digits) (hlength : digits.length ≤ 6) :
      CharSpelled c ('&' :: '#' :: 'x' :: (digits ++ [';']))

/-- The number of a character is its number, unless it is zero. -/
theorem numbered?_toNat {c : Char} (h : c.toNat ≠ 0) : numbered? c.toNat = some c := by
  rw [numbered?, if_pos ⟨h, c.valid⟩, Char.ofNat_toNat]

/-- A reference is read up to its semicolon. -/
theorem unescapeFrom_reference {body : List Char} (h : '&' ∉ body ∧ ';' ∉ body)
    (begun rest : List Char) :
    unescapeFrom (some begun) (body ++ ';' :: rest) =
      (reference? (begun.reverse ++ body)).bind fun c =>
        (unescapeFrom none rest).map (c :: ·) := by
  induction body generalizing begun with
  | nil => simp [unescapeFrom]
  | cons d body ih =>
    obtain ⟨hamp, hsemi⟩ := h
    rw [List.mem_cons, not_or] at hamp hsemi
    rw [List.cons_append, unescapeFrom, if_neg (by simpa using Ne.symm hamp.1),
      if_neg (by simpa using Ne.symm hsemi.1), ih ⟨hamp.2, hsemi.2⟩, List.reverse_cons,
      List.append_assoc, List.singleton_append]

/-- A decimal reference stands for the character of its number. -/
theorem reference?_decimal {n : Nat} {digits : List Char} (h : IsNumeral 10 n digits)
    (hlength : digits.length ≤ 7) : reference? ('#' :: digits) = numbered? n := by
  have hvalue := h.natural? (by decide) (by decide)
  have hx : 'x' ∉ digits := h.notMem (by decide) (by decide) (by decide)
  obtain ⟨c, rest, rfl⟩ := h.exists_cons
  have hc : c ≠ 'x' := fun hc => hx (hc ▸ List.mem_cons_self)
  rw [reference?, if_neg (by omega), hvalue, Option.bind_some]
  rintro digits hdigits
  exact hc (List.cons.inj hdigits).1

/-- A hexadecimal reference stands for the character of its number. -/
theorem reference?_hexadecimal {n : Nat} {digits : List Char} (h : IsNumeral 16 n digits)
    (hlength : digits.length ≤ 6) : reference? ('#' :: 'x' :: digits) = numbered? n := by
  rw [reference?, if_neg (by omega), h.natural? (by decide) (by decide), Option.bind_some]

/-- What is written for a character is read as the character. -/
theorem CharSpelled.unescapeFrom {c : Char} {written : List Char} (h : CharSpelled c written)
    (rest : List Char) :
    unescapeFrom none (written ++ rest) = (Markup.unescapeFrom none rest).map (c :: ·) := by
  -- A reference is opened by its first character and closed by its semicolon.
  have reference {body : List Char} (hbody : '&' ∉ body ∧ ';' ∉ body)
      (hc : reference? body = some c) :
      Markup.unescapeFrom none ('&' :: (body ++ [';']) ++ rest) =
        (Markup.unescapeFrom none rest).map (c :: ·) := by
    have hopened : Markup.unescapeFrom none ('&' :: (body ++ [';']) ++ rest) =
        Markup.unescapeFrom (some []) (body ++ ';' :: rest) := by
      rw [List.cons_append, List.append_assoc]
      rfl
    rw [hopened, unescapeFrom_reference hbody, List.reverse_nil, List.nil_append, hc,
      Option.bind_some]
  cases h with
  | raw h => simp [Markup.unescapeFrom, h.2]
  | name h =>
    simp only [names, List.mem_cons, Prod.mk.injEq, List.not_mem_nil, or_false] at h
    rcases h with ⟨rfl, rfl⟩ | ⟨rfl, rfl⟩ | ⟨rfl, rfl⟩ | ⟨rfl, rfl⟩ | ⟨rfl, rfl⟩ <;>
      exact reference (by decide) (by decide)
  | @decimal digits hzero hdigits hlength =>
    have hamp : '&' ∉ digits := hdigits.notMem (by decide) (by decide) (by decide)
    have hsemi : ';' ∉ digits := hdigits.notMem (by decide) (by decide) (by decide)
    have hbody : '&' ∉ '#' :: digits ∧ ';' ∉ '#' :: digits := by simp [hamp, hsemi]
    exact reference hbody (by rw [reference?_decimal hdigits hlength, numbered?_toNat hzero])
  | @hexadecimal digits hzero hdigits hlength =>
    have hamp : '&' ∉ digits := hdigits.notMem (by decide) (by decide) (by decide)
    have hsemi : ';' ∉ digits := hdigits.notMem (by decide) (by decide) (by decide)
    have hbody : '&' ∉ '#' :: 'x' :: digits ∧ ';' ∉ '#' :: 'x' :: digits := by
      simp [hamp, hsemi]
    exact reference hbody (by rw [reference?_hexadecimal hdigits hlength, numbered?_toNat hzero])

/-- A spelled character holds no bracket. -/
theorem CharSpelled.notMem {c : Char} {written : List Char} (h : CharSpelled c written) :
    '<' ∉ written := by
  cases h with
  | raw h => simpa using Ne.symm h.1
  | name h =>
    have hnames : ∀ entry ∈ names, '<' ∉ entry.2.toList := by decide
    simpa using hnames _ h
  | decimal _ hdigits =>
    have hbracket := hdigits.notMem (c := '<') (by decide) (by decide) (by decide)
    simpa using hbracket
  | hexadecimal _ hdigits =>
    have hbracket := hdigits.notMem (c := '<') (by decide) (by decide) (by decide)
    simpa using hbracket

/-- A spelled character is not empty. -/
theorem CharSpelled.ne_nil {c : Char} {written : List Char} (h : CharSpelled c written) :
    written ≠ [] := by
  cases h <;> simp

/-! ## Texts -/

/-- Which runs are written for a text, character by character. -/
inductive RunSpelled : List Char → List Char → Prop
  | nil : RunSpelled [] []
  | cons {c : Char} {written text run : List Char} (h : CharSpelled c written) :
      RunSpelled text run → RunSpelled (c :: text) (written ++ run)

/-- A spelled run is read as its text. -/
theorem RunSpelled.unescape {text run : List Char} (h : RunSpelled text run) :
    unescape run = some text := by
  induction h with
  | nil => rfl
  | cons hc _ ih =>
    rw [Markup.unescape] at ih ⊢
    rw [hc.unescapeFrom, ih, Option.map_some]

/-- A spelled run holds no bracket. -/
theorem RunSpelled.notMem {text run : List Char} (h : RunSpelled text run) : '<' ∉ run := by
  induction h with
  | nil => simp
  | cons hc _ ih => exact List.not_mem_append hc.notMem ih

end Markup

end CallbackGateway
