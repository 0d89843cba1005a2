import CallbackGateway.Json.Token

/-!
# The lexical grammar of JSON

What each token may look like in a document: punctuation and words are fixed, a string stands
between quotation marks, and a number is a sign, digits before the point, digits after it and an
exponent, most of which may be absent.

Whatever the reader takes for a token is spelled as this grammar says.
-/

namespace CallbackGateway.Json

/-! ## Strings -/

/-- Which bytes spell the parts of a string. -/
inductive QuotedSpelled : Quoted → Bytes → Prop
  | nil : QuotedSpelled [] []
  | raw {b : UInt8} {quoted : Quoted} {written : Bytes} (hquote : b ≠ byte '"')
      (hslash : b ≠ byte '\\') (hcontrol : ¬ b < byte ' ') :
      QuotedSpelled quoted written → QuotedSpelled (.raw b :: quoted) (b :: written)
  | letter {e b : UInt8} {quoted : Quoted} {written : Bytes} (hcode : e ≠ byte 'u')
      (hletter : escaped? e = some b) :
      QuotedSpelled quoted written → QuotedSpelled (.raw b :: quoted) (byte '\\' :: e :: written)
  | code {w x y z : UInt8} {n : Nat} {quoted : Quoted} {written : Bytes}
      (hcode : hexCode? w x y z = some n) : QuotedSpelled quoted written →
      QuotedSpelled (.code n :: quoted) (byte '\\' :: byte 'u' :: w :: x :: y :: z :: written)

/-- A quote ends a string. -/
theorem quoted?_quote (rest : Bytes) : quoted? (byte '"' :: rest) = some ([], rest) := by
  unfold quoted?
  rw [if_pos (by decide)]

/-- A byte that stands for itself is the first part of a string. -/
theorem quoted?_raw {b : UInt8} (hquote : b ≠ byte '"') (hslash : b ≠ byte '\\')
    (hcontrol : ¬ b < byte ' ') (rest : Bytes) :
    quoted? (b :: rest) = consPart (.raw b) (quoted? rest) := by
  conv => lhs; unfold quoted?
  rw [if_neg (by simpa using hquote), if_neg (by simpa using hslash), if_neg hcontrol]

/-- An escape of a letter is the first part of a string. -/
theorem quoted?_letter {e b : UInt8} (hcode : e ≠ byte 'u') (hletter : escaped? e = some b)
    (rest : Bytes) : quoted? (byte '\\' :: e :: rest) = consPart (.raw b) (quoted? rest) := by
  conv => lhs; unfold quoted?
  rw [if_neg (by decide), if_pos (by decide)]
  dsimp only
  rw [if_neg (by simpa using hcode), hletter, Option.bind_some]

/-- An escape of a code is the first part of a string. -/
theorem quoted?_code {w x y z : UInt8} {n : Nat} (hcode : hexCode? w x y z = some n)
    (rest : Bytes) : quoted? (byte '\\' :: byte 'u' :: w :: x :: y :: z :: rest) =
      consPart (.code n) (quoted? rest) := by
  conv => lhs; unfold quoted?
  rw [if_neg (by decide), if_pos (by decide)]
  dsimp only
  rw [if_pos (by decide), hcode, Option.bind_some]

/-- A string is read up to its closing quotation mark. -/
theorem quoted?_of_spelled {quoted : Quoted} {written : Bytes} (h : QuotedSpelled quoted written)
    (rest : Bytes) : quoted? (written ++ byte '"' :: rest) = some (quoted, rest) := by
  induction h with
  | nil => rw [List.nil_append, quoted?_quote]
  | raw hquote hslash hcontrol _ ih =>
    rw [List.cons_append, quoted?_raw hquote hslash hcontrol, ih]
    rfl
  | letter hcode hletter _ ih =>
    rw [List.cons_append, List.cons_append, quoted?_letter hcode hletter, ih]
    rfl
  | code hcode _ ih =>
    simp only [List.cons_append]
    rw [quoted?_code hcode, ih]
    rfl

/-- What is read as a string is spelled by the bytes in front of the quotation mark. -/
theorem spelled_of_quoted? {bytes after : Bytes} {quoted : Quoted}
    (h : quoted? bytes = some (quoted, after)) :
    ∃ written, bytes = written ++ byte '"' :: after ∧ QuotedSpelled quoted written := by
  fun_induction quoted? bytes generalizing quoted with
  | case1 => simp at h
  | case2 b rest hb =>
    simp only [Option.some.injEq, Prod.mk.injEq] at h
    obtain ⟨rfl, rfl⟩ := h
    exact ⟨[], by rw [beq_iff_eq.mp hb, List.nil_append], .nil⟩
  | case3 => simp at h
  | case4 b hb hs e he w x y z afterCode ih =>
    obtain ⟨n, hcode, hn⟩ := Option.bind_eq_some_iff.mp h
    obtain ⟨tail, htail, rfl⟩ := consPart_eq_some hn
    obtain ⟨written, rfl, hspelled⟩ := ih htail
    rw [beq_iff_eq.mp hs, beq_iff_eq.mp he]
    exact ⟨_, rfl, .code hcode hspelled⟩
  | case5 => simp at h
  | case6 b hb hs e afterLetter he ih =>
    obtain ⟨n, hletter, hn⟩ := Option.bind_eq_some_iff.mp h
    obtain ⟨tail, htail, rfl⟩ := consPart_eq_some hn
    obtain ⟨written, rfl, hspelled⟩ := ih htail
    rw [beq_iff_eq.mp hs]
    exact ⟨_, rfl, .letter (by simpa using he) hletter hspelled⟩
  | case7 => simp at h
  | case8 b rest hb hs hc ih =>
    obtain ⟨tail, htail, rfl⟩ := consPart_eq_some h
    obtain ⟨written, rfl, hspelled⟩ := ih htail
    exact ⟨b :: written, rfl, .raw (by simpa using hb) (by simpa using hs) hc hspelled⟩

/-! ## Numbers -/

/-- Whether bytes are one digit or more. -/
def AreDigits (bytes : Bytes) : Prop := bytes ≠ [] ∧ ∀ b ∈ bytes, isDigit b = true

/-- The digits that bytes spell. -/
def digitsOf (bytes : Bytes) : List Nat := bytes.map fun b => b.toNat - 48

/-- Which bytes spell the digits before the point: a zero in front stands alone. -/
inductive WholeSpelled : List Nat → Bytes → Prop
  | zero : WholeSpelled [0] [byte '0']
  | digits {bytes : Bytes} (hdigits : AreDigits bytes) (hzero : bytes.head? ≠ some (byte '0')) :
      WholeSpelled (digitsOf bytes) bytes

/-- Which bytes spell the digits after the point. -/
inductive FractionSpelled : List Nat → Bytes → Prop
  | none : FractionSpelled [] []
  | digits {bytes : Bytes} (hdigits : AreDigits bytes) :
      FractionSpelled (digitsOf bytes) (byte '.' :: bytes)

/-- Which bytes spell the sign of an exponent. -/
inductive SignSpelled : Bool → Bytes → Prop
  | none : SignSpelled false []
  | plus : SignSpelled false [byte '+']
  | minus : SignSpelled true [byte '-']

/-- Which bytes spell an exponent. -/
inductive ExponentSpelled : Option Int → Bytes → Prop
  | none : ExponentSpelled none []
  | some {letter : UInt8} {negative : Bool} {sign bytes : Bytes}
      (hletter : letter = byte 'e' ∨ letter = byte 'E') (hsign : SignSpelled negative sign)
      (hdigits : AreDigits bytes) :
      ExponentSpelled (some (if negative then -(digitsValue (digitsOf bytes) : Int)
        else digitsValue (digitsOf bytes))) (letter :: (sign ++ bytes))

/-- Which bytes spell a number after its sign. -/
def NumeralSpelled (numeral : Numeral) (written : Bytes) : Prop :=
  ∃ whole fraction exponent, written = whole ++ (fraction ++ exponent) ∧
    WholeSpelled numeral.whole whole ∧ FractionSpelled numeral.fraction fraction ∧
    ExponentSpelled numeral.exponent exponent

/-- The digits at the start of bytes are split off. -/
theorem leadingDigits_split (bytes : Bytes) : ∃ found, bytes = found ++ afterDigits bytes ∧
    leadingDigits bytes = digitsOf found ∧ ∀ b ∈ found, isDigit b = true := by
  refine ⟨bytes.takeWhile isDigit, ?_, rfl, ?_⟩
  · rw [afterDigits, List.takeWhile_append_dropWhile]
  · intro b hb
    exact List.all_eq_true.mp (List.all_takeWhile (p := isDigit) (l := bytes)) b hb

/-- The whole part that is read stands in front. -/
theorem spelled_of_whole? {bytes after : Bytes} {digits : List Nat}
    (h : whole? bytes = some (digits, after)) :
    ∃ written, bytes = written ++ after ∧ WholeSpelled digits written := by
  unfold whole? at h
  split at h
  · simp at h
  · rename_i b rest
    split at h
    · rename_i hzero
      simp only [Option.some.injEq, Prod.mk.injEq] at h
      obtain ⟨rfl, rfl⟩ := h
      exact ⟨[b], rfl, by rw [beq_iff_eq.mp hzero]; exact .zero⟩
    · rename_i hzero
      split at h
      · rename_i hdigit
        simp only [Option.some.injEq, Prod.mk.injEq] at h
        obtain ⟨rfl, rfl⟩ := h
        obtain ⟨found, hsplit, hdigits, hall⟩ := leadingDigits_split (b :: rest)
        rw [hdigits]
        cases found with
        | nil =>
          rw [List.nil_append, afterDigits, List.dropWhile_cons_of_pos hdigit] at hsplit
          have := afterDigits_length rest
          rw [afterDigits, ← hsplit, List.length_cons] at this
          omega
        | cons c found =>
          simp only [List.cons_append, List.cons.injEq] at hsplit
          obtain ⟨rfl, hrest⟩ := hsplit
          refine ⟨b :: found, by rw [List.cons_append, ← hrest], .digits ⟨by simp, hall⟩ ?_⟩
          simpa using hzero
      · simp at h

/-- The fraction that is read stands in front. -/
theorem spelled_of_fraction? {bytes after : Bytes} {digits : List Nat}
    (h : fraction? bytes = some (digits, after)) :
    ∃ written, bytes = written ++ after ∧ FractionSpelled digits written := by
  unfold fraction? at h
  split at h
  · simp only [Option.some.injEq, Prod.mk.injEq] at h
    obtain ⟨rfl, rfl⟩ := h
    exact ⟨[], rfl, .none⟩
  · rename_i b rest
    split at h
    · rename_i hpoint
      obtain ⟨found, hsplit, hdigits, hall⟩ := leadingDigits_split rest
      split at h
      · simp at h
      · rename_i hne
        simp only [Option.some.injEq, Prod.mk.injEq] at h
        obtain ⟨rfl, rfl⟩ := h
        rw [hdigits] at hne ⊢
        refine ⟨b :: found, by rw [List.cons_append, ← hsplit], ?_⟩
        rw [beq_iff_eq.mp hpoint]
        refine .digits ⟨?_, hall⟩
        rintro rfl
        exact hne rfl
    · simp only [Option.some.injEq, Prod.mk.injEq] at h
      obtain ⟨rfl, rfl⟩ := h
      exact ⟨[], rfl, .none⟩

/-- The sign that is read stands in front. -/
theorem spelled_of_exponentSign (bytes : Bytes) :
    ∃ sign, bytes = sign ++ (exponentSign bytes).2 ∧
      SignSpelled (exponentSign bytes).1 sign := by
  unfold exponentSign
  split
  · exact ⟨[], rfl, .none⟩
  · rename_i b rest
    split
    · rename_i hminus
      exact ⟨[b], rfl, by rw [beq_iff_eq.mp hminus]; exact .minus⟩
    · split
      · rename_i hplus
        exact ⟨[b], rfl, by rw [beq_iff_eq.mp hplus]; exact .plus⟩
      · exact ⟨[], rfl, .none⟩

/-- The exponent that is read stands in front. -/
theorem spelled_of_exponent? {bytes after : Bytes} {exponent : Option Int}
    (h : exponent? bytes = some (exponent, after)) :
    ∃ written, bytes = written ++ after ∧ ExponentSpelled exponent written := by
  unfold exponent? at h
  split at h
  · simp only [Option.some.injEq, Prod.mk.injEq] at h
    obtain ⟨rfl, rfl⟩ := h
    exact ⟨[], rfl, .none⟩
  · rename_i b rest
    split at h
    · rename_i hletter
      obtain ⟨sign, hsign, hspelled⟩ := spelled_of_exponentSign rest
      obtain ⟨found, hsplit, hdigits, hall⟩ := leadingDigits_split (exponentSign rest).2
      dsimp only at h
      split at h
      · simp at h
      · rename_i hne
        simp only [Option.some.injEq, Prod.mk.injEq] at h
        obtain ⟨rfl, rfl⟩ := h
        rw [hdigits] at hne ⊢
        refine ⟨b :: (sign ++ found), ?_, .some ?_ hspelled ⟨?_, hall⟩⟩
        · rw [List.cons_append, List.append_assoc, ← hsplit, ← hsign]
        · simpa using hletter
        · rintro rfl
          exact hne rfl
    · simp only [Option.some.injEq, Prod.mk.injEq] at h
      obtain ⟨rfl, rfl⟩ := h
      exact ⟨[], rfl, .none⟩

/-- What is read as a number after its sign is spelled by its bytes. -/
theorem spelled_of_numeral? {negative : Bool} {bytes after : Bytes} {numeral : Numeral}
    (h : numeral? negative bytes = some (numeral, after)) :
    ∃ written, bytes = written ++ after ∧ numeral.negative = negative ∧
      NumeralSpelled numeral written := by
  obtain ⟨⟨whole, afterWhole⟩, hw, h⟩ := Option.bind_eq_some_iff.mp h
  obtain ⟨⟨fraction, afterFraction⟩, hf, h⟩ := Option.bind_eq_some_iff.mp h
  obtain ⟨⟨exponent, afterExponent⟩, he, h⟩ := Option.bind_eq_some_iff.mp h
  simp only [Option.pure_def, Option.some.injEq, Prod.mk.injEq] at h
  obtain ⟨rfl, rfl⟩ := h
  obtain ⟨writtenWhole, rfl, hwhole⟩ := spelled_of_whole? hw
  obtain ⟨writtenFraction, rfl, hfraction⟩ := spelled_of_fraction? hf
  obtain ⟨writtenExponent, rfl, hexponent⟩ := spelled_of_exponent? he
  exact ⟨_, by simp only [List.append_assoc], rfl, _, _, _, rfl, hwhole, hfraction, hexponent⟩

/-! ## Tokens -/

/-- Which bytes spell a token. -/
inductive Lexeme : Token → Bytes → Prop
  | openObject : Lexeme .openObject [byte '\x7b']
  | closeObject : Lexeme .closeObject [byte '\x7d']
  | openArray : Lexeme .openArray [byte '[']
  | closeArray : Lexeme .closeArray [byte ']']
  | comma : Lexeme .comma [byte ',']
  | colon : Lexeme .colon [byte ':']
  | null : Lexeme .null (['n', 'u', 'l', 'l'].map byte)
  | true : Lexeme (.boolean true) (['t', 'r', 'u', 'e'].map byte)
  | false : Lexeme (.boolean false) (['f', 'a', 'l', 's', 'e'].map byte)
  | positive {numeral : Numeral} {written : Bytes} (hsign : numeral.negative = Bool.false)
      (hspelled : NumeralSpelled numeral written) : Lexeme (.number numeral) written
  | negative {numeral : Numeral} {written : Bytes} (hsign : numeral.negative = Bool.true)
      (hspelled : NumeralSpelled numeral written) :
      Lexeme (.number numeral) (byte '-' :: written)
  | string {quoted : Quoted} {written : Bytes} (hspelled : QuotedSpelled quoted written) :
      Lexeme (.string quoted) (byte '"' :: (written ++ [byte '"']))

/-- A mark is written as its byte. -/
theorem lexeme_of_punctuation? {b : UInt8} {token : Token} (h : punctuation? b = some token) :
    Lexeme token [b] := by
  unfold punctuation? at h
  repeat' split at h
  all_goals first
    | (rename_i hb; rw [beq_iff_eq.mp hb]; cases h; constructor)
    | simp at h

/-- A word is spelled by its letters. -/
theorem word?_eq_some {letters : List Char} {token found : Token} {bytes after : Bytes}
    (h : word? letters token bytes = some (found, after)) :
    found = token ∧ bytes = letters.map byte ++ after := by
  unfold word? at h
  split at h
  · rename_i hprefix
    simp only [Option.some.injEq, Prod.mk.injEq] at h
    obtain ⟨rfl, rfl⟩ := h
    obtain ⟨tail, rfl⟩ := List.isPrefixOf_iff_prefix.mp hprefix
    refine ⟨rfl, ?_⟩
    have hlength : (letters.map byte).length = letters.length := List.length_map byte
    rw [← hlength, List.drop_left]
  · simp at h

/-- A token is built of what was read. -/
theorem built_eq_some {α : Type} {build : α → Token} {read : Option (α × Bytes)} {token : Token}
    {after : Bytes} (h : built build read = some (token, after)) :
    ∃ value, read = some (value, after) ∧ token = build value := by
  obtain ⟨⟨value, tail⟩, hv, he⟩ := Option.map_eq_some_iff.mp h
  simp only [Prod.mk.injEq] at he
  exact ⟨value, by rw [hv, he.2], he.1.symm⟩

/-- Whatever the reader takes for a token is spelled as the grammar says. -/
theorem lexeme_of_token? {b : UInt8} {rest after : Bytes} {token : Token}
    (h : token? b rest = some (token, after)) :
    ∃ written, b :: rest = written ++ after ∧ Lexeme token written := by
  unfold token? at h
  split at h
  · rename_i hpunctuation
    simp only [Option.some.injEq, Prod.mk.injEq] at h
    obtain ⟨rfl, rfl⟩ := h
    exact ⟨[b], rfl, lexeme_of_punctuation? hpunctuation⟩
  · unfold longToken? at h
    split at h
    · rename_i hb
      obtain ⟨quoted, hread, rfl⟩ := built_eq_some h
      obtain ⟨written, rfl, hspelled⟩ := spelled_of_quoted? hread
      rw [beq_iff_eq.mp hb]
      exact ⟨_, by simp, .string hspelled⟩
    split at h
    · rename_i hb
      obtain ⟨rfl, rfl⟩ := word?_eq_some h
      rw [beq_iff_eq.mp hb]
      exact ⟨_, rfl, .null⟩
    split at h
    · rename_i hb
      obtain ⟨rfl, rfl⟩ := word?_eq_some h
      rw [beq_iff_eq.mp hb]
      exact ⟨_, rfl, .true⟩
    split at h
    · rename_i hb
      obtain ⟨rfl, rfl⟩ := word?_eq_some h
      rw [beq_iff_eq.mp hb]
      exact ⟨_, rfl, .false⟩
    split at h
    · rename_i hb
      obtain ⟨numeral, hread, rfl⟩ := built_eq_some h
      obtain ⟨written, rfl, hsign, hspelled⟩ := spelled_of_numeral? hread
      rw [beq_iff_eq.mp hb]
      exact ⟨_, rfl, .negative hsign hspelled⟩
    · obtain ⟨numeral, hread, rfl⟩ := built_eq_some h
      obtain ⟨written, hsplit, hsign, hspelled⟩ := spelled_of_numeral? hread
      exact ⟨written, hsplit, .positive hsign hspelled⟩

/-! ## Documents -/

/-- Which bytes spell tokens with white space between them. -/
inductive Lexes : List Token → Bytes → Prop
  | nil {blank : Bytes} (hblank : ∀ b ∈ blank, isSpace b = true) : Lexes [] blank
  | cons {token : Token} {tokens : List Token} {blank written rest : Bytes}
      (hblank : ∀ b ∈ blank, isSpace b = true) (hlexeme : Lexeme token written) :
      Lexes tokens rest → Lexes (token :: tokens) (blank ++ (written ++ rest))

/-- The tokens that are read are spelled by all the bytes of a document. -/
theorem lexes_of_tokens? {bytes : Bytes} {tokens : List Token} (h : tokens? bytes = some tokens) :
    Lexes tokens bytes := by
  fun_induction tokens? bytes generalizing tokens with
  | case1 bytes hdrop =>
    cases h
    have hall := List.takeWhile_append_dropWhile (p := isSpace) (l := bytes)
    rw [hdrop, List.append_nil] at hall
    rw [← hall]
    exact .nil fun b hb => List.all_eq_true.mp List.all_takeWhile b hb
  | case2 bytes b rest hdrop token after htoken ih =>
    obtain ⟨tail, htail, rfl⟩ := Option.map_eq_some_iff.mp h
    obtain ⟨written, hsplit, hlexeme⟩ := lexeme_of_token? htoken
    rw [← List.takeWhile_append_dropWhile (p := isSpace) (l := bytes), hdrop, hsplit]
    exact .cons (fun b hb => List.all_eq_true.mp List.all_takeWhile b hb) hlexeme (ih htail)
  | case3 => simp at h

end CallbackGateway.Json
