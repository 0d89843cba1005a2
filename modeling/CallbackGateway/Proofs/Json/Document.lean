import CallbackGateway.Json.Value
import CallbackGateway.Proofs.Json.Lexeme
import CallbackGateway.Proofs.Json.Syntax
import CallbackGateway.Proofs.Text.Boundary

/-!
# Whole JSON documents

A document is the text of one value with nothing but white space around it. Bytes are read as a
tree only if they are one value from the first byte to the last, and as a value only if they
are a document: strings that are interpreted are texts, and all other bytes are ASCII.
-/

namespace CallbackGateway.Json

open Text

/-- Whether bytes are one value, with white space between its tokens and around it. -/
def IsOneValue (bytes : Bytes) : Prop := ∃ tree : Tree, Lexes tree.tokens bytes

/-- Whether bytes are the text of one value. -/
def IsDocument (bytes : Bytes) : Prop := Utf8.IsText bytes ∧ IsOneValue bytes

/-- Bytes that are a tree are made of its tokens. -/
theorem lexes_of_read? {bytes : Bytes} {tree : Tree} (h : Tree.read? bytes = some tree) :
    Lexes tree.tokens bytes := by
  obtain ⟨tokens, htokens, htree⟩ := Option.bind_eq_some_iff.mp h
  rw [← ofTokens?_eq_some_iff.mp htree]
  exact lexes_of_tokens? htokens

/-! ## Strings -/

/-- A digit is an ASCII byte. -/
theorem ascii_of_isDigit {b : UInt8} (h : isDigit b = true) : b < 0x80 := by
  simp only [isDigit, Bool.and_eq_true, decide_eq_true_eq] at h
  exact UInt8.lt_of_le_of_lt h.2 (by decide)

/-- A hexadecimal digit is an ASCII byte. -/
theorem ascii_of_hexDigit? {b : UInt8} {n : Nat} (h : hexDigit? b = some n) : b < 0x80 := by
  unfold hexDigit? at h
  split at h
  · rename_i hb
    rw [Bool.and_eq_true, decide_eq_true_eq, decide_eq_true_eq] at hb
    exact UInt8.lt_of_le_of_lt hb.2 (by decide)
  split at h
  · rename_i hb
    rw [Bool.and_eq_true, decide_eq_true_eq, decide_eq_true_eq] at hb
    exact UInt8.lt_of_le_of_lt hb.2 (by decide)
  split at h
  · rename_i hb
    rw [Bool.and_eq_true, decide_eq_true_eq, decide_eq_true_eq] at hb
    exact UInt8.lt_of_le_of_lt hb.2 (by decide)
  · simp at h

/-- An escape of a code is ASCII. -/
theorem ascii_of_hexCode? {w x y z : UInt8} {n : Nat} (h : hexCode? w x y z = some n) :
    Utf8.IsAscii [byte '\\', byte 'u', w, x, y, z] := by
  obtain ⟨_, hw, h⟩ := Option.bind_eq_some_iff.mp h
  obtain ⟨_, hx, h⟩ := Option.bind_eq_some_iff.mp h
  obtain ⟨_, hy, h⟩ := Option.bind_eq_some_iff.mp h
  obtain ⟨_, hz, -⟩ := Option.bind_eq_some_iff.mp h
  simp only [Utf8.IsAscii, List.forall_mem_cons]
  exact ⟨by decide, by decide, ascii_of_hexDigit? hw, ascii_of_hexDigit? hx,
    ascii_of_hexDigit? hy, ascii_of_hexDigit? hz, by simp⟩

/-- An escape of a letter is ASCII, and so is what it stands for. -/
theorem ascii_of_escaped? {e b : UInt8} (h : escaped? e = some b) : e < 0x80 ∧ b < 0x80 := by
  unfold escaped? at h
  split at h
  · rename_i he
    simp only [Bool.or_eq_true, beq_iff_eq] at he
    obtain rfl := Option.some.inj h
    rcases he with (rfl | rfl) | rfl <;> decide
  repeat' split at h
  all_goals first
    | (rename_i he; rw [beq_iff_eq.mp he, ← Option.some.inj h]; decide)
    | simp at h

/-- A character in a text may be exchanged for an escape. -/
theorem isText_of_escape {c : Char} {escape front rest written : Bytes}
    (htext : Utf8.IsText (front ++ (Utf8.encodeChar c ++ rest)))
    (hescape : Utf8.IsAscii escape) (hrest : Utf8.IsText rest → Utf8.IsText written) :
    Utf8.IsText (front ++ (escape ++ written)) := by
  obtain ⟨hfront, htail⟩ := Utf8.isText_of_append_encodeChar htext
  exact hfront.append (hescape.isText.append (hrest htail))

/-- Bytes that spell a string spell a text where the string itself stands for one. -/
theorem isText_of_quotedBytes? {quoted : Quoted} {front written bytes : Bytes}
    (hspelled : QuotedSpelled quoted written) (hbytes : quotedBytes? quoted = some bytes)
    (htext : Utf8.IsText (front ++ bytes)) : Utf8.IsText (front ++ written) := by
  fun_induction quotedBytes? quoted generalizing front written bytes with
  | case1 =>
    cases hspelled
    cases hbytes
    exact htext
  | case2 b rest ih =>
    obtain ⟨tail, htail, rfl⟩ := Option.map_eq_some_iff.mp hbytes
    cases hspelled with
    | raw hquote hslash hcontrol hrest =>
      rw [List.append_cons] at htext ⊢
      exact ih hrest htail htext
    | @letter e _ _ _ hcode hletter hrest =>
      obtain ⟨he, hb⟩ := ascii_of_escaped? hletter
      rw [← List.singleton_append, ← Utf8.encodeChar_one hb] at htext
      have hescape : Utf8.IsAscii [byte '\\', e] := by
        simp only [Utf8.IsAscii, List.forall_mem_cons]
        exact ⟨by decide, he, by simp⟩
      exact isText_of_escape htext hescape fun (h : Utf8.IsText ([] ++ tail)) => ih hrest htail h
  | case3 n hhigh m after hlow ih =>
    obtain ⟨tail, htail, rfl⟩ := Option.map_eq_some_iff.mp hbytes
    cases hspelled with
    | code hfirst hspelled =>
      cases hspelled with
      | @code _ _ _ _ _ _ written hsecond hrest =>
        have hboth := fun b hb => (List.mem_append.mp hb).elim (ascii_of_hexCode? hfirst b)
          (ascii_of_hexCode? hsecond b)
        exact isText_of_escape htext hboth fun (h : Utf8.IsText ([] ++ tail)) => ih hrest htail h
  | case4 n hhigh m after hlow => simp at hbytes
  | case5 n hhigh rest hnone => simp at hbytes
  | case6 n rest hhigh hlow => simp at hbytes
  | case7 n rest hhigh hlow ih =>
    obtain ⟨tail, htail, rfl⟩ := Option.map_eq_some_iff.mp hbytes
    cases hspelled with
    | code hcode hrest =>
      exact isText_of_escape htext (ascii_of_hexCode? hcode)
        fun (h : Utf8.IsText ([] ++ tail)) => ih hrest htail h

/-- Bytes that spell an interpreted string spell a text. -/
theorem isText_of_quotedText? {quoted : Quoted} {written : Bytes}
    (hspelled : QuotedSpelled quoted written) (h : (quotedText? quoted).isSome = true) :
    Utf8.IsText written := by
  obtain ⟨text, htext⟩ := Option.isSome_iff_exists.mp h
  obtain ⟨bytes, hbytes, htext⟩ := Option.bind_eq_some_iff.mp htext
  obtain ⟨chars, hchars, -⟩ := Option.map_eq_some_iff.mp htext
  have hdecode : Utf8.decode bytes = .ok chars := by
    rw [Utf8.decode?] at hchars
    cases hresult : Utf8.decode bytes with
    | error defect => simp [hresult, Except.toOption] at hchars
    | ok found =>
      rw [hresult] at hchars
      rw [Option.some.inj hchars]
  have hbytesText : Utf8.IsText ([] ++ bytes) := ⟨chars, Utf8.decode_eq_ok_iff.mp hdecode⟩
  exact isText_of_quotedBytes? hspelled hbytes hbytesText

/-! ## Tokens -/

/-- Digits are ASCII. -/
theorem ascii_of_digits {bytes : Bytes} (h : AreDigits bytes) : Utf8.IsAscii bytes :=
  fun b hb => ascii_of_isDigit (h.2 b hb)

/-- Numbers are written in ASCII. -/
theorem isText_of_numeral {numeral : Numeral} {written : Bytes}
    (h : NumeralSpelled numeral written) : Utf8.IsText written := by
  obtain ⟨whole, fraction, exponent, rfl, hwhole, hfraction, hexponent⟩ := h
  generalize numeral.whole = wholeDigits at hwhole
  generalize numeral.fraction = fractionDigits at hfraction
  generalize numeral.exponent = power at hexponent
  refine .append ?_ (.append ?_ ?_)
  · cases hwhole with
    | zero => exact Utf8.IsAscii.isText (by decide)
    | digits hdigits => exact (ascii_of_digits hdigits).isText
  · cases hfraction with
    | none => exact Utf8.isText_nil
    | digits hdigits =>
      exact Utf8.IsAscii.isText (List.forall_mem_cons.mpr ⟨by decide, ascii_of_digits hdigits⟩)
  · cases hexponent with
    | none => exact Utf8.isText_nil
    | @some letter negative sign bytes hletter hsign hdigits =>
      have hascii : Utf8.IsAscii (letter :: sign) := by
        rcases hletter with rfl | rfl <;> cases hsign <;> decide
      rw [← List.cons_append]
      exact hascii.isText.append (ascii_of_digits hdigits).isText

/-- Whether a token is no string, or one that can be interpreted. -/
def Token.isReadable : Token → Bool
  | .string quoted => (quotedText? quoted).isSome
  | _ => true

/-- A readable token is written as text. -/
theorem isText_of_lexeme {token : Token} {written : Bytes} (h : Lexeme token written)
    (hreadable : token.isReadable = true) : Utf8.IsText written := by
  have mark (c : Char) (hc : byte c < 0x80) : Utf8.IsText [byte c] :=
    Utf8.IsAscii.isText (List.forall_mem_singleton.mpr hc)
  cases h with
  | openObject | closeObject | openArray | closeArray | comma | colon => exact mark _ (by decide)
  | null | true | false => exact Utf8.IsAscii.isText (by decide)
  | positive _ hspelled => exact isText_of_numeral hspelled
  | negative _ hspelled => exact (mark '-' (by decide)).append (isText_of_numeral hspelled)
  | string hspelled =>
    have hquote := mark '"' (by decide)
    exact hquote.append ((isText_of_quotedText? hspelled hreadable).append hquote)

/-- Bytes that spell readable tokens spell a text. -/
theorem isText_of_lexes {tokens : List Token} {bytes : Bytes} (h : Lexes tokens bytes)
    (hreadable : ∀ token ∈ tokens, token.isReadable = true) : Utf8.IsText bytes := by
  have blank {bytes : Bytes} (hblank : ∀ b ∈ bytes, isSpace b = true) : Utf8.IsText bytes := by
    refine Utf8.IsAscii.isText fun b hb => ?_
    have := hblank b hb
    simp only [isSpace, Bool.or_eq_true, beq_iff_eq] at this
    rcases this with ((rfl | rfl) | rfl) | rfl <;> decide
  induction h with
  | nil hblank => exact blank hblank
  | cons hblank hlexeme _ ih =>
    obtain ⟨htoken, hrest⟩ := List.forall_mem_cons.mp hreadable
    exact (blank hblank).append ((isText_of_lexeme hlexeme htoken).append (ih hrest))

/-! ## Values -/

mutual

/-- The strings of a tree that says a value can be interpreted. -/
theorem isReadable_of_value? {depth : Nat} : (tree : Tree) → {value : Value} →
    tree.value? depth = some value → ∀ token ∈ tree.tokens, token.isReadable = true
  | .null, _, _, token, htoken => by
    rw [List.mem_singleton.mp htoken]
    rfl
  | .boolean _, _, _, token, htoken => by
    rw [List.mem_singleton.mp htoken]
    rfl
  | .number _, _, _, token, htoken => by
    rw [List.mem_singleton.mp htoken]
    rfl
  | .string quoted, _, h, token, htoken => by
    obtain ⟨text, htext, -⟩ := Option.map_eq_some_iff.mp h
    rw [List.mem_singleton.mp htoken, Token.isReadable, htext]
    rfl
  | .array items, _, h, token, htoken => by
    cases depth with
    | zero => cases h
    | succ inner =>
      obtain ⟨values, hvalues, -⟩ := Option.map_eq_some_iff.mp h
      rcases List.mem_cons.mp htoken with rfl | htoken
      · rfl
      rcases List.mem_append.mp htoken with hitem | hclose
      · exact isReadable_of_itemValues? items hvalues token hitem
      · rw [List.mem_singleton.mp hclose]
        rfl
  | .object members, _, h, token, htoken => by
    cases depth with
    | zero => cases h
    | succ inner =>
      obtain ⟨values, hvalues, -⟩ := Option.map_eq_some_iff.mp h
      rcases List.mem_cons.mp htoken with rfl | htoken
      · rfl
      rcases List.mem_append.mp htoken with hmember | hclose
      · exact isReadable_of_memberValues? members hvalues token hmember
      · rw [List.mem_singleton.mp hclose]
        rfl
termination_by structural tree => tree

/-- The tokens of items with values are readable. -/
theorem isReadable_of_itemValues? {depth : Nat} : (items : List Tree) → {values : List Value} →
    itemValues? depth items = some values →
      ∀ token ∈ itemTokens items, token.isReadable = true
  | [], _, _, _, htoken => by simp [itemTokens] at htoken
  | item :: rest, _, h, token, htoken => by
    obtain ⟨value, hvalue, h⟩ := Option.bind_eq_some_iff.mp h
    obtain ⟨others, hothers, -⟩ := Option.bind_eq_some_iff.mp h
    have hitem := isReadable_of_value? item hvalue
    have hrest := isReadable_of_itemValues? rest hothers
    cases rest with
    | nil => exact hitem token htoken
    | cons other rest =>
      rw [itemTokens_cons_cons] at htoken
      rcases List.mem_append.mp htoken with htoken | htoken
      · exact hitem token htoken
      rcases List.mem_cons.mp htoken with rfl | htoken
      · rfl
      · exact hrest token htoken
termination_by structural items => items

/-- The tokens of members with values are readable. -/
theorem isReadable_of_memberValues? {depth : Nat} : (members : List (Quoted × Tree)) →
    {values : List (String × Value)} → memberValues? depth members = some values →
      ∀ token ∈ membersTokens members, token.isReadable = true
  | [], _, _, _, htoken => by simp [membersTokens] at htoken
  | member :: rest, _, h, token, htoken => by
    obtain ⟨value, hvalue, h⟩ := Option.bind_eq_some_iff.mp h
    obtain ⟨others, hothers, -⟩ := Option.bind_eq_some_iff.mp h
    have hmember := isReadable_of_memberValue? member hvalue
    have hrest := isReadable_of_memberValues? rest hothers
    cases rest with
    | nil => exact hmember token htoken
    | cons other rest =>
      rw [membersTokens_cons_cons] at htoken
      rcases List.mem_append.mp htoken with htoken | htoken
      · exact hmember token htoken
      rcases List.mem_cons.mp htoken with rfl | htoken
      · rfl
      · exact hrest token htoken
termination_by structural members => members

/-- The tokens of a member with a value are readable. -/
theorem isReadable_of_memberValue? {depth : Nat} : (member : Quoted × Tree) →
    {value : String × Value} → memberValue? depth member = some value →
      ∀ token ∈ memberTokens member, token.isReadable = true
  | (key, tree), _, h, token, htoken => by
    obtain ⟨text, htext, h⟩ := Option.bind_eq_some_iff.mp h
    obtain ⟨value, hvalue, -⟩ := Option.bind_eq_some_iff.mp h
    rcases List.mem_cons.mp htoken with rfl | htoken
    · rw [Token.isReadable, htext]
      rfl
    rcases List.mem_cons.mp htoken with rfl | htoken
    · rfl
    · exact isReadable_of_value? tree hvalue token htoken
termination_by structural member => member

end

/-- Bytes are read as a value only if they are a document. -/
theorem isDocument_of_read? {bytes : Bytes} {value : Value} (h : Value.read? bytes = some value) :
    IsDocument bytes := by
  obtain ⟨tree, htree, hvalue⟩ := Option.bind_eq_some_iff.mp h
  have hlexes := lexes_of_read? htree
  exact ⟨isText_of_lexes hlexes (isReadable_of_value? tree hvalue), tree, hlexes⟩

end CallbackGateway.Json
