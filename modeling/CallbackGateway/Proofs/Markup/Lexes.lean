import CallbackGateway.Markup.Writer
import CallbackGateway.Proofs.Markup.Lexeme

/-!
# Tokens of a document

A list of tokens is spelled by the characters up to a place in a document. The characters after
that place are kept in sight, because a text goes on to the next opening bracket.

The reader finds exactly these tokens, and written tokens are spelled by what is written.
-/

namespace CallbackGateway.Markup

/-- Which tokens stand in a document up to the rest of it. -/
inductive Lexes : List Token → List Char → List Char → Prop
  | nil (rest : List Char) : Lexes [] rest rest
  | cons {token : Token} {tokens : List Token} {written after rest : List Char}
      (hlexeme : Lexeme token written)
      (hafter : token.isText = true → ∀ c ∈ after.head?, c = '<') :
      Lexes tokens after rest → Lexes (token :: tokens) (written ++ after) rest

/-- Every token takes at least one character. -/
theorem ne_nil_of_lexeme {token : Token} {written : List Char} (h : Lexeme token written) :
    written ≠ [] := by
  cases h with
  | text hne => exact hne
  | tag | closeTag | cdata | comment | instruction | doctype => exact List.cons_ne_nil _ _

/-- A text is spelled by itself. -/
theorem of_lexeme_text {raw written : List Char} (h : Lexeme (.text raw) written) :
    written = raw ∧ raw ≠ [] ∧ '<' ∉ raw := by
  generalize htoken : Token.text raw = token at h
  cases h with
  | text hne hopen =>
    obtain rfl := Token.text.inj htoken
    exact ⟨rfl, hne, hopen⟩
  | tag =>
    rw [tagToken] at htoken
    split at htoken <;> simp at htoken
  | closeTag | cdata | comment | instruction | doctype => simp at htoken

/-- Markup starts with an opening bracket. -/
theorem head?_of_lexeme {token : Token} {written : List Char} (h : Lexeme token written)
    (htext : token.isText = false) : written.head? = some '<' := by
  cases h with
  | text => simp [Token.isText] at htext
  | tag | closeTag | cdata | comment | instruction | doctype => rfl

/-- An empty text has no tokens and is complete. -/
@[simp] theorem scan_nil : scan [] = ⟨[], true⟩ := by
  rw [scan]
  rfl

namespace Lexes

variable {first second tokens : List Token} {text middle rest : List Char}

/-- Tokens are read one part after another. -/
theorem append (hfirst : Lexes first text middle) (hsecond : Lexes second middle rest) :
    Lexes (first ++ second) text rest := by
  induction hfirst with
  | nil => exact hsecond
  | cons hlexeme hafter _ ih => exact .cons hlexeme hafter (ih hsecond)

/-- Between two parts of the tokens the text can be divided. -/
theorem of_append (h : Lexes (first ++ second) text rest) :
    ∃ middle, Lexes first text middle ∧ Lexes second middle rest := by
  induction first generalizing text with
  | nil => exact ⟨text, .nil text, h⟩
  | cons token first ih =>
    cases h with
    | cons hlexeme hafter h =>
      obtain ⟨middle, hfirst, hsecond⟩ := ih h
      exact ⟨middle, .cons hlexeme hafter hfirst, hsecond⟩

/-- The characters of one token are a document. -/
theorem single {token : Token} {written : List Char} (h : Lexeme token written) :
    Lexes [token] written [] := by
  have hcons : Lexes [token] (written ++ []) [] := .cons h (by simp) (.nil [])
  rwa [List.append_nil] at hcons

/-- A text with one token is written for it. -/
theorem lexeme_of_single {token : Token} (h : Lexes [token] text []) : Lexeme token text := by
  cases h with
  | cons hlexeme _ hnil =>
    cases hnil
    rwa [List.append_nil]

/-- The reader finds the tokens, and goes on after them. -/
theorem scan (h : Lexes tokens text rest) :
    (scan text).tokens = tokens ++ (Markup.scan rest).tokens ∧
      (Markup.scan text).complete = (Markup.scan rest).complete := by
  induction h with
  | nil => exact ⟨rfl, rfl⟩
  | @cons token tokens written after rest hlexeme hafter _ ih =>
    have hscan : Markup.scan (written ++ after) = (Markup.scan after).cons token := by
      rw [Markup.scan]
      have hstep := step_of_lexeme hlexeme hafter
      split <;> simp_all
    rw [hscan]
    exact ⟨by rw [Scan.cons, ih.1, List.cons_append], ih.2⟩

/-- A whole document is read as its tokens. -/
theorem scan_eq (h : Lexes tokens text []) : Markup.scan text = ⟨tokens, true⟩ := by
  obtain ⟨htokens, hcomplete⟩ := h.scan
  rw [scan_nil, List.append_nil] at htokens
  rw [scan_nil] at hcomplete
  cases hscan : Markup.scan text
  simp_all

/-- As many tokens stand there in one way only. -/
theorem unique {others : List Token} {tail : List Char} (h : Lexes tokens text rest)
    (hother : Lexes others text tail) (hlength : tokens.length = others.length) :
    tokens = others ∧ rest = tail := by
  generalize hsame : text = same at hother
  induction h generalizing others same with
  | nil =>
    obtain rfl := List.length_eq_zero_iff.mp hlength.symm
    cases hother
    exact ⟨rfl, hsame⟩
  | @cons token tokens written after rest hlexeme hafter _ ih =>
    cases hother with
    | nil => simp at hlength
    | @cons token' others written' after' tail hlexeme' hafter' hrest =>
      have hstep := step_of_lexeme hlexeme hafter
      rw [hsame, step_of_lexeme hlexeme' hafter', Step.token.injEq] at hstep
      obtain ⟨rfl, rfl⟩ := hstep
      obtain ⟨rfl, rfl⟩ := ih (by simpa using hlength) _ rfl hrest
      exact ⟨rfl, rfl⟩

/-- With something behind it a text is not empty. -/
theorem ne_nil (h : Lexes tokens text rest) (hne : rest ≠ []) : text ≠ [] := by
  cases h with
  | nil => exact hne
  | cons hlexeme => exact List.append_ne_nil_of_left_ne_nil (ne_nil_of_lexeme hlexeme) _

/-- What stands after the rest of the document does not matter, if there is a rest. -/
theorem extend (h : Lexes tokens text rest) (hne : rest ≠ []) (more : List Char) :
    Lexes tokens (text ++ more) (rest ++ more) := by
  induction h with
  | nil rest => exact .nil _
  | @cons token tokens written after rest hlexeme hafter h ih =>
    rw [List.append_assoc]
    refine .cons hlexeme (fun htext c hc => hafter htext c ?_) (ih hne)
    obtain ⟨d, tail, rfl⟩ := List.exists_cons_of_ne_nil (h.ne_nil hne)
    exact hc

/-- The characters of the tokens are a document of their own. -/
theorem split (h : Lexes tokens text rest) :
    ∃ head, text = head ++ rest ∧ Lexes tokens head [] := by
  induction h with
  | nil rest => exact ⟨[], rfl, .nil []⟩
  | @cons token tokens written after rest hlexeme hafter _ ih =>
    obtain ⟨head, rfl, hhead⟩ := ih
    refine ⟨written ++ head, (List.append_assoc ..).symm,
      .cons hlexeme (fun htext c hc => hafter htext c ?_) hhead⟩
    cases head with
    | nil => simp at hc
    | cons => exact hc

/-- A document can go on with markup. -/
theorem append_markup (h : Lexes tokens text []) (hrest : ∀ c ∈ rest.head?, c = '<') :
    Lexes tokens (text ++ rest) rest := by
  generalize hend : ([] : List Char) = tail at h
  induction h with
  | nil =>
    subst hend
    exact .nil rest
  | @cons token tokens written after tail hlexeme hafter _ ih =>
    rw [List.append_assoc]
    refine .cons hlexeme (fun htext c hc => ?_) (ih hend)
    cases after with
    | nil => exact hrest c hc
    | cons => exact hafter htext c hc

/-- A document that does not end with text can go on with anything. -/
theorem concat {last : Token} (h : Lexes (tokens ++ [last]) text []) (hlast : last.isText = false)
    (rest : List Char) : Lexes (tokens ++ [last]) (text ++ rest) rest := by
  obtain ⟨middle, htokens, hend⟩ := h.of_append
  have hlexeme := lexeme_of_single hend
  have hextended := htokens.extend (ne_nil_of_lexeme hlexeme) rest
  exact hextended.append (.cons hlexeme (by simp [hlast]) (.nil rest))

end Lexes

/-- The first token that the reader finds. -/
theorem step_of_scan_cons {text : List Char} {token : Token} {tokens : List Token}
    (h : (scan text).tokens = token :: tokens) :
    ∃ after, step text = .token token after ∧ (scan after).tokens = tokens ∧
      (scan after).complete = (scan text).complete := by
  rw [scan] at h ⊢
  split at h
  · simp at h
  · simp at h
  · rename_i found after hstep
    simp only [Scan.cons, List.cons.injEq] at h
    obtain ⟨rfl, rfl⟩ := h
    exact ⟨after, hstep, rfl, rfl⟩

/-- Any first tokens that the reader finds stand in the document; but its very last one may lack
its last character. -/
theorem lexes_of_scan {text : List Char} {first second : List Token}
    (h : (scan text).tokens = first ++ second) :
    (∃ rest, Lexes first text rest ∧ (scan rest).tokens = second ∧
      (scan rest).complete = (scan text).complete) ∨
    (second = [] ∧ ∃ before last rest, first = before ++ [last] ∧ Lexes before text rest ∧
      Unclosed last rest) := by
  induction first generalizing text with
  | nil => exact .inl ⟨text, .nil text, h, rfl⟩
  | cons token first ih =>
    obtain ⟨after, hstep, htokens, hcomplete⟩ := step_of_scan_cons h
    obtain ⟨written, rfl, hafter, hlexeme | ⟨rfl, hunclosed⟩⟩ := lexeme_of_step hstep
    · rcases ih htokens with ⟨rest, hfirst, hsecond, hrest⟩ |
        ⟨hnil, before, last, rest, rfl, hbefore, hlast⟩
      · exact .inl ⟨rest, .cons hlexeme hafter hfirst, hsecond, hrest.trans hcomplete⟩
      · exact .inr ⟨hnil, token :: before, last, rest, rfl, .cons hlexeme hafter hbefore, hlast⟩
    · rw [scan_nil] at htokens
      obtain ⟨rfl, rfl⟩ := List.append_eq_nil_iff.mp htokens.symm
      rw [List.append_nil]
      exact .inr ⟨rfl, [], token, written, rfl, .nil written, hunclosed⟩

/-- A token that lacks its last character is not spelled by what is left of it. -/
theorem not_lexeme_of_unclosed {token other : Token} {written : List Char}
    (h : Unclosed token written) : ¬ Lexeme other written := by
  have hopen : '<' ∈ written := by cases h <;> simp
  have hclose : '>' ∉ written := by
    cases h with
    | closeTag hclose => simpa using hclose
    | instruction _ hclose => simpa using hclose
  intro hlexeme
  cases hlexeme with
  | text _ hnone => exact hnone hopen
  | tag | closeTag | cdata | comment | instruction | doctype =>
    simp at hclose

end CallbackGateway.Markup
