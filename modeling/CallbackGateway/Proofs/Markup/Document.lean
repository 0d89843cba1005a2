import CallbackGateway.Proofs.Markup.LeafText

/-!
# Whole documents

A document is layout, one whole element and layout again, from its first character to its last.

The reader of content stops at the end of the root, so that it accepts more: what it accepts
begins with layout and one whole element, and this is a document just if only layout follows.
-/

namespace CallbackGateway.Markup

/-- Whether a text is layout alone. -/
def IsLayout (text : List Char) : Prop :=
  ∃ tokens, Lexes tokens text [] ∧ ∀ token ∈ tokens, token.isMisc = true

/-- Whether a text is layout and one whole element. -/
def IsRooted (text : List Char) : Prop :=
  ∃ before root, Lexes (before ++ root) text [] ∧ (∀ token ∈ before, token.isMisc = true) ∧
    IsElement root

/-- Whether a text is one whole element, with nothing but layout around it. -/
def IsDocument (text : List Char) : Prop :=
  ∃ before root after, Lexes (before ++ (root ++ after)) text [] ∧
    (∀ token ∈ before, token.isMisc = true) ∧ IsElement root ∧
    ∀ token ∈ after, token.isMisc = true

variable {before root after tokens : List Token} {text head rest : List Char}

/-! ## Roots -/

/-- An element has a last token, which ends it. -/
theorem IsElement.exists_last (h : IsElement root) :
    ∃ front last, root = front ++ [last] ∧ last.isEnd = true := by
  cases h with
  | emptyTag tag => exact ⟨[], _, rfl, rfl⟩
  | element tag => exact ⟨_, _, List.cons_append.symm, rfl⟩

/-- The end of an element is no text. -/
theorem Token.isText_of_isEnd {token : Token} (h : token.isEnd = true) : token.isText = false := by
  cases token with
  | text => simp [Token.isEnd] at h
  | openTag | emptyTag | closeTag | cdata | comment | instruction | doctype => rfl

/-- A whole element can be followed by anything. -/
theorem Lexes.append_rest (h : Lexes (before ++ root) text []) (hroot : IsElement root)
    (rest : List Char) : Lexes (before ++ root) (text ++ rest) rest := by
  obtain ⟨front, last, rfl, hlast⟩ := hroot.exists_last
  rw [← List.append_assoc] at h ⊢
  exact h.concat (Token.isText_of_isEnd hlast) rest

/-- Balanced tokens in front of a closing tag are unique. -/
theorem Balanced.eq_of_append_closeTag {inner others rest tail : List Token}
    {name other : List Char} (h : Balanced inner) (hothers : Balanced others)
    (hsame : inner ++ .closeTag name :: rest = others ++ .closeTag other :: tail) :
    inner = others := by
  induction h generalizing others rest tail name other with
  | nil =>
    cases hothers with
    | nil => rfl
    | @other token _ htag =>
      obtain ⟨rfl, -⟩ := List.cons.inj hsame
      simp [Token.isTag] at htag
    | emptyTag | element => simp at hsame
  | @other token inner htag _ ih =>
    cases hothers with
    | nil =>
      obtain ⟨rfl, -⟩ := List.cons.inj hsame
      simp [Token.isTag] at htag
    | @other token' others _ hothers =>
      obtain ⟨rfl, hrest⟩ := List.cons.inj hsame
      rw [ih hothers hrest]
    | emptyTag | element =>
      obtain ⟨rfl, -⟩ := List.cons.inj hsame
      simp [Token.isTag] at htag
  | @emptyTag tag inner _ ih =>
    cases hothers with
    | nil | element => simp at hsame
    | @other token _ htag =>
      obtain ⟨rfl, -⟩ := List.cons.inj hsame
      simp [Token.isTag] at htag
    | emptyTag hothers =>
      obtain ⟨htag, hrest⟩ := List.cons.inj hsame
      rw [ih hothers hrest, htag]
  | @element tag inside inner _ _ ihinside ih =>
    cases hothers with
    | nil | emptyTag => simp at hsame
    | @other token _ htag =>
      obtain ⟨rfl, -⟩ := List.cons.inj hsame
      simp [Token.isTag] at htag
    | @element tag' inside' others hinside' hothers =>
      simp only [List.cons_append, List.append_assoc, List.cons.injEq,
        Token.openTag.injEq] at hsame
      obtain ⟨rfl, hrest⟩ := hsame
      obtain rfl := ihinside hinside' hrest
      rw [List.append_cancel_left_eq, List.cons.injEq] at hrest
      rw [ih hothers hrest.2]

/-- An element in front of other tokens is unique. -/
theorem IsElement.eq_of_append {other rest tail : List Token} (h : IsElement root)
    (hother : IsElement other) (hsame : root ++ rest = other ++ tail) :
    root = other ∧ rest = tail := by
  cases h with
  | emptyTag tag =>
    cases hother with
    | emptyTag => simpa using hsame
    | element => simp at hsame
  | @element tag inner hinner =>
    cases hother with
    | emptyTag => simp at hsame
    | @element tag' inner' hinner' =>
      simp only [List.cons_append, List.append_assoc, List.nil_append, List.cons.injEq,
        Token.openTag.injEq] at hsame
      obtain ⟨rfl, hrest⟩ := hsame
      obtain rfl := hinner.eq_of_append_closeTag hinner' hrest
      rw [List.append_cancel_left_eq, List.cons.injEq] at hrest
      exact ⟨rfl, hrest.2⟩

/-- Tokens without tags and an element in front of other tokens are unique. -/
theorem IsElement.eq_of_layout_append {others other tail rest : List Token}
    (hbefore : ∀ token ∈ before, token.isMisc = true) (hroot : IsElement root)
    (hothers : ∀ token ∈ others, token.isMisc = true) (hother : IsElement other)
    (h : before ++ (root ++ rest) = others ++ (other ++ tail)) :
    before = others ∧ root = other ∧ rest = tail := by
  obtain ⟨first, inner, rfl, hfirst⟩ := hroot.exists_first
  obtain ⟨second, inner', rfl, hsecond⟩ := hother.exists_first
  obtain ⟨rfl, hrest⟩ := eq_of_append_tag (fun token ht => Token.isTag_of_isMisc (hbefore token ht))
    (fun token ht => Token.isTag_of_isMisc (hothers token ht)) hfirst hsecond h
  obtain ⟨hroots, htail⟩ := hroot.eq_of_append hother hrest
  exact ⟨rfl, hroots, htail⟩

/-- The rest after a root decides whether the whole is a document. -/
theorem isDocument_append_iff (hhead : IsRooted head) :
    IsDocument (head ++ rest) ↔ IsLayout rest := by
  obtain ⟨before, root, hlexes, hbefore, hroot⟩ := hhead
  have hrest := hlexes.append_rest hroot rest
  constructor
  · rintro ⟨before', root', after, hdocument, hbefore', hroot', hafter⟩
    have hscan := hrest.scan.1
    rw [hdocument.scan.1, List.append_assoc, List.append_assoc, List.append_assoc] at hscan
    obtain ⟨rfl, rfl, -⟩ := hroot'.eq_of_layout_append hbefore' hbefore hroot hscan
    rw [← List.append_assoc] at hdocument
    obtain ⟨middle, hfirst, hsecond⟩ := hdocument.of_append
    obtain ⟨-, rfl⟩ := hfirst.unique hrest rfl
    exact ⟨after, hsecond, hafter⟩
  · rintro ⟨after, hlayout, hafter⟩
    have hwhole := hrest.append hlayout
    rw [List.append_assoc] at hwhole
    exact ⟨before, root, after, hwhole, hbefore, hroot, hafter⟩

/-! ## The end of the last tag -/

/-- What the reader reads as layout and an element is spelled out in the document, but the last
character of the document may be missing. -/
theorem rooted_of_scan (h : (scan text).tokens = before ++ (root ++ after))
    (hroot : IsElement root) :
    (∃ rest, Lexes (before ++ root) text rest) ∨
      (text ≠ [] ∧ Lexes (before ++ root) (text ++ ['>']) [] ∧
        ∀ tokens, ¬ Lexes tokens text []) := by
  rw [← List.append_assoc] at h
  rcases lexes_of_scan h with ⟨rest, hlexes, -, -⟩ | ⟨rfl, front, last, rest, hfront, hlexes, hlast⟩
  · exact .inl ⟨rest, hlexes⟩
  · obtain ⟨inner, final, rfl, hfinal⟩ := hroot.exists_last
    rw [← List.append_assoc] at hfront ⊢
    obtain ⟨rfl, hsame⟩ := List.append_inj' hfront rfl
    obtain rfl := List.singleton_inj.mp hsame
    have hne : rest ≠ [] := by
      rintro rfl
      cases hlast
    refine .inr ⟨hlexes.ne_nil hne, ?_, ?_⟩
    · cases hlast with
      | instruction => simp [Token.isEnd] at hfinal
      | @closeTag body hclose =>
        exact (hlexes.extend hne ['>']).append (.single (.closeTag hclose))
    · intro tokens htokens
      have hscan := h.symm.trans (congrArg Scan.tokens htokens.scan_eq)
      rw [List.append_nil, ← List.append_assoc] at hscan
      subst hscan
      obtain ⟨middle, hfirst, hsecond⟩ := htokens.of_append
      obtain ⟨-, rfl⟩ := hfirst.unique hlexes rfl
      exact not_lexeme_of_unclosed hlast hsecond.lexeme_of_single

/-! ## Marks in front of the document -/

/-- The mark in front of the first text is the mark in front of the document. -/
theorem Lexes.dropLeadingMark (h : Lexes tokens text rest) (hne : tokens ≠ []) :
    Lexes (dropLeadingMark tokens) (dropMark text) rest := by
  cases h with
  | nil => exact absurd rfl hne
  | @cons token tokens written after rest hlexeme hafter h =>
    cases htext : token.isText with
    | false =>
      have hhead := head?_of_lexeme hlexeme htext
      obtain ⟨c, written, rfl⟩ := List.exists_cons_of_ne_nil (ne_nil_of_lexeme hlexeme)
      obtain rfl := Option.some.inj hhead
      have hsame : Markup.dropLeadingMark (token :: tokens) = token :: tokens := by
        cases token with
        | text => simp [Token.isText] at htext
        | openTag | emptyTag | closeTag | cdata | comment | instruction | doctype => rfl
      rw [hsame, List.cons_append, dropMark, if_neg (by decide), ← List.cons_append]
      exact .cons hlexeme hafter h
    | true =>
      cases token with
      | openTag | emptyTag | closeTag | cdata | comment | instruction | doctype =>
        simp [Token.isText] at htext
      | text raw =>
        obtain ⟨rfl, hraw, hopen⟩ := of_lexeme_text hlexeme
        obtain ⟨c, raw, rfl⟩ := List.exists_cons_of_ne_nil hraw
        rw [Markup.dropLeadingMark, List.cons_append, dropMark, dropMark]
        by_cases hmark : c = byteOrderMark
        · rw [if_pos (beq_iff_eq.mpr hmark), if_pos (beq_iff_eq.mpr hmark)]
          cases raw with
          | nil => exact h
          | cons d raw =>
            refine .cons (.text (List.cons_ne_nil _ _) fun hmem => hopen ?_) hafter h
            exact List.mem_cons_of_mem _ hmem
        · rw [if_neg (by simpa using hmark), if_neg (by simpa using hmark)]
          exact .cons (.text (List.cons_ne_nil _ _) hopen) hafter h

/-- Neither layout nor a tag starts with a mark. -/
theorem dropMark_of_lexeme {token : Token} {written : List Char} (h : Lexeme token written)
    (htoken : token.isMisc = true ∨ token.isTag = true) (rest : List Char) :
    dropMark (written ++ rest) = written ++ rest := by
  obtain ⟨c, tail, rfl⟩ := List.exists_cons_of_ne_nil (ne_nil_of_lexeme h)
  have hmark : c ≠ byteOrderMark := by
    rintro rfl
    cases htext : token.isText with
    | false =>
      have hopen : byteOrderMark ≠ '<' := by decide
      exact hopen (Option.some.inj (head?_of_lexeme h htext))
    | true =>
      cases token with
      | openTag | emptyTag | closeTag | cdata | comment | instruction | doctype =>
        simp [Token.isText] at htext
      | text raw =>
        obtain ⟨rfl, -, -⟩ := of_lexeme_text h
        rcases htoken with hspace | htag
        · rw [Token.isMisc, List.all_cons, Bool.and_eq_true] at hspace
          exact absurd hspace.1 Bool.false_ne_true
        · simp [Token.isTag] at htag
  rw [List.cons_append, dropMark, if_neg (by simpa using hmark)]

/-- Layout and elements have no mark in front. -/
theorem Lexes.dropMark_of_layout (h : Lexes (before ++ root) text rest)
    (hbefore : ∀ token ∈ before, token.isMisc = true) (hroot : IsElement root) :
    dropMark text = text ∧ Markup.dropLeadingMark before = before := by
  obtain ⟨first, tail, rfl, hfirst⟩ := hroot.exists_first
  cases before with
  | nil =>
    cases h with
    | cons hlexeme => exact ⟨dropMark_of_lexeme hlexeme (.inr hfirst) _, rfl⟩
  | cons token before =>
    cases h with
    | @cons _ _ written after _ hlexeme =>
      have hmisc := hbefore token List.mem_cons_self
      refine ⟨dropMark_of_lexeme hlexeme (.inl hmisc) _, ?_⟩
      cases token with
      | openTag | emptyTag | closeTag | cdata | comment | instruction | doctype => rfl
      | text raw =>
        have hmark := dropMark_of_lexeme hlexeme (.inl hmisc) []
        obtain ⟨rfl, hraw, -⟩ := of_lexeme_text hlexeme
        obtain ⟨c, raw, rfl⟩ := List.exists_cons_of_ne_nil hraw
        rw [List.append_nil] at hmark
        rw [Markup.dropLeadingMark, hmark]

/-- A rooted text has no mark in front. -/
theorem IsRooted.dropMark_append (h : IsRooted head) (rest : List Char) :
    dropMark (head ++ rest) = head ++ rest := by
  obtain ⟨before, root, hlexes, hbefore, hroot⟩ := h
  exact ((hlexes.append_rest hroot rest).dropMark_of_layout hbefore hroot).1

/-- A document has no mark in front; it is dropped before. -/
theorem IsDocument.dropMark (h : IsDocument text) : dropMark text = text := by
  obtain ⟨before, root, after, hlexes, hbefore, hroot, -⟩ := h
  rw [← List.append_assoc] at hlexes
  obtain ⟨middle, hlexes, -⟩ := hlexes.of_append
  exact (hlexes.dropMark_of_layout hbefore hroot).1

/-- A mark in front is dropped. -/
theorem dropMark_mark (text : List Char) : dropMark (byteOrderMark :: text) = text := rfl

/-- A mark is dropped from the front, whatever is behind. -/
theorem dropMark_append (hne : text ≠ []) (rest : List Char) :
    Markup.dropMark (text ++ rest) = Markup.dropMark text ++ rest := by
  obtain ⟨c, text, rfl⟩ := List.exists_cons_of_ne_nil hne
  rw [List.cons_append, Markup.dropMark, Markup.dropMark]
  split
  · rfl
  · exact (List.cons_append).symm

/-- At most a mark is dropped. -/
theorem dropMark_eq_or (text : List Char) :
    dropMark text = text ∨ text = byteOrderMark :: dropMark text := by
  cases text with
  | nil => exact .inl rfl
  | cons c text =>
    by_cases hmark : c = byteOrderMark
    · subst hmark
      exact .inr rfl
    · rw [dropMark, if_neg (by simpa using hmark)]
      exact .inl rfl

/-- Where the rest of a text is divided, the text itself can be divided. -/
theorem exists_of_dropMark_eq_append {front back : List Char} (hne : front ≠ [])
    (h : dropMark text = front ++ back) :
    ∃ marked, text = marked ++ back ∧ dropMark marked = front := by
  rcases dropMark_eq_or text with hsame | hmark
  · refine ⟨front, hsame.symm.trans h, ?_⟩
    have hdrop : dropMark front ++ back = front ++ back := by
      rw [← dropMark_append hne, ← h, hsame, hsame]
    exact List.append_cancel_right hdrop
  · refine ⟨byteOrderMark :: front, ?_, dropMark_mark front⟩
    rw [List.cons_append, ← h]
    exact hmark

/-- With marks in front, a rooted text with a rest is a document if there is one mark at most and
the rest is layout. -/
theorem isDocument_dropMark_iff (hhead : IsRooted head) (n : Nat) :
    IsDocument (dropMark (List.replicate n byteOrderMark ++ (head ++ rest))) ↔
      n ≤ 1 ∧ IsLayout rest := by
  have hrooted : IsDocument (head ++ rest) ↔ IsLayout rest := isDocument_append_iff hhead
  match n with
  | 0 =>
    rw [List.replicate_zero, List.nil_append, hhead.dropMark_append, hrooted]
    simp
  | 1 =>
    rw [List.replicate_one, List.singleton_append, dropMark_mark, hrooted]
    simp
  | n + 2 =>
    rw [List.replicate_succ, List.cons_append, dropMark_mark, List.replicate_succ,
      List.cons_append]
    constructor
    · intro hdocument
      have hsame := hdocument.dropMark
      rw [dropMark_mark] at hsame
      exact absurd hsame (List.cons_ne_self _ _).symm
    · intro h
      omega

end CallbackGateway.Markup
