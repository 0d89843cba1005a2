import CallbackGateway.Proofs.Markup.Lexes

/-!
# Written tokens

Elements with plain names and sections are read off the characters that are written for them:
no section holds its own end marker, and no character of a plain name ends a tag.
-/

namespace CallbackGateway.Markup

/-! ## Written forms -/

/-- An opening tag in characters. -/
@[simp] theorem Token.write_openTag (tag : Tag) :
    (Token.openTag tag).write = '<' :: (tag.name ++ (tag.attributes ++ ['>'])) := by
  rw [← List.append_assoc]
  rfl

/-- An empty tag in characters. -/
@[simp] theorem Token.write_emptyTag (tag : Tag) : (Token.emptyTag tag).write =
    '<' :: (tag.name ++ (tag.attributes ++ ['/', '>'])) := by
  rw [← List.append_assoc]
  rfl

/-- A closing tag in characters. -/
@[simp] theorem Token.write_closeTag (name : List Char) :
    (Token.closeTag name).write = '<' :: '/' :: (name ++ ['>']) := rfl

/-- Text stands for itself. -/
@[simp] theorem Token.write_text (raw : List Char) : (Token.text raw).write = raw := rfl

/-- A section in characters. -/
@[simp] theorem Token.write_cdata (raw : List Char) :
    (Token.cdata raw).write = '<' :: '!' :: ("[CDATA[".toList ++ (raw ++ "]]>".toList)) := by
  rw [← List.append_assoc]
  rfl

/-- No tokens are written as nothing. -/
@[simp] theorem write_nil : write [] = [] := rfl

/-- The first token is written first. -/
@[simp] theorem write_cons (token : Token) (tokens : List Token) :
    write (token :: tokens) = token.write ++ write tokens := rfl

/-! ## Sections -/

/-- A body without the end marker of a section inside it ends at the first marker. -/
theorem endsFirst_of_infix_free {body : List Char} (h : ¬ "]]>".toList <:+: body) :
    EndsFirst "]]>".toList body := by
  have hmarker : "]]>".toList = [']', ']', '>'] := rfl
  rw [hmarker] at h ⊢
  induction body with
  | nil =>
    intro before after heq
    have := congrArg List.length heq
    simp only [List.length_append, List.length_nil] at this
    exact List.length_eq_zero_iff.mp (by omega)
  | cons c body ih =>
    rw [List.infix_cons_iff, not_or] at h
    intro before after heq
    cases before with
    | nil =>
      -- The marker would start in the body and end beyond it, or lie in the body.
      match body with
      | [] => simp at heq
      | [d] => simp at heq
      | d :: e :: body =>
        simp only [List.cons_append, List.nil_append, List.cons.injEq] at heq
        obtain ⟨rfl, rfl, rfl, -⟩ := heq
        exact absurd ⟨body, rfl⟩ h.1
    | cons b before =>
      simp only [List.cons_append, List.cons.injEq] at heq
      exact ih h.2 before after heq.2

/-- Where a character was put in front of the first of some texts. -/
theorem mem_consFirst {c : Char} {texts : List (List Char)} {text : List Char}
    (h : text ∈ consFirst c texts) : text = c :: texts.headD [] ∨ text ∈ texts := by
  cases texts with
  | nil => exact .inl (by simpa [consFirst] using h)
  | cons first rest =>
    rcases List.mem_cons.mp h with rfl | h
    · exact .inl rfl
    · exact .inr (List.mem_cons_of_mem _ h)

/-- The first section holds a start of the text. -/
theorem head_chunks_isPrefix (text : List Char) : (chunks text).headD [] <+: text := by
  cases hchunks : chunks text with
  | nil => exact absurd hchunks (chunks_ne_nil text)
  | cons first rest =>
    refine ⟨rest.flatten, ?_⟩
    rw [← flatten_chunks text, hchunks, List.flatten_cons, List.headD_cons]

/-- The first section is one of the sections. -/
theorem head_chunks_mem (text : List Char) : (chunks text).headD [] ∈ chunks text := by
  cases hchunks : chunks text with
  | nil => exact absurd hchunks (chunks_ne_nil text)
  | cons first rest => exact List.mem_cons_self

/-- No section holds the end marker. -/
theorem not_infix_of_mem_chunks {text chunk : List Char} (h : chunk ∈ chunks text) :
    ¬ "]]>".toList <:+: chunk := by
  have hmarker : "]]>".toList = [']', ']', '>'] := rfl
  rw [hmarker]
  fun_induction chunks text generalizing chunk with
  | case1 =>
    rw [List.mem_singleton.mp h]
    simp
  | case2 rest ih =>
    rcases List.mem_cons.mp h with rfl | h
    · decide
    · rcases mem_consFirst h with rfl | h
      · rw [List.infix_cons_iff, not_or]
        exact ⟨by simp, ih (head_chunks_mem rest)⟩
      · exact ih h
  | case3 c rest hcut ih =>
    rcases mem_consFirst h with rfl | h
    · rw [List.infix_cons_iff, not_or]
      refine ⟨?_, ih (head_chunks_mem rest)⟩
      rw [List.cons_prefix_cons]
      rintro ⟨rfl, hprefix⟩
      -- The marker would start with this character and go on in the rest of the text.
      obtain ⟨tail, rfl⟩ := hprefix.trans (head_chunks_isPrefix rest)
      exact hcut tail rfl rfl
    · exact ih h

/-! ## What is written is read -/

/-- A name of letters, digits and underscores. -/
def IsPlainName (name : List Char) : Prop :=
  ∀ c ∈ name, c.isAlphanum = true ∨ c = '_'

instance (name : List Char) : Decidable (IsPlainName name) := List.decidableBAll _ name

/-- Tokens that are read off what is written for them, in front of an opening bracket. -/
def IsWritten (tokens : List Token) : Prop :=
  ∀ rest, (∀ c ∈ rest.head?, c = '<') → Lexes tokens (write tokens ++ rest) rest

namespace IsPlainName

variable {name : List Char}

/-- A plain name holds no marks. -/
theorem ne (h : IsPlainName name) {c : Char} (hc : c.isAlphanum = false ∧ c ≠ '_') :
    c ∉ name := by
  intro hm
  rcases h c hm with halpha | hunder
  · simp [hc.1] at halpha
  · exact hc.2 hunder

/-- A plain name can be followed by more of a tag. -/
theorem tagBody_append (h : IsPlainName name) {rest : List Char} (hrest : TagBody rest) :
    TagBody (name ++ rest) := by
  induction name with
  | nil => exact hrest
  | cons c name ih =>
    refine .char ⟨?_, ?_, ?_⟩ (ih fun d hd => h d (List.mem_cons_of_mem _ hd))
    all_goals
      rintro rfl
      exact h.ne (by decide) List.mem_cons_self

/-- A plain name holds no white space. -/
theorem isSpace_eq_false (h : IsPlainName name) : ∀ c ∈ name, isSpace c = false := by
  intro c hc
  cases hspace : isSpace c with
  | false => rfl
  | true =>
    simp only [isSpace, Bool.or_eq_true, beq_iff_eq] at hspace
    rcases hspace with ((rfl | rfl) | rfl) | rfl <;> exact absurd hc (h.ne (by decide))

/-- A plain name is a tag without attributes. -/
theorem ofBody_eq (h : IsPlainName name) : Tag.ofBody name = ⟨name, []⟩ := by
  have hspace : ∀ c ∈ name, (!isSpace c) = true := by
    intro c hc
    rw [h.isSpace_eq_false c hc]
    rfl
  have htake : (name ++ []).takeWhile (!isSpace ·) = name ++ [].takeWhile (!isSpace ·) :=
    List.takeWhile_append_of_pos hspace
  have hdrop : (name ++ []).dropWhile (!isSpace ·) = [].dropWhile (!isSpace ·) :=
    List.dropWhile_append_of_pos hspace
  rw [List.append_nil, List.takeWhile_nil, List.append_nil] at htake
  rw [List.append_nil, List.dropWhile_nil] at hdrop
  rw [Tag.ofBody, htake, hdrop]

/-- A plain name is the whole body of an opening tag. -/
theorem tagToken_eq (h : IsPlainName name) : tagToken name = .openTag ⟨name, []⟩ := by
  have hslash : name.getLast? ≠ some '/' := fun hlast =>
    h.ne (by decide) (List.mem_of_getLast? hlast)
  rw [tagToken, if_neg hslash, h.ofBody_eq]

/-- With a slash behind it, a plain name is the whole body of an empty element. -/
theorem tagToken_slash (h : IsPlainName name) :
    tagToken (name ++ ['/']) = .emptyTag ⟨name, []⟩ := by
  rw [tagToken, if_pos List.getLast?_concat, List.dropLast_concat, h.ofBody_eq]

/-- A closing tag holds a plain name as it is. -/
theorem closeName_eq (h : IsPlainName name) : closeName name = name := by
  unfold closeName
  split
  · rfl
  · have hspace : ∀ c ∈ name.reverse, ¬ isSpace c = true := by
      intro c hc
      rw [h.isSpace_eq_false c (List.mem_reverse.mp hc)]
      decide
    cases hreverse : name.reverse with
    | nil => simpa using hreverse.symm
    | cons c rest =>
      rw [List.dropWhile_cons_of_neg (hspace c (by rw [hreverse]; exact List.mem_cons_self)),
        ← hreverse, List.reverse_reverse]

/-- An opening tag of a plain name is one token. -/
theorem lexeme_openTag (h : IsPlainName name) :
    Lexeme (.openTag ⟨name, []⟩) (Token.write (.openTag ⟨name, []⟩)) := by
  have hbody := h.tagBody_append .nil
  rw [List.append_nil] at hbody
  rw [Token.write_openTag, List.nil_append, ← h.tagToken_eq]
  refine .tag hbody fun c hc => ?_
  have hmem := List.mem_of_mem_head? hc
  refine ⟨?_, ?_, ?_⟩ <;> rintro rfl <;> exact h.ne (by decide) hmem

/-- An empty tag of a plain name is one token. -/
theorem lexeme_emptyTag (h : IsPlainName name) (hne : name ≠ []) :
    Lexeme (.emptyTag ⟨name, []⟩) (Token.write (.emptyTag ⟨name, []⟩)) := by
  have hslash : TagBody ['/'] := .char (by decide) .nil
  have hlexeme := Lexeme.tag (h.tagBody_append hslash) fun c hc => by
    obtain ⟨d, rest, rfl⟩ := List.exists_cons_of_ne_nil hne
    obtain rfl := Option.some.inj hc
    refine ⟨?_, ?_, ?_⟩ <;> rintro rfl <;> exact h.ne (by decide) List.mem_cons_self
  rw [h.tagToken_slash, List.append_assoc] at hlexeme
  rwa [Token.write_emptyTag]

/-- A closing tag of a plain name is one token. -/
theorem lexeme_closeTag (h : IsPlainName name) :
    Lexeme (.closeTag name) (Token.write (.closeTag name)) := by
  have hlexeme : Lexeme (.closeTag (closeName name)) ('<' :: '/' :: (name ++ ['>'])) :=
    .closeTag (h.ne (by decide))
  rwa [h.closeName_eq] at hlexeme

end IsPlainName

/-- Whether what is written for tokens starts with an opening bracket. -/
def StartsAtBracket (tokens : List Token) : Prop := ∀ c ∈ (write tokens).head?, c = '<'

/-- Tokens that start at a bracket do so in front of a bracket. -/
theorem StartsAtBracket.append {tokens : List Token} {rest : List Char}
    (h : StartsAtBracket tokens) (hrest : ∀ c ∈ rest.head?, c = '<') :
    ∀ c ∈ (write tokens ++ rest).head?, c = '<' := by
  unfold StartsAtBracket at h
  cases hwrite : write tokens with
  | nil => exact hrest
  | cons d tail =>
    rw [hwrite] at h
    exact h

/-- Nothing is written for no tokens. -/
theorem isWritten_nil : IsWritten [] := fun rest _ => .nil rest

/-- Tokens in front of a bracket are written one part after another. -/
theorem isWritten_append {first second : List Token} (hfirst : IsWritten first)
    (hsecond : IsWritten second) (hstarts : StartsAtBracket second) :
    IsWritten (first ++ second) := by
  intro rest hrest
  rw [write_append, List.append_assoc]
  exact (hfirst _ (hstarts.append hrest)).append (hsecond rest hrest)

/-- Text without brackets is read off as it is. -/
theorem isWritten_text {raw : List Char} (hne : raw ≠ []) (hopen : '<' ∉ raw) :
    IsWritten [.text raw] := by
  intro rest hrest
  rw [write_cons, Token.write_text, write_nil, List.append_nil]
  exact .cons (.text hne hopen) (fun _ => hrest) (.nil rest)

/-- Tokens that are read off what is written for them, whatever follows. -/
def IsClosed (tokens : List Token) : Prop :=
  ∀ rest, Lexes tokens (write tokens ++ rest) rest

/-- Behind tokens that end in a bracket, others are written. -/
theorem IsClosed.append {first second : List Token} (hfirst : IsClosed first)
    (hsecond : IsWritten second) : IsWritten (first ++ second) := by
  intro rest hrest
  rw [write_append, List.append_assoc]
  exact (hfirst _).append (hsecond rest hrest)

/-- A section without its end marker inside is read off as it is. -/
theorem isClosed_cdata {content : List Char} (h : ¬ "]]>".toList <:+: content) :
    IsClosed [.cdata content] := by
  intro rest
  have hword : "[CDATA[".toList.map Char.toLower = "[cdata[".toList := by decide
  rw [write_cons, write_nil, List.append_nil, Token.write_cdata]
  exact .cons (.cdata hword (endsFirst_of_infix_free h)) (by simp [Token.isText]) (.nil rest)

/-- Sections are read off one by one. -/
theorem isWritten_cdata {contents : List (List Char)}
    (h : ∀ content ∈ contents, ¬ "]]>".toList <:+: content) :
    IsWritten (contents.map .cdata) := by
  induction contents with
  | nil => exact isWritten_nil
  | cons content contents ih =>
    obtain ⟨hcontent, hrest⟩ := List.forall_mem_cons.mp h
    exact (isClosed_cdata hcontent).append (ih hrest)

/-- The sections of a text are written. -/
theorem isWritten_sections (text : List Char) : IsWritten (sections text) :=
  isWritten_cdata fun _ => not_infix_of_mem_chunks

/-- An element with a plain name is read off if its content is. -/
theorem isClosed_element {name : String} {content : List Token} (hname : IsPlainName name.toList)
    (hcontent : IsWritten content) : IsClosed (element name content) := by
  intro rest
  have hclose := Lexes.cons hname.lexeme_closeTag (by simp [Token.isText]) (.nil rest)
  have hinner := (hcontent _ (by simp)).append hclose
  have hopen := Lexes.cons hname.lexeme_openTag (by simp [Token.isText]) hinner
  rwa [element, List.cons_append, write_cons, write_append, write_cons, write_nil,
    List.append_nil, List.append_assoc, List.append_assoc]

/-- An element of a plain name is written. -/
theorem isWritten_element {name : String} {content : List Token} (hname : IsPlainName name.toList)
    (hcontent : IsWritten content) : IsWritten (element name content) :=
  fun rest _ => isClosed_element hname hcontent rest

/-- An element starts at a bracket. -/
theorem startsAtBracket_element (name : String) (content : List Token) :
    StartsAtBracket (element name content) := by
  simp [StartsAtBracket, element]

/-- A document that is one written element is read completely. -/
theorem scan_write {tokens : List Token} (h : IsWritten tokens) :
    scan (write tokens) = ⟨tokens, true⟩ := by
  have hlexes := h [] (by simp)
  rw [List.append_nil] at hlexes
  exact hlexes.scan_eq

end CallbackGateway.Markup
