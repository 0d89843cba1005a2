import CallbackGateway.Proofs.Markup.Extent

/-!
# The lexical grammar of markup

What each token may look like in a document. The reader splits off exactly the tokens of this
grammar, with one exception: a closing tag at the very end of a document may lack its last
character.

Text has no end of its own: it goes on to the next opening bracket or to the end.
-/

namespace CallbackGateway.Markup

/-- Which characters spell a token. -/
inductive Lexeme : Token → List Char → Prop
  | text {raw : List Char} (hne : raw ≠ []) (hopen : '<' ∉ raw) : Lexeme (.text raw) raw
  | tag {body : List Char} (hbody : TagBody body)
      (hfirst : ∀ c ∈ body.head?, c ≠ '!' ∧ c ≠ '?' ∧ c ≠ '/') :
      Lexeme (tagToken body) ('<' :: (body ++ ['>']))
  | closeTag {body : List Char} (hclose : '>' ∉ body) :
      Lexeme (.closeTag (closeName body)) ('<' :: '/' :: (body ++ ['>']))
  | cdata {word content : List Char} (hword : word.map Char.toLower = "[cdata[".toList)
      (hcontent : EndsFirst "]]>".toList content) :
      Lexeme (.cdata content) ('<' :: '!' :: (word ++ (content ++ "]]>".toList)))
  | comment {body : List Char} (hbody : EndsFirst "-->".toList body) :
      Lexeme (.comment body) ('<' :: '!' :: '-' :: '-' :: (body ++ "-->".toList))
  | instruction {body : List Char} (hne : body ≠ []) (hclose : '>' ∉ body) :
      Lexeme (.instruction body) ('<' :: '?' :: (body ++ ['?', '>']))
  | doctype {word body : List Char} (hword : word.map Char.toLower = "doctype".toList)
      (hbody : isBracketed 0 body = true) (hne : body.dropWhile isSpace ≠ []) :
      Lexeme (.doctype (body.dropWhile isSpace)) ('<' :: '!' :: (word ++ (body ++ ['>'])))

/-- Whether a token is text. -/
def Token.isText : Token → Bool
  | .text _ => true
  | _ => false

/-- Characters up to one that is not among them are split off. -/
theorem span_of_notMem {mark : Char} {body : List Char} (h : mark ∉ body) (rest : List Char)
    (hrest : ∀ c ∈ rest.head?, c = mark) :
    (body ++ rest).takeWhile (· != mark) = body ∧
      (body ++ rest).dropWhile (· != mark) = rest := by
  have hall : ∀ c ∈ body, (c != mark) = true := by
    intro c hc
    rw [bne_iff_ne]
    rintro rfl
    exact h hc
  rw [List.takeWhile_append_of_pos hall, List.dropWhile_append_of_pos hall]
  cases rest with
  | nil => simp
  | cons c rest =>
    have hc : c = mark := hrest c rfl
    simp [hc]

/-- What stands before the first occurrence of a character does not hold it. -/
theorem notMem_takeWhile (mark : Char) (text : List Char) :
    mark ∉ text.takeWhile (· != mark) := by
  intro h
  have := List.all_takeWhile (p := (· != mark)) (l := text)
  rw [List.all_eq_true] at this
  simpa using this mark h

/-- What is left starts with the character. -/
theorem head?_dropWhile (mark : Char) (text : List Char) :
    ∀ c ∈ (text.dropWhile (· != mark)).head?, c = mark := by
  intro c hc
  have := List.head?_dropWhile_not (· != mark) text
  rw [Option.mem_def.mp hc] at this
  simpa using this

/-! ## What a document starts with -/

/-- A bracket with no mark behind it starts a tag. -/
theorem step_tag {text : List Char} (hne : text ≠ [])
    (hfirst : ∀ c ∈ text.head?, c ≠ '!' ∧ c ≠ '?' ∧ c ≠ '/') :
    step ('<' :: text) = Step.ofSplit tagToken (tagBody? none text) := by
  cases text with
  | nil => exact absurd rfl hne
  | cons c text =>
    obtain ⟨h1, h2, h3⟩ := hfirst c rfl
    rw [step] <;> simp_all

/-- Text goes up to the next bracket. -/
theorem step_text {c : Char} {text : List Char} (hc : c ≠ '<') :
    step (c :: text) = .token (.text ((c :: text).takeWhile (· != '<')))
      ((c :: text).dropWhile (· != '<')) := by
  rw [step] <;> simp_all

/-- A slash makes a tag a closing one. -/
theorem step_closeTag (text : List Char) : step ('<' :: '/' :: text) =
    .token (.closeTag (closeName (text.takeWhile (· != '>'))))
      ((text.dropWhile (· != '>')).drop 1) := rfl

/-- A question mark starts an instruction. -/
theorem step_instruction (text : List Char) :
    step ('<' :: '?' :: text) = instructionStep text := rfl

/-- An exclamation mark starts a declaration. -/
theorem step_declaration (text : List Char) :
    step ('<' :: '!' :: text) = declarationStep text := rfl

/-- The word of a section opens one. -/
theorem declarationStep_cdata {text : List Char} (h : opener text = "[cdata[".toList) :
    declarationStep text = Step.ofSplit .cdata (breakAt? "]]>".toList (text.drop 7)) := by
  unfold declarationStep
  rw [if_pos h]

/-- The word of a document type opens one. -/
theorem declarationStep_doctype {text : List Char} (h : opener text = "doctype".toList) :
    declarationStep text = doctypeStep (text.drop 7) := by
  unfold declarationStep
  rw [h, if_neg (by decide), if_pos rfl]

/-- Two dashes open a comment. -/
theorem declarationStep_comment (text : List Char) :
    declarationStep ('-' :: '-' :: text) = Step.ofSplit .comment (breakAt? "-->".toList text) := by
  have hhead : (opener ('-' :: '-' :: text)).head? = some '-' := rfl
  unfold declarationStep
  rw [if_neg fun h => absurd hhead (by rw [h]; decide),
    if_neg fun h => absurd hhead (by rw [h]; decide)]
  rfl

/-- A section or declaration opens with a word of seven letters. -/
theorem opener_append {word expected : List Char} (h : word.map Char.toLower = expected)
    (hlength : expected.length = 7) (rest : List Char) :
    opener (word ++ rest) = expected ∧ (word ++ rest).drop 7 = rest := by
  have hword : word.length = 7 := by rw [← hlength, ← h, List.length_map]
  constructor
  · rw [opener, ← hword, List.take_left, h]
  · rw [← hword, List.drop_left]

/-- A token is read off the characters that spell it. -/
theorem step_of_lexeme {token : Token} {written rest : List Char} (h : Lexeme token written)
    (hrest : token.isText = true → ∀ c ∈ rest.head?, c = '<') :
    step (written ++ rest) = .token token rest := by
  cases h with
  | text hne hopen =>
    obtain ⟨htake, hdrop⟩ := span_of_notMem hopen rest (hrest rfl)
    obtain ⟨c, raw, rfl⟩ := List.exists_cons_of_ne_nil hne
    have hc : c ≠ '<' := fun hc => hopen (by simp [hc])
    rw [List.cons_append, step_text hc, ← List.cons_append, htake, hdrop]
  | @tag body hbody hfirst =>
    rw [List.cons_append, List.append_assoc, List.singleton_append, step_tag (by simp),
      tagBody?_of_tagBody hbody]
    · rfl
    · cases body with
      | nil => simp
      | cons c body => exact hfirst
  | @closeTag body hclose =>
    obtain ⟨htake, hdrop⟩ := span_of_notMem hclose ('>' :: rest) (by simp)
    rw [List.cons_append, List.cons_append, List.append_assoc, List.singleton_append,
      step_closeTag, htake, hdrop]
    rfl
  | @cdata word content hword hcontent =>
    obtain ⟨hopener, hdrop⟩ :=
      opener_append hword (by decide) (content ++ ("]]>".toList ++ rest))
    rw [List.cons_append, List.cons_append, List.append_assoc, List.append_assoc,
      step_declaration, declarationStep_cdata hopener, hdrop,
      breakAt?_of_endsFirst (by decide) hcontent]
    rfl
  | @comment body hbody =>
    rw [List.cons_append, List.cons_append, List.cons_append, List.cons_append,
      List.append_assoc, step_declaration, declarationStep_comment,
      breakAt?_of_endsFirst (by decide) hbody]
    rfl
  | @instruction body hne hclose =>
    have hbody : '>' ∉ body ++ ['?'] := by simp [hclose]
    obtain ⟨htake, hdrop⟩ := span_of_notMem hbody ('>' :: rest) (by simp)
    have hlength : 2 ≤ (body ++ ['?']).length := by
      have := List.length_pos_iff.mpr hne
      rw [List.length_append, List.length_singleton]
      omega
    have htext : body ++ ['?', '>'] ++ rest = body ++ ['?'] ++ '>' :: rest := by simp
    rw [List.cons_append, List.cons_append, step_instruction, htext, instructionStep, htake, hdrop,
      if_pos ⟨hlength, by simp⟩, List.dropLast_concat]
    rfl
  | @doctype word body hword hbody hne =>
    obtain ⟨hopener, hdrop⟩ := opener_append hword (by decide) (body ++ '>' :: rest)
    rw [List.cons_append, List.cons_append, List.append_assoc, List.append_assoc,
      List.singleton_append, step_declaration, declarationStep_doctype hopener, hdrop,
      doctypeStep, doctypeBody?_of_isBracketed hbody]
    exact if_neg hne

/-- A closing tag or an instruction without its last character. -/
inductive Unclosed : Token → List Char → Prop
  | closeTag {body : List Char} (hclose : '>' ∉ body) :
      Unclosed (.closeTag (closeName body)) ('<' :: '/' :: body)
  | instruction {body : List Char} (hne : body ≠ []) (hclose : '>' ∉ body) :
      Unclosed (.instruction body) ('<' :: '?' :: (body ++ ['?']))

/-- A token of a split is built of its body. -/
theorem ofSplit_eq_token {build : List Char → Token} {split : Option (List Char × List Char)}
    {token : Token} {rest : List Char} (h : Step.ofSplit build split = .token token rest) :
    ∃ body, split = some (body, rest) ∧ token = build body := by
  cases split with
  | none => simp [Step.ofSplit] at h
  | some pair =>
    simp only [Step.ofSplit, Step.token.injEq] at h
    exact ⟨pair.1, by rw [← h.2], h.1.symm⟩

/-- What is read off after `<!` is a section, a declaration or a comment. -/
theorem lexeme_of_declarationStep {text rest : List Char} {token : Token}
    (h : declarationStep text = .token token rest) :
    ∃ written, text = written ++ rest ∧ Lexeme token ('<' :: '!' :: written) ∧
      token.isText = false := by
  unfold declarationStep at h
  split at h
  · rename_i hopener
    obtain ⟨content, hsplit, rfl⟩ := ofSplit_eq_token h
    obtain ⟨htext, hends⟩ := endsFirst_of_breakAt? hsplit
    refine ⟨text.take 7 ++ (content ++ "]]>".toList), ?_, .cdata hopener hends, rfl⟩
    rw [List.append_assoc, List.append_assoc, ← htext, List.take_append_drop]
  · split at h
    · rename_i hopener
      unfold doctypeStep at h
      split at h
      · rename_i body after hsplit
        obtain ⟨htext, hbracketed⟩ := isBracketed_of_doctypeBody? hsplit
        dsimp only at h
        split at h
        · simp at h
        · rename_i hne
          simp only [Step.token.injEq] at h
          obtain ⟨rfl, rfl⟩ := h
          refine ⟨text.take 7 ++ (body ++ ['>']), ?_, .doctype hopener hbracketed hne, rfl⟩
          rw [List.append_assoc, List.append_assoc, List.singleton_append, ← htext,
            List.take_append_drop]
      · simp at h
    · split at h
      · obtain ⟨body, hsplit, rfl⟩ := ofSplit_eq_token h
        obtain ⟨htext, hends⟩ := endsFirst_of_breakAt? hsplit
        refine ⟨'-' :: '-' :: (body ++ "-->".toList), ?_, .comment hends, rfl⟩
        rw [List.cons_append, List.cons_append, List.append_assoc, ← htext]
      · simp at h

/-- What is read off after `<?` is an instruction. -/
theorem lexeme_of_instructionStep {text rest : List Char} {token : Token}
    (h : instructionStep text = .token token rest) :
    ∃ written, '<' :: '?' :: text = written ++ rest ∧ token.isText = false ∧
      (Lexeme token written ∨ rest = [] ∧ Unclosed token written) := by
  unfold instructionStep at h
  dsimp only at h
  split at h
  · rename_i hbody
    simp only [Step.token.injEq] at h
    obtain ⟨rfl, rfl⟩ := h
    have hsplit := List.takeWhile_append_dropWhile (p := (· != '>')) (l := text)
    have hnotMem := notMem_takeWhile '>' text
    have hhead := head?_dropWhile '>' text
    generalize text.takeWhile (· != '>') = body at hbody hsplit hnotMem
    generalize text.dropWhile (· != '>') = after at hsplit hhead
    subst hsplit
    obtain ⟨hlength, hlast⟩ := hbody
    obtain ⟨body, rfl⟩ := List.getLast?_eq_some_iff.mp hlast
    rw [List.dropLast_concat]
    have hne : body ≠ [] := by
      rintro rfl
      simp at hlength
    have hclose : '>' ∉ body := fun hm => hnotMem (List.mem_append_left _ hm)
    cases after with
    | nil =>
      exact ⟨'<' :: '?' :: (body ++ ['?']), by simp, rfl, .inr ⟨rfl, .instruction hne hclose⟩⟩
    | cons c rest =>
      have hc : c = '>' := hhead c rfl
      subst hc
      exact ⟨'<' :: '?' :: (body ++ ['?', '>']), by simp, rfl, .inl (.instruction hne hclose)⟩
  · simp at h

/-- What is read off after `</` is a closing tag. -/
theorem lexeme_of_closeTag {text rest : List Char} {token : Token}
    (h : step ('<' :: '/' :: text) = .token token rest) :
    ∃ written, '<' :: '/' :: text = written ++ rest ∧ token.isText = false ∧
      (Lexeme token written ∨ rest = [] ∧ Unclosed token written) := by
  rw [step_closeTag] at h
  simp only [Step.token.injEq] at h
  obtain ⟨rfl, rfl⟩ := h
  have hsplit := List.takeWhile_append_dropWhile (p := (· != '>')) (l := text)
  have hclose := notMem_takeWhile '>' text
  have hhead := head?_dropWhile '>' text
  generalize text.takeWhile (· != '>') = body at hsplit hclose
  generalize text.dropWhile (· != '>') = after at hsplit hhead
  subst hsplit
  cases after with
  | nil => exact ⟨'<' :: '/' :: body, by simp, rfl, .inr ⟨rfl, .closeTag hclose⟩⟩
  | cons c rest =>
    have hc : c = '>' := hhead c rfl
    subst hc
    exact ⟨'<' :: '/' :: (body ++ ['>']), by simp, rfl, .inl (.closeTag hclose)⟩

/-- What is read off after `<` and a name is a tag. -/
theorem lexeme_of_tag {c : Char} {text rest : List Char} {token : Token}
    (hc : c ≠ '!' ∧ c ≠ '?' ∧ c ≠ '/') (h : step ('<' :: c :: text) = .token token rest) :
    ∃ written, '<' :: c :: text = written ++ rest ∧
      (token.isText = true → ∀ d ∈ rest.head?, d = '<') ∧
      (Lexeme token written ∨ rest = [] ∧ Unclosed token written) := by
  rw [step_tag (by simp) (by simpa using hc)] at h
  obtain ⟨body, hsplit, rfl⟩ := ofSplit_eq_token h
  obtain ⟨htext, hbody⟩ := tagBodyFrom_of_tagBody? hsplit
  have hfirst : ∀ d ∈ body.head?, d ≠ '!' ∧ d ≠ '?' ∧ d ≠ '/' := by
    intro d hd
    cases body with
    | nil => simp at hd
    | cons e body =>
      simp only [List.head?_cons, Option.mem_def, Option.some.injEq] at hd
      simp only [List.cons_append, List.cons.injEq] at htext
      rwa [← hd, ← htext.1]
  have hnotText : (tagToken body).isText = false := by
    unfold tagToken
    split <;> rfl
  exact ⟨'<' :: (body ++ ['>']), by simp [htext], by simp [hnotText], .inl (.tag hbody hfirst)⟩

/-- What is read off a document is spelled by its characters, but at the end of the document the
last character may be missing. -/
theorem lexeme_of_step {text rest : List Char} {token : Token}
    (h : step text = .token token rest) :
    ∃ written, text = written ++ rest ∧
      (token.isText = true → ∀ c ∈ rest.head?, c = '<') ∧
      (Lexeme token written ∨ rest = [] ∧ Unclosed token written) := by
  cases text with
  | nil => simp [step] at h
  | cons c text =>
    by_cases hopen : c = '<'
    · subst hopen
      cases text with
      | nil => simp [step] at h
      | cons d text =>
        by_cases hdeclaration : d = '!'
        · subst hdeclaration
          rw [step_declaration] at h
          obtain ⟨written, rfl, hlexeme, htext⟩ := lexeme_of_declarationStep h
          exact ⟨'<' :: '!' :: written, rfl, by simp [htext], .inl hlexeme⟩
        by_cases hinstruction : d = '?'
        · subst hinstruction
          rw [step_instruction] at h
          obtain ⟨written, hsplit, htext, hlexeme⟩ := lexeme_of_instructionStep h
          exact ⟨written, hsplit, by simp [htext], hlexeme⟩
        by_cases hcloses : d = '/'
        · subst hcloses
          obtain ⟨written, hsplit, htext, hlexeme⟩ := lexeme_of_closeTag h
          exact ⟨written, hsplit, by simp [htext], hlexeme⟩
        exact lexeme_of_tag ⟨hdeclaration, hinstruction, hcloses⟩ h
    · rw [step_text hopen] at h
      simp only [Step.token.injEq] at h
      obtain ⟨rfl, rfl⟩ := h
      refine ⟨(c :: text).takeWhile (· != '<'), ?_, fun _ => head?_dropWhile '<' _,
        .inl (.text ?_ ?_)⟩
      · rw [List.takeWhile_append_dropWhile]
      · rw [List.takeWhile_cons_of_pos (by simpa using hopen)]
        exact List.cons_ne_nil _ _
      · exact notMem_takeWhile '<' _

end CallbackGateway.Markup
