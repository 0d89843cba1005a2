import CallbackGateway.Proofs.Markup.KeptNotes

/-!
# Places for notes

A note may be put between any two tokens of a document, and between any two characters of a text
that do not belong to one reference. The document is read on behind the note as it was read
before, so that what is kept of it has the note more. An instruction with a closing bracket in it
is the exception: it cannot be read, and neither can the document.
-/

namespace CallbackGateway.Markup

/-- A document that starts with a bracket does not start with text. -/
theorem isText_of_scan {text : List Char} (h : ∀ c ∈ text.head?, c = '<') :
    ∀ token ∈ (scan text).tokens.head?, token.isText = false := by
  intro token htoken
  obtain ⟨tokens, htokens⟩ := List.head?_eq_some_iff.mp htoken
  obtain ⟨after, hstep, -⟩ := step_of_scan_cons htokens
  obtain ⟨written, rfl, -, hlexeme | ⟨-, hunclosed⟩⟩ := lexeme_of_step hstep
  · cases token with
    | openTag | emptyTag | closeTag | cdata | comment | instruction | doctype => rfl
    | text raw =>
      obtain ⟨rfl, hne, hopen⟩ := of_lexeme_text hlexeme
      obtain ⟨c, rest, rfl⟩ := List.exists_cons_of_ne_nil hne
      exact absurd List.mem_cons_self (h c rfl ▸ hopen)
  · cases hunclosed <;> rfl

/-- Texts do not stand next to each other. -/
theorem Lexes.isText_getLast? {before : List Token} {raw text : List Char}
    (h : Lexes (before ++ [.text raw]) text []) :
    ∀ token ∈ before.getLast?, token.isText = false := by
  intro token htoken
  obtain ⟨front, rfl⟩ := List.getLast?_eq_some_iff.mp htoken
  obtain ⟨middle, hfront, hlast⟩ := h.of_append
  obtain ⟨rfl, hne, hopen⟩ := of_lexeme_text hlast.lexeme_of_single
  obtain ⟨start, -, hsingle⟩ := hfront.of_append
  cases hsingle with
  | cons _ hafter hnil =>
    cases hnil
    obtain ⟨c, rest, rfl⟩ := List.exists_cons_of_ne_nil hne
    cases htext : token.isText with
    | false => rfl
    | true => exact absurd List.mem_cons_self (hafter htext c rfl ▸ hopen)

/-- A text with tokens is not empty. -/
theorem Lexes.ne_nil_of_tokens {tokens : List Token} {text rest : List Char}
    (h : Lexes tokens text rest) (hne : tokens ≠ []) : text ≠ [] := by
  cases h with
  | nil => exact absurd rfl hne
  | cons hlexeme => exact List.append_ne_nil_of_left_ne_nil (ne_nil_of_lexeme hlexeme) _

/-- A place for a note in a document, behind some tokens. No token is cut there but a text, and no
reference in it: if the whole text can be read, then so can what stands in front of the cut. -/
structure IsNotePlace (left : List Token) (front back : List Char) : Prop where
  lexes : Lexes left (dropMark front) []
  ne_nil : left ≠ []
  cut : ∀ raw, left.getLast? = some (.text raw) →
    isEscaped (raw ++ back.takeWhile (· != '<')) = true → isEscaped raw = true

/-- A mark is dropped in front of a place. -/
theorem IsNotePlace.dropMark_append {left : List Token} {front back : List Char}
    (h : IsNotePlace left front back) (rest : List Char) :
    dropMark (front ++ rest) = dropMark front ++ rest := by
  refine Markup.dropMark_append ?_ rest
  rintro rfl
  exact h.lexes.ne_nil_of_tokens h.ne_nil rfl

/-- Between any two tokens of a document is a place. -/
theorem exists_isNotePlace {text : List Char} {left right : List Token} (hleft : left ≠ [])
    (hright : right ≠ []) (h : (scan (dropMark text)).tokens = left ++ right) :
    ∃ front back, text = front ++ back ∧ (scan back).tokens = right ∧
      IsNotePlace left front back := by
  obtain ⟨back, hlexes, hback, -⟩ := (lexes_of_scan h).resolve_right fun h => hright h.1
  obtain ⟨front, hsplit, hfront⟩ := hlexes.split
  have hcut (raw : List Char) (hlast : left.getLast? = some (.text raw)) :
      isEscaped (raw ++ back.takeWhile (· != '<')) = true → isEscaped raw = true := by
    -- Text of the document ends at a bracket, so that none of it is cut off.
    obtain ⟨before, rfl⟩ := List.getLast?_eq_some_iff.mp hlast
    obtain ⟨_, -, hsingle⟩ := hlexes.of_append
    have hbracket : ∀ c ∈ back.head?, c = '<' := by
      cases hsingle with
      | cons _ hafter hnil =>
        cases hnil
        exact hafter rfl
    have htake : ([] ++ back).takeWhile (· != '<') = [] :=
      (span_of_notMem List.not_mem_nil back hbracket).1
    rw [List.nil_append] at htake
    rw [htake, List.append_nil]
    exact id
  have hne := hfront.ne_nil_of_tokens hleft
  obtain ⟨marked, hmarked, rfl⟩ := exists_of_dropMark_eq_append hne hsplit
  exact ⟨marked, back, hmarked, hback, hfront, hleft, hcut⟩

/-- Within a text, too, is a place at any cut that leaves the references whole. -/
theorem IsNotePlace.within {left : List Token} {front first back : List Char}
    (h : IsNotePlace left front (first ++ back))
    (hlast : ∀ token ∈ left.getLast?, token.isText = false) (hne : first ≠ [])
    (hopen : '<' ∉ first)
    (hcut : isEscaped (first ++ back.takeWhile (· != '<')) = true → isEscaped first = true) :
    IsNotePlace (left ++ [.text first]) (front ++ first) back := by
  obtain ⟨before, last, hleft⟩ := (List.eq_nil_or_concat left).resolve_left h.ne_nil
  rw [List.concat_eq_append] at hleft
  have hmarkup : last.isText = false := by
    refine hlast last ?_
    rw [hleft, Option.mem_def, List.getLast?_concat]
  have hlexes := hleft ▸ h.lexes
  refine ⟨?_, by simp, fun raw hraw => ?_⟩
  · rw [h.dropMark_append, hleft]
    exact (hlexes.concat hmarkup first).append (.single (.text hne hopen))
  · rw [List.getLast?_concat, Option.some.injEq, Token.text.injEq] at hraw
    rwa [← hraw]

/-- Whether a text is a comment or an instruction. -/
inductive IsNoteText : List Char → Prop
  | comment {body : List Char} (hbody : EndsFirst "-->".toList body) :
      IsNoteText ("<!--".toList ++ (body ++ "-->".toList))
  | instruction {body : List Char} (hne : body ≠ []) (hclose : '>' ∉ body) :
      IsNoteText ("<?".toList ++ (body ++ "?>".toList))

/-- The text of a note is the text of one token. -/
theorem IsNoteText.exists_note {written : List Char} (h : IsNoteText written) :
    ∃ note, Lexeme note written ∧ note.isNote = true := by
  cases h with
  | @comment body hbody => exact ⟨.comment body, .comment hbody, rfl⟩
  | @instruction body hne hclose => exact ⟨.instruction body, .instruction hne hclose, rfl⟩

/-- An instruction is read up to the first closing bracket, so that one in its body breaks it. -/
theorem step_of_bracket {body : List Char} (hbody : EndsFirst "?>".toList body)
    (hclose : '>' ∈ body) (rest : List Char) :
    step ('<' :: '?' :: (body ++ ("?>".toList ++ rest))) = .broken := by
  obtain ⟨first, second, rfl, hfirst⟩ : ∃ first second, body = first ++ '>' :: second ∧
      '>' ∉ first := by
    have hsplit := List.takeWhile_append_dropWhile (p := (· != '>')) (l := body)
    have hhead := head?_dropWhile '>' body
    refine ⟨body.takeWhile (· != '>'), (body.dropWhile (· != '>')).tail, ?_,
      notMem_takeWhile '>' body⟩
    cases hdrop : body.dropWhile (· != '>') with
    | nil =>
      have hall := List.dropWhile_eq_nil_iff.mp hdrop '>' hclose
      simp at hall
    | cons c tail =>
      rw [hdrop] at hsplit hhead
      obtain rfl : c = '>' := hhead c rfl
      exact hsplit.symm
  obtain ⟨htake, -⟩ := span_of_notMem hfirst ('>' :: second ++ ("?>".toList ++ rest)) (by simp)
  have hlast : first.getLast? ≠ some '?' := by
    intro hlast
    obtain ⟨front, rfl⟩ := List.getLast?_eq_some_iff.mp hlast
    have hnil := hbody front (second ++ "?>".toList) (by simp)
    simp at hnil
  rw [step_instruction, List.append_assoc, instructionStep, htake]
  exact if_neg fun hboth => hlast hboth.2

namespace IsNotePlace

variable {left : List Token} {front back : List Char} (h : IsNotePlace left front back)

include h

/-- What is kept of a document with a note more. -/
theorem exists_noted {note : Token} {kept : List Token} (hnote : note.isNote = true)
    (hkept : keepLeafText (scan (dropMark front ++ back)).tokens = some kept) :
    ∃ noted, keepLeafText (left ++ note :: (scan back).tokens) = some noted ∧
      Noted note (exposesSpace left (scan back).tokens = false) (dropLeadingMark kept)
        (dropLeadingMark noted) := by
  obtain ⟨hlexes, hne, hcut⟩ := h
  obtain ⟨before, last, rfl⟩ := (List.eq_nil_or_concat left).resolve_left hne
  rw [List.concat_eq_append] at hlexes hcut ⊢
  cases htext : last.isText with
  | false =>
    rw [(hlexes.concat htext back).scan.1] at hkept
    exact exists_noted_apart hnote _ htext hkept
  | true =>
    cases last with
    | openTag | emptyTag | closeTag | cdata | comment | instruction | doctype => cases htext
    | text first =>
      obtain ⟨second, rest, rfl, hopen, hrest, hwhole, hback⟩ := hlexes.exists_cut back
      have hbefore := hlexes.isText_getLast?
      obtain ⟨middle, -, hsingle⟩ := hlexes.of_append
      obtain ⟨-, hfirst, -⟩ := of_lexeme_text hsingle.lexeme_of_single
      have hsecond : (scan (second ++ rest)).tokens =
          (textPieces second).map Piece.token ++ (scan rest).tokens := by
        rw [textPieces]
        split
        · rename_i hnil
          rw [hnil]
          rfl
        · rename_i hsome
          exact (hback hsome).scan.1
      have hescaped : isEscaped (first ++ second) = true → isEscaped first = true := by
        have htake : (second ++ rest).takeWhile (· != '<') = second :=
          (span_of_notMem hopen rest hrest).1
        have hends := hcut first List.getLast?_concat
        rwa [htake] at hends
      rw [hwhole.scan.1, List.append_assoc, List.singleton_append] at hkept
      rw [hsecond, List.append_assoc, List.singleton_append]
      cases hleaf : before.foldl leafAfter false with
      | false => exact exists_noted_layout hnote _ hbefore hleaf hfirst hescaped hkept
      | true =>
        exact exists_noted_leaf hnote hbefore hleaf hfirst hescaped (isText_of_scan hrest) hkept

/-- A document with a note more is as complete as it was, its names match as they did, and it has
the same items but for the text of one run. -/
theorem exists_retold {written : List Char} (hwritten : IsNoteText written) :
    (scan (dropMark (front ++ (written ++ back)))).complete =
        (scan (dropMark (front ++ back))).complete ∧
      namesMatch [] (scan (dropMark (front ++ (written ++ back)))).tokens =
        namesMatch [] (scan (dropMark (front ++ back))).tokens ∧
      ∀ kept, keepLeafText (scan (dropMark (front ++ back))).tokens = some kept →
        ∃ noted, keepLeafText (scan (dropMark (front ++ (written ++ back)))).tokens = some noted ∧
          Retold (exposesSpace left (scan back).tokens = false) (assemble (dropLeadingMark kept))
            (assemble (dropLeadingMark noted)) := by
  obtain ⟨note, hlexeme, hnote⟩ := hwritten.exists_note
  have htext := Token.isText_of_isNote hnote
  have htag : note.isTag = false := by
    cases note with
    | comment | instruction => rfl
    | openTag | emptyTag | closeTag | text | cdata | doctype => cases hnote
  obtain ⟨hjoined, hcomplete⟩ := joined_scan h.lexes back
  have hbracket : ∀ c ∈ (written ++ back).head?, c = '<' := by
    intro c hc
    rw [List.head?_append, head?_of_lexeme hlexeme htext] at hc
    exact (Option.some.inj hc).symm
  have hsingle : Lexes [note] (written ++ back) back :=
    .cons hlexeme (by simp [htext]) (.nil back)
  obtain ⟨htokens, hsame⟩ := ((h.lexes.append_markup hbracket).append hsingle).scan
  rw [h.dropMark_append, h.dropMark_append, hcomplete, hsame, htokens, List.append_assoc,
    List.singleton_append]
  refine ⟨rfl, ?_, fun kept hkept => ?_⟩
  · rw [← namesMatch_filter, ← namesMatch_filter [] (scan (dropMark front ++ back)).tokens,
      hjoined.filter_tags, List.filter_append, List.filter_append,
      List.filter_cons_of_neg (by simp [htag])]
  · obtain ⟨noted, hnoted, hretold⟩ := h.exists_noted hnote hkept
    exact ⟨noted, hnoted, hretold.retold hnote⟩

/-- Where an instruction has a closing bracket in it, the document is not read to its end. -/
theorem complete_of_bracket {body : List Char} (hbody : EndsFirst "?>".toList body)
    (hclose : '>' ∈ body) : (scan (dropMark (front ++
      ("<?".toList ++ (body ++ "?>".toList) ++ back)))).complete = false := by
  have hbroken := step_of_bracket hbody hclose back
  have hscan : scan ('<' :: '?' :: (body ++ ("?>".toList ++ back))) = ⟨[], false⟩ := by
    rw [scan]
    split <;> simp_all
  have hlexes : Lexes left (dropMark front ++ '<' :: '?' :: (body ++ ("?>".toList ++ back)))
      ('<' :: '?' :: (body ++ ("?>".toList ++ back))) := h.lexes.append_markup (by simp)
  have htext : "<?".toList ++ (body ++ "?>".toList) ++ back =
      '<' :: '?' :: (body ++ ("?>".toList ++ back)) := by simp
  rw [h.dropMark_append, htext, hlexes.scan.2, hscan]

end IsNotePlace

end CallbackGateway.Markup
