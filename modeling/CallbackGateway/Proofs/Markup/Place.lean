import CallbackGateway.Proofs.Markup.Seam
import CallbackGateway.Proofs.Markup.Writing

/-!
# Places in a document

A place lies within the root of a document, between its first characters and the others. If the
text of an element is put there, the document is as complete as it was, its tags match as they
did, and the content of the root has one element more.
-/

namespace CallbackGateway.Markup

/-- Whether a text is one whole element, with a name and with text that can be read. -/
def IsElementText (name written : List Char) : Prop :=
  ∃ tokens, Lexes tokens written [] ∧ IsElement tokens ∧ startName tokens = some name ∧
    tokens.all Token.hasValue = true

/-- A place in a document, within its root and inside elements with some names there. It lies
between an element that ends and one that starts, if there are such neighbours. No token is cut
there but a text, and no reference in it. -/
inductive IsPlace : List (List Char) → Option (List Char) → Option (List Char) →
    List Char → List Char → Prop
  | within {path : List (List Char)} {before left right after : List Token} {root : Tag}
      {front back : List Char} (hbefore : ∀ token ∈ before, token.isTag = false)
      (hfront : Lexes (before ++ .openTag root :: left) front [])
      (hback : (scan back).tokens = right ++ .closeTag root.name :: after)
      (hplace : Hole path left right)
      (hcut : CutsNoReference (before ++ .openTag root :: left)) :
      IsPlace path (endName left) (startName right) front back

variable {path : List (List Char)} {last next : Option (List Char)} {front back : List Char}

/-- Something is in front of a place. -/
theorem IsPlace.front_ne_nil (h : IsPlace path last next front back) : front ≠ [] := by
  rintro rfl
  cases h with
  | within _ hfront =>
    have hscan := hfront.scan_eq
    rw [scan_nil, Scan.mk.injEq] at hscan
    simp at hscan

/-! ## Places between tokens -/

/-- No reference is cut behind a token that is no text. -/
theorem cutsNoReference_of_last {before left : List Token} {tag : Tag}
    (h : ∀ token ∈ left.getLast?, token.isText = false) :
    CutsNoReference (before ++ .openTag tag :: left) := by
  intro raw hraw
  rw [List.getLast?_append, List.getLast?_cons] at hraw
  cases hend : left.getLast? with
  | none =>
    rw [hend] at hraw
    simp at hraw
  | some token =>
    rw [hend] at hraw
    obtain rfl := Option.some.inj hraw
    exact absurd (h _ hend) (by simp [Token.isText])

/-- Between any two tokens within the root is a place. -/
theorem exists_isPlace {before left right after : List Token} {root : Tag} {text : List Char}
    (hbefore : ∀ token ∈ before, token.isTag = false)
    (htokens : (scan text).tokens =
      before ++ .openTag root :: left ++ (right ++ .closeTag root.name :: after))
    (hplace : Hole path left right) (hlast : ∀ token ∈ left.getLast?, token.isText = false) :
    ∃ front back, text = front ++ back ∧
      IsPlace path (endName left) (startName right) front back := by
  rcases lexes_of_scan htokens with ⟨back, hfront, hback, -⟩ | ⟨hnil, -⟩
  · obtain ⟨front, hsplit, hfront⟩ := hfront.split
    exact ⟨front, back, hsplit, .within hbefore hfront hback hplace (cutsNoReference_of_last hlast)⟩
  · simp at hnil

/-- A written element is the text of an element, if its content can be read. -/
theorem isElementText_write {name : String} {content : List Token}
    (hname : IsPlainName name.toList) (hcontent : IsWritten content) (hbalanced : Balanced content)
    (hvalue : content.all Token.hasValue = true) :
    IsElementText name.toList (write (element name content)) := by
  have hlexes := isWritten_element hname hcontent [] (by simp)
  rw [List.append_nil] at hlexes
  refine ⟨_, hlexes, .element _ hbalanced, rfl, ?_⟩
  rw [element, List.cons_append, List.all_cons, List.all_append, hvalue]
  rfl

/-- Between the elements of a written root is a place. -/
theorem isPlace_write {root : String} {left right : List Token} (hroot : IsPlainName root.toList)
    (hleft : IsWritten left) (hright : IsWritten right) (hplace : Hole path left right)
    (hlast : ∀ token ∈ left.getLast?, token.isText = false) :
    IsPlace path (endName left) (startName right) (write (.openTag ⟨root.toList, []⟩ :: left))
      (write (right ++ [.closeTag root.toList])) := by
  have hfront : Lexes ([] ++ .openTag ⟨root.toList, []⟩ :: left)
      (write (.openTag ⟨root.toList, []⟩ :: left)) [] := by
    have hlexes := hleft [] (by simp)
    rw [List.append_nil] at hlexes
    exact .cons hroot.lexeme_openTag (by simp [Token.isText]) hlexes
  have hback : (scan (write (right ++ [.closeTag root.toList]))).tokens =
      right ++ [.closeTag root.toList] := by
    rw [write_append]
    have hclose : Lexes [.closeTag root.toList] (write [.closeTag root.toList]) [] :=
      .cons hroot.lexeme_closeTag (by simp [Token.isText]) (.nil [])
    rw [((hright _ (by simp)).append hclose).scan_eq]
  exact .within (by simp) hfront hback hplace (cutsNoReference_of_last hlast)

/-! ## One element more -/

/-- A document with an element more is as complete as it was, its names match as they did, and
the content of its root is wider. -/
theorem IsPlace.exists_widened {name written : List Char} (h : IsPlace path last next front back)
    (hwritten : IsElementText name written) :
    (scan (front ++ (written ++ back))).complete = (scan (front ++ back)).complete ∧
      namesMatch [] (scan (front ++ (written ++ back))).tokens =
        namesMatch [] (scan (front ++ back)).tokens ∧
      ∀ kept, keepLeafText (scan (front ++ back)).tokens = some kept →
        ∃ layout root inner wider tail parts others, (∀ token ∈ layout, token.isTag = false) ∧
          kept = layout ++ .openTag root :: (inner ++ .closeTag root.name :: tail) ∧
          keepLeafText (scan (front ++ (written ++ back))).tokens =
            some (layout ++ .openTag root :: (wider ++ .closeTag root.name :: tail)) ∧
          Content inner parts ∧ Content wider others ∧
          Widened name path last next (joinRuns [] parts) (joinRuns [] others) := by
  obtain ⟨added, hadded, helement, hname, hvalue⟩ := hwritten
  cases h with
  | @within before left right after root _ _ hbefore hfront hback hplace hcut =>
    obtain ⟨hjoined, hcomplete⟩ := joined_scan hfront back
    have hbracket : ∀ c ∈ (written ++ back).head?, c = '<' := by
      obtain ⟨first, rest, rfl, hfirst⟩ := helement.exists_first
      cases hadded with
      | cons hlexeme =>
        have hhead := head?_of_lexeme hlexeme (Token.isText_of_isTag hfirst)
        obtain ⟨c, tail, rfl⟩ := List.exists_cons_of_ne_nil (ne_nil_of_lexeme hlexeme)
        obtain rfl := Option.some.inj hhead
        exact fun c hc => (Option.some.inj hc).symm
    have hrest : Lexes added (written ++ back) back := by
      rw [← List.nil_append added] at hadded ⊢
      exact hadded.append_rest helement back
    obtain ⟨htokens, hsame⟩ := ((hfront.append_markup hbracket).append hrest).scan
    rw [List.append_assoc] at htokens
    refine ⟨hsame.trans hcomplete.symm, ?_, fun kept hkept => ?_⟩
    · rw [htokens, helement.balanced.namesMatch_insert, ← namesMatch_filter, ← hjoined.filter_tags,
        namesMatch_filter]
    · rw [hback] at hjoined htokens
      rw [htokens]
      obtain ⟨layout, inner, wider, tail, parts, others, hlayout, hsplit, hinserted, hinner, hwider,
        hwidened⟩ := exists_widened_root hbefore hplace hjoined hcut helement hname hvalue hkept
      exact ⟨layout, root, inner, wider, tail, parts, others, hlayout, hsplit, hinserted, hinner,
        hwider, hwidened⟩

end CallbackGateway.Markup
