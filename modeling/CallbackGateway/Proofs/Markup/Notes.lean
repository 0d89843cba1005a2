import CallbackGateway.Proofs.Markup.DividedText
import CallbackGateway.Proofs.Markup.Retold
import CallbackGateway.Proofs.Markup.Seam

/-!
# Notes in documents

Comments and instructions are notes: assembly drops them. A note that is put into a document, or
between two parts of a text, changes no tag, so that the document differs in the text of one run
at most. In a leaf the white space of text in front of a note is trimmed at the ends of the leaf,
where sections would have kept it.
-/

namespace CallbackGateway.Markup

/-! ## Notes among kept tokens -/

/-- Whether a token is a comment or an instruction. -/
def Token.isNote : Token → Bool
  | .comment _ | .instruction _ => true
  | _ => false

/-- A note is dropped where a document is put together. -/
theorem assembleFrom_note {note : Token} (h : note.isNote = true) (opened : List Opened)
    (parts : List Part) (rest : List Token) :
    assembleFrom opened parts (note :: rest) = assembleFrom opened parts rest := by
  cases note with
  | comment | instruction => rfl
  | openTag | emptyTag | closeTag | text | cdata | doctype => cases h

/-- A note in front of content leaves it as it is. -/
theorem Content.note {note : Token} (hnote : note.isNote = true) {rest : List Token}
    {parts : List Part} (h : Content rest parts) : Content (note :: rest) parts := by
  cases note with
  | comment => exact .comment h
  | instruction => exact .instruction h
  | openTag | emptyTag | closeTag | text | cdata | doctype => cases hnote

/-- Two lists of kept tokens, of which the second has a note more: between two tokens, within
layout, or in a leaf. Under a condition the note leaves the text of the leaf as it was. -/
inductive Noted (note : Token) (same : Prop) : List Token → List Token → Prop
  | apart (front back : List Token) : Noted note same (front ++ back) (front ++ note :: back)
  | layout (front back : List Token) {first second : List Char}
      (hfront : front.foldl leafAfter false = false)
      (hcut : isEscaped (first ++ second) = true → isEscaped first = true) :
      Noted note same (front ++ ((textPieces (first ++ second)).map Piece.token ++ back))
        (front ++ ((textPieces first).map Piece.token ++
          note :: ((textPieces second).map Piece.token ++ back)))
  | leaf (front : List Token) (tag : Tag) {first gap back : List Token} {text : List Char}
      {more : Option (List Char)} {next : Option Token} (hne : text ≠ [])
      (hfirst : ∀ token ∈ first, token.isTag = false)
      (hgap : ∀ token ∈ gap, token.isTag = false) (hvalue : gap.all Token.hasValue = true)
      (hback : ∀ token ∈ back.head?, token.isTag = true)
      (hsame : same → (∃ token ∈ back.head?, token.isStart = true) ∨
        ((¬ ∀ token ∈ first, token.isMisc = true) ∨ ∀ c ∈ text.head?, isSpace c = false) ∧
        ((¬ ∀ token ∈ placePending more next ++ gap, token.isMisc = true) ∨
          ∀ c ∈ text.getLast?, isSpace c = false)) :
      Noted note same
        (front ++ .openTag tag ::
          (first ++ (placePending (some (text ++ more.getD [])) next ++ (gap ++ back))))
        (front ++ .openTag tag :: (first ++ (placePending (some text) none ++
          note :: (placePending more next ++ (gap ++ back)))))

/-- The content of a leaf stays the same if the text that is divided has no white space at an end of
the leaf. -/
theorem joinRuns_leaf {first gap : List Part} {text : List Char} {more : Option (List Char)}
    {next : Option Token} (hne : text ≠ []) (hfirst : ∀ item, .whole item ∉ first)
    (hgap : ∀ item, .whole item ∉ gap)
    (hstart : (¬ ∀ part ∈ first, part.isLayout = true) ∨ ∀ c ∈ text.head?, isSpace c = false)
    (hend : (¬ ∀ part ∈ (placedPieces more next).map .piece ++ gap, part.isLayout = true) ∨
      ∀ c ∈ text.getLast?, isSpace c = false)
    (hleaf : isLeafContent (joinRuns [] (first ++
      ((placedPieces (some (text ++ more.getD [])) next).map .piece ++ gap))) = true) :
    joinRuns [] (first ++
        ((placedPieces (some text) none ++ placedPieces more next).map .piece ++ gap)) =
      joinRuns [] (first ++
        ((placedPieces (some (text ++ more.getD [])) next).map .piece ++ gap)) := by
  obtain ⟨before, latest, hfront⟩ := exists_joinRuns_append [] first
  obtain ⟨pieces, after, hback, -⟩ := exists_joinRuns_eq gap [] (by simp)
  simp only [List.append_nil] at hback
  have hrun (middle : List Piece) : joinRuns [] (first ++ (middle.map .piece ++ gap)) =
      before ++ (runItem (latest.reverse ++ (middle ++ pieces)) ++ after) := by
    rw [hfront, joinRuns_map_piece_append, hback, List.reverse_append, List.reverse_reverse,
      List.append_assoc]
  rw [hrun] at hleaf
  rw [hrun, hrun]
  -- A leaf has one run, so that all text of the leaf stands in this run.
  have hitems := (resplit_placedPieces text more next).append latest.reverse pieces
  cases hitem : runItem (latest.reverse ++
      (placedPieces (some (text ++ more.getD [])) next ++ pieces)) with
  | nil =>
    have hsame := hitems.sameButEdges
    rw [hitem] at hsame
    rw [hsame.eq_nil]
  | cons item items =>
    rw [hitem] at hleaf
    obtain ⟨rfl, rfl⟩ : before = [] ∧ after = [] := by
      have hlength := length_le_of_isLeafContent hleaf
      simp only [List.length_append, List.length_cons] at hlength
      exact ⟨List.length_eq_zero_iff.mp (by omega), List.length_eq_zero_iff.mp (by omega)⟩
    rw [← hitem]
    congr 2
    refine runItem_placedPieces hne (hstart.imp_left fun hnot hblank => hnot ?_)
      (hend.imp_left fun hnot hblank => hnot ?_)
    · have hnil : joinRuns [] first = [] := by
        have hjoin := hfront []
        rw [List.append_nil] at hjoin
        rw [hjoin, joinRuns, runItem_of_blank hblank, List.append_nil]
      exact (joinRuns_eq_nil_iff hfirst).mp hnil
    · obtain ⟨hplaced, hpieces⟩ := List.forall_mem_append.mp hblank
      have hnil : joinRuns [] gap = [] := by
        rw [hback, List.reverse_nil, List.nil_append, runItem_of_blank hpieces, List.append_nil]
      refine List.forall_mem_append.mpr
        ⟨fun part hmem => ?_, (joinRuns_eq_nil_iff hgap).mp hnil⟩
      obtain ⟨piece, hpiece, rfl⟩ := List.mem_map.mp hmem
      exact hplaced piece hpiece

section

variable {note : Token} (hnote : note.isNote = true) {same : Prop}

include hnote

/-- A note among pieces leaves them as they are. -/
theorem content_divided (first second : List Piece) :
    Content (first.map Piece.token ++ note :: second.map Piece.token)
      ((first ++ second).map .piece) := by
  rw [List.map_append]
  exact (content_pieces first).append (.note hnote (content_pieces second))

/-- A note between tokens that stay apart changes nothing. -/
theorem retold_apart (front back : List Token) :
    Retold same (assemble (front ++ back)) (assemble (front ++ note :: back)) := by
  rw [assemble, assemble]
  rcases exists_assembleFrom_append front [] [] false (by simp) with
    ⟨items, hends⟩ | ⟨opened, parts, hstate, -⟩
  · rw [hends, hends]
    exact .refl _
  · rw [hstate, hstate, assembleFrom_note hnote]
    exact .refl _

/-- Outside the leaves, the run with the text may end in other white space. -/
theorem retold_layout {front back : List Token} {first second : List Char}
    (hfront : front.foldl leafAfter false = false)
    (hcut : isEscaped (first ++ second) = true → isEscaped first = true) :
    Retold same
      (assemble (front ++ ((textPieces (first ++ second)).map Piece.token ++ back)))
      (assemble (front ++ ((textPieces first).map Piece.token ++
        note :: ((textPieces second).map Piece.token ++ back)))) := by
  obtain ⟨hresplit, hback⟩ := resplit_textPieces hcut
  have hmiddle : (textPieces first).map Piece.token ++
      note :: ((textPieces second).map Piece.token ++ back) =
        (textPieces first).map Piece.token ++ note :: (textPieces second).map Piece.token ++
          back := by simp
  rw [assemble, assemble, hmiddle]
  rcases exists_assembleFrom_append front [] [] false (by simp) with
    ⟨items, hends⟩ | ⟨opened, parts, hstate, helement⟩
  · rw [hends, hends]
    exact .refl _
  · rw [hstate, hstate, (content_pieces _).assembleFrom, (content_divided hnote _ _).assembleFrom]
    refine Follows.assembleFrom (.here (fun rest => ?_) ((helement hfront).imp_right <|
      Exists.imp fun part => And.imp_left (List.mem_append_right _))) back
    have hretold := hresplit.retold_joinRuns same parts.reverse rest [] (by simp) (.inr hback)
    simpa using hretold

/-- In a leaf, the text in front of the note and the text behind it are pieces of the same run. -/
theorem retold_leaf {front : List Token} {tag : Tag} {first gap back : List Token}
    {text : List Char} {more : Option (List Char)} {next : Option Token} (hne : text ≠ [])
    (hfirst : ∀ token ∈ first, token.isTag = false)
    (hgap : ∀ token ∈ gap, token.isTag = false) (hvalue : gap.all Token.hasValue = true)
    (hback : ∀ token ∈ back.head?, token.isTag = true)
    (hsame : same → (∃ token ∈ back.head?, token.isStart = true) ∨
      ((¬ ∀ token ∈ first, token.isMisc = true) ∨ ∀ c ∈ text.head?, isSpace c = false) ∧
      ((¬ ∀ token ∈ placePending more next ++ gap, token.isMisc = true) ∨
        ∀ c ∈ text.getLast?, isSpace c = false)) :
    Retold same
      (assemble (front ++ .openTag tag ::
        (first ++ (placePending (some (text ++ more.getD [])) next ++ (gap ++ back)))))
      (assemble (front ++ .openTag tag :: (first ++ (placePending (some text) none ++
        note :: (placePending more next ++ (gap ++ back)))))) := by
  obtain ⟨firstParts, hfirstContent, hfirstWhole, hfirstLayout⟩ := exists_content_of_noTags hfirst
  obtain ⟨gapParts, hgapContent, hgapWhole, hgapLayout⟩ := exists_content_of_noTags hgap
  rw [← map_token_placedPieces, ← map_token_placedPieces, ← map_token_placedPieces]
  have hmiddle : first ++ ((placedPieces (some text) none).map Piece.token ++
      note :: ((placedPieces more next).map Piece.token ++ (gap ++ back))) =
        first ++ ((placedPieces (some text) none).map Piece.token ++
          note :: (placedPieces more next).map Piece.token ++ gap) ++ back := by simp
  have hwhole (placed : List Token) :
      first ++ (placed ++ (gap ++ back)) = first ++ (placed ++ gap) ++ back := by simp
  have hcontent {placed : List Token} {parts : List Part} (h : Content placed parts) :
      Content (first ++ (placed ++ gap)) (firstParts ++ (parts ++ gapParts)) :=
    hfirstContent.append (h.append hgapContent)
  rw [assemble, assemble, hmiddle, hwhole]
  rcases exists_assembleFrom_append front [] [] false (by simp) with
    ⟨items, hends⟩ | ⟨opened, parts, hstate, -⟩
  · rw [hends, hends]
    exact .refl _
  · rw [hstate, hstate, assembleFrom, assembleFrom, (hcontent (content_pieces _)).assembleFrom,
      (hcontent (content_divided hnote _ _)).assembleFrom, List.append_nil, List.append_nil]
    refine .assembleFrom (fun rest hrest => ?_) hback fun h => (hsame h).imp_right
      fun hends hleaf => ?_
    · have hretold := (resplit_placedPieces text more next).retold_joinRuns same firstParts
        gapParts rest hrest (.inl ?_)
      · simpa using hretold
      · rw [hgapContent.all_hasValue hgap, hvalue]
    · obtain ⟨hstart, hend⟩ := hends
      rw [itemsOf, List.reverse_reverse] at hleaf ⊢
      rw [itemsOf, List.reverse_reverse]
      refine joinRuns_leaf hne hfirstWhole hgapWhole
        (hstart.imp_left fun hnot hlayout => hnot (hfirstLayout.mp hlayout))
        (hend.imp_left fun hnot hlayout => hnot ?_) hleaf
      obtain ⟨hplaced, hgapMisc⟩ := List.forall_mem_append.mp hlayout
      refine List.forall_mem_append.mpr ⟨fun token hmem => ?_, hgapLayout.mp hgapMisc⟩
      rw [← map_token_placedPieces] at hmem
      obtain ⟨piece, hpiece, rfl⟩ := List.mem_map.mp hmem
      rw [Piece.isMisc_token]
      exact hplaced _ (List.mem_map_of_mem hpiece)

end

/-- Documents of which one has a note more differ in the text of one run at most. -/
theorem Noted.retold {note : Token} {same : Prop} {kept noted : List Token}
    (h : Noted note same kept noted) (hnote : note.isNote = true) :
    Retold same (assemble kept) (assemble noted) := by
  cases h with
  | apart front back => exact retold_apart hnote front back
  | layout front back hfront hcut => exact retold_layout hnote hfront hcut
  | leaf front tag hne hfirst hgap hvalue hback hsame =>
    exact retold_leaf hnote hne hfirst hgap hvalue hback hsame

end CallbackGateway.Markup
