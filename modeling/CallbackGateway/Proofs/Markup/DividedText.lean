import CallbackGateway.Markup.Leaf
import CallbackGateway.Proofs.Markup.EdgeSpace

/-!
# Divided text

A text that is cut in two is read in two pieces. For layout this makes no difference beyond white
space at the ends of a run. In a leaf the first part of the text is no section any more, so that
white space at its ends is trimmed like that of layout; but it is kept where other text of the
leaf stands between it and the end of the run.
-/

namespace CallbackGateway.Markup

/-! ## Pieces as tokens -/

/-- The token that a piece comes from. -/
def Piece.token : Piece → Token
  | .text raw => .text raw
  | .cdata raw => .cdata raw

/-- Pieces are content. -/
theorem content_pieces (pieces : List Piece) :
    Content (pieces.map Piece.token) (pieces.map .piece) := by
  induction pieces with
  | nil => exact .nil
  | cons piece pieces ih =>
    cases piece with
    | text => exact .text ih
    | cdata => exact .cdata ih

/-- A blank piece may stand outside of the root. -/
@[simp] theorem Piece.isMisc_token (piece : Piece) : piece.token.isMisc = piece.isBlank := by
  cases piece <;> rfl

/-- A text as a piece, if it is not empty. -/
def textPieces (raw : List Char) : List Piece := if raw = [] then [] else [.text raw]

/-- The pieces that pending text is placed as. -/
def placedPieces (pending : Option (List Char)) (next : Option Token) : List Piece :=
  match pending with
  | none => []
  | some text =>
    if next.any endsLeafText then (chunks text).map .cdata else [.text (escape text)]

/-- The pieces of pending text are what is placed for it. -/
theorem map_token_placedPieces (pending : Option (List Char)) (next : Option Token) :
    (placedPieces pending next).map Piece.token = placePending pending next := by
  cases pending with
  | none => rfl
  | some text =>
    rw [placedPieces, placePending]
    split
    · rw [List.map_map]
      rfl
    · rfl

/-- The pieces of a raw text are joined to what it stands for. -/
theorem joinPieces_textPieces (raw : List Char) : joinPieces (textPieces raw) = unescape raw := by
  unfold textPieces
  split
  · rename_i hnil
    rw [hnil]
    rfl
  · exact joinPieces_text raw

/-- The pieces of pending text are joined to the text. -/
theorem joinPieces_placedPieces (pending : Option (List Char)) (next : Option Token) :
    joinPieces (placedPieces pending next) = some (pending.getD []) := by
  cases pending with
  | none => rfl
  | some text =>
    rw [placedPieces]
    split
    · rw [joinPieces_map_cdata, flatten_chunks]
      rfl
    · simp [joinPieces, Piece.value]

/-- The pieces of a raw text are blank just if the text is. -/
theorem isBlank_textPieces {raw : List Char} :
    (∀ piece ∈ textPieces raw, piece.isBlank = true) ↔ ∀ c ∈ raw, isSpace c = true := by
  unfold textPieces
  split
  · rename_i hnil
    simp [hnil]
  · simp [Piece.isBlank]

/-- A written text is blank just if the text is. -/
theorem isBlank_escape {text : List Char} :
    (Piece.text (escape text)).isBlank = true ↔ ∀ c ∈ text, isSpace c = true := by
  rw [Piece.isBlank, List.all_eq_true]
  constructor
  · intro h c hc
    by_contra hspace
    obtain ⟨d, tail, hd⟩ := List.exists_cons_of_ne_nil (escapeChar_ne_nil c)
    have hmem : d ∈ escape text := List.mem_flatMap.mpr ⟨c, hc, by simp [hd]⟩
    have hnot := isSpace_of_mem_escapeChar (Bool.eq_false_iff.mpr hspace)
      (List.mem_of_mem_head? (by rw [hd]; rfl) : d ∈ escapeChar c)
    rw [h d hmem] at hnot
    cases hnot
  · intro h d hd
    obtain ⟨c, hc, hmem⟩ := List.mem_flatMap.mp hd
    rw [escapeChar_of_isSpace (h c hc)] at hmem
    rw [List.mem_singleton.mp hmem]
    exact h c hc

/-! ## Divided texts -/

/-- A text that is cut between two references is divided anew, and back. -/
theorem resplit_textPieces {first second : List Char}
    (h : isEscaped (first ++ second) = true → isEscaped first = true) :
    Resplit (textPieces (first ++ second)) (textPieces first ++ textPieces second) ∧
      Resplit (textPieces first ++ textPieces second) (textPieces (first ++ second)) := by
  have hvalue : joinPieces (textPieces first ++ textPieces second) =
      joinPieces (textPieces (first ++ second)) := by
    rw [joinPieces_append, joinPieces_textPieces, joinPieces_textPieces, joinPieces_textPieces]
    cases htext : unescape first with
    | some text => rw [Option.bind_some, unescape, unescape, unescapeFrom_append htext]
    | none =>
      -- No reference is cut, so that the whole text has none either.
      cases hwhole : unescape (first ++ second) with
      | none => rfl
      | some whole =>
        have hfirst := h (by rw [isEscaped, hwhole]; rfl)
        rw [isEscaped, htext] at hfirst
        cases hfirst
  have hblank : (∀ piece ∈ textPieces (first ++ second), piece.isBlank = true) ↔
      ∀ piece ∈ textPieces first ++ textPieces second, piece.isBlank = true := by
    rw [List.forall_mem_append, isBlank_textPieces, isBlank_textPieces, isBlank_textPieces,
      List.forall_mem_append]
  exact ⟨⟨hvalue, hblank.mp⟩, ⟨hvalue.symm, hblank.mpr⟩⟩

/-- Pending text that is placed in two parts is divided anew. -/
theorem resplit_placedPieces (text : List Char) (more : Option (List Char))
    (next : Option Token) : Resplit (placedPieces (some (text ++ more.getD [])) next)
      (placedPieces (some text) none ++ placedPieces more next) := by
  refine ⟨?_, fun hblank => ?_⟩
  · rw [joinPieces_append, joinPieces_placedPieces, joinPieces_placedPieces,
      joinPieces_placedPieces]
    rfl
  · rw [placedPieces] at hblank
    split at hblank
    · obtain ⟨chunk, rest, hchunks⟩ := List.exists_cons_of_ne_nil (chunks_ne_nil
        (text ++ more.getD []))
      have hfirst := hblank (.cdata chunk) (by simp [hchunks])
      cases hfirst
    · rename_i hnext
      have hspaces := isBlank_escape.mp (hblank _ (List.mem_singleton.mpr rfl))
      obtain ⟨htext, hmore⟩ := List.forall_mem_append.mp hspaces
      refine List.forall_mem_append.mpr ⟨?_, ?_⟩
      · exact List.forall_mem_singleton.mpr (isBlank_escape.mpr htext)
      · cases more with
        | none => simp [placedPieces]
        | some other =>
          rw [placedPieces, if_neg hnext]
          exact List.forall_mem_singleton.mpr (isBlank_escape.mpr hmore)

/-! ## Text in a leaf -/

/-- Behind pieces that are not blank, nothing is dropped at the start of a run. -/
theorem trimRunStart_append {front : List Piece}
    (h : ¬ ∀ piece ∈ front, piece.isBlank = true) (rest : List Piece) :
    trimRunStart (front ++ rest) = trimRunStart front ++ rest := by
  induction front with
  | nil => exact absurd (by simp) h
  | cons piece front ih =>
    cases piece with
    | cdata raw => rfl
    | text raw =>
      rw [List.cons_append, trimRunStart, trimRunStart]
      split
      · rename_i hnil
        have hblank : (Piece.text raw).isBlank = true :=
          List.all_eq_true.mpr (List.dropWhile_eq_nil_iff.mp hnil)
        exact ih fun hfront => h (List.forall_mem_cons.mpr ⟨hblank, hfront⟩)
      · rfl

/-- Blank pieces in front of a run are trimmed. -/
theorem trimRunStart_blank_append {front : List Piece} (h : ∀ piece ∈ front, piece.isBlank = true)
    (rest : List Piece) : trimRunStart (front ++ rest) = trimRunStart rest := by
  induction front with
  | nil => rfl
  | cons piece front ih =>
    obtain ⟨hpiece, hfront⟩ := List.forall_mem_cons.mp h
    cases piece with
    | cdata raw => cases hpiece
    | text raw =>
      have hdrop : raw.dropWhile isSpace = [] :=
        List.dropWhile_eq_nil_iff.mpr (List.all_eq_true.mp hpiece)
      rw [List.cons_append, trimRunStart, hdrop]
      exact ih hfront

/-- Nothing is dropped in front of a text that does not start with white space. -/
theorem trimRunStart_placedPieces {text : List Char} (hne : text ≠ [])
    (h : ∀ c ∈ text.head?, isSpace c = false) (next : Option Token) (rest : List Piece) :
    trimRunStart (placedPieces (some text) next ++ rest) =
      placedPieces (some text) next ++ rest := by
  rw [placedPieces]
  split
  · obtain ⟨chunk, others, hchunks⟩ := List.exists_cons_of_ne_nil (chunks_ne_nil text)
    rw [hchunks]
    rfl
  · obtain ⟨c, tail, rfl⟩ := List.exists_cons_of_ne_nil hne
    have hdrop : (escape (c :: tail)).dropWhile isSpace = escape (c :: tail) := by
      rw [dropWhile_escape, List.dropWhile_cons_of_neg (by simp [h c rfl])]
    obtain ⟨d, raw, hraw⟩ : ∃ d raw, escape (c :: tail) = d :: raw := by
      refine List.exists_cons_of_ne_nil (List.append_ne_nil_of_left_ne_nil ?_ _)
      exact escapeChar_ne_nil c
    rw [hraw] at hdrop ⊢
    rw [List.singleton_append, trimRunStart, hdrop]

/-- What is read at the end of a run whose last pieces are a text that was divided. -/
theorem joinPieces_trimRunEnd_placedPieces {text : List Char} {more : Option (List Char)}
    {next : Option Token}
    (h : (¬ ∀ piece ∈ placedPieces more next, piece.isBlank = true) ∨
      ∀ c ∈ text.getLast?, isSpace c = false) :
    joinPieces (trimRunEnd (placedPieces (some text) none ++ placedPieces more next)) =
      joinPieces (trimRunEnd (placedPieces (some (text ++ more.getD [])) next)) := by
  have htrim (text : List Char) : trimRunEnd [.text (escape text)] =
      [.text (escape (trimSpaceEnd text))] := by
    rw [trimRunEnd, ← trimSpaceEnd_escape]
    rfl
  have hread (text : List Char) : joinPieces [.text (escape text)] = some text := by
    simp [joinPieces, Piece.value]
  have hplaced (text : List Char) : placedPieces (some text) none = [.text (escape text)] := rfl
  have hsections (text : List Char) :
      joinPieces (trimRunEnd ((chunks text).map .cdata)) = some text := by
    rw [trimRunEnd_map_cdata, joinPieces_map_cdata, flatten_chunks]
  cases more with
  | none =>
    have hlast : ∀ c ∈ text.getLast?, isSpace c = false :=
      h.resolve_left fun hnot => hnot (by simp [placedPieces])
    have hnone : placedPieces none next = [] := rfl
    rw [hnone, List.append_nil, hplaced, htrim, trimSpaceEnd_eq_self hlast, hread,
      Option.getD_none, List.append_nil, placedPieces]
    split
    · exact (hsections text).symm
    · rw [htrim, trimSpaceEnd_eq_self hlast, hread]
  | some other =>
    rw [Option.getD_some, hplaced]
    rw [placedPieces] at h ⊢
    rw [placedPieces]
    split
    · have hne : (chunks other).map Piece.cdata ≠ [] := by simp [chunks_ne_nil]
      rw [trimRunEnd_append hne, joinPieces_append, hread, hsections, hsections]
      rfl
    · rename_i hnext
      rw [if_neg hnext] at h
      have hend : (∀ c ∈ text.getLast?, isSpace c = false) ∨ ∃ c ∈ other, isSpace c = false := by
        refine h.symm.imp_right fun hpiece => ?_
        by_contra hnot
        push Not at hnot
        exact hpiece (List.forall_mem_singleton.mpr
          (isBlank_escape.mpr fun c hc => eq_true_of_ne_false (hnot c hc)))
      rw [trimRunEnd_append (List.cons_ne_nil _ _), htrim, htrim, joinPieces_append, hread, hread,
        hread, trimSpaceEnd_append hend]
      rfl

/-- A run is read as before if the text that is divided has no white space at an end of the run. -/
theorem runItem_placedPieces {text : List Char} {more : Option (List Char)} {next : Option Token}
    {front back : List Piece} (hne : text ≠ [])
    (hstart : (¬ ∀ piece ∈ front, piece.isBlank = true) ∨ ∀ c ∈ text.head?, isSpace c = false)
    (hend : (¬ ∀ piece ∈ placedPieces more next ++ back, piece.isBlank = true) ∨
      ∀ c ∈ text.getLast?, isSpace c = false) :
    runItem (front ++ (placedPieces (some text) none ++ placedPieces more next ++ back)) =
      runItem (front ++ (placedPieces (some (text ++ more.getD [])) next ++ back)) := by
  have hwhole : text ++ more.getD [] ≠ [] := List.append_ne_nil_of_left_ne_nil hne _
  have placed_ne_nil {text : List Char} (next : Option Token) :
      placedPieces (some text) next ≠ [] := by
    rw [placedPieces]
    split <;> simp [chunks_ne_nil]
  -- The same pieces are left in front of the text.
  obtain ⟨kept, hdivided, hjoined⟩ : ∃ kept,
      trimRunStart (front ++ (placedPieces (some text) none ++ placedPieces more next ++ back)) =
        kept ++ (placedPieces (some text) none ++ placedPieces more next ++ back) ∧
      trimRunStart (front ++ (placedPieces (some (text ++ more.getD [])) next ++ back)) =
        kept ++ (placedPieces (some (text ++ more.getD [])) next ++ back) := by
    by_cases hblank : ∀ piece ∈ front, piece.isBlank = true
    · have hhead := hstart.resolve_left fun hnot => hnot hblank
      refine ⟨[], ?_, ?_⟩
      · rw [trimRunStart_blank_append hblank, List.append_assoc,
          trimRunStart_placedPieces hne hhead]
        rfl
      · rw [trimRunStart_blank_append hblank, trimRunStart_placedPieces hwhole]
        · rfl
        · intro c hc
          refine hhead c ?_
          obtain ⟨d, tail, rfl⟩ := List.exists_cons_of_ne_nil hne
          exact hc
    · exact ⟨trimRunStart front, trimRunStart_append hblank _, trimRunStart_append hblank _⟩
  have hitem {run kept pieces : List Piece} (hrun : trimRunStart run = kept ++ pieces)
      (hpieces : pieces ≠ []) : runItem run = [.text (joinPieces (kept ++ trimRunEnd pieces))] := by
    obtain ⟨piece, rest, hcons⟩ :=
      List.exists_cons_of_ne_nil (List.append_ne_nil_of_right_ne_nil kept hpieces)
    rw [runItem, hrun, ← trimRunEnd_append hpieces, hcons]
  have hdividedNe : placedPieces (some text) none ++ placedPieces more next ≠ [] :=
    List.append_ne_nil_of_left_ne_nil (placed_ne_nil none) _
  have hvalue := (resplit_placedPieces text more next).value
  rw [hitem hdivided (List.append_ne_nil_of_left_ne_nil hdividedNe back),
    hitem hjoined (List.append_ne_nil_of_left_ne_nil (placed_ne_nil next) back),
    joinPieces_append, joinPieces_append kept]
  cases back with
  | nil =>
    rw [List.append_nil, List.append_nil] at *
    rw [joinPieces_trimRunEnd_placedPieces hend]
  | cons piece back =>
    rw [trimRunEnd_append (List.cons_ne_nil piece back),
      trimRunEnd_append (List.cons_ne_nil piece back), joinPieces_append,
      joinPieces_append (placedPieces (some (text ++ more.getD [])) next), hvalue]

end CallbackGateway.Markup
