import CallbackGateway.Proofs.Markup.Document
import CallbackGateway.Proofs.Markup.Notes

/-!
# Notes and leaf text

A note that is put between tokens is kept as it is, and so is everything else but the text in
front of it: in a leaf this text is no section any more. White space of it is exposed to trimming
if it stands at an end of the leaf.
-/

namespace CallbackGateway.Markup

/-! ## Exposed white space -/

/-- Whether a token in a leaf holds no text but white space. -/
def Token.isVacant : Token → Bool
  | .text raw => (unescape raw).any (·.all isSpace)
  | .cdata _ => false
  | _ => true

/-- Whether text in front of some tokens is kept verbatim in a leaf, or goes on there. -/
def keepsTextBefore (right : List Token) : Bool :=
  right.head?.any fun token => token.isText || endsLeafText token

/-- Whether a note between tokens exposes white space of a leaf. The note stands behind text of an
element that holds no elements and in front of no other note, and this text starts with white space
in front of which the leaf holds no text, or ends with white space behind which it holds none. -/
def exposesSpace (left right : List Token) : Bool :=
  match left.getLast? with
  | some (.text raw) =>
    left.foldl leafAfter false && keepsTextBefore right &&
      (right.find? Token.isTag).all (!Token.isStart ·) &&
      (unescape raw).any fun text =>
        (text.head?.any isSpace &&
          (left.dropLast.reverse.takeWhile (!Token.isTag ·)).all Token.isVacant) ||
        (text.getLast?.any isSpace && (right.takeWhile (!Token.isTag ·)).all Token.isVacant)
  | _ => false

/-! ## Kept tokens -/

/-- Only the tags decide whether a leaf is open. -/
theorem foldl_leafAfter_filter (tokens : List Token) (inLeaf : Bool) :
    (tokens.filter Token.isTag).foldl leafAfter inLeaf = tokens.foldl leafAfter inLeaf := by
  induction tokens generalizing inLeaf with
  | nil => rfl
  | cons token tokens ih =>
    cases htag : token.isTag with
    | true => rw [List.filter_cons_of_pos htag, List.foldl_cons, List.foldl_cons, ih]
    | false =>
      rw [List.filter_cons_of_neg (by simp [htag]), List.foldl_cons, ih,
        leafAfter_of_noTag htag]

/-- Without tags a leaf stays open or closed. -/
theorem foldl_leafAfter_of_noTags {tokens : List Token}
    (h : ∀ token ∈ tokens, token.isTag = false) (inLeaf : Bool) :
    tokens.foldl leafAfter inLeaf = inLeaf := by
  rw [← foldl_leafAfter_filter, noTags_iff.mp h]
  rfl

/-- In a leaf, the last tag opens an element. -/
theorem exists_openTag_of_inLeaf {tokens : List Token}
    (h : tokens.foldl leafAfter false = true) :
    ∃ front tag gap, tokens = front ++ .openTag tag :: gap ∧
      ∀ token ∈ gap, token.isTag = false := by
  induction tokens using List.reverseRecOn with
  | nil => cases h
  | append_singleton tokens last ih =>
    rw [List.foldl_append, List.foldl_cons, List.foldl_nil] at h
    cases last with
    | openTag tag => exact ⟨tokens, tag, [], rfl, by simp⟩
    | emptyTag | closeTag => cases h
    | text | cdata | comment | instruction | doctype =>
      obtain ⟨front, tag, gap, rfl, hgap⟩ := ih h
      refine ⟨front, tag, gap ++ [_], by simp; rfl, ?_⟩
      exact List.forall_mem_append.mpr ⟨hgap, List.forall_mem_singleton.mpr rfl⟩

/-- Behind markup, tokens are kept by themselves. -/
theorem keepLeafTextFrom_append {tokens : List Token} {pending : Option (List Char)}
    (hlast : ∀ token ∈ tokens.getLast?, token.isText = false)
    (hpending : tokens = [] → pending = none) (inLeaf : Bool) (rest : List Token) :
    keepLeafTextFrom inLeaf pending (tokens ++ rest) =
      (keepLeafTextFrom inLeaf pending tokens).bind fun front =>
        (keepLeafTextFrom (tokens.foldl leafAfter inLeaf) none rest).map (front ++ ·) := by
  induction tokens generalizing inLeaf pending with
  | nil =>
    obtain rfl := hpending rfl
    exact Option.map_id'.symm
  | cons token tokens ih =>
    have hothers : ∀ other ∈ tokens.getLast?, other.isText = false := by
      intro other hother
      refine hlast other ?_
      rw [Option.mem_def] at hother ⊢
      rw [List.getLast?_cons, hother]
      rfl
    have placed (inLeaf' : Bool) (hleaf : leafAfter inLeaf token = inLeaf') :
        ((keepLeafTextFrom inLeaf' none (tokens ++ rest)).map fun others =>
          placePending pending (some token) ++ token :: others) =
          ((keepLeafTextFrom inLeaf' none tokens).map fun others =>
            placePending pending (some token) ++ token :: others).bind fun front =>
              (keepLeafTextFrom ((token :: tokens).foldl leafAfter inLeaf) none rest).map
                (front ++ ·) := by
      rw [ih hothers (fun _ => rfl), List.foldl_cons, hleaf]
      cases keepLeafTextFrom inLeaf' none tokens with
      | none => rfl
      | some front => simp [Function.comp_def]
    rw [List.cons_append]
    cases htext : token.isText with
    | false =>
      rw [keepLeafTextFrom_markup htext, keepLeafTextFrom_markup htext]
      exact placed _ rfl
    | true =>
      cases token with
      | openTag | emptyTag | closeTag | cdata | comment | instruction | doctype => cases htext
      | text raw =>
        cases inLeaf with
        | false =>
          rw [keepLeafTextFrom_text, keepLeafTextFrom_text]
          exact placed false rfl
        | true =>
          have hne : tokens ≠ [] := by
            rintro rfl
            exact absurd (hlast _ rfl) (by simp [Token.isText])
          rw [keepLeafTextFrom_leafText, keepLeafTextFrom_leafText, Option.bind_assoc]
          congr 1
          funext text
          exact ih hothers (fun hnil => absurd hnil hne) true

/-- Pending text is placed in front of markup. -/
theorem keepLeafTextFrom_pending {tokens : List Token}
    (hfirst : ∀ token ∈ tokens.head?, token.isText = false) (inLeaf : Bool)
    (pending : Option (List Char)) : keepLeafTextFrom inLeaf pending tokens =
      (keepLeafTextFrom inLeaf none tokens).map (placePending pending tokens.head? ++ ·) := by
  cases tokens with
  | nil => simp [keepLeafTextFrom, placePending]
  | cons token tokens =>
    have htext := hfirst token rfl
    rw [keepLeafTextFrom_markup htext, keepLeafTextFrom_markup htext, Option.map_map]
    rfl

/-- Markup is kept. -/
theorem mem_of_keepLeafTextFrom {inLeaf : Bool} {pending : Option (List Char)}
    {tokens kept : List Token} {token : Token}
    (h : keepLeafTextFrom inLeaf pending tokens = some kept) (hmem : token ∈ tokens)
    (htext : token.isText = false) : token ∈ kept := by
  induction tokens generalizing inLeaf pending kept with
  | nil => cases hmem
  | cons first tokens ih =>
    have placed {inLeaf' : Bool} (h : (keepLeafTextFrom inLeaf' none tokens).map (fun others =>
        placePending pending (some first) ++ first :: others) = some kept) : token ∈ kept := by
      obtain ⟨others, hothers, rfl⟩ := Option.map_eq_some_iff.mp h
      refine List.mem_append_right _ ?_
      rcases List.mem_cons.mp hmem with rfl | hmem
      · exact List.mem_cons_self
      · exact List.mem_cons_of_mem _ (ih hothers hmem)
    cases hfirst : first.isText with
    | false =>
      rw [keepLeafTextFrom_markup hfirst] at h
      exact placed h
    | true =>
      cases first with
      | openTag | emptyTag | closeTag | cdata | comment | instruction | doctype => cases hfirst
      | text raw =>
        cases inLeaf with
        | false =>
          rw [keepLeafTextFrom_text] at h
          exact placed h
        | true =>
          rw [keepLeafTextFrom_leafText] at h
          obtain ⟨text, -, h⟩ := Option.bind_eq_some_iff.mp h
          rcases List.mem_cons.mp hmem with rfl | hmem
          · cases htext
          · exact ih h hmem

/-- What is placed for pending text is taken with the tokens up to the next tag. -/
theorem takeWhile_placePending (pending : Option (List Char)) (next : Option Token)
    (rest : List Token) : (placePending pending next ++ rest).takeWhile (!Token.isTag ·) =
      placePending pending next ++ rest.takeWhile (!Token.isTag ·) := by
  refine List.takeWhile_append_of_pos fun token hmem => ?_
  rw [noTags_iff.mpr (filter_placePending pending next) token hmem]
  rfl

/-- Pending text that is placed as layout is white space. -/
theorem isSpace_of_placePending {pending : Option (List Char)} {next : Option Token}
    (h : ∀ token ∈ placePending pending next, token.isMisc = true) :
    ∀ c ∈ pending.getD [], isSpace c = true := by
  cases pending with
  | none => simp
  | some text =>
    rw [placePending] at h
    split at h
    · obtain ⟨chunk, rest, hchunks⟩ := List.exists_cons_of_ne_nil (chunks_ne_nil text)
      have hfirst := h (.cdata chunk) (by simp [sections, hchunks])
      cases hfirst
    · have hblank := h _ (List.mem_singleton.mpr rfl)
      exact isBlank_escape.mp hblank

/-- If what is kept of a leaf up to the next tag is layout, there is no text but white space. -/
theorem isVacant_of_kept {pending : Option (List Char)} {tokens kept : List Token}
    (h : keepLeafTextFrom true pending tokens = some kept)
    (hmisc : ∀ token ∈ kept.takeWhile (!Token.isTag ·), token.isMisc = true) :
    (∀ c ∈ pending.getD [], isSpace c = true) ∧
      (tokens.takeWhile (!Token.isTag ·)).all Token.isVacant = true := by
  induction tokens generalizing pending kept with
  | nil =>
    obtain rfl := Option.some.inj h
    rw [← List.append_nil (placePending pending none), takeWhile_placePending] at hmisc
    exact ⟨isSpace_of_placePending (List.forall_mem_append.mp hmisc).1, rfl⟩
  | cons token tokens ih =>
    cases token with
    | text raw =>
      rw [keepLeafTextFrom_leafText] at h
      obtain ⟨text, htext, h⟩ := Option.bind_eq_some_iff.mp h
      obtain ⟨hspaces, hrest⟩ := ih h hmisc
      obtain ⟨hpending, hown⟩ := List.forall_mem_append.mp hspaces
      have hvacant : (Token.text raw).isVacant = true := by
        rw [Token.isVacant, htext, Option.any_some, List.all_eq_true]
        exact hown
      rw [List.takeWhile_cons_of_pos rfl, List.all_cons, hvacant, hrest]
      exact ⟨hpending, rfl⟩
    | openTag | emptyTag | closeTag =>
      rw [keepLeafTextFrom_markup rfl] at h
      obtain ⟨others, -, rfl⟩ := Option.map_eq_some_iff.mp h
      rw [takeWhile_placePending] at hmisc
      exact ⟨isSpace_of_placePending (List.forall_mem_append.mp hmisc).1, rfl⟩
    | cdata raw =>
      rw [keepLeafTextFrom_markup rfl] at h
      obtain ⟨others, -, rfl⟩ := Option.map_eq_some_iff.mp h
      rw [takeWhile_placePending, List.takeWhile_cons_of_pos rfl] at hmisc
      have hsection := hmisc (.cdata raw) (by simp)
      cases hsection
    | comment | instruction | doctype =>
      rw [keepLeafTextFrom_markup rfl] at h
      obtain ⟨others, hothers, rfl⟩ := Option.map_eq_some_iff.mp h
      rw [takeWhile_placePending, List.takeWhile_cons_of_pos rfl] at hmisc
      obtain ⟨hpending, hmisc⟩ := List.forall_mem_append.mp hmisc
      rw [List.takeWhile_cons_of_pos rfl, List.all_cons,
        (ih hothers (List.forall_mem_cons.mp hmisc).2).2]
      exact ⟨isSpace_of_placePending hpending, rfl⟩

/-! ## A note more -/

/-- A mark is dropped from the first token, whatever is behind. -/
theorem dropLeadingMark_append {front : List Token} (hne : front ≠ []) (rest : List Token) :
    dropLeadingMark (front ++ rest) = dropLeadingMark front ++ rest := by
  obtain ⟨token, front, rfl⟩ := List.exists_cons_of_ne_nil hne
  cases token with
  | openTag | emptyTag | closeTag | cdata | comment | instruction | doctype => rfl
  | text raw =>
    rw [List.cons_append, dropLeadingMark, dropLeadingMark]
    split <;> rfl

/-- A mark is dropped from the text in front. -/
theorem dropLeadingMark_text (raw : List Char) (rest : List Token) :
    dropLeadingMark (.text raw :: rest) =
      (textPieces (dropMark raw)).map Piece.token ++ rest := by
  rw [dropLeadingMark, textPieces]
  cases dropMark raw <;> rfl

/-- A mark does not decide whether a text can be read. -/
theorem isEscaped_dropMark (raw : List Char) : isEscaped (dropMark raw) = isEscaped raw := by
  rcases dropMark_eq_or raw with hsame | hmark
  · rw [hsame]
  · have hunescape : unescape [byteOrderMark] = some [byteOrderMark] := rfl
    have hescaped : isEscaped [byteOrderMark] = true := by rw [isEscaped, hunescape]; rfl
    calc isEscaped (dropMark raw) = isEscaped ([byteOrderMark] ++ dropMark raw) :=
          (isEscaped_append hescaped _).symm
      _ = isEscaped raw := by rw [List.singleton_append, ← hmark]

section

variable {note : Token} (hnote : note.isNote = true)

include hnote

/-- A note is no text. -/
theorem Token.isText_of_isNote : note.isText = false := by
  cases note with
  | comment | instruction => rfl
  | openTag | emptyTag | closeTag | text | cdata | doctype => cases hnote

/-- A note keeps the text in front of it from being leaf text, and is kept. -/
theorem keepLeafTextFrom_note (inLeaf : Bool) (pending : Option (List Char)) (rest : List Token) :
    keepLeafTextFrom inLeaf pending (note :: rest) =
      (keepLeafTextFrom inLeaf none rest).map fun others =>
        placePending pending none ++ note :: others := by
  cases note with
  | comment | instruction => rw [keepLeafTextFrom_markup rfl]; rfl
  | openTag | emptyTag | closeTag | text | cdata | doctype => cases hnote

/-- Behind markup, a note is put between kept tokens. -/
theorem exists_noted_apart {before right kept : List Token} {last : Token} (same : Prop)
    (hlast : last.isText = false) (h : keepLeafText (before ++ [last] ++ right) = some kept) :
    ∃ noted, keepLeafText (before ++ [last] ++ note :: right) = some noted ∧
      Noted note same (dropLeadingMark kept) (dropLeadingMark noted) := by
  have hends : ∀ token ∈ (before ++ [last]).getLast?, token.isText = false := by
    simpa using hlast
  unfold keepLeafText at h ⊢
  rw [keepLeafTextFrom_append hends (by simp)] at h ⊢
  obtain ⟨front, hfront, h⟩ := Option.bind_eq_some_iff.mp h
  obtain ⟨back, hback, rfl⟩ := Option.map_eq_some_iff.mp h
  have hne : front ≠ [] :=
    List.ne_nil_of_mem (mem_of_keepLeafTextFrom hfront (by simp) hlast)
  refine ⟨front ++ note :: back, ?_, ?_⟩
  · rw [hfront, Option.bind_some, keepLeafTextFrom_note hnote, hback]
    rfl
  · rw [dropLeadingMark_append hne, dropLeadingMark_append hne]
    exact .apart _ _

/-- Outside the leaves, a note is put between two parts of a text. -/
theorem exists_noted_layout {before after kept : List Token} {first second : List Char}
    (same : Prop) (hbefore : ∀ token ∈ before.getLast?, token.isText = false)
    (hleaf : before.foldl leafAfter false = false) (hne : first ≠ [])
    (hcut : isEscaped (first ++ second) = true → isEscaped first = true)
    (h : keepLeafText (before ++ .text (first ++ second) :: after) = some kept) :
    ∃ noted, keepLeafText (before ++ .text first ::
        note :: ((textPieces second).map Piece.token ++ after)) = some noted ∧
      Noted note same (dropLeadingMark kept) (dropLeadingMark noted) := by
  unfold keepLeafText at h ⊢
  rw [keepLeafTextFrom_append hbefore (fun _ => rfl), hleaf] at h ⊢
  obtain ⟨front, hfront, h⟩ := Option.bind_eq_some_iff.mp h
  obtain ⟨_, hkept, rfl⟩ := Option.map_eq_some_iff.mp h
  rw [keepLeafTextFrom_text] at hkept
  obtain ⟨back, hback, rfl⟩ := Option.map_eq_some_iff.mp hkept
  have hsecond : keepLeafTextFrom false none ((textPieces second).map Piece.token ++ after) =
      some ((textPieces second).map Piece.token ++ back) := by
    rw [textPieces]
    split
    · exact hback
    · rw [List.map_singleton, List.singleton_append, Piece.token, keepLeafTextFrom_text, hback]
      rfl
  refine ⟨front ++ .text first :: note :: ((textPieces second).map Piece.token ++ back), ?_, ?_⟩
  · rw [hfront, Option.bind_some, keepLeafTextFrom_text, keepLeafTextFrom_note hnote, hsecond]
    rfl
  · have htext {raw : List Char} (hne : raw ≠ []) (rest : List Token) :
        Token.text raw :: rest = (textPieces raw).map Piece.token ++ rest := by
      rw [textPieces, if_neg hne]
      rfl
    have hwhole : first ++ second ≠ [] := List.append_ne_nil_of_left_ne_nil hne second
    have hstate : (dropLeadingMark front).foldl leafAfter false = false := by
      rw [← foldl_leafAfter_filter, filter_dropLeadingMark, filter_keepLeafTextFrom hfront,
        foldl_leafAfter_filter, hleaf]
    rw [placePending, List.nil_append]
    by_cases hnil : front = []
    · subst hnil
      rw [List.nil_append, List.nil_append, dropLeadingMark_text, dropLeadingMark_text,
        dropMark_append hne]
      refine .layout [] back rfl ?_
      rwa [← dropMark_append hne, isEscaped_dropMark, isEscaped_dropMark]
    · rw [dropLeadingMark_append hnil, dropLeadingMark_append hnil, htext hwhole, htext hne]
      exact .layout _ back hstate hcut

end

/-- What is kept of a leaf up to the next tag has a value. -/
theorem exists_gap_of_inLeaf {tokens kept : List Token}
    (h : keepLeafTextFrom true none tokens = some kept) :
    ∃ gap back, kept = gap ++ back ∧ (∀ token ∈ gap, token.isTag = false) ∧
      gap.all Token.hasValue = true ∧ back.head? = tokens.find? Token.isTag := by
  rcases exists_first_tag tokens with hnone | ⟨gap, tag, rest, rfl, htag, hgap⟩
  · have hvalue : tokens.all Token.hasValue = true := by
      rw [← List.append_nil tokens] at h
      exact all_hasValue_of_inLeaf hnone h
    refine ⟨kept, [], (List.append_nil _).symm, ?_, ?_, ?_⟩
    · rw [noTags_iff, filter_keepLeafTextFrom h, ← noTags_iff]
      exact hnone
    · rw [all_hasValue_keepLeafTextFrom h, hvalue]
    · exact (List.find?_eq_none.mpr fun token hmem => by simp [hnone token hmem]).symm
  · obtain ⟨front, hfront, hsame, -, -⟩ := exists_keptGap htag true gap
    have hvalue := all_hasValue_of_inLeaf hgap h
    rw [hfront] at h
    obtain ⟨own, rfl, h⟩ := Option.bind_eq_some_iff.mp h
    obtain ⟨others, -, rfl⟩ := Option.map_eq_some_iff.mp h
    obtain ⟨htags, hvalues⟩ := hsame own rfl
    refine ⟨own, tag :: others, rfl, ?_, by rw [hvalues, hvalue], ?_⟩
    · rw [noTags_iff, htags, ← noTags_iff]
      exact hgap
    · rw [List.find?_append, List.find?_cons_of_pos htag,
        List.find?_eq_none.mpr fun token hmem => by simp [hgap token hmem]]
      rfl

/-- What a note exposes in a leaf is told from the tokens of the leaf. -/
theorem exposesSpace_leaf {front gap right : List Token} {tag : Tag} {raw text : List Char}
    (hgap : ∀ token ∈ gap, token.isTag = false) (htext : unescape raw = some text)
    (hkeeps : keepsTextBefore right = true) :
    exposesSpace (front ++ .openTag tag :: gap ++ [.text raw]) right =
      ((right.find? Token.isTag).all (!Token.isStart ·) &&
        (text.head?.any isSpace && gap.all Token.isVacant ||
          text.getLast?.any isSpace &&
            (right.takeWhile (!Token.isTag ·)).all Token.isVacant)) := by
  have hleaf : (front ++ Token.openTag tag :: gap ++ [Token.text raw]).foldl leafAfter false =
      true := by
    rw [List.append_assoc, List.cons_append, List.foldl_append, List.foldl_cons, leafAfter,
      foldl_leafAfter_of_noTags (List.forall_mem_append.mpr ⟨hgap, by simp [Token.isTag]⟩)]
  have hbefore : (front ++ Token.openTag tag :: gap).reverse.takeWhile (!Token.isTag ·) =
      gap.reverse := by
    rw [List.reverse_append, List.reverse_cons, List.append_assoc, List.takeWhile_append_of_pos]
    · simp [Token.isTag]
    · intro token hmem
      rw [hgap token (List.mem_reverse.mp hmem)]
      rfl
  rw [exposesSpace, List.getLast?_concat]
  dsimp only
  rw [hleaf, hkeeps, List.dropLast_concat, hbefore, htext, Option.any_some, List.all_reverse,
    Bool.true_and, Bool.true_and]

/-- A reference stands for at least one character. -/
theorem unescapeFrom_begun_ne_nil (begun raw : List Char) :
    unescapeFrom (some begun) raw ≠ some [] := by
  have hnone : (none : Option (List Char)) ≠ some [] := (Option.some_ne_none []).symm
  induction raw generalizing begun with
  | nil => exact hnone
  | cons c rest ih =>
    rw [unescapeFrom]
    split
    · exact hnone
    · split
      · cases reference? begun.reverse with
        | none => exact hnone
        | some d => cases unescapeFrom none rest <;> simp
      · exact ih _

/-- A text that is not empty does not stand for the empty text. -/
theorem ne_nil_of_unescape {raw text : List Char} (hne : raw ≠ [])
    (h : unescape raw = some text) : text ≠ [] := by
  rintro rfl
  obtain ⟨c, rest, rfl⟩ := List.exists_cons_of_ne_nil hne
  rw [unescape, unescapeFrom] at h
  split at h
  · exact unescapeFrom_begun_ne_nil [] rest h
  · obtain ⟨others, -, hnil⟩ := Option.map_eq_some_iff.mp h
    cases hnil

/-- A first character that is not found to be white space is none. -/
theorem isSpace_of_any_eq_false {head : Option Char} (h : head.any isSpace = false) :
    ∀ c ∈ head, isSpace c = false := by
  intro c hc
  rwa [Option.mem_def.mp hc, Option.any_some] at h

/-- The pieces of a text are no tags. -/
theorem isTag_of_mem_textPieces {raw : List Char} {token : Token}
    (h : token ∈ (textPieces raw).map Piece.token) : token.isTag = false := by
  obtain ⟨piece, -, rfl⟩ := List.mem_map.mp h
  cases piece <;> rfl

/-- Where a note exposes no white space, the leaf holds an element, or text stands between white
space of the text in front of the note and the ends of the leaf. -/
theorem safe_of_exposesSpace {front gap inner after ownGap back : List Token} {tag : Tag}
    {raw second text : List Char} {more : Option (List Char)} {next : Option Token}
    (hgap : ∀ token ∈ gap, token.isTag = false) (htext : unescape raw = some text)
    (hinner : keepLeafTextFrom true none gap = some inner)
    (hothers : keepLeafTextFrom true none after = some (ownGap ++ back))
    (hownGap : ∀ token ∈ ownGap, token.isTag = false)
    (hback : back.head? = after.find? Token.isTag)
    (hvacant : (∀ c ∈ more.getD [], isSpace c = true) →
      ((textPieces second).map Piece.token).all Token.isVacant = true)
    (hkeeps : keepsTextBefore ((textPieces second).map Piece.token ++ after) = true)
    (h : exposesSpace (front ++ .openTag tag :: gap ++ [.text raw])
      ((textPieces second).map Piece.token ++ after) = false) :
    (∃ token ∈ back.head?, token.isStart = true) ∨
      ((¬ ∀ token ∈ inner, token.isMisc = true) ∨ ∀ c ∈ text.head?, isSpace c = false) ∧
      ((¬ ∀ token ∈ placePending more next ++ ownGap, token.isMisc = true) ∨
        ∀ c ∈ text.getLast?, isSpace c = false) := by
  have htake {tokens : List Token} (h : ∀ token ∈ tokens, token.isTag = false)
      (rest : List Token) : (tokens ++ rest).takeWhile (!Token.isTag ·) =
        tokens ++ rest.takeWhile (!Token.isTag ·) :=
    List.takeWhile_append_of_pos fun token hmem => by rw [h token hmem]; rfl
  have hfind : ((textPieces second).map Piece.token ++ after).find? Token.isTag = back.head? := by
    rw [hback, List.find?_append, List.find?_eq_none.mpr fun token hmem => by
      simp [isTag_of_mem_textPieces hmem]]
    rfl
  rw [exposesSpace_leaf hgap htext hkeeps, hfind, htake (fun _ => isTag_of_mem_textPieces),
    List.all_append, Bool.and_eq_false_iff, Bool.or_eq_false_iff] at h
  refine h.imp (fun hstart => ?_) fun ⟨hfirst, hlast⟩ => ⟨?_, ?_⟩
  · cases hhead : back.head? with
    | none => simp [hhead] at hstart
    | some token => exact ⟨token, rfl, by simpa [hhead] using hstart⟩
  · refine Classical.or_iff_not_imp_left.mpr fun hmisc => isSpace_of_any_eq_false ?_
    have hlayout : ∀ token ∈ inner.takeWhile (!Token.isTag ·), token.isMisc = true :=
      fun token hmem => not_not.mp hmisc token (List.takeWhile_subset _ hmem)
    have hall := (isVacant_of_kept hinner hlayout).2
    rw [← List.append_nil gap, htake hgap, List.takeWhile_nil, List.append_nil] at hall
    rwa [hall, Bool.and_true] at hfirst
  · refine Classical.or_iff_not_imp_left.mpr fun hmisc => isSpace_of_any_eq_false ?_
    obtain ⟨hplaced, hownMisc⟩ := List.forall_mem_append.mp (not_not.mp hmisc)
    have hlayout : ∀ token ∈ (ownGap ++ back).takeWhile (!Token.isTag ·), token.isMisc = true := by
      have hnil : back.takeWhile (!Token.isTag ·) = [] := by
        cases back with
        | nil => rfl
        | cons token back =>
          have htag : token.isTag = true := List.find?_some hback.symm
          rw [List.takeWhile_cons_of_neg (by simp [htag])]
      rwa [htake hownGap, hnil, List.append_nil]
    rwa [hvacant (isSpace_of_placePending hplaced), (isVacant_of_kept hothers hlayout).2,
      Bool.and_true, Bool.and_true] at hlast

/-- Leaf text is cut into what stands before a note and, if there is more, what stands behind it.
Where the leaf text does not go on and is not kept, it is the same with the note. -/
theorem exists_cut_leafText {first second whole : List Char} {after others : List Token}
    (hafter : ∀ token ∈ after.head?, token.isText = false)
    (hcut : isEscaped (first ++ second) = true → isEscaped first = true)
    (hwhole : unescape (first ++ second) = some whole)
    (hothers : keepLeafTextFrom true none after = some others) :
    ∃ text more, unescape first = some text ∧ whole = text ++ more.getD [] ∧
      keepLeafTextFrom true none ((textPieces second).map Piece.token ++ after) =
        some (placePending more after.head? ++ others) ∧
      ((∀ c ∈ more.getD [], isSpace c = true) →
        ((textPieces second).map Piece.token).all Token.isVacant = true) ∧
      (keepsTextBefore ((textPieces second).map Piece.token ++ after) = false →
        placePending (some (text ++ more.getD [])) after.head? =
          placePending (some text) none ++ placePending more after.head?) := by
  by_cases hsecond : second = []
  · subst hsecond
    rw [List.append_nil] at hwhole
    refine ⟨whole, none, hwhole, (List.append_nil _).symm, hothers, fun _ => rfl, fun hkeeps => ?_⟩
    have hnext : after.head?.any endsLeafText = false := by
      rw [textPieces, if_pos rfl, List.map_nil, List.nil_append, keepsTextBefore] at hkeeps
      cases hhead : after.head? with
      | none => rfl
      | some next =>
        rw [hhead, Option.any_some, Bool.or_eq_false_iff] at hkeeps
        exact hkeeps.2
    rw [Option.getD_none, List.append_nil]
    exact (if_neg (by rw [hnext]; exact Bool.false_ne_true)).trans (List.append_nil _).symm
  · have hescaped : isEscaped (first ++ second) = true := by rw [isEscaped, hwhole]; rfl
    obtain ⟨text, htext⟩ := Option.isSome_iff_exists.mp (hcut hescaped)
    rw [unescape, unescapeFrom_append htext] at hwhole
    obtain ⟨other, hother, rfl⟩ := Option.map_eq_some_iff.mp hwhole
    refine ⟨text, some other, htext, rfl, ?_, fun hspaces => ?_, fun hkeeps => ?_⟩
    · rw [textPieces, if_neg hsecond, List.map_singleton, List.singleton_append, Piece.token,
        keepLeafTextFrom_leafText, unescape, hother, Option.bind_some, Option.getD_none,
        List.nil_append, keepLeafTextFrom_pending hafter, hothers]
      rfl
    · rw [textPieces, if_neg hsecond, List.map_singleton, List.all_cons, Piece.token,
        Token.isVacant, unescape, hother, Option.any_some, Bool.and_eq_true]
      exact ⟨List.all_eq_true.mpr hspaces, rfl⟩
    · rw [textPieces, if_neg hsecond] at hkeeps
      cases hkeeps

/-- In a leaf, a note is put between two parts of a text. -/
theorem exists_noted_leaf {note : Token} (hnote : note.isNote = true)
    {before after kept : List Token} {first second : List Char}
    (hbefore : ∀ token ∈ before.getLast?, token.isText = false)
    (hleaf : before.foldl leafAfter false = true) (hne : first ≠ [])
    (hcut : isEscaped (first ++ second) = true → isEscaped first = true)
    (hafter : ∀ token ∈ after.head?, token.isText = false)
    (h : keepLeafText (before ++ .text (first ++ second) :: after) = some kept) :
    ∃ noted, keepLeafText (before ++ .text first ::
        note :: ((textPieces second).map Piece.token ++ after)) = some noted ∧
      Noted note (exposesSpace (before ++ [.text first])
          ((textPieces second).map Piece.token ++ after) = false)
        (dropLeadingMark kept) (dropLeadingMark noted) := by
  obtain ⟨front, tag, gap, rfl, hgap⟩ := exists_openTag_of_inLeaf hleaf
  have hgapLast : ∀ token ∈ gap.getLast?, token.isText = false := by
    intro token htoken
    refine hbefore token ?_
    rw [List.getLast?_append, List.getLast?_cons, Option.mem_def.mp htoken]
    rfl
  have htag : (Token.openTag tag).isTag = true := rfl
  obtain ⟨keptFront, hkeptFront⟩ := keepLeafTextFrom_append_of_isTag htag front false none
  have hkeep (rest : List Token) : keepLeafText (front ++ .openTag tag :: gap ++ rest) =
      keptFront.bind fun own => (keepLeafTextFrom true none gap).bind fun inner =>
        (keepLeafTextFrom true none rest).map fun others =>
          own ++ .openTag tag :: (inner ++ others) := by
    rw [List.append_assoc, List.cons_append, keepLeafText, hkeptFront, leafAfter,
      keepLeafTextFrom_append hgapLast (fun _ => rfl), foldl_leafAfter_of_noTags hgap]
    cases keptFront with
    | none => rfl
    | some own =>
      cases keepLeafTextFrom true none gap with
      | none => rfl
      | some inner => simp [Function.comp_def]
  rw [hkeep] at h
  obtain ⟨own, hown, h⟩ := Option.bind_eq_some_iff.mp h
  obtain ⟨inner, hinner, h⟩ := Option.bind_eq_some_iff.mp h
  obtain ⟨_, hkept, rfl⟩ := Option.map_eq_some_iff.mp h
  rw [keepLeafTextFrom_leafText] at hkept
  obtain ⟨whole, hwhole, hkept⟩ := Option.bind_eq_some_iff.mp hkept
  rw [Option.getD_none, List.nil_append, keepLeafTextFrom_pending hafter] at hkept
  obtain ⟨others, hothers, rfl⟩ := Option.map_eq_some_iff.mp hkept
  obtain ⟨text, more, htext, rfl, hmore, hvacant, hplain⟩ :=
    exists_cut_leafText hafter hcut hwhole hothers
  obtain ⟨ownGap, back, rfl, hownGap, hvalue, hback⟩ := exists_gap_of_inLeaf hothers
  have hinnerTags : ∀ token ∈ inner, token.isTag = false := by
    rw [noTags_iff, filter_keepLeafTextFrom hinner, ← noTags_iff]
    exact hgap
  refine ⟨own ++ .openTag tag :: (inner ++ (placePending (some text) none ++
    note :: (placePending more after.head? ++ (ownGap ++ back)))), ?_, ?_⟩
  · rw [hkeep, hown, hinner, keepLeafTextFrom_leafText, htext, Option.bind_some, Option.bind_some,
      Option.bind_some, Option.getD_none, List.nil_append, keepLeafTextFrom_note hnote, hmore]
    rfl
  · rw [dropLeadingMark_append_tag htag, dropLeadingMark_append_tag htag]
    cases hkeeps : keepsTextBefore ((textPieces second).map Piece.token ++ after) with
    | true =>
      refine .leaf _ tag (ne_nil_of_unescape hne htext) hinnerTags hownGap hvalue ?_
        (safe_of_exposesSpace hgap htext hinner hothers hownGap hback hvacant hkeeps)
      intro token htoken
      rw [hback] at htoken
      exact List.find?_some htoken
    | false =>
      -- The text stands in front of another note, so that it is no section already.
      have hfront (rest : List Token) : dropLeadingMark own ++ .openTag tag ::
          (inner ++ (placePending (some text) none ++ rest)) = (dropLeadingMark own ++
            .openTag tag :: (inner ++ placePending (some text) none)) ++ rest := by simp
      rw [hplain hkeeps, List.append_assoc (placePending (some text) none), hfront, hfront]
      exact .apart _ _

end CallbackGateway.Markup
