import CallbackGateway.Proofs.Markup.LeafText

/-!
# Readable text

A text is readable if its references are well formed. White space at its ends does not matter, so
that a run of content has a value just if all of its pieces are readable, and keeping leaf text
keeps what is readable.
-/

namespace CallbackGateway.Markup

/-! ## References -/

/-- Text that is readable by itself is read before what follows it. -/
theorem unescapeFrom_append {begun : Option (List Char)} {first text : List Char}
    (h : unescapeFrom begun first = some text) (second : List Char) :
    unescapeFrom begun (first ++ second) = (unescapeFrom none second).map (text ++ ·) := by
  induction first generalizing begun text with
  | nil =>
    cases begun with
    | none =>
      obtain rfl := Option.some.inj h
      exact (Option.map_id' ..).symm
    | some begun => cases h
  | cons c rest ih =>
    cases begun with
    | none =>
      rw [List.cons_append, unescapeFrom]
      rw [unescapeFrom] at h
      split at h
      · rename_i hc
        rw [if_pos hc, ih h]
      · rename_i hc
        obtain ⟨others, hothers, rfl⟩ := Option.map_eq_some_iff.mp h
        rw [if_neg hc, ih hothers, Option.map_map]
        rfl
    | some begun =>
      rw [List.cons_append, unescapeFrom]
      rw [unescapeFrom] at h
      split at h
      · cases h
      · rename_i hc
        rw [if_neg hc]
        split at h
        · rename_i hend
          obtain ⟨d, hd, h⟩ := Option.bind_eq_some_iff.mp h
          obtain ⟨others, hothers, rfl⟩ := Option.map_eq_some_iff.mp h
          rw [if_pos hend, hd, Option.bind_some, ih hothers, Option.map_map]
          rfl
        · rename_i hend
          rw [if_neg hend, ih h]

/-- Whether the references in a text are well formed. -/
def isEscaped (raw : List Char) : Bool := (unescape raw).isSome

/-- Behind a text that can be read, the rest decides. -/
theorem isEscaped_append {first : List Char} (h : isEscaped first = true) (second : List Char) :
    isEscaped (first ++ second) = isEscaped second := by
  obtain ⟨text, htext⟩ := Option.isSome_iff_exists.mp h
  rw [isEscaped, unescape, unescapeFrom_append htext, Option.isSome_map]
  rfl

/-- White space can be read. -/
theorem isEscaped_of_spaces {spaces : List Char} (h : ∀ c ∈ spaces, isSpace c = true) :
    isEscaped spaces = true := by
  have hreference : '&' ∉ spaces := fun hmem => absurd (h _ hmem) (by decide)
  rw [isEscaped, unescape_eq_self hreference]
  rfl

/-- White space behind a text does not close a reference. -/
theorem isEscaped_append_spaces {spaces : List Char} (h : ∀ c ∈ spaces, isSpace c = true)
    (raw : List Char) : isEscaped (raw ++ spaces) = isEscaped raw := by
  have hopen (begun : List Char) : unescapeFrom (some begun) spaces = none := by
    induction spaces generalizing begun with
    | nil => rfl
    | cons c rest ih =>
      obtain ⟨hc, hrest⟩ := List.forall_mem_cons.mp h
      have hand : (c == '&') = false := by
        rw [beq_eq_false_iff_ne]
        rintro rfl
        exact absurd hc (by decide)
      have hend : (c == ';') = false := by
        rw [beq_eq_false_iff_ne]
        rintro rfl
        exact absurd hc (by decide)
      rw [unescapeFrom, hand, hend]
      exact ih hrest (c :: begun)
  have hfrom (begun : Option (List Char)) : (unescapeFrom begun (raw ++ spaces)).isSome =
      (unescapeFrom begun raw).isSome := by
    induction raw generalizing begun with
    | nil =>
      cases begun with
      | none => exact isEscaped_of_spaces h
      | some begun => rw [List.nil_append, hopen, unescapeFrom]
    | cons c rest ih =>
      cases begun with
      | none =>
        rw [List.cons_append, unescapeFrom, unescapeFrom]
        split
        · exact ih _
        · rw [Option.isSome_map, Option.isSome_map, ih]
      | some begun =>
        rw [List.cons_append, unescapeFrom, unescapeFrom]
        split
        · rfl
        · split
          · cases reference? begun.reverse with
            | none => rfl
            | some d => rw [Option.bind_some, Option.bind_some, Option.isSome_map,
                Option.isSome_map, ih]
          · exact ih _
  exact hfrom none

/-- White space in front does not decide. -/
theorem isEscaped_dropWhile (raw : List Char) :
    isEscaped (raw.dropWhile isSpace) = isEscaped raw := by
  have hspaces : isEscaped (raw.takeWhile isSpace) = true :=
    isEscaped_of_spaces fun c hc => List.mem_takeWhile_imp hc
  rw [← isEscaped_append hspaces, List.takeWhile_append_dropWhile]

/-- White space at the end does not decide. -/
theorem isEscaped_trimEnd (raw : List Char) :
    isEscaped (raw.reverse.dropWhile isSpace).reverse = isEscaped raw := by
  have hspaces : ∀ c ∈ (raw.reverse.takeWhile isSpace).reverse, isSpace c = true :=
    fun c hc => List.mem_takeWhile_imp (List.mem_reverse.mp hc)
  rw [← isEscaped_append_spaces hspaces, ← List.reverse_append, List.takeWhile_append_dropWhile,
    List.reverse_reverse]

/-! ## Runs -/

/-- Whether a piece has a value. -/
def Piece.hasValue (piece : Piece) : Bool := piece.value.isSome

/-- A trimmed piece has a value just if the piece has one. -/
theorem Piece.hasValue_trimEnd (piece : Piece) : piece.trimEnd.hasValue = piece.hasValue := by
  cases piece with
  | text raw => exact isEscaped_trimEnd raw
  | cdata raw => rfl

/-- A run has a value just if all of its pieces have one. -/
theorem isSome_joinPieces {run : List Piece} :
    (joinPieces run).isSome = run.all Piece.hasValue := by
  induction run with
  | nil => rfl
  | cons piece run ih =>
    rw [joinPieces, List.all_cons, ← ih, Piece.hasValue]
    cases piece.value <;> cases joinPieces run <;> rfl

/-- Trimming the start of a run keeps what can be read. -/
theorem all_trimRunStart (run : List Piece) :
    (trimRunStart run).all Piece.hasValue = run.all Piece.hasValue := by
  induction run with
  | nil => rfl
  | cons piece run ih =>
    cases piece with
    | cdata raw => rfl
    | text raw =>
      have hraw : isEscaped (raw.dropWhile isSpace) = (Piece.text raw).hasValue :=
        isEscaped_dropWhile raw
      rw [trimRunStart, List.all_cons, ← hraw]
      split
      · rename_i hblank
        rw [hblank, ih]
        rfl
      · rename_i c tail hdrop
        rw [hdrop, List.all_cons]
        rfl

/-- Trimming the end of a run keeps what can be read. -/
theorem all_trimRunEnd (run : List Piece) :
    (trimRunEnd run).all Piece.hasValue = run.all Piece.hasValue := by
  induction run with
  | nil => rfl
  | cons piece run ih =>
    cases run with
    | nil => rw [trimRunEnd, List.all_cons, List.all_cons, Piece.hasValue_trimEnd]
    | cons next rest =>
      rw [trimRunEnd, List.all_cons, List.all_cons, ih]
      simp

/-- Whether an item has a value, if it is a text. -/
def Item.hasValue : Item → Bool
  | .text value => value.isSome
  | .element _ _ _ => true

/-- Whether an item is a text. -/
def Item.isText : Item → Bool
  | .text _ => true
  | .element _ _ _ => false

/-- A run is text. -/
theorem all_isText_runItem (run : List Piece) : (runItem run).all Item.isText = true := by
  unfold runItem
  split <;> rfl

/-- The item of a run has a value just if the pieces of the run have one. -/
theorem all_hasValue_runItem (run : List Piece) :
    (runItem run).all Item.hasValue = run.all Piece.hasValue := by
  rw [← all_trimRunStart, runItem]
  split
  · rename_i hblank
    rw [hblank]
    rfl
  · rw [← all_trimRunEnd, ← isSome_joinPieces, List.all_cons, List.all_nil, Bool.and_true]
    rfl

/-- Whether a part has a value, if it is a piece. -/
def Part.hasValue : Part → Bool
  | .piece held => held.hasValue
  | .whole item => item.hasValue
  | .boundary => true

/-- The items of parts have values just if the parts do. -/
theorem all_hasValue_joinRuns (run : List Piece) (parts : List Part) :
    (joinRuns run parts).all Item.hasValue =
      (run.all Piece.hasValue && parts.all Part.hasValue) := by
  induction parts generalizing run with
  | nil => rw [joinRuns, all_hasValue_runItem, List.all_reverse, List.all_nil, Bool.and_true]
  | cons part parts ih =>
    cases part with
    | whole item =>
      rw [joinRuns, List.all_append, all_hasValue_runItem, List.all_reverse, List.all_cons, ih,
        List.all_cons]
      rfl
    | piece piece =>
      rw [joinRuns, ih, List.all_cons, List.all_cons, Part.hasValue, Bool.and_assoc,
        Bool.and_left_comm]
    | boundary =>
      rw [joinRuns, List.all_append, all_hasValue_runItem, List.all_reverse, ih, List.all_cons]
      rfl

/-- Pieces and boundaries become texts. -/
theorem all_isText_joinRuns {parts : List Part} (hwhole : ∀ item, .whole item ∉ parts)
    (run : List Piece) : (joinRuns run parts).all Item.isText = true := by
  induction parts generalizing run with
  | nil => exact all_isText_runItem _
  | cons part parts ih =>
    have hrest : ∀ item, .whole item ∉ parts := fun item hmem =>
      hwhole item (List.mem_cons_of_mem _ hmem)
    cases part with
    | whole item => exact absurd List.mem_cons_self (hwhole item)
    | piece => exact ih hrest _
    | boundary => rw [joinRuns, List.all_append, all_isText_runItem, ih hrest, Bool.and_self]

/-! ## Tokens -/

/-- Whether a token has a value, if it is a text. -/
def Token.hasValue : Token → Bool
  | .text raw => isEscaped raw
  | _ => true

/-- Without tags, the parts have values just if the tokens do. -/
theorem Content.all_hasValue {tokens : List Token} {parts : List Part} (h : Content tokens parts)
    (htags : ∀ token ∈ tokens, token.isTag = false) :
    parts.all Part.hasValue = tokens.all Token.hasValue := by
  induction h with
  | nil => rfl
  | element | emptyTag => simp [Token.isTag] at htags
  | text _ ih =>
    rw [List.all_cons, List.all_cons, ih (List.forall_mem_cons.mp htags).2]
    rfl
  | cdata _ ih | doctype _ ih =>
    rw [List.all_cons, List.all_cons, ih (List.forall_mem_cons.mp htags).2]
    rfl
  | comment _ ih | instruction _ ih =>
    rw [List.all_cons, ih (List.forall_mem_cons.mp htags).2]
    rfl

/-- The parts of tokens that have values have values. -/
theorem Content.all_hasValue_of_tokens {tokens : List Token} {parts : List Part}
    (h : Content tokens parts) (htokens : tokens.all Token.hasValue = true) :
    parts.all Part.hasValue = true := by
  induction h with
  | nil => rfl
  | element _ _ _ ih =>
    rw [List.all_cons, List.all_append, List.all_cons, Bool.and_eq_true, Bool.and_eq_true,
      Bool.and_eq_true] at htokens
    rw [List.all_cons, ih htokens.2.2.2]
    rfl
  | emptyTag _ ih | cdata _ ih | doctype _ ih =>
    rw [List.all_cons, Bool.and_eq_true] at htokens
    rw [List.all_cons, ih htokens.2]
    rfl
  | text _ ih =>
    rw [List.all_cons, Bool.and_eq_true] at htokens
    rw [List.all_cons, ih htokens.2, Bool.and_true]
    exact htokens.1
  | comment _ ih | instruction _ ih =>
    rw [List.all_cons, Bool.and_eq_true] at htokens
    exact ih htokens.2

/-! ## Leaf text -/

/-- What is placed for pending text can be read. -/
theorem all_hasValue_placePending (pending : Option (List Char)) (next : Option Token) :
    (placePending pending next).all Token.hasValue = true := by
  cases pending with
  | none => rfl
  | some text =>
    rw [placePending]
    split
    · rw [sections, List.all_map, List.all_eq_true]
      exact fun _ _ => rfl
    · rw [List.all_cons, Token.hasValue, isEscaped, unescape_escape]
      rfl

/-- Leaf text can be kept just if it has a value, and all other text is kept as it is. -/
theorem all_hasValue_keepLeafTextFrom {inLeaf : Bool} {pending : Option (List Char)}
    {tokens kept : List Token} (h : keepLeafTextFrom inLeaf pending tokens = some kept) :
    kept.all Token.hasValue = tokens.all Token.hasValue := by
  induction tokens generalizing inLeaf pending kept with
  | nil =>
    obtain rfl := Option.some.inj h
    exact all_hasValue_placePending pending none
  | cons token rest ih =>
    have placed {inLeaf' : Bool} (h : (keepLeafTextFrom inLeaf' none rest).map (fun others =>
        placePending pending (some token) ++ token :: others) = some kept) :
        kept.all Token.hasValue = (token :: rest).all Token.hasValue := by
      obtain ⟨others, hothers, rfl⟩ := Option.map_eq_some_iff.mp h
      rw [List.all_append, all_hasValue_placePending, List.all_cons, List.all_cons, ih hothers,
        Bool.true_and]
    cases htext : token.isText with
    | false =>
      rw [keepLeafTextFrom_markup htext] at h
      exact placed h
    | true =>
      cases token with
      | openTag | emptyTag | closeTag | cdata | comment | instruction | doctype =>
        simp [Token.isText] at htext
      | text raw =>
        cases inLeaf with
        | false =>
          rw [keepLeafTextFrom_text] at h
          exact placed h
        | true =>
          rw [keepLeafTextFrom_leafText] at h
          obtain ⟨text, htext, h⟩ := Option.bind_eq_some_iff.mp h
          have hvalue : Token.hasValue (.text raw) = true := by
            rw [Token.hasValue, isEscaped, htext]
            rfl
          rw [List.all_cons, hvalue, Bool.true_and]
          exact ih h

/-- Where all texts can be read, leaf text can be kept. -/
theorem exists_keepLeafTextFrom {tokens : List Token} (h : tokens.all Token.hasValue = true)
    (inLeaf : Bool) (pending : Option (List Char)) :
    ∃ kept, keepLeafTextFrom inLeaf pending tokens = some kept := by
  induction tokens generalizing inLeaf pending with
  | nil => exact ⟨_, rfl⟩
  | cons token rest ih =>
    rw [List.all_cons, Bool.and_eq_true] at h
    have placed (inLeaf' : Bool) : ∃ kept, (keepLeafTextFrom inLeaf' none rest).map (fun others =>
        placePending pending (some token) ++ token :: others) = some kept := by
      obtain ⟨others, hothers⟩ := ih h.2 inLeaf' none
      exact ⟨_, by rw [hothers]; rfl⟩
    cases htext : token.isText with
    | false =>
      rw [keepLeafTextFrom_markup htext]
      exact placed _
    | true =>
      cases token with
      | openTag | emptyTag | closeTag | cdata | comment | instruction | doctype =>
        simp [Token.isText] at htext
      | text raw =>
        cases inLeaf with
        | false =>
          rw [keepLeafTextFrom_text]
          exact placed false
        | true =>
          obtain ⟨text, hvalue⟩ := Option.isSome_iff_exists.mp h.1
          rw [keepLeafTextFrom_leafText, hvalue, Option.bind_some]
          exact ih h.2 true _

/-- Text that is kept as leaf text has a value. -/
theorem all_hasValue_of_inLeaf {tokens rest kept : List Token} {pending : Option (List Char)}
    (htags : ∀ token ∈ tokens, token.isTag = false)
    (h : keepLeafTextFrom true pending (tokens ++ rest) = some kept) :
    tokens.all Token.hasValue = true := by
  induction tokens generalizing pending kept with
  | nil => rfl
  | cons token tokens ih =>
    obtain ⟨htag, hothers⟩ := List.forall_mem_cons.mp htags
    rw [List.cons_append] at h
    rw [List.all_cons]
    cases token with
    | openTag | emptyTag | closeTag => simp [Token.isTag] at htag
    | text raw =>
      rw [keepLeafTextFrom_leafText] at h
      obtain ⟨text, htext, h⟩ := Option.bind_eq_some_iff.mp h
      rw [Token.hasValue, isEscaped, htext, ih hothers h]
      rfl
    | cdata | comment | instruction | doctype =>
      rw [keepLeafTextFrom_markup rfl, leafAfter_of_noTag htag] at h
      obtain ⟨others, h, -⟩ := Option.map_eq_some_iff.mp h
      rw [ih hothers h]
      rfl

end CallbackGateway.Markup
