import CallbackGateway.Markup.Content
import CallbackGateway.Proofs.Markup.LeafText
import CallbackGateway.Proofs.Text.Size

/-!
# How much text a document holds

Reading adds no text of its own: the texts in the elements of a document have no more characters
together than the document itself. Keeping leaf text verbatim can make a text longer for a while,
because one character is written with up to six.
-/

namespace CallbackGateway.Markup

/-! ## Tokens -/

/-- The number of characters of a token that may end up in a text. -/
def Token.textSize : Token → Nat
  | .text raw | .cdata raw => raw.length
  | _ => 0

/-- The text of a token is not longer than the token. -/
theorem Lexeme.textSize_le {token : Token} {written : List Char} (h : Lexeme token written) :
    token.textSize ≤ written.length := by
  cases h with
  | text => exact Nat.le_refl _
  | tag =>
    unfold tagToken
    split <;> exact Nat.zero_le _
  | cdata =>
    simp only [Token.textSize, List.length_cons, List.length_append]
    omega
  | closeTag | comment | instruction | doctype => exact Nat.zero_le _

/-- The tokens of a document hold at most its characters. -/
theorem textSize_scan (text : List Char) :
    sizeSum Token.textSize (scan text).tokens ≤ text.length := by
  generalize htokens : (scan text).tokens = tokens
  induction tokens generalizing text with
  | nil => exact Nat.zero_le _
  | cons token tokens ih =>
    obtain ⟨after, hstep, hrest, -⟩ := step_of_scan_cons htokens
    obtain ⟨written, rfl, -, hlexeme⟩ := lexeme_of_step hstep
    have hafter := ih after hrest
    have hfirst : token.textSize ≤ written.length := by
      rcases hlexeme with hlexeme | ⟨-, hunclosed⟩
      · exact hlexeme.textSize_le
      · cases hunclosed
        all_goals exact Nat.zero_le _
    rw [sizeSum_cons, List.length_append]
    exact Nat.add_le_add hfirst hafter

/-- Dropping a mark makes nothing longer. -/
theorem length_dropMark_le (text : List Char) : (dropMark text).length ≤ text.length := by
  cases text with
  | nil => exact Nat.le_refl _
  | cons c rest =>
    rw [dropMark]
    split
    · exact Nat.le_succ _
    · exact Nat.le_refl _

/-! ## References -/

/-- A reference is at least as long as what it stands for. -/
theorem length_unescapeFrom_le {begun : Option (List Char)} {raw text : List Char}
    (h : unescapeFrom begun raw = some text) : text.length ≤ raw.length := by
  induction raw generalizing begun text with
  | nil =>
    cases begun with
    | none =>
      obtain rfl := Option.some.inj h
      exact Nat.le_refl _
    | some begun => cases h
  | cons c rest ih =>
    cases begun with
    | none =>
      rw [unescapeFrom] at h
      split at h
      · exact Nat.le_succ_of_le (ih h)
      · obtain ⟨others, hothers, rfl⟩ := Option.map_eq_some_iff.mp h
        exact Nat.succ_le_succ (ih hothers)
    | some begun =>
      rw [unescapeFrom] at h
      split at h
      · cases h
      · split at h
        · obtain ⟨d, -, h⟩ := Option.bind_eq_some_iff.mp h
          obtain ⟨others, hothers, rfl⟩ := Option.map_eq_some_iff.mp h
          exact Nat.succ_le_succ (ih hothers)
        · exact Nat.le_succ_of_le (ih h)

/-- A reference is longer than the character that it stands for. -/
theorem length_unescape_le {raw text : List Char} (h : unescape raw = some text) :
    text.length ≤ raw.length := length_unescapeFrom_le h

/-- A character takes at most six characters to be written. -/
theorem length_escapeChar_le (c : Char) : (escapeChar c).length ≤ 6 := by
  unfold escapeChar
  repeat' split
  all_goals exact Nat.le_of_lt_succ (by simp)

/-- A text takes at most six characters for each of its own. -/
theorem length_escape_le (text : List Char) : (escape text).length ≤ 6 * text.length := by
  induction text with
  | nil => exact Nat.le_refl _
  | cons c rest ih =>
    have hstep : escape (c :: rest) = escapeChar c ++ escape rest := rfl
    have hc := length_escapeChar_le c
    rw [hstep, List.length_append, List.length_cons]
    omega

/-! ## Kept leaf text -/

/-- Sections hold their contents. -/
theorem textSize_cdata (contents : List (List Char)) :
    sizeSum Token.textSize (contents.map .cdata) = contents.flatten.length := by
  induction contents with
  | nil => rfl
  | cons content contents ih =>
    rw [List.map_cons, sizeSum_cons, ih, Token.textSize, List.flatten_cons, List.length_append]

/-- The sections of a text hold the text. -/
theorem textSize_sections (text : List Char) :
    sizeSum Token.textSize (sections text) = text.length := by
  rw [sections, textSize_cdata, flatten_chunks]

/-- What is placed for pending text is at most six times as long. -/
theorem textSize_placePending_le (pending : Option (List Char)) (next : Option Token) :
    sizeSum Token.textSize (placePending pending next) ≤ 6 * (pending.getD []).length := by
  cases pending with
  | none => exact Nat.zero_le _
  | some text =>
    rw [placePending, Option.getD_some]
    split
    · rw [textSize_sections]
      omega
    · rw [sizeSum_cons, sizeSum_nil, Token.textSize, Nat.add_zero]
      exact length_escape_le text

/-- Keeping leaf text makes a text at most six times as long. -/
theorem textSize_keepLeafTextFrom_le {inLeaf : Bool} {pending : Option (List Char)}
    {tokens kept : List Token} (h : keepLeafTextFrom inLeaf pending tokens = some kept) :
    sizeSum Token.textSize kept ≤
      6 * ((pending.getD []).length + sizeSum Token.textSize tokens) := by
  -- What is held back has been unescaped but not yet placed, so it counts like the tokens to come.
  induction tokens generalizing inLeaf pending kept with
  | nil =>
    obtain rfl := Option.some.inj h
    exact textSize_placePending_le pending none
  | cons token rest ih =>
    have hpending (next : Option Token) := textSize_placePending_le pending next
    have placed {inLeaf' : Bool} (h : (keepLeafTextFrom inLeaf' none rest).map (fun others =>
        placePending pending (some token) ++ token :: others) = some kept) :
        sizeSum Token.textSize kept ≤
          6 * ((pending.getD []).length + sizeSum Token.textSize (token :: rest)) := by
      obtain ⟨others, hothers, rfl⟩ := Option.map_eq_some_iff.mp h
      have hrest := ih hothers
      have hplaced := hpending (some token)
      rw [Option.getD_none, List.length_nil] at hrest
      rw [sizeSum_append, sizeSum_cons, sizeSum_cons]
      omega
    cases htext : token.isText with
    | false =>
      rw [keepLeafTextFrom_markup htext] at h
      exact placed h
    | true =>
      cases token with
      | openTag | emptyTag | closeTag | cdata | comment | instruction | doctype =>
        simp [Token.isText] at htext
      | text raw =>
        cases inLeaf with
        | false =>
          rw [keepLeafTextFrom_text] at h
          exact placed h
        | true =>
          rw [keepLeafTextFrom_leafText] at h
          obtain ⟨text, hunescape, h⟩ := Option.bind_eq_some_iff.mp h
          have hlength := length_unescape_le hunescape
          have hrest := ih h
          rw [Option.getD_some, List.length_append] at hrest
          rw [sizeSum_cons, Token.textSize]
          omega

/-- Kept leaf text is at most six times as long. -/
theorem textSize_keepLeafText_le {tokens kept : List Token} (h : keepLeafText tokens = some kept) :
    sizeSum Token.textSize kept ≤ 6 * sizeSum Token.textSize tokens := by
  have hkept := textSize_keepLeafTextFrom_le h
  rwa [Option.getD_none, List.length_nil, Nat.zero_add] at hkept

/-- Dropping a mark in front makes no text longer. -/
theorem textSize_dropLeadingMark_le (tokens : List Token) :
    sizeSum Token.textSize (dropLeadingMark tokens) ≤ sizeSum Token.textSize tokens := by
  cases tokens with
  | nil => exact Nat.le_refl _
  | cons token rest =>
    cases token with
    | openTag | emptyTag | closeTag | cdata | comment | instruction | doctype => exact Nat.le_refl _
    | text raw =>
      have hmark := length_dropMark_le raw
      rw [dropLeadingMark]
      split
      · rw [sizeSum_cons]
        omega
      · rename_i c tail heq
        rw [heq] at hmark
        rw [sizeSum_cons, sizeSum_cons, Token.textSize, Token.textSize]
        omega

/-! ## Items -/

mutual

/-- The number of characters of the texts in an item. -/
def Item.textSize : Item → Nat
  | .element _ content _ => itemsTextSize content
  | .text none => 0
  | .text (some text) => text.length
termination_by structural item => item

/-- The number of characters of the texts in items. -/
def itemsTextSize : List Item → Nat
  | [] => 0
  | item :: rest => item.textSize + itemsTextSize rest
termination_by structural items => items

end

/-- The texts of items are counted one part after another. -/
theorem itemsTextSize_append (first second : List Item) :
    itemsTextSize (first ++ second) = itemsTextSize first + itemsTextSize second := by
  induction first with
  | nil => simp [itemsTextSize]
  | cons item first ih =>
    rw [List.cons_append, itemsTextSize, itemsTextSize, ih, Nat.add_assoc]

/-- The number of characters of a piece. -/
def Piece.textSize : Piece → Nat
  | .text raw | .cdata raw => raw.length

/-- Trimming the start of a run makes it no longer. -/
theorem runTextSize_trimRunStart_le (run : List Piece) :
    sizeSum Piece.textSize (trimRunStart run) ≤ sizeSum Piece.textSize run := by
  induction run with
  | nil => exact Nat.le_refl _
  | cons piece run ih =>
    cases piece with
    | cdata raw => exact Nat.le_refl _
    | text raw =>
      have hdrop := dropWhile_length_le isSpace raw
      rw [trimRunStart]
      split
      · rw [sizeSum_cons]
        omega
      · rename_i c tail heq
        rw [heq] at hdrop
        rw [sizeSum_cons, sizeSum_cons, Piece.textSize, Piece.textSize]
        omega

/-- Trimming the end of a piece makes it no longer. -/
theorem textSize_trimEnd_le (piece : Piece) : piece.trimEnd.textSize ≤ piece.textSize := by
  cases piece with
  | cdata raw => exact Nat.le_refl _
  | text raw =>
    have hdrop := dropWhile_length_le isSpace raw.reverse
    rw [List.length_reverse] at hdrop
    rwa [Piece.trimEnd, Piece.textSize, Piece.textSize, List.length_reverse]

/-- Trimming the end of a run makes it no longer. -/
theorem runTextSize_trimRunEnd_le (run : List Piece) :
    sizeSum Piece.textSize (trimRunEnd run) ≤ sizeSum Piece.textSize run := by
  induction run with
  | nil => exact Nat.le_refl _
  | cons piece run ih =>
    cases run with
    | nil =>
      rw [trimRunEnd, sizeSum_cons, sizeSum_cons]
      exact Nat.add_le_add_right (textSize_trimEnd_le piece) _
    | cons other run =>
      rw [trimRunEnd, sizeSum_cons, sizeSum_cons]
      · exact Nat.add_le_add_left ih _
      · simp

/-- A run is at least as long as its text. -/
theorem length_joinPieces_le {run : List Piece} {text : List Char}
    (h : joinPieces run = some text) : text.length ≤ sizeSum Piece.textSize run := by
  induction run generalizing text with
  | nil =>
    obtain rfl := Option.some.inj h
    exact Nat.le_refl _
  | cons piece run ih =>
    obtain ⟨first, hfirst, h⟩ := Option.bind_eq_some_iff.mp h
    obtain ⟨others, hothers, h⟩ := Option.bind_eq_some_iff.mp h
    obtain rfl := Option.some.inj h
    have hpiece : first.length ≤ piece.textSize := by
      cases piece with
      | text raw => exact length_unescape_le hfirst
      | cdata raw =>
        obtain rfl := Option.some.inj hfirst
        exact Nat.le_refl _
    rw [List.length_append, sizeSum_cons]
    exact Nat.add_le_add hpiece (ih hothers)

/-- The item of a run holds at most its characters. -/
theorem itemsTextSize_runItem_le (run : List Piece) :
    itemsTextSize (runItem run) ≤ sizeSum Piece.textSize run := by
  have hstart := runTextSize_trimRunStart_le run
  have hend := runTextSize_trimRunEnd_le (trimRunStart run)
  unfold runItem
  split
  · exact Nat.zero_le _
  · rw [itemsTextSize, itemsTextSize, Nat.add_zero]
    cases hjoin : joinPieces (trimRunEnd (trimRunStart run)) with
    | none => exact Nat.zero_le _
    | some text =>
      rw [Item.textSize]
      exact Nat.le_trans (length_joinPieces_le hjoin) (Nat.le_trans hend hstart)

/-! ## Assembly -/

/-- The number of characters of a part. -/
def Part.textSize : Part → Nat
  | .whole held => held.textSize
  | .piece held => held.textSize
  | .boundary => 0

/-- Joining runs makes no text longer. -/
theorem itemsTextSize_joinRuns_le (run : List Piece) (parts : List Part) :
    itemsTextSize (joinRuns run parts) ≤
      sizeSum Piece.textSize run + sizeSum Part.textSize parts := by
  induction parts generalizing run with
  | nil =>
    have hrun := itemsTextSize_runItem_le run.reverse
    rw [sizeSum_reverse] at hrun
    rwa [joinRuns, sizeSum_nil, Nat.add_zero]
  | cons part parts ih =>
    have hrun := itemsTextSize_runItem_le run.reverse
    rw [sizeSum_reverse] at hrun
    have hnext := ih []
    rw [sizeSum_nil] at hnext
    cases part with
    | whole item =>
      rw [joinRuns, itemsTextSize_append, itemsTextSize, sizeSum_cons, Part.textSize]
      omega
    | piece piece =>
      have hpiece := ih (piece :: run)
      rw [sizeSum_cons] at hpiece
      rw [joinRuns, sizeSum_cons, Part.textSize]
      omega
    | boundary =>
      rw [joinRuns, itemsTextSize_append, sizeSum_cons, Part.textSize]
      omega

/-- The items of parts hold no more text than the parts. -/
theorem itemsTextSize_itemsOf_le (parts : List Part) :
    itemsTextSize (itemsOf parts) ≤ sizeSum Part.textSize parts := by
  have hjoin := itemsTextSize_joinRuns_le [] parts.reverse
  rwa [sizeSum_nil, Nat.zero_add, sizeSum_reverse] at hjoin

/-- The number of characters in front of an open element. -/
def Opened.textSize (outer : Opened) : Nat := sizeSum Part.textSize outer.before

/-- What is left open holds no more text than it did. -/
theorem itemsTextSize_leaveOpen_le (opened : List Opened) (parts : List Part) :
    itemsTextSize (leaveOpen opened parts) ≤
      sizeSum Opened.textSize opened + sizeSum Part.textSize parts := by
  induction opened generalizing parts with
  | nil =>
    rw [leaveOpen, sizeSum_nil, Nat.zero_add]
    exact itemsTextSize_itemsOf_le parts
  | cons innermost outer ih =>
    have hinner := itemsTextSize_itemsOf_le parts
    have houter := ih (.whole (.element innermost.tag (itemsOf parts) false) :: innermost.before)
    rw [sizeSum_cons, Part.textSize, Item.textSize] at houter
    rw [leaveOpen, sizeSum_cons, Opened.textSize]
    omega

/-- Putting tokens together makes no text longer. -/
theorem itemsTextSize_assembleFrom_le (opened : List Opened) (parts : List Part)
    (tokens : List Token) : itemsTextSize (assembleFrom opened parts tokens) ≤
      sizeSum Opened.textSize opened + sizeSum Part.textSize parts +
        sizeSum Token.textSize tokens := by
  -- Characters only move: from the tokens into the parts, to what is open around them at an opening
  -- tag, and back into one part when it is closed.
  induction tokens generalizing opened parts with
  | nil =>
    rw [assembleFrom]
    exact itemsTextSize_leaveOpen_le opened parts
  | cons token rest ih =>
    have hinner := itemsTextSize_itemsOf_le parts
    rw [sizeSum_cons]
    cases token with
    | openTag tag =>
      have hrest := ih (⟨tag, parts⟩ :: opened) []
      simp only [sizeSum_cons, sizeSum_nil, Opened.textSize] at hrest
      rw [assembleFrom]
      omega
    | emptyTag tag =>
      have hrest := ih opened (.whole (.element tag [] true) :: parts)
      rw [sizeSum_cons, Part.textSize, Item.textSize, itemsTextSize] at hrest
      rw [assembleFrom]
      omega
    | closeTag name =>
      cases opened with
      | nil =>
        rw [assembleFrom]
        omega
      | cons innermost outer =>
        rw [assembleFrom]
        split
        · have hrest := ih outer
            (.whole (.element innermost.tag (itemsOf parts) true) :: innermost.before)
          rw [sizeSum_cons, Part.textSize, Item.textSize] at hrest
          rw [sizeSum_cons, Opened.textSize]
          omega
        · have hleft := itemsTextSize_leaveOpen_le (innermost :: outer) parts
          omega
    | text raw =>
      have hrest := ih opened (.piece (.text raw) :: parts)
      rw [sizeSum_cons, Part.textSize, Piece.textSize] at hrest
      rw [assembleFrom, Token.textSize]
      omega
    | cdata raw =>
      have hrest := ih opened (.piece (.cdata raw) :: parts)
      rw [sizeSum_cons, Part.textSize, Piece.textSize] at hrest
      rw [assembleFrom, Token.textSize]
      omega
    | comment | instruction =>
      have hrest := ih opened parts
      rw [assembleFrom]
      omega
    | doctype =>
      have hrest := ih opened (.boundary :: parts)
      rw [sizeSum_cons, Part.textSize] at hrest
      rw [assembleFrom]
      omega

/-- The items of a document hold at most the characters of its tokens. -/
theorem itemsTextSize_assemble_le (tokens : List Token) :
    itemsTextSize (assemble tokens) ≤ sizeSum Token.textSize tokens := by
  have hassemble := itemsTextSize_assembleFrom_le [] [] tokens
  rwa [sizeSum_nil, sizeSum_nil, Nat.zero_add] at hassemble

end CallbackGateway.Markup
