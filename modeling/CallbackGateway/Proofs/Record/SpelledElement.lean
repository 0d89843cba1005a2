import CallbackGateway.Proofs.Record.KeptText
import CallbackGateway.Proofs.Record.MarkupReading

/-!
# Elements that are spelled in other ways

One element can be written in many ways. Its text may be cut into runs of text and sections, an
element without content may be one tag, and there may be white space around the child elements of a
record. Here is what becomes of these spellings up to the items that a record is read from.

White space counts for nothing unless it is the whole content of an element: there it is the text
of the element, and a record without elements has a run of text.
-/

namespace CallbackGateway.Record

open Markup

/-! ## Spellings -/

/-- White space around elements, if there is any. -/
inductive Spacing : List Token → Prop
  | none : Spacing []
  | space {raw : List Char} (hne : raw ≠ []) (hspace : ∀ c ∈ raw, Markup.isSpace c = true) :
      Spacing [.text raw]

/-- A run of text that stands for a text. -/
structure IsTextRun (raw text : List Char) : Prop where
  ne_nil : raw ≠ []
  notMem : '<' ∉ raw
  unescape : unescape raw = some text

/-- Which tokens spell the text of a leaf: sections, with at most one run of text before, between
and after them. -/
inductive LeafSpelled : List Char → List Token → Prop
  | nil : LeafSpelled [] []
  | text {raw text : List Char} (hrun : IsTextRun raw text) : LeafSpelled text [.text raw]
  | cdata {chunk text : List Char} {rest : List Token} (hchunk : ¬ "]]>".toList <:+: chunk) :
      LeafSpelled text rest → LeafSpelled (chunk ++ text) (.cdata chunk :: rest)
  | textCdata {raw first chunk text : List Char} {rest : List Token}
      (hrun : IsTextRun raw first) (hchunk : ¬ "]]>".toList <:+: chunk) :
      LeafSpelled text rest →
        LeafSpelled (first ++ (chunk ++ text)) (.text raw :: .cdata chunk :: rest)

/-- Which tokens are an element with a content. -/
inductive ElementSpelled (name : String) : List Token → List Token → Prop
  | tags (content : List Token) : ElementSpelled name content (element name content)
  | empty (hname : name ≠ "") : ElementSpelled name [] [.emptyTag ⟨name.toList, []⟩]

/-! ## Reading tokens off -/

/-- Neither an opening bracket nor a byte order mark is white space. -/
theorem isSpace_eq_false {c : Char} (h : c = '<' ∨ c = byteOrderMark) :
    Markup.isSpace c = false := by
  rcases h with rfl | rfl <;> decide

/-- Spacing is read into its own tokens. -/
theorem Spacing.isWritten {tokens : List Token} (h : Spacing tokens) : IsWritten tokens := by
  cases h with
  | none => exact isWritten_nil
  | space hne hspace =>
    refine isWritten_text hne fun hmem => ?_
    exact absurd (hspace _ hmem) (by rw [isSpace_eq_false (.inl rfl)]; decide)

/-- A spelled leaf is read into its own tokens. -/
theorem LeafSpelled.isWritten {text : List Char} {tokens : List Token}
    (h : LeafSpelled text tokens) : IsWritten tokens := by
  induction h with
  | nil => exact isWritten_nil
  | text hrun => exact isWritten_text hrun.ne_nil hrun.notMem
  | cdata hchunk _ ih => exact (isClosed_cdata hchunk).append ih
  | textCdata hrun hchunk _ ih =>
    refine isWritten_append (isWritten_text hrun.ne_nil hrun.notMem)
      ((isClosed_cdata hchunk).append ih) ?_
    simp [StartsAtBracket]

/-- Every text has a spelling: its sections. -/
theorem leafSpelled_sections (text : List Char) : LeafSpelled text (sections text) := by
  have each {contents : List (List Char)}
      (h : ∀ content ∈ contents, ¬ "]]>".toList <:+: content) :
      LeafSpelled contents.flatten (contents.map .cdata) := by
    induction contents with
    | nil => exact .nil
    | cons content contents ih =>
      obtain ⟨hcontent, hrest⟩ := List.forall_mem_cons.mp h
      exact .cdata hcontent (ih hrest)
  have hchunks : ∀ chunk ∈ chunks text, ¬ "]]>".toList <:+: chunk := fun _ =>
    not_infix_of_mem_chunks
  have hsections := each hchunks
  rwa [flatten_chunks] at hsections

/-- An empty element with a plain name is read off as one tag. -/
theorem isClosed_emptyTag {name : String} (hname : IsPlainName name.toList) (hne : name ≠ "") :
    IsClosed [.emptyTag ⟨name.toList, []⟩] := by
  intro rest
  have hlexeme := hname.lexeme_emptyTag fun hnil => hne (String.toList_eq_nil_iff.mp hnil)
  rw [write_cons, write_nil, List.append_nil]
  exact .cons hlexeme (by simp [Token.isText]) (.nil rest)

/-- A spelled element is read into its own tokens, whatever follows it. -/
theorem ElementSpelled.isClosed {name : String} {content tokens : List Token}
    (h : ElementSpelled name content tokens) (hname : IsPlainName name.toList)
    (hcontent : IsWritten content) : IsClosed tokens := by
  cases h with
  | tags => exact isClosed_element hname hcontent
  | empty hne => exact isClosed_emptyTag hname hne

/-- A spelled element starts at a bracket. -/
theorem ElementSpelled.startsAtBracket {name : String} {content tokens : List Token}
    (h : ElementSpelled name content tokens) (rest : List Token) :
    StartsAtBracket (tokens ++ rest) := by
  cases h with
  | tags => simp [StartsAtBracket, element]
  | empty => simp [StartsAtBracket]

/-- A spelled element begins with a token that begins an element. -/
theorem ElementSpelled.isStart {name : String} {content tokens : List Token}
    (h : ElementSpelled name content tokens) (rest : List Token) :
    ∀ token ∈ (tokens ++ rest).head?, token.isStart = true := by
  intro token htoken
  cases h with
  | tags | empty =>
    obtain rfl := Option.some.inj htoken
    rfl

/-! ## Balance -/

/-- Spacing opens no element. -/
theorem Spacing.balanced {tokens : List Token} (h : Spacing tokens) : Balanced tokens := by
  cases h with
  | none => exact .nil
  | space => exact .of_noTags (by simp [Token.isTag])

/-- A spelled leaf opens no element. -/
theorem LeafSpelled.balanced {text : List Char} {tokens : List Token}
    (h : LeafSpelled text tokens) : Balanced tokens := by
  induction h with
  | nil => exact .nil
  | text => exact .of_noTags (by simp [Token.isTag])
  | cdata _ _ ih => exact .other rfl ih
  | textCdata _ _ _ ih => exact .other rfl (.other rfl ih)

/-- A spelled element closes what it opens, if its content does. -/
theorem ElementSpelled.balanced {name : String} {content tokens : List Token}
    (h : ElementSpelled name content tokens) (hcontent : Balanced content) : Balanced tokens := by
  cases h with
  | tags => exact .element hcontent .nil
  | empty => exact .emptyTag .nil

/-! ## Items -/

/-- Whether a piece of text is white space. -/
def IsSpacePiece (piece : Piece) : Prop :=
  ∃ raw, piece = .text raw ∧ ∀ c ∈ raw, Markup.isSpace c = true

/-- The items among parts between which there is only white space. -/
inductive Spaced : List Part → List Item → Prop
  | nil : Spaced [] []
  | whole {parts : List Part} {items : List Item} (item : Item) :
      Spaced parts items → Spaced (.whole item :: parts) (item :: items)
  | space {parts : List Part} {items : List Item} {piece : Piece} (hpiece : IsSpacePiece piece) :
      Spaced parts items → Spaced (.piece piece :: parts) items

/-- Spaced parts one after the other are the items of both. -/
theorem Spaced.append {first second : List Part} {items others : List Item}
    (hfirst : Spaced first items) (hsecond : Spaced second others) :
    Spaced (first ++ second) (items ++ others) := by
  induction hfirst with
  | nil => exact hsecond
  | whole item _ ih => exact .whole item ih
  | space hpiece _ ih => exact .space hpiece ih

/-- A run of white space is no item. -/
theorem runItem_of_spaces {run : List Piece} (h : ∀ piece ∈ run, IsSpacePiece piece) :
    runItem run = [] := by
  have htrim : trimRunStart run = [] := by
    induction run with
    | nil => rfl
    | cons piece run ih =>
      obtain ⟨⟨raw, rfl, hspace⟩, hrun⟩ := List.forall_mem_cons.mp h
      have hdrop : raw.dropWhile Markup.isSpace = [] := List.dropWhile_eq_nil_iff.mpr hspace
      rw [trimRunStart, hdrop]
      exact ih hrun
  rw [runItem, htrim]

/-- Joining the runs drops the white space. -/
theorem Spaced.joinRuns {parts : List Part} {items : List Item} (h : Spaced parts items)
    {run : List Piece} (hrun : ∀ piece ∈ run, IsSpacePiece piece) :
    Markup.joinRuns run parts = items := by
  have hreverse : ∀ piece ∈ run.reverse, IsSpacePiece piece := fun piece hmem =>
    hrun piece (List.mem_reverse.mp hmem)
  induction h generalizing run with
  | nil => rw [Markup.joinRuns, runItem_of_spaces hreverse]
  | whole item _ ih =>
    rw [Markup.joinRuns, runItem_of_spaces hreverse, List.nil_append, ih (by simp) (by simp)]
  | space hpiece _ ih =>
    have hlonger := List.forall_mem_cons.mpr ⟨hpiece, hrun⟩
    exact ih hlonger fun piece hmem => hlonger piece (List.mem_reverse.mp hmem)

/-- A text that does not start with a mark has none. -/
theorem dropMark_of_head {text : List Char} (h : ∀ c ∈ text.head?, c ≠ byteOrderMark) :
    dropMark text = text := by
  cases text with
  | nil => rfl
  | cons c text => rw [dropMark, if_neg (by simpa using h c rfl)]

/-- White space does not start with a mark. -/
theorem dropMark_spaces {raw : List Char} (h : ∀ c ∈ raw, Markup.isSpace c = true) :
    dropMark raw = raw := by
  refine dropMark_of_head fun c hc hmark => ?_
  have hspace := h c (List.mem_of_mem_head? hc)
  rw [isSpace_eq_false (.inr hmark)] at hspace
  exact Bool.false_ne_true hspace

/-- Among parts that are spaced, there is no mark to be dropped. -/
theorem assemble_dropLeadingMark {tokens : List Token} {parts : List Part} {items : List Item}
    (h : Content tokens parts) (hspaced : Spaced parts items) :
    assemble (dropLeadingMark tokens) = items := by
  have hassemble := h.assemble
  rw [hspaced.joinRuns (by simp)] at hassemble
  cases h with
  | nil | element | emptyTag | cdata | comment | instruction | doctype => exact hassemble
  | text hrest =>
    cases hspaced with
    | space hpiece hspaced =>
      obtain ⟨raw, hraw, hspace⟩ := hpiece
      obtain rfl := Piece.text.inj hraw
      rw [dropLeadingMark, dropMark_spaces hspace]
      split
      · rw [hrest.assemble, hspaced.joinRuns (by simp)]
      · exact hassemble

/-- Which items tokens have as the content of an element, once the leaf text is kept. -/
def InsideItems (content : List Token) (items : List Item) : Prop :=
  ∃ kept parts, IsKeptInside content kept ∧ Content kept parts ∧ joinRuns [] parts = items

/-- Which items tokens have between elements. -/
def OutsideItems (tokens : List Token) (items : List Item) : Prop :=
  ∃ kept parts, IsKeptAs tokens kept ∧ Content kept parts ∧ Spaced parts items

/-- No tokens outside a leaf are no items. -/
theorem outsideItems_nil : OutsideItems [] [] := ⟨[], [], isKeptAs_nil, .nil, .nil⟩

/-- Tokens outside a leaf, one run after the other, are the items of both. -/
theorem OutsideItems.append {first second : List Token} {items others : List Item}
    (hfirst : OutsideItems first items) (hsecond : OutsideItems second others) :
    OutsideItems (first ++ second) (items ++ others) := by
  obtain ⟨kept, parts, hkept, hcontent, hspaced⟩ := hfirst
  obtain ⟨kept', parts', hkept', hcontent', hspaced'⟩ := hsecond
  exact ⟨_, _, hkept.append hkept', hcontent.append hcontent', hspaced.append hspaced'⟩

/-- Spacing outside a leaf is no item. -/
theorem Spacing.outsideItems {tokens : List Token} (h : Spacing tokens) :
    OutsideItems tokens [] := by
  cases h with
  | none => exact outsideItems_nil
  | @space raw _ hspace =>
    refine ⟨[.text raw], _, fun rest => ?_, .text .nil, .space ⟨raw, rfl, hspace⟩ .nil⟩
    rw [List.singleton_append, keepLeafText, keepLeafTextFrom_text]
    rfl

/-- Nothing is kept of nothing. -/
theorem InsideItems.eq_nil {items : List Item} (h : InsideItems [] items) : items = [] := by
  obtain ⟨kept, parts, hkept, hcontent, rfl⟩ := h
  have hnone := hkept [] []
  rw [List.nil_append, keepLeafTextFrom_closeTag] at hnone
  obtain rfl : kept = [] := by simpa [keepLeafText, keepLeafTextFrom] using hnone
  cases hcontent
  rfl

/-- A spelled element is one item, with the items of its content. -/
theorem ElementSpelled.outsideItems {name : String} {content tokens : List Token}
    {items : List Item} (h : ElementSpelled name content tokens)
    (hcontent : InsideItems content items) :
    OutsideItems tokens [.element (fieldTag name) items true] := by
  cases h with
  | tags =>
    obtain ⟨kept, parts, hkept, hparts, rfl⟩ := hcontent
    exact ⟨_, _, hkept.element name, content_element name hparts, .whole _ .nil⟩
  | empty =>
    obtain rfl := hcontent.eq_nil
    refine ⟨_, _, fun rest => ?_, .emptyTag .nil, .whole _ .nil⟩
    rfl

/-! ## Content -/

/-- Whatever the runs and sections of a leaf are, they are kept as sections of its text. -/
theorem LeafSpelled.exists_isKeptInside {text : List Char} {tokens : List Token}
    (h : LeafSpelled text tokens) : ∃ contents : List (List Char),
      contents.flatten = text ∧ IsKeptInside tokens (contents.map .cdata) := by
  induction h with
  | nil => exact ⟨[], rfl, isKeptInside_nil⟩
  | @text raw text hrun => exact ⟨chunks text, flatten_chunks text, isKeptInside_text hrun.unescape⟩
  | @cdata chunk text rest _ _ ih =>
    obtain ⟨contents, rfl, hkept⟩ := ih
    exact ⟨chunk :: contents, rfl, hkept.cdata chunk⟩
  | @textCdata raw first chunk text rest hrun _ _ ih =>
    obtain ⟨contents, rfl, hkept⟩ := ih
    refine ⟨chunks first ++ chunk :: contents, ?_, fun name after => ?_⟩
    · rw [List.flatten_append, flatten_chunks, List.flatten_cons]
    · rw [List.cons_append, keepLeafTextFrom_leafText, hrun.unescape, Option.bind_some,
        Option.getD_none, List.nil_append, List.cons_append, keepLeafTextFrom_markup rfl,
        leafAfter_of_noTag rfl, hkept, Option.map_map, List.map_append]
      exact congrArg (Option.map · _) (funext fun tokens => by simp [placePending, sections,
        endsLeafText])

/-- The text of a leaf is read as it is, however it is spelled. -/
theorem LeafSpelled.exists_insideItems {text : List Char} {tokens : List Token}
    (h : LeafSpelled text tokens) :
    ∃ items, InsideItems tokens items ∧ leafText? items = some text := by
  obtain ⟨contents, rfl, hkept⟩ := h.exists_isKeptInside
  refine ⟨_, ⟨_, _, hkept, content_cdata contents, rfl⟩, ?_⟩
  cases contents with
  | nil => rfl
  | cons chunk contents =>
    rw [joinRuns_cdata (List.cons_ne_nil _ _)]
    rfl

/-- White space is written as it is. -/
theorem escape_spaces {raw : List Char} (h : ∀ c ∈ raw, Markup.isSpace c = true) :
    escape raw = raw := by
  induction raw with
  | nil => rfl
  | cons c raw ih =>
    obtain ⟨hc, hraw⟩ := List.forall_mem_cons.mp h
    have hchar : escapeChar c = [c] := by
      simp only [Markup.isSpace, Bool.or_eq_true, beq_iff_eq] at hc
      rcases hc with ((rfl | rfl) | rfl) | rfl <;> rfl
    rw [escape, List.flatMap_cons, hchar, ← escape, ih hraw, List.singleton_append]

/-- White space holds no reference, and is read as it is written. -/
theorem unescape_spaces {raw : List Char} (h : ∀ c ∈ raw, Markup.isSpace c = true) :
    unescape raw = some raw := by
  rw [← escape_spaces h, unescape_escape, escape_spaces h]

/-- In front of an element, white space is kept as text. -/
theorem keepLeafTextFrom_spaces {raw : List Char} (h : ∀ c ∈ raw, Markup.isSpace c = true)
    {first : Token} (hfirst : first.isStart = true) (rest : List Token) :
    keepLeafTextFrom true none (.text raw :: first :: rest) =
      (keepLeafText (first :: rest)).map (.text raw :: ·) := by
  rw [keepLeafTextFrom_leafText, unescape_spaces h, Option.bind_some, Option.getD_none,
    List.nil_append]
  cases first with
  | closeTag | text | cdata | comment | instruction | doctype => simp [Token.isStart] at hfirst
  | openTag | emptyTag =>
    rw [keepLeafText, keepLeafTextFrom_markup rfl, keepLeafTextFrom_markup rfl, Option.map_map]
    exact congrArg (Option.map · _) (funext fun tokens => by
      simp [placePending, endsLeafText, escape_spaces h])

/-- The content of a record has the items of its elements. If it has no elements, it may have the
white space as a run of text. -/
theorem OutsideItems.exists_insideItems {before tokens : List Token} {items : List Item}
    (h : OutsideItems tokens items) (hbefore : Spacing before)
    (hstart : ∀ token ∈ tokens.head?, token.isStart = true) :
    ∃ content, InsideItems (before ++ tokens) content ∧
      (content = items ∨ items = [] ∧ ∃ text, content = [.text (some text)]) := by
  obtain ⟨kept, parts, hkept, hparts, hspaced⟩ := h
  have hinside : IsKeptInside tokens kept := hkept.inside fun token htoken =>
    Token.isTag_of_isStart (hstart token htoken)
  cases hbefore with
  | none => exact ⟨items, ⟨kept, parts, hinside, hparts, hspaced.joinRuns (by simp)⟩, .inl rfl⟩
  | @space raw hne hspace =>
    cases tokens with
    | nil =>
      -- Nothing but white space is the text of a leaf, whatever the schema declares.
      have hitems : items = [] := InsideItems.eq_nil
        ⟨kept, parts, hinside, hparts, hspaced.joinRuns (by simp)⟩
      exact ⟨_, ⟨_, _, isKeptInside_text (unescape_spaces hspace), content_sections raw,
        joinRuns_sections raw⟩, .inr ⟨hitems, raw, rfl⟩⟩
    | cons first rest =>
      refine ⟨items, ⟨.text raw :: kept, .piece (.text raw) :: parts, fun name after => ?_,
        .text hparts, ?_⟩, .inl rfl⟩
      · rw [List.cons_append, List.cons_append, List.nil_append, List.cons_append,
          keepLeafTextFrom_spaces hspace (hstart first rfl), ← List.cons_append, hkept,
          keepLeafText, keepLeafTextFrom_closeTag, Option.map_map, Option.map_map]
        rfl
      · exact (Spaced.space ⟨raw, rfl, hspace⟩ hspaced).joinRuns (by simp)

end CallbackGateway.Record
