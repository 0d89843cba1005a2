import CallbackGateway.Proofs.Markup.Balanced
import Mathlib.Data.List.TakeWhile

/-!
# The root of a document

Assembling a document gives a closed first element only if the document begins with layout and
one whole element. Conversely, after layout and a whole element the first item is settled:
whatever comes next cannot change it.
-/

namespace CallbackGateway.Markup

/-! ## Open elements -/

/-- Behind an open element its content ends with its closing tag, or the element is left open. -/
theorem closes_or_leftOpen (tokens : List Token) (innermost : Opened) (outer : List Opened)
    (collected : List Part) :
    (∃ inner parts after, tokens = inner ++ .closeTag innermost.tag.name :: after ∧
      Content inner parts) ∨
    ∃ content, assembleFrom (innermost :: outer) collected tokens =
      leaveOpen outer (.whole (.element innermost.tag content false) :: innermost.before) := by
  -- The inner element of an opening tag is treated first, then what follows it.
  induction hlength : tokens.length using Nat.strongRecOn
    generalizing tokens innermost outer collected with
  | ind length ih =>
  have other {token : Token} {rest : List Token} {others : List Part} (added : List Part)
      (hlt : rest.length < length) (hcontent : ∀ {inner parts}, Content inner parts →
        Content (token :: inner) (added ++ parts))
      (hstep : assembleFrom (innermost :: outer) collected (token :: rest) =
        assembleFrom (innermost :: outer) others rest) :
      (∃ inner parts after, token :: rest = inner ++ .closeTag innermost.tag.name :: after ∧
        Content inner parts) ∨
      ∃ content, assembleFrom (innermost :: outer) collected (token :: rest) =
        leaveOpen outer (.whole (.element innermost.tag content false) :: innermost.before) := by
    rcases ih _ hlt rest innermost outer others rfl with ⟨inner, parts, after, rfl, hinner⟩ | hopen
    · exact .inl ⟨token :: inner, added ++ parts, after, rfl, hcontent hinner⟩
    · rw [hstep]
      exact .inr hopen
  cases tokens with
  | nil => exact .inr ⟨itemsOf collected, rfl⟩
  | cons token rest =>
    rw [List.length_cons] at hlength
    have hlt : rest.length < length := by omega
    cases token with
    | emptyTag tag => exact other [_] hlt .emptyTag rfl
    | text raw => exact other [_] hlt .text rfl
    | cdata raw => exact other [_] hlt .cdata rfl
    | comment body => exact other [] hlt .comment rfl
    | instruction body => exact other [] hlt .instruction rfl
    | doctype body => exact other [_] hlt .doctype rfl
    | closeTag name =>
      by_cases hname : name = innermost.tag.name
      · subst hname
        exact .inl ⟨[], [], rest, rfl, .nil⟩
      · refine .inr ⟨itemsOf collected, ?_⟩
        rw [assembleFrom, if_neg (by simpa using hname)]
        rfl
    | openTag tag =>
      rcases ih _ hlt rest ⟨tag, collected⟩ (innermost :: outer) [] rfl with
        ⟨inside, parts, after, rfl, hinside⟩ | ⟨content, hopen⟩
      · have helement : Content (.openTag tag :: (inside ++ [.closeTag tag.name]))
            [.whole (.element tag (joinRuns [] parts) true)] := .element hinside .nil
        have hafter : after.length < length := by
          simp only [List.length_append, List.length_cons] at hlt
          omega
        have hstep := helement.assembleFrom (innermost :: outer) collected after
        rw [List.cons_append, List.append_assoc, List.singleton_append] at hstep
        rcases ih _ hafter after innermost outer _ rfl with
          ⟨inner, others, tail, rfl, hinner⟩ | hopen
        · refine .inl ⟨.openTag tag :: (inside ++ .closeTag tag.name :: inner), _, tail, ?_,
            .element hinside hinner⟩
          rw [List.cons_append, List.append_assoc, List.cons_append]
        · rw [hstep]
          exact .inr hopen
      · refine .inr ⟨itemsOf (.whole (.element tag content false) :: collected), ?_⟩
        rw [assembleFrom, hopen]
        rfl

/-! ## Layout -/

/-- Whether a piece is white space that does not count. -/
def Piece.isBlank : Piece → Bool
  | .text raw => raw.all isSpace
  | .cdata _ => false

/-- Whether a part leaves no item. -/
def Part.isLayout : Part → Bool
  | .whole _ => false
  | .piece p => p.isBlank
  | .boundary => true

/-- A run is trimmed away just if it is blank. -/
theorem trimRunStart_eq_nil_iff {run : List Piece} :
    trimRunStart run = [] ↔ ∀ piece ∈ run, piece.isBlank = true := by
  induction run with
  | nil => simp [trimRunStart]
  | cons piece run ih =>
    rw [List.forall_mem_cons, ← ih]
    cases piece with
    | cdata raw => simp [trimRunStart, Piece.isBlank]
    | text raw =>
      have hblank : raw.dropWhile isSpace = [] ↔ (Piece.text raw).isBlank = true := by
        rw [List.dropWhile_eq_nil_iff, Piece.isBlank, List.all_eq_true]
      rw [trimRunStart, ← hblank]
      split <;> simp_all

/-- A blank run is no item. -/
theorem runItem_of_blank {run : List Piece} (h : ∀ piece ∈ run, piece.isBlank = true) :
    runItem run = [] := by
  rw [runItem, trimRunStart_eq_nil_iff.mpr h]

/-- A run that is not blank is one text. -/
theorem runItem_of_not_blank {run : List Piece} (h : ¬ ∀ piece ∈ run, piece.isBlank = true) :
    ∃ value, runItem run = [.text value] := by
  obtain ⟨piece, rest, hrun⟩ :=
    List.exists_cons_of_ne_nil fun hnil => h (trimRunStart_eq_nil_iff.mp hnil)
  exact ⟨_, by rw [runItem, hrun]⟩

/-- A run is blank in either direction. -/
theorem blank_reverse {run : List Piece} :
    (∀ piece ∈ run.reverse, piece.isBlank = true) ↔ ∀ piece ∈ run, piece.isBlank = true := by
  simp only [List.mem_reverse]

/-- Parts that are empty or start with a whole item, so that a run in front of them ends. -/
def EndsRun (parts : List Part) : Prop := ∀ part ∈ parts.head?, ∃ item, part = .whole item

/-- Where a run ends, its item is in front of the others. -/
theorem joinRuns_of_endsRun {rest : List Part} (h : EndsRun rest) (run : List Piece) :
    joinRuns run rest = runItem run.reverse ++ joinRuns [] rest := by
  cases rest with
  | nil => exact (List.append_nil _).symm
  | cons part rest =>
    obtain ⟨item, rfl⟩ := h part rfl
    rfl

/-- Layout in front of an item or of the end leaves nothing. -/
theorem joinRuns_layout {run : List Piece} {parts rest : List Part}
    (hrun : ∀ piece ∈ run, piece.isBlank = true) (hparts : ∀ part ∈ parts, part.isLayout = true)
    (hrest : EndsRun rest) : joinRuns run (parts ++ rest) = joinRuns [] rest := by
  induction parts generalizing run with
  | nil =>
    rw [List.nil_append, joinRuns_of_endsRun hrest, runItem_of_blank (blank_reverse.mpr hrun),
      List.nil_append]
  | cons part parts ih =>
    obtain ⟨hpart, hothers⟩ := List.forall_mem_cons.mp hparts
    cases part with
    | whole => simp [Part.isLayout] at hpart
    | piece piece =>
      rw [List.cons_append, joinRuns]
      exact ih (List.forall_mem_cons.mpr ⟨hpart, hrun⟩) hothers
    | boundary =>
      rw [List.cons_append, joinRuns, runItem_of_blank (blank_reverse.mpr hrun), List.nil_append]
      exact ih (by simp) hothers

/-- Anything else in front of an item or of the end leaves a text. -/
theorem head?_joinRuns_of_not_layout {run : List Piece} {parts rest : List Part}
    (hwhole : ∀ item, .whole item ∉ parts)
    (h : ¬ ((∀ piece ∈ run, piece.isBlank = true) ∧ ∀ part ∈ parts, part.isLayout = true))
    (hrest : EndsRun rest) :
    ∃ value, (joinRuns run (parts ++ rest)).head? = some (.text value) := by
  have settled {run : List Piece} (hblank : ¬ ∀ piece ∈ run, piece.isBlank = true)
      (others : List Item) :
      ∃ value, (runItem run.reverse ++ others).head? = some (.text value) := by
    obtain ⟨value, hvalue⟩ := runItem_of_not_blank fun h => hblank (blank_reverse.mp h)
    exact ⟨value, by rw [hvalue]; rfl⟩
  induction parts generalizing run with
  | nil =>
    have hblank : ¬ ∀ piece ∈ run, piece.isBlank = true := fun hrun => h ⟨hrun, by simp⟩
    rw [List.nil_append, joinRuns_of_endsRun hrest]
    exact settled hblank _
  | cons part parts ih =>
    have hothers : ∀ item, .whole item ∉ parts := fun item hmem =>
      hwhole item (List.mem_cons_of_mem _ hmem)
    cases part with
    | whole item => exact absurd List.mem_cons_self (hwhole item)
    | piece piece =>
      rw [List.cons_append, joinRuns]
      refine ih hothers fun hlayout => h ?_
      obtain ⟨hrun, hparts⟩ := hlayout
      obtain ⟨hpiece, hrun⟩ := List.forall_mem_cons.mp hrun
      exact ⟨hrun, List.forall_mem_cons.mpr ⟨hpiece, hparts⟩⟩
    | boundary =>
      rw [List.cons_append, joinRuns]
      by_cases hrun : ∀ piece ∈ run, piece.isBlank = true
      · rw [runItem_of_blank (blank_reverse.mpr hrun), List.nil_append]
        exact ih hothers fun hparts => h ⟨hrun, List.forall_mem_cons.mpr ⟨rfl, hparts.2⟩⟩
      · exact settled hrun _

/-- Tokens without tags have parts without elements, and these are layout just if the tokens may
stand outside the root. -/
theorem exists_content_of_noTags {tokens : List Token}
    (h : ∀ token ∈ tokens, token.isTag = false) : ∃ parts, Content tokens parts ∧
      (∀ item, .whole item ∉ parts) ∧
      ((∀ part ∈ parts, part.isLayout = true) ↔ ∀ token ∈ tokens, token.isMisc = true) := by
  induction tokens with
  | nil => exact ⟨[], .nil, by simp, by simp⟩
  | cons token rest ih =>
    obtain ⟨htag, hrest⟩ := List.forall_mem_cons.mp h
    obtain ⟨parts, hparts, hwhole, hlayout⟩ := ih hrest
    cases token with
    | openTag | emptyTag | closeTag => simp [Token.isTag] at htag
    | text raw =>
      refine ⟨_, .text hparts, by simpa using hwhole, ?_⟩
      rw [List.forall_mem_cons, List.forall_mem_cons, hlayout]
      rfl
    | cdata raw =>
      refine ⟨_, .cdata hparts, by simpa using hwhole, ?_⟩
      rw [List.forall_mem_cons, List.forall_mem_cons, hlayout]
      rfl
    | comment body =>
      refine ⟨_, .comment hparts, hwhole, ?_⟩
      rw [List.forall_mem_cons, hlayout, Token.isMisc, and_iff_right rfl]
    | instruction body =>
      refine ⟨_, .instruction hparts, hwhole, ?_⟩
      rw [List.forall_mem_cons, hlayout, Token.isMisc, and_iff_right rfl]
    | doctype body =>
      refine ⟨_, .doctype hparts, by simpa using hwhole, ?_⟩
      rw [List.forall_mem_cons, List.forall_mem_cons, hlayout]
      rfl

/-! ## The first item -/

/-- What was collected outside all elements. -/
def outermost : List Opened → List Part → List Part
  | [], parts => parts
  | innermost :: outer, _ => outermost outer innermost.before

/-- A part more is behind what was outermost. -/
theorem outermost_cons (opened : List Opened) (part : Part) (parts : List Part) :
    ∃ added, (outermost opened (part :: parts)).reverse =
      (outermost opened parts).reverse ++ added := by
  cases opened with
  | nil => exact ⟨[part], List.reverse_cons⟩
  | cons => exact ⟨[], (List.append_nil _).symm⟩

/-- What is left open begins with what was outermost. -/
theorem leaveOpen_eq_joinRuns (opened : List Opened) (parts : List Part) :
    ∃ added, leaveOpen opened parts = joinRuns [] ((outermost opened parts).reverse ++ added) := by
  induction opened generalizing parts with
  | nil => exact ⟨[], by rw [List.append_nil]; rfl⟩
  | cons innermost outer ih =>
    obtain ⟨added, hadded⟩ := outermost_cons outer
      (.whole (.element innermost.tag (itemsOf parts) false)) innermost.before
    obtain ⟨others, hothers⟩ := ih (.whole (.element innermost.tag (itemsOf parts) false) ::
      innermost.before)
    exact ⟨added ++ others, by rw [leaveOpen, hothers, hadded, List.append_assoc]; rfl⟩

/-- Further tokens only add to what was collected. -/
theorem assembleFrom_eq_joinRuns (opened : List Opened) (parts : List Part)
    (tokens : List Token) : ∃ added, assembleFrom opened parts tokens =
      joinRuns [] ((outermost opened parts).reverse ++ added) := by
  have onwards {opened : List Opened} {part : Part} {parts : List Part} {items : List Item}
      (h : ∃ added, items = joinRuns [] ((outermost opened (part :: parts)).reverse ++ added)) :
      ∃ added, items = joinRuns [] ((outermost opened parts).reverse ++ added) := by
    obtain ⟨added, rfl⟩ := h
    obtain ⟨first, hfirst⟩ := outermost_cons opened part parts
    exact ⟨first ++ added, by rw [hfirst, List.append_assoc]⟩
  induction tokens generalizing opened parts with
  | nil => exact leaveOpen_eq_joinRuns opened parts
  | cons token tokens ih =>
    cases token with
    | openTag tag => exact ih (⟨tag, parts⟩ :: opened) []
    | emptyTag | text | cdata | doctype => exact onwards (ih opened (_ :: parts))
    | comment | instruction => exact ih opened parts
    | closeTag name =>
      cases opened with
      | nil => exact ⟨[], by rw [List.append_nil]; rfl⟩
      | cons innermost outer =>
        rw [assembleFrom]
        split
        · change ∃ added, _ = joinRuns [] ((outermost outer innermost.before).reverse ++ added)
          exact onwards (ih outer (_ :: innermost.before))
        · exact leaveOpen_eq_joinRuns _ _

/-- The element of a root is a part of its own, in front of those that are added later. -/
theorem assemble_root {before root : List Token} {parts : List Part} {item : Item}
    (hbefore : Content before parts) (hroot : Content root [.whole item]) (after : List Token) :
    ∃ added,
      assemble (before ++ (root ++ after)) = joinRuns [] (parts ++ .whole item :: added) := by
  obtain ⟨added, hadded⟩ :=
    assembleFrom_eq_joinRuns [] ((parts ++ [Part.whole item]).reverse ++ []) after
  refine ⟨added, ?_⟩
  rw [← List.append_assoc, assemble, (hbefore.append hroot).assembleFrom, hadded, outermost,
    List.append_nil, List.reverse_reverse, List.append_assoc, List.singleton_append]

/-- A whole item ends a run. -/
theorem endsRun_whole (item : Item) (rest : List Part) : EndsRun (.whole item :: rest) := by
  intro part hpart
  exact ⟨item, (Option.some.inj hpart).symm⟩

/-- Behind layout, a whole element is the first item, whatever comes after it. -/
theorem head?_assemble_of_content {before root : List Token} {item : Item}
    (hbefore : ∀ token ∈ before, token.isMisc = true) (hroot : Content root [.whole item])
    (after : List Token) : (assemble (before ++ (root ++ after))).head? = some item := by
  obtain ⟨parts, hparts, -, hlayout⟩ :=
    exists_content_of_noTags fun token h => Token.isTag_of_isMisc (hbefore token h)
  obtain ⟨added, hadded⟩ := assemble_root hparts hroot after
  rw [hadded, joinRuns_layout (by simp) (hlayout.mpr hbefore) (endsRun_whole _ _)]
  rfl

/-- After layout and one whole element the first item is settled. -/
theorem head?_assemble_root {before root : List Token}
    (hbefore : ∀ token ∈ before, token.isMisc = true) (hroot : IsElement root) :
    ∃ tag content, ∀ after,
      (assemble (before ++ (root ++ after))).head? = some (.element tag content true) := by
  cases hroot with
  | emptyTag tag => exact ⟨tag, [], head?_assemble_of_content hbefore (.emptyTag .nil)⟩
  | element tag hinner =>
    obtain ⟨others, hothers⟩ := hinner.exists_content
    exact ⟨tag, joinRuns [] others, head?_assemble_of_content hbefore (.element hothers .nil)⟩

/-- Every list of tokens has no tag, or a first one. -/
theorem exists_first_tag (tokens : List Token) : (∀ token ∈ tokens, token.isTag = false) ∨
    ∃ before tag after, tokens = before ++ tag :: after ∧ tag.isTag = true ∧
      ∀ token ∈ before, token.isTag = false := by
  induction tokens with
  | nil => exact .inl (by simp)
  | cons token rest ih =>
    cases htag : token.isTag with
    | true => exact .inr ⟨[], token, rest, rfl, htag, by simp⟩
    | false =>
      rcases ih with hnone | ⟨before, tag, after, rfl, hfirst, hbefore⟩
      · exact .inl (List.forall_mem_cons.mpr ⟨htag, hnone⟩)
      · exact .inr ⟨token :: before, tag, after, rfl, hfirst,
          List.forall_mem_cons.mpr ⟨htag, hbefore⟩⟩

/-- If the first item is an element, then only layout stands before it. -/
theorem layout_of_head? {parts rest : List Part} {tag : Tag} {content : List Item} {closed : Bool}
    (hwhole : ∀ item, .whole item ∉ parts) (hrest : EndsRun rest)
    (h : (joinRuns [] (parts ++ rest)).head? = some (.element tag content closed)) :
    (∀ part ∈ parts, part.isLayout = true) ∧
      (joinRuns [] rest).head? = some (.element tag content closed) := by
  have hblank : ∀ piece ∈ ([] : List Piece), piece.isBlank = true := by simp
  have hlayout : ∀ part ∈ parts, part.isLayout = true := by
    by_contra hnot
    obtain ⟨value, hvalue⟩ :=
      head?_joinRuns_of_not_layout hwhole (fun hall => hnot (And.right (a := _) hall)) hrest
    rw [hvalue] at h
    simp at h
  rw [joinRuns_layout hblank hlayout hrest] at h
  exact ⟨hlayout, h⟩

/-- A document whose first item is a whole element begins with layout and that element. -/
theorem root_of_head?_assemble {tokens : List Token} {tag : Tag} {content : List Item}
    (h : (assemble tokens).head? = some (.element tag content true)) :
    ∃ before root after, tokens = before ++ (root ++ after) ∧
      (∀ token ∈ before, token.isMisc = true) ∧ IsElement root := by
  have hend : EndsRun [] := by simp [EndsRun]
  rcases exists_first_tag tokens with hnone | ⟨before, token, after, rfl, htag, hbefore⟩
  · obtain ⟨parts, hparts, hwhole, -⟩ := exists_content_of_noTags hnone
    rw [hparts.assemble, ← List.append_nil parts] at h
    have := (layout_of_head? hwhole hend h).2
    simp [joinRuns, runItem, trimRunStart] at this
  obtain ⟨parts, hparts, hwhole, hlayout⟩ := exists_content_of_noTags hbefore
  have hassemble := hparts.assembleFrom [] [] (token :: after)
  rw [List.append_nil] at hassemble
  have whole {root after : List Token} {item : Item} (hroot : Content root [.whole item])
      (h : (assemble (before ++ (root ++ after))).head? = some (.element tag content true)) :
      ∀ token ∈ before, token.isMisc = true := by
    obtain ⟨added, hadded⟩ := assemble_root hparts hroot after
    rw [hadded] at h
    exact hlayout.mp (layout_of_head? hwhole (endsRun_whole _ _) h).1
  cases token with
  | text | cdata | comment | instruction | doctype => simp [Token.isTag] at htag
  | emptyTag first =>
    exact ⟨before, [.emptyTag first], after, rfl, whole (.emptyTag .nil) h, .emptyTag first⟩
  | closeTag name =>
    rw [assemble, hassemble, assembleFrom, itemsOf, List.reverse_reverse,
      ← List.append_nil parts] at h
    have := (layout_of_head? hwhole hend h).2
    simp [joinRuns, runItem, trimRunStart] at this
  | openTag first =>
    rcases closes_or_leftOpen after ⟨first, parts.reverse⟩ [] [] with
      ⟨inner, others, tail, rfl, hinner⟩ | ⟨others, hopen⟩
    · have hsplit : before ++ .openTag first :: (inner ++ .closeTag first.name :: tail) =
          before ++ (.openTag first :: (inner ++ [.closeTag first.name]) ++ tail) := by simp
      rw [hsplit] at h ⊢
      exact ⟨before, _, tail, rfl, whole (.element hinner .nil) h,
        .element first (.of_content hinner)⟩
    · rw [assemble, hassemble, assembleFrom, hopen, leaveOpen, itemsOf, List.reverse_cons,
        List.reverse_reverse] at h
      have := (layout_of_head? hwhole (endsRun_whole _ _) h).2
      simp [joinRuns, runItem, trimRunStart] at this

end CallbackGateway.Markup
