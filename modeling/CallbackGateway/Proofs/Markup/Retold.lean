import CallbackGateway.Proofs.Markup.EdgeSpace
import CallbackGateway.Proofs.Markup.Insertion

/-!
# Contents that differ in one run

Where the pieces of one run of a document are divided anew, the items of the document differ in
the text of this run at most, and there only in white space at its ends: the elements around the
run are opened and closed in the same way, whatever follows.
-/

namespace CallbackGateway.Markup

/-- Whether content is no more than one run of text. -/
def isLeafContent : List Item → Bool
  | [] | [.text _] => true
  | _ => false

/-- A leaf holds at most one item. -/
theorem length_le_of_isLeafContent {items : List Item} (h : isLeafContent items = true) :
    items.length ≤ 1 := by
  unfold isLeafContent at h
  split at h
  · exact Nat.zero_le 1
  · exact Nat.le_refl 1
  · cases h

/-- Nothing differs from nothing in no edges. -/
theorem SameButEdges.eq_nil {other : List Item} (h : SameButEdges [] other) : other = [] := by
  cases h
  rfl

/-- Two contents that differ in one run at most, and there only in white space at its ends. Under
a condition an element that holds nothing but this run holds the same text in both. -/
inductive Retold (same : Prop) : List Item → List Item → Prop
  | refl (items : List Item) : Retold same items items
  | here {run other : List Item} (before after : List Item) (hrun : SameButEdges run other)
      (hlost : run ≠ [] → other = [] → ∀ item ∈ after.head?, item.hasValue = true) :
      Retold same (before ++ (run ++ after)) (before ++ (other ++ after))
  | nested {content others : List Item} (before after : List Item) (tag : Tag) (closed : Bool)
      (hsame : same → isLeafContent content = true → others = content) :
      Retold same content others →
      Retold same (before ++ .element tag content closed :: after)
        (before ++ .element tag others closed :: after)

/-! ## Runs among parts -/

/-- Whether a part is an element. -/
def Part.isElement : Part → Bool
  | .whole (.element _ _ _) => true
  | _ => false

/-- Parts in front only add items in front, and pieces to the run that is open. -/
theorem exists_joinRuns_append (run : List Piece) (parts : List Part) :
    ∃ before pieces, ∀ rest, joinRuns run (parts ++ rest) = before ++ joinRuns pieces rest := by
  induction parts generalizing run with
  | nil => exact ⟨[], run, fun rest => rfl⟩
  | cons part parts ih =>
    cases part with
    | whole item =>
      obtain ⟨before, pieces, h⟩ := ih []
      exact ⟨runItem run.reverse ++ item :: before, pieces, fun rest => by
        rw [List.cons_append, joinRuns, h, List.append_assoc, List.cons_append]⟩
    | piece piece => exact ih (piece :: run)
    | boundary =>
      obtain ⟨before, pieces, h⟩ := ih []
      exact ⟨runItem run.reverse ++ before, pieces, fun rest => by
        rw [List.cons_append, joinRuns, h, List.append_assoc]⟩

/-- Pieces are added to the run in front of what follows. -/
theorem joinRuns_map_piece_append (run pieces : List Piece) (rest : List Part) :
    joinRuns run (pieces.map .piece ++ rest) = joinRuns (pieces.reverse ++ run) rest := by
  induction pieces generalizing run with
  | nil => rfl
  | cons piece pieces ih =>
    rw [List.map_cons, List.cons_append, joinRuns, ih, List.reverse_cons, List.append_assoc,
      List.singleton_append]

/-- Parts behind only add pieces to the run that is open, and items behind it. -/
theorem exists_joinRuns_eq (gap rest : List Part)
    (hrest : ∀ part ∈ rest.head?, part.isElement = true) :
    ∃ pieces after, (∀ run, joinRuns run (gap ++ rest) = runItem (run.reverse ++ pieces) ++ after) ∧
      (gap.all Part.hasValue = true → pieces.all Piece.hasValue = true ∧
        ∀ item ∈ after.head?, item.hasValue = true) := by
  induction gap with
  | nil =>
    cases rest with
    | nil =>
      refine ⟨[], [], fun run => ?_, fun _ => by simp⟩
      rw [List.append_nil, List.append_nil, List.append_nil, joinRuns]
    | cons part rest =>
      have hpart := hrest part rfl
      cases part with
      | piece | boundary => cases hpart
      | whole item =>
        cases item with
        | text => cases hpart
        | element tag content closed =>
          refine ⟨[], .element tag content closed :: joinRuns [] rest, fun run => ?_, fun _ => ?_⟩
          · rw [List.nil_append, joinRuns, List.append_nil]
          · simp [Item.hasValue]
  | cons part gap ih =>
    obtain ⟨pieces, after, hjoin, hvalue⟩ := ih
    cases part with
    | piece piece =>
      refine ⟨piece :: pieces, after, fun run => ?_, fun hgap => ?_⟩
      · rw [List.cons_append, joinRuns, hjoin, List.reverse_cons, List.append_assoc,
          List.singleton_append]
      · rw [List.all_cons, Bool.and_eq_true] at hgap
        rw [List.all_cons, (hvalue hgap.2).1, Bool.and_true]
        exact ⟨hgap.1, (hvalue hgap.2).2⟩
    | boundary =>
      refine ⟨[], joinRuns [] (gap ++ rest), fun run => ?_, fun hgap => ⟨rfl, ?_⟩⟩
      · rw [List.cons_append, joinRuns, List.append_nil]
      · obtain ⟨hpieces, hafter⟩ := hvalue hgap
        have hrun := all_hasValue_runItem pieces
        rw [hpieces] at hrun
        rw [hjoin, List.reverse_nil, List.nil_append]
        cases hitem : runItem pieces with
        | nil => exact hafter
        | cons item items =>
          rw [hitem, List.all_cons, Bool.and_eq_true] at hrun
          intro first hfirst
          obtain rfl := Option.some.inj hfirst
          exact hrun.1
    | whole item =>
      refine ⟨[], item :: joinRuns [] (gap ++ rest), fun run => ?_, fun hgap => ⟨rfl, ?_⟩⟩
      · rw [List.cons_append, joinRuns, List.append_nil]
      · rw [List.all_cons, Bool.and_eq_true] at hgap
        intro first hfirst
        obtain rfl := Option.some.inj hfirst
        exact hgap.1

/-- Pieces that are divided anew change the text of their run, and only at its ends. -/
theorem Resplit.retold_joinRuns {pieces others : List Piece} (h : Resplit pieces others)
    (same : Prop) (front gap rest : List Part)
    (hrest : ∀ part ∈ rest.head?, part.isElement = true)
    (hlost : gap.all Part.hasValue = true ∨ Resplit others pieces) :
    Retold same (joinRuns [] (front ++ (pieces.map .piece ++ (gap ++ rest))))
      (joinRuns [] (front ++ (others.map .piece ++ (gap ++ rest)))) := by
  obtain ⟨before, first, hfront⟩ := exists_joinRuns_append [] front
  obtain ⟨second, after, hback, hvalue⟩ := exists_joinRuns_eq gap rest hrest
  have hrun (pieces : List Piece) : (pieces.reverse ++ first).reverse ++ second =
      first.reverse ++ (pieces ++ second) := by simp
  rw [hfront, hfront, joinRuns_map_piece_append, joinRuns_map_piece_append, hback, hback, hrun,
    hrun]
  refine .here before after (h.append first.reverse second).sameButEdges fun hne hnil => ?_
  rcases hlost with hgap | hother
  · exact (hvalue hgap).2
  · have hsame := (hother.append first.reverse second).sameButEdges
    rw [hnil] at hsame
    exact absurd hsame.eq_nil hne

/-- An element among parts is no leaf. -/
theorem isLeafContent_of_element {parts : List Part}
    (h : ∃ part ∈ parts, part.isElement = true) : isLeafContent (itemsOf parts) = false := by
  obtain ⟨part, hmem, helement⟩ := h
  obtain ⟨front, back, hsplit⟩ := List.append_of_mem (List.mem_reverse.mpr hmem)
  cases part with
  | piece | boundary => cases helement
  | whole item =>
    cases item with
    | text => cases helement
    | element tag content closed =>
      rw [itemsOf, hsplit, joinRuns_append_whole]
      cases joinRuns [] front with
      | nil => cases joinRuns [] back <;> rfl
      | cons first items => cases first <;> cases items <;> rfl

/-! ## Documents -/

/-- Two states of assembly from which the same tokens lead to contents that differ in one run. The
run is among the innermost parts, and an element beside it, unless it lies outside all elements;
or it is farther out, where an element beside it is still open. -/
inductive Follows (same : Prop) :
    List Opened → List Part → List Opened → List Part → Prop
  | here {opened : List Opened} {parts others : List Part}
      (hparts : ∀ rest, Retold same (joinRuns [] (parts.reverse ++ rest))
        (joinRuns [] (others.reverse ++ rest)))
      (helement : opened = [] ∨ ∃ part ∈ parts, part.isElement = true) :
      Follows same opened parts opened others
  | outside {opened opened' : List Opened} {before before' : List Part} (tag : Tag)
      (parts : List Part)
      (h : ∀ tag content closed, Follows same
        opened (.whole (.element tag content closed) :: before)
        opened' (.whole (.element tag content closed) :: before')) :
      Follows same (⟨tag, before⟩ :: opened) parts (⟨tag, before'⟩ :: opened') parts

namespace Follows

variable {same : Prop} {opened opened' : List Opened} {parts parts' : List Part}

/-- One part more is one part more in both. -/
theorem cons (h : Follows same opened parts opened' parts') (part : Part) :
    Follows same opened (part :: parts) opened' (part :: parts') := by
  cases h with
  | here hparts helement =>
    refine .here (fun rest => ?_) (helement.imp_right fun ⟨other, hmem, hother⟩ =>
      ⟨other, List.mem_cons_of_mem _ hmem, hother⟩)
    rw [List.reverse_cons, List.reverse_cons, List.append_assoc, List.append_assoc]
    exact hparts _
  | outside tag parts h => exact .outside tag _ h

/-- Where the run lies in an element that is closed or left open, the element lies beside whatever
follows it. -/
theorem of_content {others before : List Part}
    (hcontent : Retold same (itemsOf parts) (itemsOf others))
    (hsame : same → isLeafContent (itemsOf parts) = true → itemsOf others = itemsOf parts)
    (tag : Tag) (closed : Bool) :
    Follows same opened (.whole (.element tag (itemsOf parts) closed) :: before) opened
      (.whole (.element tag (itemsOf others) closed) :: before) := by
  refine .here (fun rest => ?_) (.inr ⟨_, List.mem_cons_self, rfl⟩)
  rw [List.reverse_cons, List.reverse_cons, List.append_assoc, List.append_assoc,
    List.singleton_append, List.singleton_append, joinRuns_append_whole, joinRuns_append_whole]
  exact .nested _ _ tag closed hsame hcontent

/-- Where both histories hold an element and agree before whatever follows, so they do inside of an
element. -/
theorem of_parts {others before : List Part}
    (hparts : ∀ rest, Retold same (joinRuns [] (parts.reverse ++ rest))
      (joinRuns [] (others.reverse ++ rest)))
    (helement : ∃ part ∈ parts, part.isElement = true) (tag : Tag) (closed : Bool) :
    Follows same opened (.whole (.element tag (itemsOf parts) closed) :: before) opened
      (.whole (.element tag (itemsOf others) closed) :: before) := by
  refine .of_content ?_ (fun _ hleaf => ?_) tag closed
  · have hcontent := hparts []
    rwa [List.append_nil, List.append_nil] at hcontent
  · rw [isLeafContent_of_element helement] at hleaf
    cases hleaf

/-- What is left open at the end is retold, too. -/
theorem leaveOpen (h : Follows same opened parts opened' parts') :
    Retold same (Markup.leaveOpen opened parts) (Markup.leaveOpen opened' parts') := by
  induction opened generalizing parts opened' parts' with
  | nil =>
    cases h with
    | here hparts =>
      have hcontent := hparts []
      rwa [List.append_nil, List.append_nil] at hcontent
  | cons innermost outer ih =>
    cases h with
    | here hparts helement =>
      rw [Markup.leaveOpen, Markup.leaveOpen]
      exact ih (.of_parts hparts (helement.resolve_left (List.cons_ne_nil _ _)) _ false)
    | outside tag parts h =>
      rw [Markup.leaveOpen, Markup.leaveOpen]
      exact ih (h tag (itemsOf parts) false)

/-- The same tokens lead to contents that differ in one run. -/
theorem assembleFrom (h : Follows same opened parts opened' parts') (tokens : List Token) :
    Retold same (Markup.assembleFrom opened parts tokens)
      (Markup.assembleFrom opened' parts' tokens) := by
  induction tokens generalizing opened parts opened' parts' with
  | nil => exact h.leaveOpen
  | cons token tokens ih =>
    cases token with
    | openTag tag => exact ih (.outside tag [] fun _ _ _ => h.cons _)
    | emptyTag | text | cdata | doctype => exact ih (h.cons _)
    | comment | instruction => exact ih h
    | closeTag name =>
      have hopen := h.leaveOpen
      cases h with
      | @here opened parts others hparts helement =>
        cases opened with
        | nil => exact hopen
        | cons innermost outer =>
          rw [Markup.assembleFrom, Markup.assembleFrom]
          split
          · exact ih (.of_parts hparts (helement.resolve_left (List.cons_ne_nil _ _)) _ true)
          · exact hopen
      | outside tag parts h =>
        rw [Markup.assembleFrom, Markup.assembleFrom]
        split
        · exact ih (h tag (itemsOf parts) true)
        · exact hopen

end Follows

/-- Inside an element, tokens that start with a tag lead to contents that differ in one run. The
condition is about elements that end at once, as a leaf does. -/
theorem Retold.assembleFrom {same : Prop} {parts others before : List Part} {outer : List Opened}
    {tag : Tag} {tokens : List Token}
    (hparts : ∀ rest, (∀ part ∈ rest.head?, part.isElement = true) →
      Retold same (joinRuns [] (parts.reverse ++ rest)) (joinRuns [] (others.reverse ++ rest)))
    (htokens : ∀ token ∈ tokens.head?, token.isTag = true)
    (hsame : same → (∃ token ∈ tokens.head?, token.isStart = true) ∨
      (isLeafContent (itemsOf parts) = true → itemsOf others = itemsOf parts)) :
    Retold same (Markup.assembleFrom (⟨tag, before⟩ :: outer) parts tokens)
      (Markup.assembleFrom (⟨tag, before⟩ :: outer) others tokens) := by
  have hcontent : Retold same (itemsOf parts) (itemsOf others) := by
    have hcontent := hparts [] (by simp)
    rwa [List.append_nil, List.append_nil] at hcontent
  have hends (closed : Bool) (hstart : ∀ token ∈ tokens.head?, token.isStart = false) :
      Follows same outer (.whole (.element tag (itemsOf parts) closed) :: before) outer
        (.whole (.element tag (itemsOf others) closed) :: before) := by
    refine .of_content hcontent (fun h => (hsame h).resolve_left ?_) tag closed
    rintro ⟨token, htoken, hfirst⟩
    rw [hstart token htoken] at hfirst
    cases hfirst
  have hstarts (tag' : Tag) (content : List Item) (closed : Bool) :
      Follows same (⟨tag, before⟩ :: outer) (.whole (.element tag' content closed) :: parts)
        (⟨tag, before⟩ :: outer) (.whole (.element tag' content closed) :: others) := by
    refine .here (fun rest => ?_) (.inr ⟨_, List.mem_cons_self, rfl⟩)
    have hwhole := hparts (.whole (.element tag' content closed) :: rest)
      (by simp [Part.isElement])
    rwa [List.reverse_cons, List.reverse_cons, List.append_assoc, List.append_assoc]
  cases tokens with
  | nil => exact (hends false (by simp)).leaveOpen
  | cons token tokens =>
    have htag := htokens token rfl
    cases token with
    | text | cdata | comment | instruction | doctype => cases htag
    | openTag tag' => exact (Follows.outside tag' [] (hstarts)).assembleFrom tokens
    | emptyTag tag' => exact (hstarts tag' [] true).assembleFrom tokens
    | closeTag name =>
      rw [Markup.assembleFrom, Markup.assembleFrom]
      dsimp only
      split
      · exact (hends true (by simp [Token.isStart])).assembleFrom tokens
      · exact (hends false (by simp [Token.isStart])).leaveOpen

/-- Tokens in front lead to a state, unless they end the document. Where they are not in a leaf,
an element stands among the innermost parts or nothing is open. -/
theorem exists_assembleFrom_append (tokens : List Token) (opened : List Opened)
    (parts : List Part) (inLeaf : Bool)
    (h : inLeaf = false → opened = [] ∨ ∃ part ∈ parts, part.isElement = true) :
    (∃ items, ∀ rest, assembleFrom opened parts (tokens ++ rest) = items) ∨
      ∃ opened' parts', (∀ rest, assembleFrom opened parts (tokens ++ rest) =
          assembleFrom opened' parts' rest) ∧
        (tokens.foldl leafAfter inLeaf = false →
          opened' = [] ∨ ∃ part ∈ parts', part.isElement = true) := by
  have further {opened : List Opened} {parts : List Part} (part : Part)
      (h : opened = [] ∨ ∃ part ∈ parts, part.isElement = true) :
      opened = [] ∨ ∃ other ∈ part :: parts, other.isElement = true :=
    h.imp_right fun ⟨other, hmem, hother⟩ => ⟨other, List.mem_cons_of_mem _ hmem, hother⟩
  induction tokens generalizing opened parts inLeaf with
  | nil => exact .inr ⟨opened, parts, fun rest => rfl, h⟩
  | cons token tokens ih =>
    cases token with
    | openTag tag =>
      exact ih (⟨tag, parts⟩ :: opened) [] true nofun
    | emptyTag tag =>
      exact ih opened (_ :: parts) false fun _ => .inr ⟨_, List.mem_cons_self, rfl⟩
    | text | cdata | doctype =>
      exact ih opened (_ :: parts) inLeaf fun hleaf => further _ (h hleaf)
    | comment | instruction => exact ih opened parts inLeaf h
    | closeTag name =>
      cases opened with
      | nil => exact .inl ⟨itemsOf parts, fun rest => rfl⟩
      | cons innermost outer =>
        by_cases hname : (name == innermost.tag.name) = true
        · have hstep (rest : List Token) :
              assembleFrom (innermost :: outer) parts (.closeTag name :: rest) =
                assembleFrom outer (.whole (.element innermost.tag (itemsOf parts) true) ::
                  innermost.before) rest := by
            rw [assembleFrom]
            exact if_pos hname
          simp only [List.cons_append, hstep]
          exact ih outer _ false fun _ => .inr ⟨_, List.mem_cons_self, rfl⟩
        · refine .inl ⟨leaveOpen (innermost :: outer) parts, fun rest => ?_⟩
          rw [List.cons_append, assembleFrom]
          exact if_neg hname

end CallbackGateway.Markup
