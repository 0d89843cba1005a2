import CallbackGateway.Markup.Content
import CallbackGateway.Markup.Writer

/-!
# Assembled content

Tokens in which every element is closed have parts: their elements, pieces of text and
boundaries between runs. Assembling such tokens adds exactly these parts to what was collected,
whatever the open elements around them are and whatever comes next.
-/

namespace CallbackGateway.Markup

/-- Which parts the content of an element has. -/
inductive Content : List Token → List Part → Prop
  | nil : Content [] []
  | element {tag : Tag} {inner rest : List Token} {parts others : List Part} :
      Content inner parts → Content rest others →
      Content (.openTag tag :: (inner ++ .closeTag tag.name :: rest))
        (.whole (.element tag (joinRuns [] parts) true) :: others)
  | emptyTag {tag : Tag} {rest : List Token} {others : List Part} : Content rest others →
      Content (.emptyTag tag :: rest) (.whole (.element tag [] true) :: others)
  | text {raw : List Char} {rest : List Token} {others : List Part} : Content rest others →
      Content (.text raw :: rest) (.piece (.text raw) :: others)
  | cdata {raw : List Char} {rest : List Token} {others : List Part} : Content rest others →
      Content (.cdata raw :: rest) (.piece (.cdata raw) :: others)
  | comment {body : List Char} {rest : List Token} {others : List Part} : Content rest others →
      Content (.comment body :: rest) others
  | instruction {body : List Char} {rest : List Token} {others : List Part} :
      Content rest others → Content (.instruction body :: rest) others
  | doctype {body : List Char} {rest : List Token} {others : List Part} : Content rest others →
      Content (.doctype body :: rest) (.boundary :: others)

namespace Content

variable {first second tokens rest : List Token} {parts others : List Part}

/-- Content is put together from contents. -/
theorem append (h : Content first parts) (hsecond : Content second others) :
    Content (first ++ second) (parts ++ others) := by
  induction h with
  | nil => exact hsecond
  | element hinner _ _ ih =>
    rw [List.cons_append, List.append_assoc, List.cons_append, List.cons_append]
    exact .element hinner ih
  | emptyTag _ ih => exact .emptyTag ih
  | text _ ih => exact .text ih
  | cdata _ ih => exact .cdata ih
  | comment _ ih => exact .comment ih
  | instruction _ ih => exact .instruction ih
  | doctype _ ih => exact .doctype ih

/-- The parts of content are added to those that were collected. -/
theorem assembleFrom (h : Content tokens parts) (opened : List Opened) (collected : List Part)
    (rest : List Token) : assembleFrom opened collected (tokens ++ rest) =
      Markup.assembleFrom opened (parts.reverse ++ collected) rest := by
  induction h generalizing opened collected rest with
  | nil => rfl
  | @element tag inner tail parts others _ _ ihinner ihrest =>
    have hstep : Markup.assembleFrom (⟨tag, collected⟩ :: opened) (parts.reverse ++ [])
        (.closeTag tag.name :: (tail ++ rest)) = Markup.assembleFrom opened
          (.whole (.element tag (joinRuns [] parts) true) :: collected) (tail ++ rest) := by
      rw [Markup.assembleFrom]
      dsimp only
      rw [if_pos (beq_self_eq_true _), itemsOf, List.append_nil, List.reverse_reverse]
    rw [List.cons_append, List.append_assoc, List.cons_append, Markup.assembleFrom, ihinner,
      hstep, ihrest, List.reverse_cons, List.append_assoc, List.singleton_append]
  | emptyTag _ ih | text _ ih | cdata _ ih | doctype _ ih =>
    rw [List.cons_append, Markup.assembleFrom, ih, List.reverse_cons, List.append_assoc,
      List.singleton_append]
  | comment _ ih | instruction _ ih =>
    rw [List.cons_append, Markup.assembleFrom, ih]

/-- Content on its own is assembled into the items of its parts. -/
theorem assemble (h : Content tokens parts) : assemble tokens = joinRuns [] parts := by
  have hassemble := h.assembleFrom [] [] []
  rw [List.append_nil, List.append_nil, Markup.assembleFrom, leaveOpen, itemsOf,
    List.reverse_reverse] at hassemble
  exact hassemble

end Content

/-- A written element is the one part of its tokens. -/
theorem content_element (name : String) {tokens : List Token} {parts : List Part}
    (h : Content tokens parts) : Content (element name tokens)
      [.whole (.element ⟨name.toList, []⟩ (joinRuns [] parts) true)] := .element h .nil

/-- Whole items are not changed by joining the runs between them. -/
@[simp] theorem joinRuns_map_whole (items : List Item) :
    joinRuns [] (items.map .whole) = items := by
  induction items with
  | nil => rfl
  | cons item items ih =>
    rw [List.map_cons, joinRuns, ih]
    rfl

/-- The pieces of a run have no effect until it ends. -/
theorem joinRuns_map_piece (run pieces : List Piece) :
    joinRuns run (pieces.map .piece) = runItem (run.reverse ++ pieces) := by
  induction pieces generalizing run with
  | nil => rw [List.map_nil, joinRuns, List.append_nil]
  | cons piece pieces ih =>
    rw [List.map_cons, joinRuns, ih, List.reverse_cons, List.append_assoc, List.singleton_append]

/-- Sections join to their contents. -/
theorem joinPieces_map_cdata (contents : List (List Char)) :
    joinPieces (contents.map .cdata) = some contents.flatten := by
  induction contents with
  | nil => rfl
  | cons content contents ih =>
    rw [List.map_cons, joinPieces, ih]
    rfl

/-- Sections are not trimmed. -/
theorem trimRunEnd_map_cdata (contents : List (List Char)) :
    trimRunEnd (contents.map .cdata) = contents.map .cdata := by
  induction contents with
  | nil => rfl
  | cons content contents ih =>
    cases contents with
    | nil => rfl
    | cons other rest => rw [List.map_cons, List.map_cons, trimRunEnd, ← List.map_cons, ih]; simp

/-- A run of sections is their contents, with the white space at its ends. -/
theorem runItem_map_cdata {contents : List (List Char)} (h : contents ≠ []) :
    runItem (contents.map .cdata) = [.text (some contents.flatten)] := by
  obtain ⟨content, rest, rfl⟩ := List.exists_cons_of_ne_nil h
  have htrim := trimRunEnd_map_cdata (content :: rest)
  have hjoin := joinPieces_map_cdata (content :: rest)
  rw [List.map_cons] at htrim hjoin ⊢
  rw [runItem, trimRunStart]
  dsimp only
  rw [htrim, hjoin]

/-- Sections are the parts of one run. -/
theorem content_cdata (contents : List (List Char)) :
    Content (contents.map .cdata) (contents.map fun content => .piece (.cdata content)) := by
  induction contents with
  | nil => exact .nil
  | cons content contents ih => exact .cdata ih

/-- The sections of a text are content. -/
theorem content_sections (text : List Char) :
    Content (sections text) ((chunks text).map fun chunk => .piece (.cdata chunk)) :=
  content_cdata (chunks text)

/-- Sections are read as their contents. -/
theorem joinRuns_cdata {contents : List (List Char)} (h : contents ≠ []) :
    joinRuns [] (contents.map fun content => .piece (.cdata content)) =
      [.text (some contents.flatten)] := by
  have hpieces := joinRuns_map_piece [] (contents.map .cdata)
  rw [List.map_map] at hpieces
  rw [List.reverse_nil, List.nil_append, runItem_map_cdata h] at hpieces
  exact hpieces

/-- The sections of a text are read as the text. -/
theorem joinRuns_sections (text : List Char) :
    joinRuns [] ((chunks text).map fun chunk => .piece (.cdata chunk)) = [.text (some text)] := by
  rw [joinRuns_cdata (chunks_ne_nil text), flatten_chunks]

/-- A text without references stands for itself. -/
theorem unescape_eq_self {text : List Char} (h : '&' ∉ text) : unescape text = some text := by
  induction text with
  | nil => rfl
  | cons c rest ih =>
    have hc : c ≠ '&' := fun hc => h (by simp [hc])
    have hrest := ih fun hm => h (List.mem_cons_of_mem _ hm)
    rw [unescape] at hrest ⊢
    rw [unescapeFrom, if_neg (by simpa using hc), hrest]
    rfl

/-- A text without references and white space is read as it is. -/
theorem joinRuns_text {raw : List Char} (hne : raw ≠ []) (hspace : ∀ c ∈ raw, isSpace c = false)
    (hreference : '&' ∉ raw) :
    joinRuns [] [.piece (.text raw)] = [.text (some raw)] := by
  have hdrop {cs : List Char} (h : ∀ c ∈ cs, isSpace c = false) : cs.dropWhile isSpace = cs := by
    cases cs with
    | nil => rfl
    | cons c rest => rw [List.dropWhile_cons_of_neg (by simp [h c])]
  have hreverse : (Piece.text raw).trimEnd = .text raw := by
    rw [Piece.trimEnd, hdrop fun c hc => hspace c (List.mem_reverse.mp hc), List.reverse_reverse]
  obtain ⟨c, rest, rfl⟩ := List.exists_cons_of_ne_nil hne
  rw [joinRuns, joinRuns, List.reverse_singleton, runItem, trimRunStart, hdrop hspace]
  dsimp only
  rw [trimRunEnd, hreverse, joinPieces, joinPieces, Piece.value, unescape_eq_self hreference]
  simp

end CallbackGateway.Markup
