import CallbackGateway.Proofs.Markup.Document
import CallbackGateway.Proofs.Markup.Readable

/-!
# An element more

A place in a document lies between what stands before it and what stands after it, inside the
elements that are open there. If a whole element is put there, the assembled content changes at
that place only: the text around it is cut in two, and one item comes in between.
-/

namespace CallbackGateway.Markup

/-! ## Neighbours -/

/-- The name of the element that a token starts. -/
def Token.startName? : Token → Option (List Char)
  | .openTag tag | .emptyTag tag => some tag.name
  | _ => none

/-- The name of the element that a token ends. -/
def Token.endName? : Token → Option (List Char)
  | .emptyTag tag => some tag.name
  | .closeTag name => some name
  | _ => none

/-- The name of the element that starts with the first tag. -/
def startName (tokens : List Token) : Option (List Char) :=
  (tokens.filter Token.isTag).head?.bind Token.startName?

/-- The name of the element that ends with the last tag. -/
def endName (tokens : List Token) : Option (List Char) :=
  (tokens.filter Token.isTag).getLast?.bind Token.endName?

/-- A closing tag is no start of an element. -/
theorem startName_append_closeTag (right back : List Token) (name : List Char) :
    startName (right ++ .closeTag name :: back) = startName right := by
  rw [startName, List.filter_append, List.filter_cons_of_pos rfl, startName]
  cases right.filter Token.isTag <;> rfl

/-- An opening tag is no end of an element. -/
theorem endName_append_openTag (front left : List Token) (tag : Tag) :
    endName (front ++ .openTag tag :: left) = endName left := by
  rw [endName, List.filter_append, List.filter_cons_of_pos rfl, List.getLast?_append,
    List.getLast?_cons, endName]
  cases hlast : (left.filter Token.isTag).getLast? with
  | none => rfl
  | some last => rfl

/-! ## Places -/

/-- A place between tokens, inside the open elements with some names, the outermost first. -/
inductive Hole : List (List Char) → List Token → List Token → Prop
  | here {left right : List Token} : Balanced left → Balanced right → Hole [] left right
  | nested {tag : Tag} {path : List (List Char)} {front left right back : List Token} :
      Balanced front → Hole path left right → Balanced back →
      Hole (tag.name :: path) (front ++ .openTag tag :: left)
        (right ++ .closeTag tag.name :: back)

/-- Only the tags decide what is open at a place. -/
theorem Hole.of_filter_eq {path : List (List Char)} {left right others tail : List Token}
    (h : Hole path left right) (hleft : others.filter Token.isTag = left.filter Token.isTag)
    (hright : tail.filter Token.isTag = right.filter Token.isTag) : Hole path others tail := by
  induction h generalizing others tail with
  | here hbefore hafter =>
    exact .here (.of_filter_tags (hleft ▸ hbefore.filter_tags))
      (.of_filter_tags (hright ▸ hafter.filter_tags))
  | @nested tag path front left right back hfront _ hback ih =>
    rw [List.filter_append, List.filter_cons_of_pos rfl] at hleft hright
    obtain ⟨before, inside, rfl, hbefore, hinside⟩ := List.filter_eq_append_iff.mp hleft
    obtain ⟨layout, inner, rfl, hlayout, -, hinner⟩ := List.filter_eq_cons_iff.mp hinside
    obtain ⟨rest, outside, rfl, hrest, houtside⟩ := List.filter_eq_append_iff.mp hright
    obtain ⟨space, after, rfl, hspace, -, hafter⟩ := List.filter_eq_cons_iff.mp houtside
    have hbalanced : Balanced (before ++ layout) := by
      refine .append (.of_filter_tags ?_) (.of_noTags (by simpa using hlayout))
      rw [hbefore]
      exact hfront.filter_tags
    have hopen : Hole path inner (rest ++ space) := by
      refine ih hinner ?_
      rw [List.filter_append, hrest, List.filter_eq_nil_iff.mpr hspace, List.append_nil]
    have hbalanced' : Balanced after := by
      refine .of_filter_tags ?_
      rw [hafter]
      exact hback.filter_tags
    have hwhole : Hole (tag.name :: path) (before ++ layout ++ .openTag tag :: inner)
        (rest ++ space ++ .closeTag tag.name :: after) := .nested hbalanced hopen hbalanced'
    rwa [List.append_assoc, List.append_assoc] at hwhole

/-! ## Items -/

/-- The name of an element. -/
def Item.name? : Item → Option (List Char)
  | .element tag _ _ => some tag.name
  | .text _ => none

/-- Two contents, of which the second has one element more: with its name, the names of the
elements around it, and those of the elements next to it. -/
inductive Widened (name : List Char) : List (List Char) → Option (List Char) →
    Option (List Char) → List Item → List Item → Prop
  | here {before gap first second after : List Item} {tag : Tag} {content : List Item}
      (hname : tag.name = name) (hcontent : content.all Item.hasValue = true)
      (hbefore : ∀ item ∈ before.getLast?, item.isText = false)
      (hafter : ∀ item ∈ after.head?, item.isText = false)
      (hgap : gap.all Item.isText = true) (hfirst : first.all Item.isText = true)
      (hsecond : second.all Item.isText = true)
      (hvalue : gap.all Item.hasValue = true →
        first.all Item.hasValue = true ∧ second.all Item.hasValue = true)
      (hempty : before ≠ [] → gap = [] → first = []) :
      Widened name [] (before.getLast?.bind Item.name?) (after.head?.bind Item.name?)
        (before ++ (gap ++ after))
        (before ++ (first ++ .element tag content true :: (second ++ after)))
  | nested {path : List (List Char)} {last next : Option (List Char)} {tag : Tag}
      {content wider : List Item} (before after : List Item) :
      Widened name path last next content wider →
      Widened name (tag.name :: path) last next
        (before ++ .element tag content true :: after)
        (before ++ .element tag wider true :: after)

/-- An element stands between the items around it. -/
theorem joinRuns_append_whole (run : List Piece) (parts rest : List Part) (item : Item) :
    joinRuns run (parts ++ .whole item :: rest) =
      joinRuns run parts ++ item :: joinRuns [] rest := by
  induction parts generalizing run with
  | nil => rfl
  | cons part parts ih =>
    cases part with
    | whole other => rw [List.cons_append, joinRuns, joinRuns, ih, List.append_assoc]; rfl
    | piece piece => rw [List.cons_append, joinRuns, joinRuns, ih]
    | boundary => rw [List.cons_append, joinRuns, joinRuns, ih, List.append_assoc]

/-- Runs that are not only layout leave an item. -/
theorem joinRuns_eq_nil_iff {parts : List Part} (hwhole : ∀ item, .whole item ∉ parts) :
    joinRuns [] parts = [] ↔ ∀ part ∈ parts, part.isLayout = true := by
  have hend : EndsRun [] := by simp [EndsRun]
  constructor
  · intro hnil
    by_contra hnot
    obtain ⟨value, hvalue⟩ : ∃ value, (joinRuns [] (parts ++ [])).head? = some (.text value) :=
      head?_joinRuns_of_not_layout hwhole (fun h => hnot h.2) hend
    rw [List.append_nil, hnil] at hvalue
    cases hvalue
  · intro hlayout
    have hjoin : joinRuns [] (parts ++ []) = joinRuns [] [] :=
      joinRuns_layout (by simp) hlayout hend
    rwa [List.append_nil] at hjoin

/-! ## Elements at the ends -/

/-- Balanced tokens that end with a tag end with an element. -/
theorem Balanced.exists_last_element {tokens : List Token} (h : Balanced tokens)
    (hne : tokens ≠ []) (hlast : ∀ token ∈ tokens.getLast?, token.isTag = true) :
    ∃ front root, tokens = front ++ root ∧ Balanced front ∧ IsElement root := by
  induction h with
  | nil => exact absurd rfl hne
  | @other token rest htag hrest ih =>
    cases rest with
    | nil => exact absurd (hlast token rfl) (by simp [htag])
    | cons next rest =>
      obtain ⟨front, root, hsplit, hfront, hroot⟩ := ih (List.cons_ne_nil _ _) hlast
      exact ⟨token :: front, root, by rw [hsplit, List.cons_append], .other htag hfront, hroot⟩
  | @emptyTag tag rest hrest ih =>
    cases rest with
    | nil => exact ⟨[], _, rfl, .nil, .emptyTag tag⟩
    | cons next rest =>
      obtain ⟨front, root, hsplit, hfront, hroot⟩ := ih (List.cons_ne_nil _ _) hlast
      exact ⟨.emptyTag tag :: front, root, by rw [hsplit, List.cons_append], .emptyTag hfront,
        hroot⟩
  | @element tag inner rest hinner hrest _ ih =>
    cases rest with
    | nil => exact ⟨[], _, rfl, .nil, .element tag hinner⟩
    | cons next rest =>
      have hlast' : ∀ token ∈ (next :: rest).getLast?, token.isTag = true := by
        intro token htoken
        have hsplit : Token.openTag tag :: (inner ++ .closeTag tag.name :: next :: rest) =
            .openTag tag :: (inner ++ [.closeTag tag.name]) ++ (next :: rest) := by simp
        refine hlast token ?_
        rw [hsplit, List.getLast?_append, Option.mem_def.mp htoken]
        rfl
      obtain ⟨front, root, hsplit, hfront, hroot⟩ := ih (List.cons_ne_nil _ _) hlast'
      exact ⟨.openTag tag :: (inner ++ .closeTag tag.name :: front), root, by rw [hsplit]; simp,
        .element hinner hfront, hroot⟩

/-- Balanced tokens that begin with a tag begin with an element. -/
theorem Balanced.exists_first_element {tokens : List Token} (h : Balanced tokens)
    (hne : tokens ≠ []) (hfirst : ∀ token ∈ tokens.head?, token.isTag = true) :
    ∃ root rest, tokens = root ++ rest ∧ IsElement root ∧ Balanced rest := by
  cases h with
  | nil => exact absurd rfl hne
  | @other token rest htag => exact absurd (hfirst token rfl) (by simp [htag])
  | @emptyTag tag rest hrest => exact ⟨[.emptyTag tag], rest, rfl, .emptyTag tag, hrest⟩
  | @element tag inner rest hinner hrest =>
    exact ⟨.openTag tag :: (inner ++ [.closeTag tag.name]), rest, by simp, .element tag hinner,
      hrest⟩

/-- An element is one part, with its own name. -/
theorem IsElement.exists_part {root : List Token} (h : IsElement root) :
    ∃ tag content, Content root [.whole (.element tag content true)] ∧
      (root.all Token.hasValue = true → content.all Item.hasValue = true) ∧
      (∀ rest, startName (root ++ rest) = some tag.name) ∧
      ∀ front, endName (front ++ root) = some tag.name := by
  cases h with
  | emptyTag tag =>
    refine ⟨tag, [], .emptyTag .nil, fun _ => rfl, fun rest => rfl, fun front => ?_⟩
    rw [endName, List.filter_append, List.filter_cons_of_pos rfl, List.getLast?_append]
    rfl
  | @element tag inner hinner =>
    obtain ⟨parts, hparts⟩ := hinner.exists_content
    refine ⟨tag, joinRuns [] parts, .element hparts .nil, fun hvalue => ?_, fun rest => rfl,
      fun front => ?_⟩
    · rw [List.all_cons, List.all_append, Bool.and_eq_true, Bool.and_eq_true] at hvalue
      rw [all_hasValue_joinRuns, hparts.all_hasValue_of_tokens hvalue.2.1]
      rfl
    · rw [← List.cons_append, ← List.append_assoc, endName, List.filter_append,
        List.getLast?_append]
      rfl

/-! ## Content with an element more -/

/-- The items of what stands before a place, if a tag stands right before it. -/
theorem Balanced.exists_items_before {left : List Token} (h : Balanced left)
    (hlast : ∀ token ∈ left.getLast?, token.isTag = true) :
    ∃ parts items, Content left parts ∧
      (∀ rest, joinRuns [] (parts ++ rest) = items ++ joinRuns [] rest) ∧
      (∀ item ∈ items.getLast?, item.isText = false) ∧
      items.getLast?.bind Item.name? = endName left ∧
      (items ≠ [] → ∃ token ∈ left.getLast?, token.isEnd = true) := by
  cases left with
  | nil => exact ⟨[], [], .nil, fun rest => rfl, by simp, rfl, by simp⟩
  | cons token rest =>
    obtain ⟨front, root, hsplit, hfront, hroot⟩ :=
      h.exists_last_element (List.cons_ne_nil _ _) hlast
    obtain ⟨parts, hparts⟩ := hfront.exists_content
    obtain ⟨tag, content, hcontent, -, -, hname⟩ := hroot.exists_part
    obtain ⟨inner, last, hinner, hend⟩ := hroot.exists_last
    rw [hsplit]
    refine ⟨_, joinRuns [] parts ++ [.element tag content true], hparts.append hcontent,
      fun rest => ?_, ?_, ?_, fun _ => ⟨last, ?_, hend⟩⟩
    · rw [List.append_assoc, List.singleton_append, joinRuns_append_whole, List.append_assoc,
        List.singleton_append]
    · simp [Item.isText]
    · rw [hname, List.getLast?_concat]
      rfl
    · rw [hinner, ← List.append_assoc, List.getLast?_concat]
      rfl

/-- The items of what stands after a place, if a tag stands right after it. -/
theorem Balanced.exists_items_after {right : List Token} (h : Balanced right)
    (hfirst : ∀ token ∈ right.head?, token.isTag = true) :
    ∃ parts items, Content right parts ∧
      (∀ run front, joinRuns run (front ++ parts) = joinRuns run front ++ items) ∧
      (∀ item ∈ items.head?, item.isText = false) ∧
      items.head?.bind Item.name? = startName right := by
  cases right with
  | nil =>
    exact ⟨[], [], .nil, fun run front => by rw [List.append_nil, List.append_nil], by simp, rfl⟩
  | cons token rest =>
    obtain ⟨root, tail, hsplit, hroot, htail⟩ :=
      h.exists_first_element (List.cons_ne_nil _ _) hfirst
    obtain ⟨parts, hparts⟩ := htail.exists_content
    obtain ⟨tag, content, hcontent, -, hname, -⟩ := hroot.exists_part
    rw [hsplit]
    refine ⟨_, .element tag content true :: joinRuns [] parts, hcontent.append hparts,
      fun run front => ?_, ?_, ?_⟩
    · rw [List.singleton_append, joinRuns_append_whole]
    · simp [Item.isText]
    · rw [hname]
      rfl

/-- An element that is put into content leaves the content as it is around it. What stands at the
place is cut in two; behind an element its first part is layout if the whole was. -/
theorem Hole.exists_widened {path : List (List Char)} {left right : List Token}
    (h : Hole path left right) (hleft : ∀ token ∈ left.getLast?, token.isTag = true)
    (hright : ∀ token ∈ right.head?, token.isTag = true) {gap first second added : List Token}
    {name : List Char} (hgap : ∀ token ∈ gap, token.isTag = false)
    (hfirst : ∀ token ∈ first, token.isTag = false)
    (hsecond : ∀ token ∈ second, token.isTag = false) (hadded : IsElement added)
    (hname : startName added = some name) (hcontent : added.all Token.hasValue = true)
    (hvalue : gap.all Token.hasValue = true →
      first.all Token.hasValue = true ∧ second.all Token.hasValue = true)
    (hlayout : (∃ token ∈ left.getLast?, token.isEnd = true) →
      (∀ token ∈ gap, token.isMisc = true) → ∀ token ∈ first, token.isMisc = true) :
    ∃ parts wider, Content (left ++ (gap ++ right)) parts ∧
      Content (left ++ (first ++ (added ++ (second ++ right)))) wider ∧
      Widened name path (endName left) (startName right) (joinRuns [] parts)
        (joinRuns [] wider) := by
  induction h with
  | here hbefore hafter =>
    obtain ⟨front, before, hfront, hjoin, hbefore, hlast, hends⟩ :=
      hbefore.exists_items_before hleft
    obtain ⟨back, after, hback, hrest, hafter, hnext⟩ := hafter.exists_items_after hright
    obtain ⟨gapParts, hgapContent, hgapWhole, hgapLayout⟩ := exists_content_of_noTags hgap
    obtain ⟨firstParts, hfirstContent, hfirstWhole, hfirstLayout⟩ :=
      exists_content_of_noTags hfirst
    obtain ⟨secondParts, hsecondContent, hsecondWhole, -⟩ := exists_content_of_noTags hsecond
    obtain ⟨tag, content, hpart, hcontentValue, hstart, -⟩ := hadded.exists_part
    have htag : tag.name = name := by
      have hsame := hstart []
      rw [List.append_nil, hname] at hsame
      exact (Option.some.inj hsame).symm
    refine ⟨_, _, hfront.append (hgapContent.append hback),
      hfront.append (hfirstContent.append (hpart.append (hsecondContent.append hback))), ?_⟩
    rw [hjoin, hjoin, hrest, List.singleton_append, joinRuns_append_whole, hrest, ← hlast, ← hnext]
    refine .here htag (hcontentValue hcontent) hbefore hafter (all_isText_joinRuns hgapWhole [])
      (all_isText_joinRuns hfirstWhole []) (all_isText_joinRuns hsecondWhole []) ?_ ?_
    · rw [all_hasValue_joinRuns, all_hasValue_joinRuns, all_hasValue_joinRuns,
        hgapContent.all_hasValue hgap, hfirstContent.all_hasValue hfirst,
        hsecondContent.all_hasValue hsecond]
      exact hvalue
    · intro hne hnil
      rw [joinRuns_eq_nil_iff hfirstWhole, hfirstLayout]
      rw [joinRuns_eq_nil_iff hgapWhole, hgapLayout] at hnil
      exact hlayout (hends hne) hnil
  | @nested tag path front left right back hfront _ hback ih =>
    obtain ⟨frontParts, hfrontContent⟩ := hfront.exists_content
    obtain ⟨backParts, hbackContent⟩ := hback.exists_content
    have hends {token : Token} (h : token ∈ left.getLast?) :
        token ∈ (front ++ .openTag tag :: left).getLast? := by
      rw [Option.mem_def] at h ⊢
      rw [List.getLast?_append, List.getLast?_cons, h]
      rfl
    have hstarts {token : Token} (h : token ∈ right.head?) :
        token ∈ (right ++ .closeTag tag.name :: back).head? := by
      rw [Option.mem_def] at h ⊢
      rw [List.head?_append, h]
      rfl
    obtain ⟨parts, wider, hparts, hwider, hwidened⟩ := ih (fun token h => hleft token (hends h))
      (fun token h => hright token (hstarts h))
      fun ⟨token, h, hend⟩ => hlayout ⟨token, hends h, hend⟩
    have nest {inner : List Token} {parts : List Part} (h : Content inner parts) :
        Content (front ++ .openTag tag :: (inner ++ .closeTag tag.name :: back))
          (frontParts ++ .whole (.element tag (joinRuns [] parts) true) :: backParts) :=
      hfrontContent.append (.element h hbackContent)
    refine ⟨_, _, by simpa using nest hparts, by simpa using nest hwider, ?_⟩
    · rw [endName_append_openTag, startName_append_closeTag, joinRuns_append_whole,
        joinRuns_append_whole]
      exact .nested _ _ hwidened

end CallbackGateway.Markup
