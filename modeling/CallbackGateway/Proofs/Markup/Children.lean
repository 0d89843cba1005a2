import CallbackGateway.Proofs.Markup.Insertion

/-!
# The children of the root

The children of the root can be told apart by the tags alone. A document of which only some
children are taken is read as these children are read in the whole document: the leaf text of a
child is kept without a look at what stands around the child, and so is its content assembled.
-/

namespace CallbackGateway.Markup

/-- A token, if it is taken. -/
def takeToken (taken : Bool) (token : Token) : List Token := if taken then [token] else []

/-- The tokens of the elements that are taken, up to the end of the element around them. For each
element that is open inside of it, the innermost first, `opened` tells whether it is taken. -/
def takeElements (takes : Tag → Bool) (opened : List Bool) : List Token → List Token
  | [] => []
  | .openTag tag :: rest =>
    let taken := opened.headD (takes tag)
    takeToken taken (.openTag tag) ++ takeElements takes (taken :: opened) rest
  | .emptyTag tag :: rest =>
    takeToken (opened.headD (takes tag)) (.emptyTag tag) ++ takeElements takes opened rest
  | .closeTag name :: rest =>
    match opened with
    | [] => []
    | taken :: outer => takeToken taken (.closeTag name) ++ takeElements takes outer rest
  | token :: rest => takeToken (opened.headD false) token ++ takeElements takes opened rest

/-- The tokens of the children of the root that are taken. -/
def takeChildren (takes : Tag → Bool) (tokens : List Token) : List Token :=
  match tokens.dropWhile fun token => !token.isTag with
  | .openTag _ :: rest => takeElements takes [] rest
  | _ => []

section Elements

variable {takes : Tag → Bool} {tokens : List Token}

/-- A token that is no tag is taken with the element that it stands in. -/
theorem takeElements_of_noTag {token : Token} (htag : token.isTag = false) (opened : List Bool)
    (rest : List Token) : takeElements takes opened (token :: rest) =
      takeToken (opened.headD false) token ++ takeElements takes opened rest := by
  cases token with
  | openTag | emptyTag | closeTag => simp [Token.isTag] at htag
  | text | cdata | comment | instruction | doctype => rfl

/-- Inside an element everything is taken, or nothing. -/
theorem Balanced.takeElements_inside (h : Balanced tokens) (taken : Bool) (opened : List Bool)
    (rest : List Token) : takeElements takes (taken :: opened) (tokens ++ rest) =
      tokens.flatMap (takeToken taken) ++ takeElements takes (taken :: opened) rest := by
  induction h generalizing taken opened rest with
  | nil => rfl
  | other htag _ ih =>
    rw [List.cons_append, takeElements_of_noTag htag, ih, List.flatMap_cons, List.append_assoc]
    rfl
  | emptyTag _ ih =>
    rw [List.cons_append, takeElements, ih, List.flatMap_cons, List.append_assoc]
    rfl
  | element _ _ ihinner ihrest =>
    rw [List.cons_append, List.append_assoc, takeElements, ihinner, List.cons_append,
      takeElements, ihrest]
    simp only [List.flatMap_cons, List.flatMap_append, List.append_assoc, List.headD_cons]

/-- Tokens are taken all or none. -/
theorem flatMap_takeToken (taken : Bool) (tokens : List Token) :
    tokens.flatMap (takeToken taken) = if taken then tokens else [] := by
  cases taken with
  | false => exact List.flatMap_eq_nil_iff.mpr fun _ _ => rfl
  | true => exact List.flatMap_singleton' tokens

/-- An element is taken as a whole. -/
theorem takeElements_element {tag : Tag} {inner : List Token} (h : Balanced inner)
    (rest : List Token) :
    takeElements takes [] (.openTag tag :: (inner ++ .closeTag tag.name :: rest)) =
      (if takes tag then .openTag tag :: (inner ++ [.closeTag tag.name]) else []) ++
        takeElements takes [] rest := by
  rw [takeElements]
  dsimp only [List.headD_nil]
  rw [h.takeElements_inside, takeElements, flatMap_takeToken]
  cases takes tag <;> simp [takeToken]

/-- An element can be divided from what is behind it. -/
theorem openTag_append_closeTag (tag : Tag) (inner rest : List Token) :
    Token.openTag tag :: (inner ++ .closeTag tag.name :: rest) =
      .openTag tag :: (inner ++ [.closeTag tag.name]) ++ rest := by
  simp

/-- An element is taken whole or skipped whole, whatever is behind it. -/
theorem takeElements_element_append (tag : Tag) {inner : List Token} (h : Balanced inner)
    (rest : List Token) :
    takeElements takes [] (.openTag tag :: (inner ++ [.closeTag tag.name]) ++ rest) =
      (if takes tag then .openTag tag :: (inner ++ [.closeTag tag.name]) else []) ++
        takeElements takes [] rest := by
  rw [← openTag_append_closeTag, takeElements_element h]

/-- What is taken from content does not depend on what comes after it. -/
theorem Balanced.takeElements_append (h : Balanced tokens) (rest : List Token) :
    takeElements takes [] (tokens ++ rest) =
      takeElements takes [] tokens ++ takeElements takes [] rest := by
  induction h with
  | nil => rfl
  | other htag _ ih =>
    rw [List.cons_append, takeElements_of_noTag htag, takeElements_of_noTag htag, ih]
    rfl
  | emptyTag _ ih => rw [List.cons_append, takeElements, takeElements, ih, List.append_assoc]
  | element hinner _ _ ih =>
    rw [List.cons_append, List.append_assoc, List.cons_append, takeElements_element hinner,
      takeElements_element hinner, ih, List.append_assoc]

/-- What is taken from the root is taken from its content. -/
theorem takeChildren_element {before inner after : List Token} {root : Tag}
    (hbefore : ∀ token ∈ before, token.isTag = false) (hinner : Balanced inner) :
    takeChildren takes (before ++ .openTag root :: (inner ++ .closeTag root.name :: after)) =
      takeElements takes [] inner := by
  have hdrop : (before ++ .openTag root :: (inner ++ .closeTag root.name :: after)).dropWhile
      (fun token => !token.isTag) = .openTag root :: (inner ++ .closeTag root.name :: after) := by
    rw [List.dropWhile_append_of_pos (by simpa using hbefore)]
    rfl
  rw [takeChildren, hdrop]
  dsimp only
  rw [hinner.takeElements_append, takeElements, List.append_nil]

/-- An empty root has no children. -/
theorem takeChildren_emptyTag {before after : List Token} {root : Tag}
    (hbefore : ∀ token ∈ before, token.isTag = false) :
    takeChildren takes (before ++ .emptyTag root :: after) = [] := by
  have hdrop : (before ++ .emptyTag root :: after).dropWhile (fun token => !token.isTag) =
      .emptyTag root :: after := by
    rw [List.dropWhile_append_of_pos (by simpa using hbefore)]
    rfl
  rw [takeChildren, hdrop]

end Elements

/-! ## Taken items -/

/-- Whether an item is an element that is taken. -/
def Item.isTaken (takes : Tag → Bool) : Item → Bool
  | .element tag _ _ => takes tag
  | .text _ => false

/-- Whether a part is an element that is taken. -/
def Part.isTaken (takes : Tag → Bool) : Part → Bool
  | .whole item => item.isTaken takes
  | .piece _ | .boundary => false

/-- A run holds no element that is taken. -/
theorem filter_isTaken_runItem (takes : Tag → Bool) (run : List Piece) :
    (runItem run).filter (Item.isTaken takes) = [] := by
  rw [runItem]
  split <;> rfl

/-- Between the elements that are taken no text is left. -/
theorem joinRuns_filter (takes : Tag → Bool) (run : List Piece) (parts : List Part) :
    (joinRuns run parts).filter (Item.isTaken takes) =
      joinRuns [] (parts.filter (Part.isTaken takes)) := by
  induction parts generalizing run with
  | nil => exact filter_isTaken_runItem takes run.reverse
  | cons part parts ih =>
    cases part with
    | piece piece => exact ih (piece :: run)
    | boundary =>
      rw [joinRuns, List.filter_append, filter_isTaken_runItem, ih]
      rfl
    | whole item =>
      rw [joinRuns, List.filter_append, filter_isTaken_runItem, List.nil_append,
        List.filter_cons, List.filter_cons, ih, Part.isTaken]
      split <;> rfl

/-- Tokens without tags in front of others add nothing that is taken. -/
theorem exists_content_behind_noTags (takes : Tag → Bool) {layout front : List Token}
    {parts : List Part} (hlayout : ∀ token ∈ layout, token.isTag = false)
    (h : Content front parts) : ∃ others, Content (layout ++ front) others ∧
      others.filter (Part.isTaken takes) = parts.filter (Part.isTaken takes) := by
  obtain ⟨added, hadded, hwhole, -⟩ := exists_content_of_noTags hlayout
  refine ⟨added ++ parts, hadded.append h, ?_⟩
  have hnone : added.filter (Part.isTaken takes) = [] := by
    rw [List.filter_eq_nil_iff]
    intro part hpart
    cases part with
    | whole item => exact absurd hpart (hwhole item)
    | piece | boundary => exact Bool.false_ne_true
  rw [List.filter_append, hnone, List.nil_append]

/-- What is placed for pending text is no tag. -/
theorem isTag_of_mem_placePending {pending : Option (List Char)} {next : Option Token}
    {token : Token} (h : token ∈ placePending pending next) : token.isTag = false := by
  have hnone := filter_placePending pending next
  rw [← noTags_iff] at hnone
  exact hnone token h

/-! ## Kept children -/

/-- What is kept of the content of an element, and what is kept of the elements that are taken from
it: these are the same elements. -/
structure KeptAlike (takes : Tag → Bool) (tokens front taken : List Token) : Prop where
  parts : ∃ parts, Content front parts ∧ Content taken (parts.filter (Part.isTaken takes))
  kept : ∀ inLeaf name rest,
    keepLeafTextFrom inLeaf none (takeElements takes [] tokens ++ .closeTag name :: rest) =
      (keepLeafText rest).map fun others => taken ++ .closeTag name :: others

/-- Of layout nothing is taken. -/
theorem keptAlike_of_noTags (takes : Tag → Bool) {layout : List Token}
    (hlayout : ∀ token ∈ layout, token.isTag = false) : KeptAlike takes [] layout [] := by
  obtain ⟨parts, hparts, hfilter⟩ := exists_content_behind_noTags takes hlayout .nil
  rw [List.append_nil] at hparts
  refine ⟨⟨parts, hparts, hfilter ▸ .nil⟩, fun inLeaf name rest => ?_⟩
  rw [takeElements, List.nil_append, keepLeafTextFrom_markup rfl]
  rfl

/-- Layout in front makes no difference. -/
theorem KeptAlike.behind_other {takes : Tag → Bool} {tokens front taken layout : List Token}
    {token : Token} (h : KeptAlike takes tokens front taken) (htag : token.isTag = false)
    (hlayout : ∀ token ∈ layout, token.isTag = false) :
    KeptAlike takes (token :: tokens) (layout ++ front) taken := by
  obtain ⟨⟨parts, hfront, htaken⟩, hkept⟩ := h
  obtain ⟨others, hothers, hfilter⟩ := exists_content_behind_noTags takes hlayout hfront
  refine ⟨⟨others, hothers, hfilter ▸ htaken⟩, ?_⟩
  rwa [takeElements_of_noTag htag]

/-- An element in front is kept, and with it what is pending in front of it. -/
theorem KeptAlike.behind_element {takes : Tag → Bool}
    {tokens front taken layout root own : List Token} {tag : Tag} {content : List Item}
    (h : KeptAlike takes tokens front taken)
    (hlayout : ∀ token ∈ layout, token.isTag = false)
    (hroot : takeElements takes [] (root ++ tokens) =
      (if takes tag then root else []) ++ takeElements takes [] tokens)
    (hown : Content own [.whole (.element tag content true)])
    (hkeep : ∀ inLeaf rest, keepLeafTextFrom inLeaf none (root ++ rest) =
      (keepLeafText rest).map (own ++ ·)) :
    KeptAlike takes (root ++ tokens) (layout ++ (own ++ front))
      ((if takes tag then own else []) ++ taken) := by
  obtain ⟨⟨parts, hfront, htaken⟩, hkept⟩ := h
  obtain ⟨others, hothers, hfilter⟩ :=
    exists_content_behind_noTags takes hlayout (hown.append hfront)
  refine ⟨⟨others, hothers, ?_⟩, fun inLeaf name rest => ?_⟩
  · rw [hfilter, List.singleton_append, List.filter_cons, Part.isTaken, Item.isTaken]
    cases takes tag with
    | false => exact htaken
    | true => exact hown.append htaken
  · rw [hroot]
    cases takes tag with
    | false => exact hkept inLeaf name rest
    | true =>
      have hafter := hkept false name rest
      rw [← keepLeafText] at hafter
      rw [if_pos rfl, if_pos rfl, List.append_assoc, hkeep, hafter, Option.map_map]
      congr 1
      funext others
      exact (List.append_assoc _ _ _).symm

/-- What is kept of the content of an element does not depend on what comes after the element. -/
theorem exists_kept_content {tokens rest kept : List Token} {inLeaf : Bool}
    {pending : Option (List Char)} {name : List Char}
    (h : keepLeafTextFrom inLeaf pending (tokens ++ .closeTag name :: rest) = some kept) :
    ∃ front, (keepLeafText rest).map (fun others => front ++ .closeTag name :: others) = some kept ∧
      ∀ rest, keepLeafTextFrom inLeaf pending (tokens ++ .closeTag name :: rest) =
        (keepLeafText rest).map fun others => front ++ .closeTag name :: others := by
  have hlast : (Token.closeTag name).isEnd = true := rfl
  obtain ⟨front?, hfront⟩ := keepLeafTextFrom_append_of_isEnd hlast tokens inLeaf pending
  rw [hfront] at h
  obtain ⟨front, rfl, h⟩ := Option.bind_eq_some_iff.mp h
  exact ⟨front, h, hfront⟩

/-- What is kept of a token that is no tag are tokens that are no tags, or it is put off. -/
theorem exists_kept_of_noTag {token : Token} {tokens kept : List Token} {inLeaf : Bool}
    {pending : Option (List Char)} (htag : token.isTag = false)
    (h : keepLeafTextFrom inLeaf pending (token :: tokens) = some kept) :
    ∃ layout inLeaf' pending' keptTail, kept = layout ++ keptTail ∧
      (∀ token ∈ layout, token.isTag = false) ∧
      keepLeafTextFrom inLeaf' pending' tokens = some keptTail := by
  have hlayout : ∀ other ∈ placePending pending (some token) ++ [token], other.isTag = false :=
    List.forall_mem_append.mpr ⟨fun _ => isTag_of_mem_placePending, by simpa using htag⟩
  cases htext : token.isText with
  | false =>
    rw [keepLeafTextFrom_markup htext] at h
    obtain ⟨keptTail, hkeptTail, rfl⟩ := Option.map_eq_some_iff.mp h
    exact ⟨_, _, _, keptTail, by simp, hlayout, hkeptTail⟩
  | true =>
    cases token with
    | openTag | emptyTag | closeTag | cdata | comment | instruction | doctype =>
      simp [Token.isText] at htext
    | text raw =>
      cases inLeaf with
      | false =>
        rw [keepLeafTextFrom_text] at h
        obtain ⟨keptTail, hkeptTail, rfl⟩ := Option.map_eq_some_iff.mp h
        exact ⟨_, _, _, keptTail, by simp, hlayout, hkeptTail⟩
      | true =>
        rw [keepLeafTextFrom_leafText] at h
        obtain ⟨text, -, hkeptTail⟩ := Option.bind_eq_some_iff.mp h
        exact ⟨[], _, _, kept, rfl, by simp, hkeptTail⟩

/-- An element is kept around its content, and by itself. -/
theorem keepLeafTextFrom_element {tag : Tag} {inner own : List Token}
    (h : ∀ rest, keepLeafTextFrom true none (inner ++ .closeTag tag.name :: rest) =
      (keepLeafText rest).map fun others => own ++ .closeTag tag.name :: others)
    (inLeaf : Bool) (rest : List Token) :
    keepLeafTextFrom inLeaf none (.openTag tag :: (inner ++ [.closeTag tag.name]) ++ rest) =
      (keepLeafText rest).map (.openTag tag :: (own ++ [.closeTag tag.name]) ++ ·) := by
  rw [List.cons_append, List.append_assoc, keepLeafTextFrom_markup rfl, leafAfter,
    List.singleton_append, h, Option.map_map]
  congr 1
  funext others
  simp [placePending]

/-- The elements of some content are kept alike, if others are left out. -/
theorem Balanced.exists_keptAlike {tokens : List Token} (h : Balanced tokens) (takes : Tag → Bool)
    {inLeaf : Bool} {pending : Option (List Char)} {name : List Char} {rest kept : List Token}
    (hkept : keepLeafTextFrom inLeaf pending (tokens ++ .closeTag name :: rest) = some kept) :
    ∃ front taken others, kept = front ++ .closeTag name :: others ∧
      keepLeafText rest = some others ∧ KeptAlike takes tokens front taken := by
  induction h generalizing inLeaf pending name rest kept with
  | nil =>
    rw [List.nil_append, keepLeafTextFrom_markup rfl] at hkept
    obtain ⟨others, hothers, rfl⟩ := Option.map_eq_some_iff.mp hkept
    exact ⟨_, [], others, rfl, hothers,
      keptAlike_of_noTags takes fun _ => isTag_of_mem_placePending⟩
  | other htag _ ih =>
    obtain ⟨layout, _, _, keptTail, rfl, hlayout, hkeptTail⟩ := exists_kept_of_noTag htag hkept
    obtain ⟨front, taken, others, rfl, hothers, halike⟩ := ih hkeptTail
    exact ⟨layout ++ front, taken, others, (List.append_assoc ..).symm, hothers,
      halike.behind_other htag hlayout⟩
  | @emptyTag tag tail _ ih =>
    rw [List.cons_append, keepLeafTextFrom_markup rfl] at hkept
    obtain ⟨keptTail, hkeptTail, rfl⟩ := Option.map_eq_some_iff.mp hkept
    obtain ⟨front, taken, others, rfl, hothers, halike⟩ := ih hkeptTail
    have hkeep (inLeaf : Bool) (rest : List Token) :
        keepLeafTextFrom inLeaf none ([.emptyTag tag] ++ rest) =
          (keepLeafText rest).map ([.emptyTag tag] ++ ·) := by
      rw [List.singleton_append, keepLeafTextFrom_markup rfl]
      rfl
    have hroot : takeElements takes [] ([.emptyTag tag] ++ tail) =
        (if takes tag then [.emptyTag tag] else []) ++ takeElements takes [] tail := rfl
    exact ⟨placePending pending (some (.emptyTag tag)) ++ ([.emptyTag tag] ++ front), _, others,
      by simp, hothers,
      halike.behind_element (fun _ => isTag_of_mem_placePending) hroot (.emptyTag .nil) hkeep⟩
  | @element tag inner tail hinner _ ihinner ih =>
    rw [List.cons_append, keepLeafTextFrom_markup rfl, leafAfter, List.append_assoc,
      List.cons_append] at hkept
    obtain ⟨keptTail, hkeptTail, rfl⟩ := Option.map_eq_some_iff.mp hkept
    obtain ⟨inside, hinside, hkeepInside⟩ := exists_kept_content hkeptTail
    obtain ⟨own, _, behind, hsame, hbehind, halikeInner⟩ := ihinner hkeptTail
    rw [hbehind, Option.map_some, Option.some.injEq, hsame] at hinside
    obtain rfl := List.append_cancel_right hinside
    obtain ⟨front, taken, others, rfl, hothers, halike⟩ := ih hbehind
    obtain ⟨parts, hparts, -⟩ := halikeInner.parts
    rw [openTag_append_closeTag, hsame]
    exact ⟨placePending pending (some (.openTag tag)) ++
      (.openTag tag :: (inside ++ [.closeTag tag.name]) ++ front), _, others, by simp, hothers,
      halike.behind_element (fun _ => isTag_of_mem_placePending)
        (takeElements_element_append tag hinner tail) (.element hparts .nil)
        (keepLeafTextFrom_element hkeepInside)⟩

/-- Content that is kept alike is the content of a written element. -/
theorem KeptAlike.assemble_element {takes : Tag → Bool} {tokens front taken : List Token}
    {parts : List Part} (h : KeptAlike takes tokens front taken) (hparts : Content front parts)
    (name : String) :
    (keepLeafText (element name (takeElements takes [] tokens))).map assemble =
      some [.element ⟨name.toList, []⟩ ((joinRuns [] parts).filter (Item.isTaken takes)) true] := by
  obtain ⟨⟨others, hfront, htaken⟩, hkept⟩ := h
  have helement : keepLeafText (element name (takeElements takes [] tokens)) =
      some (element name taken) := by
    rw [element, List.cons_append, keepLeafText, keepLeafTextFrom_markup rfl, hkept]
    rfl
  have hjoin : joinRuns [] parts = joinRuns [] others := by
    rw [← hparts.assemble, ← hfront.assemble]
  rw [helement, Option.map_some, (content_element name htaken).assemble, hjoin, joinRuns_filter]
  rfl

/-- The content of the root of a document: its children are kept alike, if others are left out. -/
theorem exists_rootContent {tokens kept : List Token} {tag : Tag} {content : List Item}
    (hkept : keepLeafText tokens = some kept)
    (hhead : (assemble (dropLeadingMark kept)).head? = some (.element tag content true))
    (takes : Tag → Bool) :
    ∃ inner front taken parts, Balanced inner ∧ inner <:+: tokens ∧
      takeChildren takes tokens = takeElements takes [] inner ∧
      KeptAlike takes inner front taken ∧ Content front parts ∧ content = joinRuns [] parts := by
  obtain ⟨before, _, _, hdropped, hbefore, hkeptRoot⟩ := root_of_head?_assemble hhead
  obtain ⟨marked, root, after, rfl, hmarked, rfl, hroot⟩ :=
    root_of_keepLeafText hkept hdropped hbefore hkeptRoot
  rw [keepLeafText_append_of_noTags hmarked] at hkept
  obtain ⟨own, hown, rfl⟩ := Option.map_eq_some_iff.mp hkept
  cases hroot with
  | emptyTag root =>
    rw [List.singleton_append, keepLeafText, keepLeafTextFrom_markup rfl] at hown
    obtain ⟨others, -, rfl⟩ := Option.map_eq_some_iff.mp hown
    have hsettled : (assemble (dropLeadingMark marked ++ ([.emptyTag root] ++ others))).head? =
        some (.element root [] true) := head?_assemble_of_content hbefore (.emptyTag .nil) others
    rw [placePending, List.nil_append, dropLeadingMark_append_tag rfl] at hhead
    obtain ⟨-, rfl, -⟩ := Item.element.inj (Option.some.inj (hsettled.symm.trans hhead))
    exact ⟨[], [], [], [], .nil, List.nil_infix, takeChildren_emptyTag hmarked,
      keptAlike_of_noTags takes (by simp), .nil, rfl⟩
  | @element root inner hinner =>
    rw [List.cons_append, List.append_assoc, List.singleton_append] at hown ⊢
    rw [keepLeafText, keepLeafTextFrom_markup rfl] at hown
    obtain ⟨keptTail, hkeptTail, rfl⟩ := Option.map_eq_some_iff.mp hown
    obtain ⟨front, taken, others, rfl, -, halike⟩ := hinner.exists_keptAlike takes hkeptTail
    obtain ⟨parts, hparts, -⟩ := halike.parts
    have hsettled : (assemble (dropLeadingMark marked ++
        (.openTag root :: (front ++ [.closeTag root.name]) ++ others))).head? =
          some (.element root (joinRuns [] parts) true) :=
      head?_assemble_of_content hbefore (.element hparts .nil) others
    rw [placePending, List.nil_append, dropLeadingMark_append_tag rfl,
      openTag_append_closeTag] at hhead
    obtain ⟨-, rfl, -⟩ := Item.element.inj (Option.some.inj (hsettled.symm.trans hhead))
    exact ⟨inner, front, taken, parts, hinner,
      ⟨marked ++ [.openTag root], .closeTag root.name :: after, by simp⟩,
      takeChildren_element hmarked hinner, halike, hparts, rfl⟩

/-- A document of some children of the root holds what these children are read as in the whole
document. -/
theorem assemble_takeChildren {tokens kept : List Token} {tag : Tag} {content : List Item}
    (hkept : keepLeafText tokens = some kept)
    (hhead : (assemble (dropLeadingMark kept)).head? = some (.element tag content true))
    (takes : Tag → Bool) (name : String) :
    (keepLeafText (element name (takeChildren takes tokens))).map assemble =
      some [.element ⟨name.toList, []⟩ (content.filter (Item.isTaken takes)) true] := by
  obtain ⟨inner, front, taken, parts, -, -, hchildren, halike, hparts, rfl⟩ :=
    exists_rootContent hkept hhead takes
  rw [hchildren, halike.assemble_element hparts]

/-! ## One child -/

/-- Nothing is taken, or there is a first element that is, and others behind it. -/
inductive FirstTaken (takes : Tag → Bool) (tokens : List Token) : Prop where
  | nothing (h : takeElements takes [] tokens = [])
  | element (before root after : List Token) (split : tokens = before ++ (root ++ after))
    (isElement : IsElement root) (balanced : Balanced after)
    (taken : takeElements takes [] tokens = root ++ takeElements takes [] after)

/-- Tokens of which nothing is taken may stand in front. -/
theorem FirstTaken.behind {takes : Tag → Bool} {tokens : List Token} (h : FirstTaken takes tokens)
    (front : List Token)
    (hfront : takeElements takes [] (front ++ tokens) = takeElements takes [] tokens) :
    FirstTaken takes (front ++ tokens) := by
  cases h with
  | nothing h => exact .nothing (hfront.trans h)
  | element before root after split isElement balanced taken =>
    have hsplit : front ++ tokens = front ++ before ++ (root ++ after) := by
      rw [split, List.append_assoc]
    exact .element (front ++ before) root after hsplit isElement balanced (hfront.trans taken)

/-- In balanced tokens the first element that is taken can be found, if there is one. -/
theorem Balanced.firstTaken {tokens : List Token} (h : Balanced tokens) (takes : Tag → Bool) :
    FirstTaken takes tokens := by
  induction h with
  | nil => exact .nothing rfl
  | @other token tail htag _ ih => exact ih.behind [token] (takeElements_of_noTag htag [] tail)
  | @emptyTag tag tail htail ih =>
    cases htakes : takes tag with
    | false =>
      refine ih.behind [.emptyTag tag] ?_
      rw [List.singleton_append, takeElements, List.headD_nil, htakes]
      rfl
    | true =>
      refine .element [] [.emptyTag tag] tail rfl (.emptyTag tag) htail ?_
      rw [takeElements, List.headD_nil, htakes]
      rfl
  | @element tag inner tail hinner htail _ ih =>
    have helement :
        takeElements takes [] (.openTag tag :: (inner ++ [.closeTag tag.name]) ++ tail) =
        _ := takeElements_element_append tag hinner tail
    rw [openTag_append_closeTag]
    cases htakes : takes tag with
    | false =>
      rw [htakes] at helement
      exact ih.behind _ helement
    | true =>
      rw [htakes] at helement
      exact .element [] _ tail rfl (.element tag hinner) htail helement

/-- Content that is no more than text has no tags. -/
theorem Content.noTags_of_joinRuns {tokens : List Token} {parts : List Part}
    (h : Content tokens parts) {run : List Piece}
    (hitems : ∀ item ∈ joinRuns run parts, item.isText = true) :
    ∀ token ∈ tokens, token.isTag = false := by
  induction h generalizing run with
  | nil => simp
  | element | emptyTag =>
    rw [joinRuns] at hitems
    exact absurd (hitems _ (List.mem_append_right _ List.mem_cons_self)) Bool.false_ne_true
  | text _ ih | cdata _ ih | comment _ ih | instruction _ ih =>
    exact List.forall_mem_cons.mpr ⟨rfl, ih hitems⟩
  | doctype _ ih =>
    rw [joinRuns, List.forall_mem_append] at hitems
    exact List.forall_mem_cons.mpr ⟨rfl, ih hitems.2⟩

/-- What is taken is balanced. -/
theorem Balanced.takeElements {tokens : List Token} (h : Balanced tokens) (takes : Tag → Bool) :
    Balanced (Markup.takeElements takes [] tokens) := by
  induction h with
  | nil => exact .nil
  | other htag _ ih =>
    rw [takeElements_of_noTag htag]
    exact ih
  | @emptyTag tag tail _ ih =>
    rw [Markup.takeElements, List.headD_nil]
    cases takes tag with
    | false => exact ih
    | true => exact .emptyTag ih
  | @element tag inner tail hinner _ _ ih =>
    rw [takeElements_element hinner]
    cases takes tag with
    | false => exact ih
    | true => exact (IsElement.element tag hinner).balanced.append ih

/-- If what is kept holds no more than text, no element is taken. -/
theorem Balanced.takeElements_eq_nil {tokens front : List Token} {takes : Tag → Bool}
    {parts : List Part} {name : List Char} (h : Balanced tokens)
    (hkept : Markup.keepLeafText (Markup.takeElements takes [] tokens ++ [.closeTag name]) =
      some (front ++ [.closeTag name]))
    (hparts : Content front parts) (hitems : ∀ item ∈ joinRuns [] parts, item.isText = true) :
    Markup.takeElements takes [] tokens = [] := by
  have htags := filter_keepLeafTextFrom hkept
  rw [List.filter_append, List.filter_append] at htags
  have hnone := noTags_iff.mp (hparts.noTags_of_joinRuns hitems)
  rw [List.append_cancel_right htags] at hnone
  rcases h.firstTaken takes with hnil | ⟨_, root, _, -, hroot, -, htaken⟩
  · exact hnil
  · obtain ⟨first, rest, rfl, hfirst⟩ := hroot.exists_first
    rw [htaken, List.cons_append, List.filter_cons_of_pos hfirst] at hnone
    cases hnone

/-- The first child that is taken is read by itself. If no other is read, there is no other. -/
theorem takeChildren_cases {tokens kept : List Token} {tag : Tag} {content : List Item}
    (hkept : keepLeafText tokens = some kept)
    (hhead : (assemble (dropLeadingMark kept)).head? = some (.element tag content true))
    (takes : Tag → Bool) :
    (takeChildren takes tokens = [] ∧ content.filter (Item.isTaken takes) = []) ∨
    ∃ root item others, root <:+: tokens ∧ IsElement root ∧
      (keepLeafText root).map assemble = some [item] ∧
      content.filter (Item.isTaken takes) = item :: others ∧
      (others = [] → takeChildren takes tokens = root) := by
  obtain ⟨inner, front, taken, parts, hinner, hpart, hchildren, halike, hparts, rfl⟩ :=
    exists_rootContent hkept hhead takes
  obtain ⟨others, hfront, htaken⟩ := halike.parts
  have hkeptTaken : keepLeafText (takeElements takes [] inner ++ [.closeTag []]) =
      some (taken ++ [.closeTag []]) := halike.kept false [] []
  have hitems : (joinRuns [] parts).filter (Item.isTaken takes) = assemble taken := by
    rw [← hparts.assemble, hfront.assemble, joinRuns_filter, htaken.assemble]
  rw [hchildren, hitems]
  rcases hinner.firstTaken takes with hnil | ⟨before, root, after, rfl, hroot, hafter, heq⟩
  · rw [hnil] at hkeptTaken ⊢
    have hempty : [.closeTag []] = taken ++ [.closeTag []] := Option.some.inj hkeptTaken
    obtain rfl : [] = taken := List.append_cancel_right hempty
    exact .inl ⟨rfl, rfl⟩
  · obtain ⟨own?, hkeepRoot, helement⟩ := hroot.keepLeafText
    rw [heq, List.append_assoc, hkeepRoot] at hkeptTaken
    obtain ⟨own, rfl, hkeptAfter⟩ := Option.bind_eq_some_iff.mp hkeptTaken
    obtain ⟨kept, hkeptRest, hsplit⟩ := Option.map_eq_some_iff.mp hkeptAfter
    obtain ⟨behind, _, _, rfl, hnone, hbehind⟩ :=
      (hafter.takeElements takes).exists_keptAlike takes hkeptRest
    obtain rfl : [] = _ := Option.some.inj hnone
    rw [← List.append_assoc] at hsplit
    obtain rfl := List.append_cancel_right hsplit
    obtain ⟨tag, content, hown, -⟩ := (helement own rfl).exists_part
    obtain ⟨parts, hbehindParts, -⟩ := hbehind.parts
    refine .inr ⟨root, .element tag content true, joinRuns [] parts, ?_, hroot, ?_, ?_,
      fun hnil => ?_⟩
    · exact .trans ⟨before, after, by simp⟩ hpart
    · have hwhole := hkeepRoot []
      rw [List.append_nil] at hwhole
      rw [hwhole]
      simp [keepLeafText, keepLeafTextFrom, placePending, hown.assemble, joinRuns, runItem,
        trimRunStart]
    · rw [(hown.append hbehindParts).assemble]
      rfl
    · have htexts : ∀ item ∈ joinRuns [] parts, item.isText = true := by simp [hnil]
      rw [heq, hafter.takeElements_eq_nil hkeptRest hbehindParts htexts, List.append_nil]

end CallbackGateway.Markup
