import CallbackGateway.Markup.Leaf
import CallbackGateway.Proofs.Markup.Lexes
import CallbackGateway.Proofs.Markup.Root

/-!
# Kept leaf text

Keeping leaf text verbatim exchanges text for sections, and touches nothing else: the tags stay
where they are, so do all tokens in front of the first tag, and what follows the end of an
element does not depend on that element.
-/

namespace CallbackGateway.Markup

/-- Whether a token begins an element. -/
def Token.isStart : Token → Bool
  | .openTag _ | .emptyTag _ => true
  | _ => false

/-- What starts an element is a tag. -/
theorem Token.isTag_of_isStart {token : Token} (h : token.isStart = true) : token.isTag = true := by
  cases token with
  | openTag | emptyTag => rfl
  | closeTag | text | cdata | comment | instruction | doctype => simp [Token.isStart] at h

/-- Whether a token ends an element. -/
def Token.isEnd : Token → Bool
  | .emptyTag _ | .closeTag _ => true
  | _ => false

/-- There are no tags just if none is left after filtering. -/
theorem noTags_iff {tokens : List Token} :
    (∀ token ∈ tokens, token.isTag = false) ↔ tokens.filter Token.isTag = [] := by
  rw [List.filter_eq_nil_iff]
  simp only [Bool.not_eq_true]

/-- What is placed for pending text holds no tags. -/
theorem filter_placePending (pending : Option (List Char)) (next : Option Token) :
    (placePending pending next).filter Token.isTag = [] := by
  rw [List.filter_eq_nil_iff]
  intro token htoken
  cases pending with
  | none => simp [placePending] at htoken
  | some text =>
    rw [placePending] at htoken
    split at htoken
    · obtain ⟨chunk, -, rfl⟩ := List.mem_map.mp htoken
      exact Bool.false_ne_true
    · obtain rfl := List.mem_singleton.mp htoken
      exact Bool.false_ne_true

/-- Text outside the leaves stays as it is. -/
theorem keepLeafTextFrom_text (pending : Option (List Char)) (raw : List Char)
    (rest : List Token) : keepLeafTextFrom false pending (.text raw :: rest) =
      (keepLeafTextFrom false none rest).map fun others =>
        placePending pending (some (.text raw)) ++ .text raw :: others := by
  rw [keepLeafTextFrom, if_neg Bool.false_ne_true]

/-- Text in a leaf is added to what is pending. -/
theorem keepLeafTextFrom_leafText (pending : Option (List Char)) (raw : List Char)
    (rest : List Token) : keepLeafTextFrom true pending (.text raw :: rest) =
      (unescape raw).bind fun text =>
        keepLeafTextFrom true (some (pending.getD [] ++ text)) rest := by
  rw [keepLeafTextFrom, if_pos rfl]

/-- Before a token that is no text, what is pending is placed. -/
theorem keepLeafTextFrom_markup {token : Token} (htext : token.isText = false) (inLeaf : Bool)
    (pending : Option (List Char)) (rest : List Token) :
    keepLeafTextFrom inLeaf pending (token :: rest) =
      (keepLeafTextFrom (leafAfter inLeaf token) none rest).map fun others =>
        placePending pending (some token) ++ token :: others := by
  cases token with
  | text => simp [Token.isText] at htext
  | openTag | emptyTag | closeTag | cdata | comment | instruction | doctype => rfl

/-- A token that is no tag opens and closes nothing. -/
theorem leafAfter_of_noTag {token : Token} (htag : token.isTag = false) (inLeaf : Bool) :
    leafAfter inLeaf token = inLeaf := by
  cases token with
  | openTag | emptyTag | closeTag => simp [Token.isTag] at htag
  | text | cdata | comment | instruction | doctype => rfl

/-- The tags are kept. -/
theorem filter_keepLeafTextFrom {inLeaf : Bool} {pending : Option (List Char)}
    {tokens kept : List Token} (h : keepLeafTextFrom inLeaf pending tokens = some kept) :
    kept.filter Token.isTag = tokens.filter Token.isTag := by
  induction tokens generalizing inLeaf pending kept with
  | nil =>
    obtain rfl := Option.some.inj h
    exact filter_placePending pending none
  | cons token rest ih =>
    have placed {inLeaf' : Bool} (h : (keepLeafTextFrom inLeaf' none rest).map (fun others =>
        placePending pending (some token) ++ token :: others) = some kept) :
        kept.filter Token.isTag = (token :: rest).filter Token.isTag := by
      obtain ⟨others, hothers, rfl⟩ := Option.map_eq_some_iff.mp h
      rw [List.filter_append, filter_placePending, List.nil_append, List.filter_cons,
        List.filter_cons, ih hothers]
    cases htext : token.isText with
    | false =>
      rw [keepLeafTextFrom_markup htext] at h
      exact placed h
    | true =>
      cases token with
      | openTag | emptyTag | closeTag | cdata | comment | instruction | doctype =>
        simp [Token.isText] at htext
      | text raw =>
        cases inLeaf with
        | false =>
          rw [keepLeafTextFrom_text] at h
          exact placed h
        | true =>
          rw [keepLeafTextFrom_leafText] at h
          obtain ⟨text, -, h⟩ := Option.bind_eq_some_iff.mp h
          rw [List.filter_cons_of_neg (by simp [Token.isTag])]
          exact ih h

/-- What stands in front of the first tag is kept as it is. -/
theorem keepLeafText_append_of_noTags {before : List Token}
    (h : ∀ token ∈ before, token.isTag = false) (rest : List Token) :
    keepLeafText (before ++ rest) = (keepLeafText rest).map (before ++ ·) := by
  unfold keepLeafText
  induction before with
  | nil => exact Option.map_id'.symm
  | cons token before ih =>
    obtain ⟨htag, hbefore⟩ := List.forall_mem_cons.mp h
    rw [List.cons_append]
    cases token with
    | openTag | emptyTag | closeTag => simp [Token.isTag] at htag
    | text raw =>
      rw [keepLeafTextFrom_text, ih hbefore, Option.map_map]
      rfl
    | cdata | comment | instruction | doctype =>
      rw [keepLeafTextFrom_markup rfl, leafAfter_of_noTag htag, ih hbefore, Option.map_map]
      rfl

/-- A tag separates what stands before it from what follows. -/
theorem keepLeafTextFrom_append_of_isTag {last : Token} (hlast : last.isTag = true)
    (tokens : List Token) (inLeaf : Bool) (pending : Option (List Char)) :
    ∃ kept : Option (List Token), ∀ rest,
      keepLeafTextFrom inLeaf pending (tokens ++ last :: rest) =
        kept.bind fun front => (keepLeafTextFrom (leafAfter false last) none rest).map
          fun others => front ++ last :: others := by
  induction tokens generalizing inLeaf pending with
  | nil =>
    refine ⟨some (placePending pending (some last)), fun rest => ?_⟩
    cases last with
    | openTag | emptyTag | closeTag => rfl
    | text | cdata | comment | instruction | doctype => simp [Token.isTag] at hlast
  | cons token tokens ih =>
    have placed (inLeaf' : Bool) : ∃ kept : Option (List Token), ∀ rest,
        ((keepLeafTextFrom inLeaf' none (tokens ++ last :: rest)).map fun others =>
          placePending pending (some token) ++ token :: others) =
          kept.bind fun front => (keepLeafTextFrom (leafAfter false last) none rest).map
            fun others => front ++ last :: others := by
      obtain ⟨kept, hkept⟩ := ih inLeaf' none
      refine ⟨kept.map fun front => placePending pending (some token) ++ token :: front,
        fun rest => ?_⟩
      rw [hkept]
      cases kept <;> cases keepLeafTextFrom (leafAfter false last) none rest <;> simp
    cases htext : token.isText with
    | false =>
      simp only [List.cons_append, keepLeafTextFrom_markup htext]
      exact placed _
    | true =>
      cases token with
      | openTag | emptyTag | closeTag | cdata | comment | instruction | doctype =>
        simp [Token.isText] at htext
      | text raw =>
        cases inLeaf with
        | false =>
          simp only [List.cons_append, keepLeafTextFrom_text]
          exact placed false
        | true =>
          simp only [List.cons_append, keepLeafTextFrom_leafText]
          cases unescape raw with
          | none => exact ⟨none, fun rest => rfl⟩
          | some text => exact ih true (some (pending.getD [] ++ text))

/-- Behind the end of an element no leaf is open. -/
theorem leafAfter_of_isEnd {token : Token} (h : token.isEnd = true) (inLeaf : Bool) :
    leafAfter inLeaf token = false := by
  cases token with
  | emptyTag | closeTag => rfl
  | openTag | text | cdata | comment | instruction | doctype => simp [Token.isEnd] at h

/-- What ends an element is a tag. -/
theorem Token.isTag_of_isEnd {token : Token} (h : token.isEnd = true) : token.isTag = true := by
  cases token with
  | openTag | emptyTag | closeTag => rfl
  | text | cdata | comment | instruction | doctype => simp [Token.isEnd] at h

/-- The end of an element separates what stands before it from what follows. -/
theorem keepLeafTextFrom_append_of_isEnd {last : Token} (hlast : last.isEnd = true)
    (tokens : List Token) (inLeaf : Bool) (pending : Option (List Char)) :
    ∃ kept : Option (List Token), ∀ rest,
      keepLeafTextFrom inLeaf pending (tokens ++ last :: rest) =
        kept.bind fun front => (keepLeafText rest).map fun others => front ++ last :: others := by
  have hkept := keepLeafTextFrom_append_of_isTag (Token.isTag_of_isEnd hlast) tokens inLeaf pending
  rwa [leafAfter_of_isEnd hlast] at hkept

/-! ## The root -/

/-- An element starts with a tag. -/
theorem IsElement.exists_first {root : List Token} (h : IsElement root) :
    ∃ first rest, root = first :: rest ∧ first.isTag = true := by
  cases h with
  | emptyTag tag => exact ⟨_, [], rfl, rfl⟩
  | element tag => exact ⟨_, _, rfl, rfl⟩

/-- An element is balanced. -/
theorem IsElement.balanced {root : List Token} (h : IsElement root) : Balanced root := by
  cases h with
  | emptyTag tag => exact .emptyTag .nil
  | element tag hinner => exact .element hinner .nil

/-- A kept element is an element, and what follows it is kept by itself. -/
theorem IsElement.keepLeafText {root : List Token} (h : IsElement root) :
    ∃ kept : Option (List Token), (∀ rest, keepLeafText (root ++ rest) =
      kept.bind fun front => (Markup.keepLeafText rest).map fun others => front ++ others) ∧
      ∀ front, kept = some front → IsElement front := by
  cases h with
  | emptyTag tag =>
    refine ⟨some [.emptyTag tag], fun rest => rfl, fun front hfront => ?_⟩
    obtain rfl := Option.some.inj hfront
    exact .emptyTag tag
  | @element tag inner hinner =>
    have hlast : (Token.closeTag tag.name).isEnd = true := rfl
    obtain ⟨kept, hkept⟩ := keepLeafTextFrom_append_of_isEnd hlast inner true none
    refine ⟨kept.map fun front => .openTag tag :: (front ++ [.closeTag tag.name]), fun rest => ?_,
      fun root hroot => ?_⟩
    · rw [List.cons_append, List.append_assoc, List.singleton_append, Markup.keepLeafText,
        keepLeafTextFrom_markup rfl, leafAfter, hkept]
      cases kept <;> cases Markup.keepLeafText rest <;> simp [placePending]
    · obtain ⟨front, rfl, rfl⟩ := Option.map_eq_some_iff.mp hroot
      have htags := filter_keepLeafTextFrom (hkept [])
      rw [List.filter_append, List.filter_append] at htags
      have hfront : Balanced (front.filter Token.isTag) := by
        rw [List.append_cancel_right htags]
        exact hinner.filter_tags
      exact .element tag (.of_filter_tags hfront)

/-- What follows layout and an element is kept by itself. -/
theorem keepLeafText_rooted {before root : List Token}
    (hbefore : ∀ token ∈ before, token.isMisc = true) (hroot : IsElement root) :
    ∃ kept : Option (List Token), (∀ rest, keepLeafText (before ++ (root ++ rest)) =
      kept.bind fun front => (keepLeafText rest).map fun others => before ++ (front ++ others)) ∧
      ∀ front, kept = some front → IsElement front := by
  obtain ⟨kept, hkept, helement⟩ := hroot.keepLeafText
  refine ⟨kept, fun rest => ?_, helement⟩
  rw [keepLeafText_append_of_noTags fun token ht => Token.isTag_of_isMisc (hbefore token ht),
    hkept]
  cases kept <;> cases keepLeafText rest <;> rfl

/-- An element is found among other tokens by its tags. -/
theorem IsElement.of_filter_eq {root after tokens : List Token} {first : Token}
    (h : IsElement root) (hfirst : first.isTag = true)
    (htags : (root ++ after).filter Token.isTag = (first :: tokens).filter Token.isTag) :
    ∃ root after, first :: tokens = root ++ after ∧ IsElement root := by
  rw [List.filter_cons_of_pos hfirst] at htags
  cases h with
  | emptyTag tag =>
    rw [List.singleton_append, List.filter_cons_of_pos rfl, List.cons.injEq] at htags
    exact ⟨[first], tokens, rfl, htags.1 ▸ .emptyTag tag⟩
  | @element tag inner hinner =>
    rw [List.cons_append, List.filter_cons_of_pos rfl, List.cons.injEq, List.append_assoc,
      List.filter_append, List.singleton_append, List.filter_cons_of_pos rfl] at htags
    obtain ⟨rfl, htags⟩ := htags
    obtain ⟨inside, outside, rfl, hinside, houtside⟩ := List.filter_eq_append_iff.mp htags.symm
    obtain ⟨layout, tail, rfl, hlayout, -, -⟩ := List.filter_eq_cons_iff.mp houtside
    have hbalanced : Balanced (inside ++ layout) := by
      refine .append (.of_filter_tags ?_) (.of_noTags (by simpa using hlayout))
      rw [hinside]
      exact hinner.filter_tags
    exact ⟨.openTag tag :: (inside ++ layout ++ [.closeTag tag.name]), tail, by simp,
      .element tag hbalanced⟩

/-- Tokens are cut in front of their first tag in one way only. -/
theorem eq_of_append_tag {before others rest tail : List Token} {first second : Token}
    (hbefore : ∀ token ∈ before, token.isTag = false)
    (hothers : ∀ token ∈ others, token.isTag = false) (hfirst : first.isTag = true)
    (hsecond : second.isTag = true) (h : before ++ first :: rest = others ++ second :: tail) :
    before = others ∧ first :: rest = second :: tail := by
  induction before generalizing others with
  | nil =>
    cases others with
    | nil => exact ⟨rfl, h⟩
    | cons token others =>
      obtain ⟨rfl, -⟩ := List.cons.inj h
      simp [hothers first List.mem_cons_self] at hfirst
  | cons token before ih =>
    cases others with
    | nil =>
      obtain ⟨rfl, -⟩ := List.cons.inj h
      simp [hbefore token List.mem_cons_self] at hsecond
    | cons other others =>
      obtain ⟨rfl, htail⟩ := List.cons.inj h
      obtain ⟨rfl, hrest⟩ := ih (List.forall_mem_cons.mp hbefore).2
        (List.forall_mem_cons.mp hothers).2 htail
      exact ⟨rfl, hrest⟩

/-- A mark is dropped from what is in front of a tag. -/
theorem dropLeadingMark_append_tag {before rest : List Token} {first : Token}
    (hfirst : first.isTag = true) :
    dropLeadingMark (before ++ first :: rest) = dropLeadingMark before ++ first :: rest := by
  cases before with
  | nil =>
    cases first with
    | openTag | emptyTag | closeTag => rfl
    | text | cdata | comment | instruction | doctype => simp [Token.isTag] at hfirst
  | cons token before =>
    cases token with
    | openTag | emptyTag | closeTag | cdata | comment | instruction | doctype => rfl
    | text raw =>
      rw [List.cons_append, dropLeadingMark, dropLeadingMark]
      split <;> rfl

/-- Dropping a mark keeps the tags. -/
theorem filter_dropLeadingMark (tokens : List Token) :
    (dropLeadingMark tokens).filter Token.isTag = tokens.filter Token.isTag := by
  cases tokens with
  | nil => rfl
  | cons token rest =>
    cases token with
    | openTag | emptyTag | closeTag | cdata | comment | instruction | doctype => rfl
    | text raw =>
      rw [dropLeadingMark]
      split <;> rfl

/-- If kept tokens begin with layout and an element, so do the tokens themselves, but a mark may
stand in front of the layout. -/
theorem root_of_keepLeafText {tokens kept before root after : List Token}
    (h : keepLeafText tokens = some kept)
    (hkept : dropLeadingMark kept = before ++ (root ++ after))
    (hbefore : ∀ token ∈ before, token.isMisc = true) (hroot : IsElement root) :
    ∃ marked root after, tokens = marked ++ (root ++ after) ∧
      (∀ token ∈ marked, token.isTag = false) ∧ dropLeadingMark marked = before ∧
      IsElement root := by
  have htags := filter_keepLeafTextFrom h
  rw [← filter_dropLeadingMark, hkept] at htags
  obtain ⟨first, others, hfirst, hopens⟩ := hroot.exists_first
  have hlayout : ∀ token ∈ before, token.isTag = false := fun token htoken =>
    Token.isTag_of_isMisc (hbefore token htoken)
  rcases exists_first_tag tokens with hnone | ⟨marked, tag, rest, rfl, htag, hmarked⟩
  · have hmem : first ∈ tokens.filter Token.isTag := by
      rw [← htags, hfirst]
      simp [hopens]
    rw [List.mem_filter] at hmem
    simp [hnone first hmem.1] at hopens
  · rw [keepLeafText_append_of_noTags hmarked] at h
    obtain ⟨own, hown, rfl⟩ := Option.map_eq_some_iff.mp h
    have hdropped : ∀ token ∈ dropLeadingMark marked, token.isTag = false := by
      rw [noTags_iff, filter_dropLeadingMark, ← noTags_iff]
      exact hmarked
    have htext : tag.isText = false := by
      cases tag with
      | text => simp [Token.isTag] at htag
      | openTag | emptyTag | closeTag | cdata | comment | instruction | doctype => rfl
    -- What is kept of the rest begins with the same tag.
    rw [keepLeafText, keepLeafTextFrom_markup htext] at hown
    obtain ⟨owned, -, rfl⟩ := Option.map_eq_some_iff.mp hown
    rw [placePending, List.nil_append, dropLeadingMark_append_tag htag, hfirst,
      List.cons_append] at hkept
    obtain ⟨hsame, -⟩ := eq_of_append_tag hdropped hlayout htag hopens hkept
    rw [List.filter_append, noTags_iff.mp hlayout, List.filter_append _ (tag :: rest),
      noTags_iff.mp hmarked, List.nil_append, List.nil_append] at htags
    obtain ⟨element, tail, hsplit, helement⟩ := hroot.of_filter_eq htag htags
    exact ⟨marked, element, tail, by rw [hsplit], hmarked, hsame, helement⟩

end CallbackGateway.Markup
