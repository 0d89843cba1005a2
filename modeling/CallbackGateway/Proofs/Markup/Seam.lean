import CallbackGateway.Proofs.Markup.Insertion

/-!
# Where documents are cut

A document is cut between two tokens or within a text. What is read of the two parts is what is
read of the whole, but for the text that is cut. An element that is put at the cut is read as it
is, keeps the leaf text around the cut apart, and changes no token but the text that is cut.
-/

namespace CallbackGateway.Markup

/-! ## Cut texts -/

/-- Tokens put together: a text at the end joins a text at the start. -/
inductive Joined : List Token → List Token → List Token → Prop
  | apart (first second : List Token) : Joined first second (first ++ second)
  | text (before after : List Token) (left right : List Char) :
      Joined (before ++ [.text left]) (.text right :: after)
        (before ++ .text (left ++ right) :: after)

/-- A text that is cut goes on behind the cut, up to the next bracket. -/
theorem Lexes.exists_cut {before : List Token} {left front : List Char}
    (h : Lexes (before ++ [.text left]) front []) (back : List Char) :
    ∃ right rest, back = right ++ rest ∧ '<' ∉ right ∧ (∀ c ∈ rest.head?, c = '<') ∧
      Lexes (before ++ [.text (left ++ right)]) (front ++ back) rest ∧
      (right ≠ [] → Lexes [.text right] back rest) := by
  obtain ⟨middle, hbefore, hlast⟩ := h.of_append
  obtain ⟨rfl, hne, hopen⟩ := of_lexeme_text hlast.lexeme_of_single
  have hsplit : back.takeWhile (· != '<') ++ back.dropWhile (· != '<') = back :=
    List.takeWhile_append_dropWhile
  have hright := notMem_takeWhile '<' back
  have hrest := head?_dropWhile '<' back
  generalize back.takeWhile (· != '<') = right at hsplit hright
  generalize back.dropWhile (· != '<') = rest at hsplit hrest
  subst hsplit
  refine ⟨right, rest, rfl, hright, hrest, (hbefore.extend hne _).append ?_, fun hright' => ?_⟩
  · rw [← List.append_assoc]
    refine .cons (.text (List.append_ne_nil_of_left_ne_nil hne right) ?_) (fun _ => hrest)
      (.nil rest)
    rw [List.mem_append, not_or]
    exact ⟨hopen, hright⟩
  · exact .cons (.text hright' hright) (fun _ => hrest) (.nil rest)

/-- What is read of a document is what is read of its parts, put together. -/
theorem joined_scan {first : List Token} {front : List Char} (h : Lexes first front [])
    (back : List Char) : Joined first (scan back).tokens (scan (front ++ back)).tokens ∧
      (scan (front ++ back)).complete = (scan back).complete := by
  have apart (h : Lexes first (front ++ back) back) :
      Joined first (scan back).tokens (scan (front ++ back)).tokens ∧
        (scan (front ++ back)).complete = (scan back).complete := by
    obtain ⟨htokens, hcomplete⟩ := h.scan
    rw [htokens]
    exact ⟨.apart _ _, hcomplete⟩
  rcases List.eq_nil_or_concat first with rfl | ⟨before, last, rfl⟩
  · cases h
    exact apart (.nil back)
  rw [List.concat_eq_append] at h apart ⊢
  cases htext : last.isText with
  | false => exact apart (h.concat htext back)
  | true =>
    cases last with
    | openTag | emptyTag | closeTag | cdata | comment | instruction | doctype =>
      simp [Token.isText] at htext
    | text left =>
      obtain ⟨right, rest, rfl, -, -, hwhole, hback⟩ := h.exists_cut back
      by_cases hright : right = []
      · subst hright
        rw [List.append_nil] at hwhole
        exact apart hwhole
      · obtain ⟨htokens, hcomplete⟩ := hwhole.scan
        obtain ⟨hbackTokens, hbackComplete⟩ := (hback hright).scan
        rw [htokens, hcomplete, hbackTokens, hbackComplete, List.append_assoc]
        exact ⟨.text _ _ _ _, rfl⟩

/-- Tokens that are put together keep their tags. -/
theorem Joined.filter_tags {first second whole : List Token} (h : Joined first second whole) :
    whole.filter Token.isTag = (first ++ second).filter Token.isTag := by
  cases h with
  | apart => rfl
  | text before after left right => simp [List.filter_append, Token.isTag]

/-- Whether a cut at the end of tokens leaves the references in a text whole. -/
def CutsNoReference (tokens : List Token) : Prop :=
  ∀ raw, tokens.getLast? = some (.text raw) → isEscaped raw = true

/-- What stands between two tags is put together between them. -/
theorem Joined.exists_between {front first second back whole : List Token} {left right : Token}
    (h : Joined (front ++ left :: first) (second ++ right :: back) whole)
    (hleft : left.isTag = true) (hright : right.isTag = true) :
    ∃ gap, whole = front ++ left :: (gap ++ right :: back) ∧ Joined first second gap := by
  generalize hbefore : front ++ left :: first = before at h
  generalize hafter : second ++ right :: back = after at h
  cases h with
  | apart =>
    subst hbefore hafter
    exact ⟨first ++ second, by simp, .apart first second⟩
  | text before after a b =>
    rcases List.eq_nil_or_concat first with rfl | ⟨inner, last, rfl⟩
    · obtain ⟨-, hsame⟩ := List.append_inj' hbefore rfl
      obtain rfl := List.singleton_inj.mp hsame
      cases hleft
    cases second with
    | nil =>
      obtain ⟨rfl, -⟩ := List.cons.inj hafter
      cases hright
    | cons next second =>
      rw [List.concat_eq_append] at hbefore ⊢
      rw [← List.cons_append, ← List.append_assoc] at hbefore
      obtain ⟨rfl, hlast⟩ := List.append_inj' hbefore rfl
      obtain rfl := List.singleton_inj.mp hlast
      obtain ⟨rfl, rfl⟩ := List.cons.inj hafter
      exact ⟨inner ++ .text (a ++ b) :: second, by simp, .text inner second a b⟩

section Gap

variable {first second gap : List Token} (h : Joined first second gap)

include h

/-- Tokens without tags have none when they are put together. -/
theorem Joined.noTags (hfirst : ∀ token ∈ first, token.isTag = false)
    (hsecond : ∀ token ∈ second, token.isTag = false) : ∀ token ∈ gap, token.isTag = false := by
  cases h with
  | apart => exact List.forall_mem_append.mpr ⟨hfirst, hsecond⟩
  | text before after a b =>
    exact List.forall_mem_append.mpr ⟨(List.forall_mem_append.mp hfirst).1,
      List.forall_mem_cons.mpr ⟨rfl, (List.forall_mem_cons.mp hsecond).2⟩⟩

/-- If no reference is cut, both parts of a text that has a value have one. -/
theorem Joined.all_hasValue (hcut : CutsNoReference first) (hgap : gap.all Token.hasValue = true) :
    first.all Token.hasValue = true ∧ second.all Token.hasValue = true := by
  cases h with
  | apart =>
    rw [List.all_append, Bool.and_eq_true] at hgap
    exact hgap
  | text before after a b =>
    have ha : isEscaped a = true := hcut a List.getLast?_concat
    have hb : Token.hasValue (.text (a ++ b)) = Token.hasValue (.text b) := isEscaped_append ha b
    have hvalue : Token.hasValue (.text a) = true := ha
    rw [List.all_append, List.all_cons, hb, Bool.and_eq_true] at hgap
    rw [List.all_append, List.all_cons, hvalue]
    exact ⟨by rw [hgap.1]; rfl, hgap.2⟩

/-- Tokens that make up layout are layout. -/
theorem Joined.isMisc_first (hgap : ∀ token ∈ gap, token.isMisc = true) :
    ∀ token ∈ first, token.isMisc = true := by
  cases h with
  | apart => exact (List.forall_mem_append.mp hgap).1
  | text before after a b =>
    obtain ⟨hbefore, hrest⟩ := List.forall_mem_append.mp hgap
    have htext := (List.forall_mem_cons.mp hrest).1
    rw [Token.isMisc, List.all_append, Bool.and_eq_true] at htext
    exact List.forall_mem_append.mpr ⟨hbefore, List.forall_mem_singleton.mpr htext.1⟩

end Gap

/-! ## Leaf text around a cut -/

/-- What is kept of the tokens between two tags. -/
theorem exists_keptGap {tag : Token} (htag : tag.isTag = true) (inLeaf : Bool)
    (gap : List Token) : ∃ kept : Option (List Token),
      (∀ rest, keepLeafTextFrom inLeaf none (gap ++ tag :: rest) =
        kept.bind fun front => (keepLeafTextFrom (leafAfter false tag) none rest).map
          fun others => front ++ tag :: others) ∧
      (∀ front, kept = some front → front.filter Token.isTag = gap.filter Token.isTag ∧
        front.all Token.hasValue = gap.all Token.hasValue) ∧
      (gap.all Token.hasValue = true → kept.isSome = true) ∧
      (inLeaf = false → (∀ token ∈ gap, token.isTag = false) → kept = some gap) := by
  obtain ⟨kept, hkept⟩ := keepLeafTextFrom_append_of_isTag htag gap inLeaf none
  have hvalue : tag.hasValue = true := by
    cases tag with
    | text => simp [Token.isTag] at htag
    | openTag | emptyTag | closeTag | cdata | comment | instruction | doctype => rfl
  have hown : keepLeafTextFrom inLeaf none (gap ++ [tag]) = kept.map (· ++ [tag]) := by
    rw [hkept, Option.map_eq_bind]
    rfl
  refine ⟨kept, hkept, ?_, fun hgap => ?_, ?_⟩
  · rintro front rfl
    have htags := filter_keepLeafTextFrom hown
    have hvalues := all_hasValue_keepLeafTextFrom hown
    rw [List.filter_append, List.filter_append] at htags
    rw [List.all_append, List.all_append, List.all_cons, hvalue, List.all_nil, Bool.and_self,
      Bool.and_true, Bool.and_true] at hvalues
    exact ⟨List.append_cancel_right htags, hvalues⟩
  · have hall : (gap ++ [tag]).all Token.hasValue = true := by
      rw [List.all_append, hgap, List.all_cons, hvalue]
      rfl
    obtain ⟨front, hfront⟩ := exists_keepLeafTextFrom hall inLeaf none
    rw [hown] at hfront
    rw [← Option.isSome_map, hfront]
    rfl
  · rintro rfl hgap
    have hsingle : keepLeafText [tag] = some [tag] := by
      cases tag with
      | text => simp [Token.isTag] at htag
      | openTag | emptyTag | closeTag | cdata | comment | instruction | doctype => rfl
    have hsame := keepLeafText_append_of_noTags hgap [tag]
    rw [keepLeafText, hown, hsingle, Option.map_some] at hsame
    obtain ⟨front, hfront, happend⟩ := Option.map_eq_some_iff.mp hsame
    rw [hfront, List.append_cancel_right happend]

/-- A tag is no text. -/
theorem Token.isText_of_isTag {token : Token} (h : token.isTag = true) : token.isText = false := by
  cases token with
  | text => simp [Token.isTag] at h
  | openTag | emptyTag | closeTag | cdata | comment | instruction | doctype => rfl

/-- What is kept of an element between other tokens is an element of the same name. -/
theorem IsElement.exists_kept {added : List Token} (h : IsElement added)
    (hvalue : added.all Token.hasValue = true) (inLeaf : Bool) {gap : List Token}
    (htags : ∀ token ∈ gap, token.isTag = false)
    (hgap : inLeaf = true → gap.all Token.hasValue = true) :
    ∃ front own, (∀ rest, keepLeafTextFrom inLeaf none (gap ++ (added ++ rest)) =
        (Markup.keepLeafText rest).map fun others => front ++ (own ++ others)) ∧
      (∀ token ∈ front, token.isTag = false) ∧
      front.all Token.hasValue = gap.all Token.hasValue ∧ (inLeaf = false → front = gap) ∧
      IsElement own ∧ startName own = startName added ∧ own.all Token.hasValue = true := by
  obtain ⟨first, others, hadded, hfirst⟩ := h.exists_first
  obtain ⟨kept, hkept, hfront, hsome, hsame⟩ := exists_keptGap hfirst inLeaf gap
  have hexists : ∃ front, kept = some front := by
    cases inLeaf with
    | false => exact ⟨gap, hsame rfl htags⟩
    | true => exact Option.isSome_iff_exists.mp (hsome (hgap rfl))
  obtain ⟨front, rfl⟩ := hexists
  obtain ⟨htagsFront, hvalueFront⟩ := hfront front rfl
  have hnone : ∀ token ∈ front, token.isTag = false := by
    rw [noTags_iff, htagsFront, ← noTags_iff]
    exact htags
  have hequal : inLeaf = false → front = gap := fun hleaf =>
    Option.some.inj (hsame hleaf htags)
  cases h with
  | emptyTag tag =>
    obtain ⟨rfl, rfl⟩ := List.cons.inj hadded
    refine ⟨front, [.emptyTag tag], fun rest => ?_, hnone, hvalueFront, hequal, .emptyTag tag, rfl,
      rfl⟩
    rw [List.singleton_append, hkept]
    rfl
  | @element tag inner hinner =>
    obtain ⟨rfl, rfl⟩ := List.cons.inj hadded
    have hclose : (Token.closeTag tag.name).isTag = true := rfl
    obtain ⟨keptInner, hkeptInner, hinside, hsomeInner, -⟩ := exists_keptGap hclose true inner
    rw [List.all_cons, List.all_append, Bool.and_eq_true, Bool.and_eq_true] at hvalue
    obtain ⟨inside, rfl⟩ := Option.isSome_iff_exists.mp (hsomeInner hvalue.2.1)
    obtain ⟨htagsInside, hvalueInside⟩ := hinside inside rfl
    have hbalanced : Balanced inside := by
      refine .of_filter_tags ?_
      rw [htagsInside]
      exact hinner.filter_tags
    refine ⟨front, .openTag tag :: (inside ++ [.closeTag tag.name]), fun rest => ?_, hnone,
      hvalueFront, hequal, .element tag hbalanced, rfl, ?_⟩
    · rw [List.cons_append, List.append_assoc, List.singleton_append, hkept, leafAfter, hkeptInner]
      simp [Markup.keepLeafText, leafAfter, Function.comp_def]
    · rw [List.all_cons, List.all_append, hvalueInside, hvalue.2.1]
      rfl

/-- An element between two tags leaves everything else that is kept as it is. -/
theorem exists_kept_inserted {front first second gap back added kept : List Token}
    {left right : Token} (hleft : left.isTag = true) (hright : right.isTag = true)
    (hfirst : ∀ token ∈ first, token.isTag = false)
    (hsecond : ∀ token ∈ second, token.isTag = false) (hgap : Joined first second gap)
    (hcut : CutsNoReference first) (hadded : IsElement added)
    (hvalue : added.all Token.hasValue = true)
    (hkept : keepLeafText (front ++ left :: (gap ++ right :: back)) = some kept) :
    ∃ before own after keptGap keptFirst, kept = before ++ left :: (keptGap ++ right :: after) ∧
      keepLeafText (front ++ left :: (first ++ (added ++ (second ++ right :: back)))) =
        some (before ++ left :: (keptFirst ++ (own ++ (second ++ right :: after)))) ∧
      before.filter Token.isTag = front.filter Token.isTag ∧
      after.filter Token.isTag = back.filter Token.isTag ∧
      (∀ token ∈ keptGap, token.isTag = false) ∧ (∀ token ∈ keptFirst, token.isTag = false) ∧
      IsElement own ∧ startName own = startName added ∧ own.all Token.hasValue = true ∧
      (keptGap.all Token.hasValue = true →
        keptFirst.all Token.hasValue = true ∧ second.all Token.hasValue = true) ∧
      (left.isEnd = true → (∀ token ∈ keptGap, token.isMisc = true) →
        ∀ token ∈ keptFirst, token.isMisc = true) := by
  have hgapTags := hgap.noTags hfirst hsecond
  obtain ⟨keptFront, hkeptFront, hfrontSame, -, -⟩ := exists_keptGap hleft false front
  obtain ⟨keptGap, hkeptGap, hgapSame, -, hgapEqual⟩ :=
    exists_keptGap hright (leafAfter false left) gap
  -- What is kept of the whole shows what is kept of its parts.
  rw [keepLeafText, hkeptFront, hkeptGap] at hkept
  obtain ⟨before, rfl, hkept⟩ := Option.bind_eq_some_iff.mp hkept
  obtain ⟨others, hothers, rfl⟩ := Option.map_eq_some_iff.mp hkept
  obtain ⟨keptGap, rfl, hothers⟩ := Option.bind_eq_some_iff.mp hothers
  obtain ⟨after, hafter, rfl⟩ := Option.map_eq_some_iff.mp hothers
  obtain ⟨hgapFilter, hgapValue⟩ := hgapSame keptGap rfl
  have hleaf : leafAfter false left = true → first.all Token.hasValue = true := by
    intro hleaf
    have hkeptLeaf := hkeptGap back
    rw [hleaf, hafter] at hkeptLeaf
    exact (hgap.all_hasValue hcut (all_hasValue_of_inLeaf hgapTags hkeptLeaf)).1
  obtain ⟨keptFirst, own, hown, hkeptFirst, hfirstValue, hfirstEqual, helement, hname, hownValue⟩ :=
    hadded.exists_kept hvalue (leafAfter false left) hfirst hleaf
  refine ⟨before, own, after, keptGap, keptFirst, rfl, ?_, ?_, ?_, ?_, hkeptFirst, helement, hname,
    hownValue, ?_, ?_⟩
  · rw [keepLeafText, hkeptFront, hown, keepLeafText_append_of_noTags hsecond, keepLeafText,
      keepLeafTextFrom_markup (Token.isText_of_isTag hright), hafter]
    rfl
  · exact (hfrontSame before rfl).1
  · exact filter_keepLeafTextFrom hafter
  · rw [noTags_iff, hgapFilter, ← noTags_iff]
    exact hgapTags
  · intro hkeptValue
    rw [hfirstValue]
    exact hgap.all_hasValue hcut (hgapValue ▸ hkeptValue)
  · intro hend hmisc
    have hoff := leafAfter_of_isEnd hend false
    rw [hfirstEqual hoff]
    rw [Option.some.inj (hgapEqual hoff hgapTags)] at hmisc
    exact hgap.isMisc_first hmisc

/-! ## Documents -/

/-- Tokens with a tag have a last one. -/
theorem exists_last_tag {tokens : List Token} {tag : Token} (hmem : tag ∈ tokens)
    (htag : tag.isTag = true) : ∃ front last gap, tokens = front ++ last :: gap ∧
      last.isTag = true ∧ ∀ token ∈ gap, token.isTag = false := by
  rcases exists_first_tag tokens.reverse with hnone | ⟨gap, last, front, hsplit, hlast, hgap⟩
  · rw [hnone tag (List.mem_reverse.mpr hmem)] at htag
    cases htag
  · refine ⟨front.reverse, last, gap.reverse, ?_, hlast, fun token htoken =>
      hgap token (List.mem_reverse.mp htoken)⟩
    rw [← List.reverse_reverse tokens, hsplit]
    simp

/-- The first tag is found among tokens with the same tags. -/
theorem exists_opening {tokens left : List Token} {root : Tag}
    (h : tokens.filter Token.isTag = .openTag root :: left.filter Token.isTag) :
    ∃ outside inside, tokens = outside ++ .openTag root :: inside ∧
      (∀ token ∈ outside, token.isTag = false) ∧
      inside.filter Token.isTag = left.filter Token.isTag := by
  obtain ⟨outside, inside, hsplit, houtside, -, hinside⟩ := List.filter_eq_cons_iff.mp h
  exact ⟨outside, inside, hsplit, by simpa using houtside, hinside⟩

/-- A closing tag is found among tokens with the same tags. -/
theorem exists_closing {tokens right after : List Token} {name : List Char}
    (h : tokens.filter Token.isTag =
      right.filter Token.isTag ++ .closeTag name :: after.filter Token.isTag) :
    ∃ content tail, tokens = content ++ .closeTag name :: tail ∧
      content.filter Token.isTag = right.filter Token.isTag := by
  obtain ⟨content, rest, rfl, hcontent, hrest⟩ := List.filter_eq_append_iff.mp h
  obtain ⟨space, tail, rfl, hspace, -, -⟩ := List.filter_eq_cons_iff.mp hrest
  refine ⟨content ++ space, tail, (List.append_assoc ..).symm, ?_⟩
  rw [List.filter_append, hcontent, List.filter_eq_nil_iff.mpr hspace, List.append_nil]

/-- An element that is put into a document, at a place inside its root, widens the content of the
root and nothing else. -/
theorem exists_widened_root {path : List (List Char)} {before left right after tokens added kept :
    List Token} {root : Tag} {name : List Char} (hbefore : ∀ token ∈ before, token.isTag = false)
    (hplace : Hole path left right)
    (hjoined : Joined (before ++ .openTag root :: left) (right ++ .closeTag root.name :: after)
      tokens)
    (hcut : CutsNoReference (before ++ .openTag root :: left)) (hadded : IsElement added)
    (hname : startName added = some name) (hvalue : added.all Token.hasValue = true)
    (hkept : keepLeafText tokens = some kept) :
    ∃ front inner wider tail parts others, (∀ token ∈ front, token.isTag = false) ∧
      kept = front ++ .openTag root :: (inner ++ .closeTag root.name :: tail) ∧
      keepLeafText (before ++ .openTag root :: left ++
          (added ++ (right ++ .closeTag root.name :: after))) =
        some (front ++ .openTag root :: (wider ++ .closeTag root.name :: tail)) ∧
      Content inner parts ∧ Content wider others ∧
      Widened name path (endName left) (startName right) (joinRuns [] parts)
        (joinRuns [] others) := by
  have hopenMem : Token.openTag root ∈ before ++ .openTag root :: left := by simp
  obtain ⟨front, last, first, hfront, hlast, hfirst⟩ := exists_last_tag hopenMem rfl
  obtain ⟨second, next, back, hback, hnext, hsecond⟩ :
      ∃ second next back, right ++ .closeTag root.name :: after = second ++ next :: back ∧
        next.isTag = true ∧ ∀ token ∈ second, token.isTag = false := by
    rcases exists_first_tag (right ++ .closeTag root.name :: after) with hnone | hsplit
    · exact absurd (hnone (.closeTag root.name) (by simp)) (by simp [Token.isTag])
    · exact hsplit
  rw [hfront, hback] at hjoined
  obtain ⟨gap, rfl, hgap⟩ := hjoined.exists_between hlast hnext
  have hcutFirst : CutsNoReference first := by
    intro raw hraw
    refine hcut raw ?_
    rw [hfront, List.getLast?_append, List.getLast?_cons, hraw]
    rfl
  obtain ⟨keptFront, own, keptBack, keptGap, keptFirst, rfl, hinserted, hfrontTags, hbackTags,
    hgapTags, hfirstTags, helement, hownName, hownValue, hgapValue, hlayout⟩ :=
    exists_kept_inserted hlast hnext hfirst hsecond hgap hcutFirst hadded hvalue hkept
  -- The kept tokens have the same tags, so that the root is found among them.
  have hopens : (keptFront ++ [last]).filter Token.isTag =
      .openTag root :: left.filter Token.isTag := by
    have htags := congrArg (List.filter Token.isTag) hfront
    rw [List.filter_append, noTags_iff.mp hbefore, List.filter_cons_of_pos rfl, List.nil_append,
      List.filter_append, List.filter_cons_of_pos hlast, noTags_iff.mp hfirst] at htags
    rw [List.filter_append, hfrontTags, List.filter_cons_of_pos hlast, htags]
    rfl
  have hcloses : (next :: keptBack).filter Token.isTag =
      right.filter Token.isTag ++ .closeTag root.name :: after.filter Token.isTag := by
    have htags := congrArg (List.filter Token.isTag) hback
    rw [List.filter_append, List.filter_cons_of_pos rfl, List.filter_append,
      noTags_iff.mp hsecond, List.nil_append, List.filter_cons_of_pos hnext] at htags
    rw [List.filter_cons_of_pos hnext, hbackTags, htags]
  obtain ⟨outside, inside, hsplit, houtside, hinside⟩ := exists_opening hopens
  obtain ⟨content, tail, hends, hcontent⟩ := exists_closing hcloses
  have hlastOf {token : Token} (h : token ∈ inside.getLast?) : token = last := by
    have hsame := congrArg List.getLast? hsplit
    rw [List.getLast?_concat, List.getLast?_append, List.getLast?_cons,
      Option.mem_def.mp h] at hsame
    exact (Option.some.inj hsame).symm
  have hnextOf {token : Token} (h : token ∈ content.head?) : token = next := by
    have hsame := congrArg List.head? hends
    rw [List.head?_append, Option.mem_def.mp h] at hsame
    exact (Option.some.inj hsame).symm
  have hmisc : (∃ token ∈ inside.getLast?, token.isEnd = true) →
      (∀ token ∈ keptGap, token.isMisc = true) → ∀ token ∈ keptFirst, token.isMisc = true := by
    rintro ⟨token, h, hend⟩
    exact hlayout (hlastOf h ▸ hend)
  obtain ⟨parts, others, hparts, hothers, hwidened⟩ :=
    (hplace.of_filter_eq hinside hcontent).exists_widened (fun token h => hlastOf h ▸ hlast)
      (fun token h => hnextOf h ▸ hnext) hgapTags hfirstTags hsecond helement
      (hownName.trans hname) hownValue hgapValue hmisc
  have hwhole (middle : List Token) : keptFront ++ last :: (middle ++ next :: keptBack) =
      outside ++ .openTag root ::
        (inside ++ (middle ++ content) ++ .closeTag root.name :: tail) := by
    calc keptFront ++ last :: (middle ++ next :: keptBack)
        = keptFront ++ [last] ++ (middle ++ next :: keptBack) := by simp
      _ = outside ++ .openTag root :: inside ++
          (middle ++ (content ++ .closeTag root.name :: tail)) := by rw [hsplit, hends]
      _ = _ := by simp
  have hendName : endName inside = endName left := by rw [endName, hinside, endName]
  have hstartName : startName content = startName right := by rw [startName, hcontent, startName]
  rw [hendName, hstartName] at hwidened
  refine ⟨outside, _, _, tail, parts, others, houtside, hwhole keptGap, ?_, hparts, hothers,
    hwidened⟩
  have hsame := hwhole (keptFirst ++ (own ++ second))
  rw [hfront, hback]
  simp only [List.append_assoc, List.cons_append] at hsame hinserted ⊢
  rw [hinserted, hsame]

end CallbackGateway.Markup
