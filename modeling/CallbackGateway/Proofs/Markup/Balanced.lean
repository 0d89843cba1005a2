import CallbackGateway.Proofs.Markup.Assembly

/-!
# Balanced tags

A list of tokens is balanced if every opened element is closed by its own name. A document has
one element on its outermost level, its root; what stands around the root may only be layout.

Whether tokens are balanced depends on their tags alone.
-/

namespace CallbackGateway.Markup

/-- Whether a token opens or closes an element. -/
def Token.isTag : Token → Bool
  | .openTag _ | .emptyTag _ | .closeTag _ => true
  | _ => false

/-- Whether a token may stand outside the root. -/
def Token.isMisc : Token → Bool
  | .text raw => raw.all isSpace
  | .comment _ | .instruction _ | .doctype _ => true
  | _ => false

/-- Tokens in which every element is closed. -/
inductive Balanced : List Token → Prop
  | nil : Balanced []
  | other {token : Token} {rest : List Token} (htag : token.isTag = false) :
      Balanced rest → Balanced (token :: rest)
  | emptyTag {tag : Tag} {rest : List Token} : Balanced rest → Balanced (.emptyTag tag :: rest)
  | element {tag : Tag} {inner rest : List Token} : Balanced inner → Balanced rest →
      Balanced (.openTag tag :: (inner ++ .closeTag tag.name :: rest))

/-- Tokens that are one element. -/
inductive IsElement : List Token → Prop
  | emptyTag (tag : Tag) : IsElement [.emptyTag tag]
  | element (tag : Tag) {inner : List Token} : Balanced inner →
      IsElement (.openTag tag :: (inner ++ [.closeTag tag.name]))

/-- What may stand outside of the root is no tag. -/
theorem Token.isTag_of_isMisc {token : Token} (h : token.isMisc = true) : token.isTag = false := by
  cases token with
  | openTag | emptyTag | closeTag | cdata => simp [Token.isMisc] at h
  | text | comment | instruction | doctype => rfl

namespace Balanced

variable {first second tokens : List Token}

/-- Balanced tokens stay balanced one after another. -/
theorem append (hfirst : Balanced first) (hsecond : Balanced second) :
    Balanced (first ++ second) := by
  induction hfirst with
  | nil => exact hsecond
  | other htag _ ih => exact .other htag ih
  | emptyTag _ ih => exact .emptyTag ih
  | element hinner _ _ ih =>
    rw [List.cons_append, List.append_assoc, List.cons_append]
    exact .element hinner ih

/-- Without tags everything is balanced. -/
theorem of_noTags (h : ∀ token ∈ tokens, token.isTag = false) : Balanced tokens := by
  induction tokens with
  | nil => exact .nil
  | cons token rest ih =>
    exact .other (h token List.mem_cons_self) (ih fun t ht => h t (List.mem_cons_of_mem _ ht))

/-- The tokens of content are balanced. -/
theorem of_content {parts : List Part} (h : Content tokens parts) : Balanced tokens := by
  induction h with
  | nil => exact .nil
  | element _ _ ihinner ihrest => exact .element ihinner ihrest
  | emptyTag _ ih => exact .emptyTag ih
  | text _ ih | cdata _ ih | comment _ ih | instruction _ ih | doctype _ ih =>
    exact .other rfl ih

/-- Balanced tokens have parts. -/
theorem exists_content (h : Balanced tokens) : ∃ parts, Content tokens parts := by
  induction h with
  | nil => exact ⟨[], .nil⟩
  | @other token rest htag _ ih =>
    obtain ⟨parts, hparts⟩ := ih
    cases token with
    | openTag | emptyTag | closeTag => simp [Token.isTag] at htag
    | text => exact ⟨_, .text hparts⟩
    | cdata => exact ⟨_, .cdata hparts⟩
    | comment => exact ⟨_, .comment hparts⟩
    | instruction => exact ⟨_, .instruction hparts⟩
    | doctype => exact ⟨_, .doctype hparts⟩
  | emptyTag _ ih =>
    obtain ⟨parts, hparts⟩ := ih
    exact ⟨_, .emptyTag hparts⟩
  | element _ _ ihinner ihrest =>
    obtain ⟨inner, hinner⟩ := ihinner
    obtain ⟨parts, hparts⟩ := ihrest
    exact ⟨_, .element hinner hparts⟩

/-- Only the tags decide. -/
theorem filter_tags (h : Balanced tokens) : Balanced (tokens.filter Token.isTag) := by
  induction h with
  | nil => exact .nil
  | other htag _ ih =>
    rw [List.filter_cons_of_neg (by simp [htag])]
    exact ih
  | emptyTag _ ih =>
    rw [List.filter_cons_of_pos rfl]
    exact .emptyTag ih
  | element _ _ ihinner ihrest =>
    rw [List.filter_cons_of_pos rfl, List.filter_append, List.filter_cons_of_pos rfl]
    exact .element ihinner ihrest

/-- Only the tags have to be balanced. -/
theorem of_filter_tags (h : Balanced (tokens.filter Token.isTag)) : Balanced tokens := by
  generalize htags : tokens.filter Token.isTag = tags at h
  induction h generalizing tokens with
  | nil =>
    refine of_noTags fun token htoken => ?_
    simpa using List.filter_eq_nil_iff.mp htags token htoken
  | @other token rest htag _ ih =>
    have hmem : token ∈ tokens.filter Token.isTag := by simp [htags]
    simp [htag] at hmem
  | emptyTag _ ih =>
    obtain ⟨before, after, rfl, hbefore, -, hafter⟩ := List.filter_eq_cons_iff.mp htags
    exact (of_noTags (by simpa using hbefore)).append (.emptyTag (ih hafter))
  | @element tag inner rest _ _ ihinner ihrest =>
    obtain ⟨before, after, rfl, hbefore, -, hafter⟩ := List.filter_eq_cons_iff.mp htags
    obtain ⟨inside, outside, rfl, hinside, houtside⟩ := List.filter_eq_append_iff.mp hafter
    obtain ⟨layout, tail, rfl, hlayout, -, htail⟩ := List.filter_eq_cons_iff.mp houtside
    have hwhole : Balanced (.openTag tag :: (inside ++ layout ++ .closeTag tag.name :: tail)) :=
      .element ((ihinner hinside).append (of_noTags (by simpa using hlayout))) (ihrest htail)
    rw [List.append_assoc] at hwhole
    exact (of_noTags (by simpa using hbefore)).append hwhole

/-- The names of balanced tags match, whatever comes next. -/
theorem namesMatch (h : Balanced tokens) (opened : List (List Char)) (rest : List Token) :
    namesMatch opened (tokens ++ rest) = Markup.namesMatch opened rest := by
  induction h generalizing opened rest with
  | nil => rfl
  | @other token tail htag _ ih =>
    cases token with
    | openTag | emptyTag | closeTag => simp [Token.isTag] at htag
    | text | cdata | comment | instruction | doctype =>
      rw [List.cons_append, Markup.namesMatch]
      · exact ih opened rest
      all_goals simp
  | emptyTag _ ih =>
    rw [List.cons_append, Markup.namesMatch]
    · exact ih opened rest
    all_goals simp
  | element _ _ ihinner ihrest =>
    rw [List.cons_append, Markup.namesMatch, List.append_assoc, ihinner, List.cons_append,
      Markup.namesMatch, ihrest, beq_self_eq_true, Bool.true_and]

/-- In balanced tokens the names match. -/
theorem namesMatch_nil (h : Balanced tokens) : Markup.namesMatch [] tokens = true := by
  have hnames := h.namesMatch [] []
  rwa [List.append_nil] at hnames

/-- Balanced tokens between others do not change whether the names match. -/
theorem namesMatch_insert (h : Balanced tokens) (opened : List (List Char))
    (front rest : List Token) :
    Markup.namesMatch opened (front ++ (tokens ++ rest)) =
      Markup.namesMatch opened (front ++ rest) := by
  induction front generalizing opened with
  | nil => exact h.namesMatch opened rest
  | cons token front ih =>
    cases token with
    | openTag tag => exact ih _
    | closeTag name =>
      cases opened with
      | nil => rfl
      | cons innermost outer =>
        rw [List.cons_append, List.cons_append, Markup.namesMatch, Markup.namesMatch, ih]
    | emptyTag | text | cdata | comment | instruction | doctype => exact ih opened

end Balanced

/-- Only the tags decide whether the names match. -/
theorem namesMatch_filter (opened : List (List Char)) (tokens : List Token) :
    namesMatch opened (tokens.filter Token.isTag) = namesMatch opened tokens := by
  induction tokens generalizing opened with
  | nil => rfl
  | cons token tokens ih =>
    cases token with
    | openTag tag => exact ih _
    | closeTag name =>
      cases opened with
      | nil => rfl
      | cons innermost outer =>
        rw [List.filter_cons_of_pos rfl, namesMatch, namesMatch, ih]
    | emptyTag => exact ih opened
    | text | cdata | comment | instruction | doctype => exact ih opened

end CallbackGateway.Markup
