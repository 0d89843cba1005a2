import CallbackGateway.Markup.Token

/-!
# Where tokens end

The reader looks for the end of a token in four ways. Each way is described here without the
reader: a section or comment ends at the first end marker, a tag at the first bracket outside
quoted values, and a document type declaration where its brackets are balanced.

The reader splits a text exactly where these descriptions say.
-/

namespace CallbackGateway.Markup

/-! ## Markers -/

/-- A body that holds no end of itself: the marker after it is the first one. -/
def EndsFirst (marker body : List Char) : Prop :=
  ∀ before after, body ++ marker = before ++ marker ++ after → after = []

/-- A text is split at the marker that ends a body. -/
theorem breakAt?_of_endsFirst {marker body : List Char} (hmarker : marker ≠ [])
    (h : EndsFirst marker body) (rest : List Char) :
    breakAt? marker (body ++ (marker ++ rest)) = some (body, rest) := by
  induction body with
  | nil =>
    cases marker with
    | nil => exact absurd rfl hmarker
    | cons m ms =>
      have hprefix : (m :: ms).isPrefixOf ((m :: ms) ++ rest) = true := by
        simp [List.isPrefixOf_iff_prefix]
      rw [List.nil_append, List.cons_append, breakAt?, ← List.cons_append, if_pos hprefix,
        List.drop_left]
  | cons c body ih =>
    have hprefix : ¬ marker.isPrefixOf (c :: (body ++ (marker ++ rest))) = true := by
      rw [List.isPrefixOf_iff_prefix]
      intro hp
      have hwhole : marker <+: (c :: body) ++ marker :=
        List.prefix_of_prefix_length_le hp ⟨rest, by simp⟩
          (by rw [List.length_append]; omega)
      obtain ⟨after, hafter⟩ := hwhole
      have hnil : after = [] := h [] after (by rw [List.nil_append, hafter])
      have hlength := congrArg List.length hafter
      rw [hnil, List.append_nil, List.length_append, List.length_cons] at hlength
      omega
    have htail : EndsFirst marker body := fun before after heq =>
      h (c :: before) after (by simp [heq])
    rw [List.cons_append, breakAt?, if_neg hprefix, ih htail]
    rfl

/-- Where a text is split, a body ends at its first marker. -/
theorem endsFirst_of_breakAt? {marker text body rest : List Char}
    (h : breakAt? marker text = some (body, rest)) :
    text = body ++ (marker ++ rest) ∧ EndsFirst marker body := by
  induction text generalizing body with
  | nil => simp [breakAt?] at h
  | cons c text ih =>
    rw [breakAt?] at h
    split at h
    · rename_i hp
      rw [List.isPrefixOf_iff_prefix] at hp
      obtain ⟨after, hafter⟩ := hp
      simp only [Option.some.injEq, Prod.mk.injEq] at h
      obtain ⟨rfl, rfl⟩ := h
      refine ⟨by rw [← hafter, List.drop_left, List.nil_append], ?_⟩
      intro before after heq
      have := congrArg List.length heq
      simp only [List.length_append, List.length_nil] at this
      exact List.length_eq_zero_iff.mp (by omega)
    · rename_i hp
      obtain ⟨⟨b, a⟩, hs, he⟩ := Option.map_eq_some_iff.mp h
      simp only [Prod.mk.injEq] at he
      obtain ⟨rfl, rfl⟩ := he
      obtain ⟨htext, hends⟩ := ih hs
      refine ⟨by rw [htext, List.cons_append], ?_⟩
      intro before after heq
      cases before with
      | nil =>
        refine absurd ?_ hp
        rw [List.isPrefixOf_iff_prefix, htext]
        exact ⟨after ++ a, by rw [← List.append_assoc, ← List.nil_append marker, ← heq]; simp⟩
      | cons d before =>
        simp only [List.cons_append, List.cons.injEq] at heq
        exact hends before after heq.2

/-! ## Tags -/

/-- What stands between the brackets of a tag: a quoted value may hold any character. -/
inductive TagBody : List Char → Prop
  | nil : TagBody []
  | char {c : Char} {rest : List Char} (hc : c ≠ '>' ∧ c ≠ '"' ∧ c ≠ '\'') :
      TagBody rest → TagBody (c :: rest)
  | quoted {quote : Char} {value rest : List Char} (hquote : quote = '"' ∨ quote = '\'')
      (hvalue : quote ∉ value) : TagBody rest → TagBody (quote :: (value ++ quote :: rest))

/-- What stands in a tag after a quotation mark was opened: the rest of the value comes first. -/
def TagBodyFrom : Option Char → List Char → Prop
  | none, body => TagBody body
  | some quote, body => ∃ value rest, body = value ++ quote :: rest ∧ quote ∉ value ∧ TagBody rest

/-- A character outside values that is no quotation mark opens none. -/
theorem nextQuote_none {c : Char} (h : c ≠ '"' ∧ c ≠ '\'') : nextQuote none c = none := by
  simp [nextQuote, h.1, h.2]

/-- A quotation mark opens a value. -/
theorem nextQuote_quote {c : Char} (h : c = '"' ∨ c = '\'') : nextQuote none c = some c := by
  simp [nextQuote, h]

/-- The same mark closes it. -/
theorem nextQuote_self (quote : Char) : nextQuote (some quote) quote = none := by
  simp [nextQuote]

/-- Any other character belongs to the value. -/
theorem nextQuote_ne {c quote : Char} (h : c ≠ quote) : nextQuote (some quote) c = some quote := by
  simp [nextQuote, h]

/-- A character that does not end a tag belongs to its body. -/
theorem tagBody?_cons {quote : Option Char} {c : Char} (h : ¬ (quote = none ∧ c = '>'))
    (text : List Char) : tagBody? quote (c :: text) =
      (tagBody? (nextQuote quote c) text).map fun (body, after) => (c :: body, after) := by
  rw [tagBody?, if_neg h]

/-- The rest of a value is read up to its quotation mark. -/
theorem tagBody?_quoted {quote : Char} {value : List Char} (h : quote ∉ value)
    (text : List Char) : tagBody? (some quote) (value ++ quote :: text) =
      (tagBody? none text).map fun (body, after) => (value ++ quote :: body, after) := by
  induction value with
  | nil =>
    rw [List.nil_append, tagBody?_cons (by simp), nextQuote_self]
    rfl
  | cons c value ih =>
    have hc : c ≠ quote := fun hc => h (by simp [hc])
    rw [List.cons_append, tagBody?_cons (by simp), nextQuote_ne hc,
      ih fun hm => h (List.mem_cons_of_mem _ hm), Option.map_map]
    rfl

/-- A tag is split off where its body ends. -/
theorem tagBody?_of_tagBody {body : List Char} (h : TagBody body) (rest : List Char) :
    tagBody? none (body ++ '>' :: rest) = some (body, rest) := by
  induction h with
  | nil => rw [List.nil_append, tagBody?, if_pos ⟨rfl, rfl⟩]
  | char hc _ ih =>
    rw [List.cons_append, tagBody?_cons (by simp [hc.1]), nextQuote_none hc.2, ih]
    rfl
  | @quoted quote value tail hquote hvalue _ ih =>
    have hne : quote ≠ '>' := by rcases hquote with rfl | rfl <;> decide
    rw [List.cons_append, tagBody?_cons (by simp [hne]), nextQuote_quote hquote,
      List.append_assoc, List.cons_append, tagBody?_quoted hvalue, ih]
    rfl

/-- What is split off is the body of a tag. -/
theorem tagBodyFrom_of_tagBody? {quote : Option Char} {text body after : List Char}
    (h : tagBody? quote text = some (body, after)) :
    text = body ++ '>' :: after ∧ TagBodyFrom quote body := by
  induction text generalizing quote body with
  | nil => simp [tagBody?] at h
  | cons c text ih =>
    by_cases hend : quote = none ∧ c = '>'
    · obtain ⟨rfl, rfl⟩ := hend
      simp only [tagBody?, and_self, if_true, Option.some.injEq, Prod.mk.injEq] at h
      obtain ⟨rfl, rfl⟩ := h
      exact ⟨rfl, .nil⟩
    · rw [tagBody?_cons hend] at h
      obtain ⟨⟨b, a⟩, hs, he⟩ := Option.map_eq_some_iff.mp h
      simp only [Prod.mk.injEq] at he
      obtain ⟨rfl, rfl⟩ := he
      obtain ⟨htext, hbody⟩ := ih hs
      refine ⟨by rw [htext, List.cons_append], ?_⟩
      cases quote with
      | none =>
        have hc : c ≠ '>' := fun hc => hend ⟨rfl, hc⟩
        by_cases hq : c = '"' ∨ c = '\''
        · rw [nextQuote_quote hq] at hbody
          obtain ⟨value, tail, rfl, hvalue, htail⟩ := hbody
          exact .quoted hq hvalue htail
        · rw [not_or] at hq
          rw [nextQuote_none hq] at hbody
          exact .char ⟨hc, hq⟩ hbody
      | some mark =>
        by_cases hm : c = mark
        · subst hm
          rw [nextQuote_self] at hbody
          exact ⟨[], b, rfl, by simp, hbody⟩
        · rw [nextQuote_ne hm] at hbody
          obtain ⟨value, tail, rfl, hvalue, htail⟩ := hbody
          exact ⟨c :: value, tail, rfl, by simp [hvalue, Ne.symm hm], htail⟩

/-! ## Document type declarations -/

/-- Whether angle brackets are balanced, inside a number of open ones. -/
def isBracketed : Nat → List Char → Bool
  | depth, [] => depth == 0
  | depth, c :: rest =>
    if c = '<' then isBracketed (depth + 1) rest
    else if c = '>' then depth != 0 && isBracketed (depth - 1) rest
    else isBracketed depth rest

/-- The end of a declaration is found where its brackets are balanced. -/
theorem doctypeBody?_of_isBracketed {depth : Nat} {body : List Char}
    (h : isBracketed depth body = true) (after : List Char) :
    doctypeBody? depth (body ++ '>' :: after) = some (body, after) := by
  induction body generalizing depth with
  | nil =>
    simp only [isBracketed, beq_iff_eq] at h
    subst h
    rfl
  | cons c body ih =>
    rw [isBracketed] at h
    rw [List.cons_append, doctypeBody?]
    by_cases hopen : c = '<'
    · subst hopen
      rw [if_pos rfl] at h
      rw [if_neg (by simp)]
      dsimp only
      rw [if_pos (by decide), ih h]
      rfl
    · rw [if_neg hopen] at h
      by_cases hclose : c = '>'
      · subst hclose
        rw [if_pos rfl, Bool.and_eq_true, bne_iff_ne] at h
        rw [if_neg (by simp [h.1])]
        dsimp only
        rw [if_neg (by decide), if_pos (by decide), ih h.2]
        rfl
      · rw [if_neg hclose] at h
        rw [if_neg (by simp [hclose])]
        dsimp only
        rw [if_neg (by simpa using hopen), if_neg (by simpa using hclose), ih h]
        rfl

/-- What is split off as a declaration has balanced brackets. -/
theorem isBracketed_of_doctypeBody? {depth : Nat} {text body after : List Char}
    (h : doctypeBody? depth text = some (body, after)) :
    text = body ++ '>' :: after ∧ isBracketed depth body = true := by
  induction text generalizing depth body with
  | nil => simp [doctypeBody?] at h
  | cons c text ih =>
    rw [doctypeBody?] at h
    split at h
    · rename_i hend
      simp only [Bool.and_eq_true, beq_iff_eq] at hend
      obtain ⟨rfl, rfl⟩ := hend
      simp only [Option.some.injEq, Prod.mk.injEq] at h
      obtain ⟨rfl, rfl⟩ := h
      exact ⟨rfl, rfl⟩
    · rename_i hend
      obtain ⟨⟨b, a⟩, hs, he⟩ := Option.map_eq_some_iff.mp h
      simp only [Prod.mk.injEq] at he
      obtain ⟨rfl, rfl⟩ := he
      obtain ⟨htext, hbody⟩ := ih hs
      refine ⟨by rw [htext, List.cons_append], ?_⟩
      rw [isBracketed]
      simp only [beq_iff_eq] at hbody
      split
      · rename_i hopen
        rwa [if_pos hopen] at hbody
      · rename_i hopen
        rw [if_neg hopen] at hbody
        split
        · rename_i hclose
          rw [if_pos hclose] at hbody
          have hdepth : depth ≠ 0 := fun hd => hend (by simp [hclose, hd])
          simp [hdepth, hbody]
        · rename_i hclose
          rwa [if_neg hclose] at hbody

end CallbackGateway.Markup
