/-!
# Markup tokens

A document is read as text, tags, character data sections, comments, instructions and document
type declarations. Reading stops without complaint at the end of the characters, and with one
at the first place that starts no token.
-/

namespace CallbackGateway.Markup

/-- White space between the parts of a tag. -/
def isSpace (c : Char) : Bool := c == ' ' || c == '\t' || c == '\r' || c == '\n'

/-- A tag that opens an element: its name, and what stands between the name and the end. -/
structure Tag where
  name : List Char
  attributes : List Char
  deriving DecidableEq, Repr

/-- The smallest parts of a document. -/
inductive Token
  | openTag (tag : Tag)
  | emptyTag (tag : Tag)
  | closeTag (name : List Char)
  | text (raw : List Char)
  | cdata (raw : List Char)
  | comment (body : List Char)
  | instruction (body : List Char)
  | doctype (body : List Char)
  deriving DecidableEq, Repr

/-- Split a text before and after the first occurrence of a marker. -/
def breakAt? (marker : List Char) : List Char → Option (List Char × List Char)
  | [] => none
  | c :: rest =>
    if marker.isPrefixOf (c :: rest) then some ([], (c :: rest).drop marker.length)
    else (breakAt? marker rest).map fun (before, after) => (c :: before, after)

/-- The quotation mark that is open after a character. -/
def nextQuote (quote : Option Char) (c : Char) : Option Char :=
  match quote with
  | some mark => if c == mark then none else some mark
  | none => if c == '"' || c == '\'' then some c else none

/-- Split the characters after an opening `<` at the first `>` outside quotation marks. -/
def tagBody? (quote : Option Char) : List Char → Option (List Char × List Char)
  | [] => none
  | c :: rest =>
    if quote = none ∧ c = '>' then some ([], rest)
    else (tagBody? (nextQuote quote c) rest).map fun (body, after) => (c :: body, after)

/-- Split the characters after `<!DOCTYPE` at the `>` that balances it. -/
def doctypeBody? (depth : Nat) : List Char → Option (List Char × List Char)
  | [] => none
  | c :: rest =>
    if c == '>' && depth == 0 then some ([], rest)
    else
      let inner := if c == '<' then depth + 1 else if c == '>' then depth - 1 else depth
      (doctypeBody? inner rest).map fun (body, after) => (c :: body, after)

/-- The tag that a body without its closing slash spells. -/
def Tag.ofBody (body : List Char) : Tag :=
  ⟨body.takeWhile (!isSpace ·), body.dropWhile (!isSpace ·)⟩

/-- The token of a tag body: a slash at the end makes it an empty element. -/
def tagToken (body : List Char) : Token :=
  if body.getLast? = some '/' then .emptyTag (Tag.ofBody body.dropLast)
  else .openTag (Tag.ofBody body)

/-- The name in a closing tag: white space after it does not count. -/
def closeName (body : List Char) : List Char :=
  if body.all isSpace then body else (body.reverse.dropWhile isSpace).reverse

/-- What the characters of a document start with. -/
inductive Step
  /-- Nothing more. -/
  | finish
  /-- Nothing that can be read. -/
  | broken
  /-- A token, and the characters after it. -/
  | token (token : Token) (after : List Char)

/-- A token that was split off, if it was. -/
def Step.ofSplit (build : List Char → Token) : Option (List Char × List Char) → Step
  | some (body, after) => .token (build body) after
  | none => .broken

/-- The first seven characters in lower case. -/
def opener (text : List Char) : List Char := (text.take 7).map Char.toLower

/-- A document type declaration; it must say something. -/
def doctypeStep (text : List Char) : Step :=
  match doctypeBody? 0 text with
  | some (body, after) =>
    let content := body.dropWhile isSpace
    if content = [] then .broken else .token (.doctype content) after
  | none => .broken

/-- What follows `<!`. -/
def declarationStep (text : List Char) : Step :=
  if opener text = "[cdata[".toList then Step.ofSplit .cdata (breakAt? "]]>".toList (text.drop 7))
  else if opener text = "doctype".toList then doctypeStep (text.drop 7)
  else
    match text with
    | '-' :: '-' :: rest => Step.ofSplit .comment (breakAt? "-->".toList rest)
    | _ => .broken

/-- What follows `<?`: an instruction ends at the first `>`, which a question mark precedes. -/
def instructionStep (text : List Char) : Step :=
  let body := text.takeWhile (· != '>')
  if 2 ≤ body.length ∧ body.getLast? = some '?' then
    .token (.instruction body.dropLast) ((text.dropWhile (· != '>')).drop 1)
  else .broken

/-- What a document starts with. A closing tag at the very end may lack its `>`, and a lone `<`
at the very end does not count. -/
def step : List Char → Step
  | [] => .finish
  | ['<'] => .finish
  | '<' :: '!' :: rest => declarationStep rest
  | '<' :: '?' :: rest => instructionStep rest
  | '<' :: '/' :: rest =>
    .token (.closeTag (closeName (rest.takeWhile (· != '>'))))
      ((rest.dropWhile (· != '>')).drop 1)
  | '<' :: rest => Step.ofSplit tagToken (tagBody? none rest)
  | text => .token (.text (text.takeWhile (· != '<'))) (text.dropWhile (· != '<'))

/-- The tokens of a document up to the first place that cannot be read. -/
structure Scan where
  tokens : List Token
  /-- Whether the whole document was read. -/
  complete : Bool
  deriving DecidableEq, Repr

/-- Put a token in front. -/
def Scan.cons (token : Token) (scan : Scan) : Scan := ⟨token :: scan.tokens, scan.complete⟩

/-- Behind a marker is no more than there was. -/
theorem breakAt?_length {marker text before after : List Char}
    (h : breakAt? marker text = some (before, after)) : after.length ≤ text.length := by
  induction text generalizing before after with
  | nil => simp [breakAt?] at h
  | cons c rest ih =>
    rw [breakAt?] at h
    split at h
    · simp only [Option.some.injEq, Prod.mk.injEq] at h
      rw [← h.2]
      simp
    · obtain ⟨⟨b, a⟩, hs, he⟩ := Option.map_eq_some_iff.mp h
      simp only [Prod.mk.injEq] at he
      have := ih hs
      rw [← he.2, List.length_cons]
      omega

/-- A tag takes at least its bracket. -/
theorem tagBody?_length {quote : Option Char} {text body after : List Char}
    (h : tagBody? quote text = some (body, after)) : after.length < text.length := by
  induction text generalizing quote body after with
  | nil => simp [tagBody?] at h
  | cons c rest ih =>
    rw [tagBody?] at h
    split at h
    · simp only [Option.some.injEq, Prod.mk.injEq] at h
      rw [← h.2, List.length_cons]
      omega
    · obtain ⟨⟨b, a⟩, hs, he⟩ := Option.map_eq_some_iff.mp h
      simp only [Prod.mk.injEq] at he
      have := ih hs
      rw [← he.2, List.length_cons]
      omega

/-- A document type makes nothing longer. -/
theorem doctypeBody?_length {depth : Nat} {text body after : List Char}
    (h : doctypeBody? depth text = some (body, after)) : after.length ≤ text.length := by
  induction text generalizing depth body after with
  | nil => simp [doctypeBody?] at h
  | cons c rest ih =>
    rw [doctypeBody?] at h
    split at h
    · simp only [Option.some.injEq, Prod.mk.injEq] at h
      rw [← h.2, List.length_cons]
      omega
    · obtain ⟨⟨b, a⟩, hs, he⟩ := Option.map_eq_some_iff.mp h
      simp only [Prod.mk.injEq] at he
      have := ih hs
      rw [← he.2, List.length_cons]
      omega

/-- Dropping characters makes nothing longer. -/
theorem dropWhile_length_le (p : Char → Bool) (text : List Char) :
    (text.dropWhile p).length ≤ text.length := by
  induction text with
  | nil => simp
  | cons c rest ih =>
    rw [List.dropWhile_cons]
    split
    · exact Nat.le_succ_of_le ih
    · exact Nat.le_refl _

/-- A token of a split leaves what the split left. -/
theorem ofSplit_length {build : List Char → Token} {split : Option (List Char × List Char)}
    {token : Token} {after : List Char} {bound : Nat}
    (h : Step.ofSplit build split = .token token after)
    (hs : ∀ body rest, split = some (body, rest) → rest.length ≤ bound) :
    after.length ≤ bound := by
  cases split with
  | none => simp [Step.ofSplit] at h
  | some pair =>
    simp only [Step.ofSplit, Step.token.injEq] at h
    rw [← h.2]
    exact hs pair.1 pair.2 rfl

/-- A step over a document type makes nothing longer. -/
theorem doctypeStep_length {text after : List Char} {token : Token}
    (h : doctypeStep text = .token token after) : after.length ≤ text.length := by
  unfold doctypeStep at h
  split at h
  · rename_i body rest hs
    dsimp only at h
    split at h
    · simp at h
    · simp only [Step.token.injEq] at h
      rw [← h.2]
      exact doctypeBody?_length hs
  · simp at h

/-- A step over a declaration makes nothing longer. -/
theorem declarationStep_length {text after : List Char} {token : Token}
    (h : declarationStep text = .token token after) : after.length ≤ text.length := by
  have hdrop : (text.drop 7).length ≤ text.length := by simp
  unfold declarationStep at h
  split at h
  · exact ofSplit_length h fun body rest hs => Nat.le_trans (breakAt?_length hs) hdrop
  · split at h
    · exact Nat.le_trans (doctypeStep_length h) hdrop
    · split at h
      · refine ofSplit_length h fun body rest hs => Nat.le_trans (breakAt?_length hs) ?_
        simp only [List.length_cons]
        omega
      · simp at h

/-- A step over an instruction makes nothing longer. -/
theorem instructionStep_length {text after : List Char} {token : Token}
    (h : instructionStep text = .token token after) : after.length ≤ text.length := by
  unfold instructionStep at h
  dsimp only at h
  split at h
  · simp only [Step.token.injEq] at h
    have := dropWhile_length_le (· != '>') text
    rw [← h.2, List.length_drop]
    omega
  · simp at h

/-- Every token takes at least one character. -/
theorem step_length {text after : List Char} {token : Token}
    (h : step text = .token token after) : after.length < text.length := by
  unfold step at h
  split at h
  · simp at h
  · simp at h
  · have := declarationStep_length h
    simp only [List.length_cons]
    omega
  · have := instructionStep_length h
    simp only [List.length_cons]
    omega
  · rename_i rest
    simp only [Step.token.injEq] at h
    have := dropWhile_length_le (· != '>') rest
    rw [← h.2, List.length_drop]
    simp only [List.length_cons]
    omega
  · have := ofSplit_length h fun body after hs => Nat.le_of_lt (tagBody?_length hs)
    simp only [List.length_cons]
    omega
  · rename_i hnil _ _ _ _ hopen
    simp only [Step.token.injEq] at h
    rw [← h.2]
    cases text with
    | nil => exact absurd rfl hnil
    | cons c rest =>
      have hc : (c != '<') = true := by
        simp only [bne_iff_ne, ne_eq]
        intro hc
        exact hopen rest (by rw [hc])
      rw [List.dropWhile_cons, if_pos hc]
      exact Nat.lt_succ_of_le (dropWhile_length_le _ _)

/-- Read the tokens of a document. -/
def scan (text : List Char) : Scan :=
  match _h : step text with
  | .finish => ⟨[], true⟩
  | .broken => ⟨[], false⟩
  | .token token after => (scan after).cons token
termination_by text.length
decreasing_by exact step_length _h

/-- The mark that may stand in front of a document. -/
def byteOrderMark : Char := '\uFEFF'

/-- Drop one mark at the start of a document. -/
def dropMark : List Char → List Char
  | c :: rest => if c == byteOrderMark then rest else c :: rest
  | [] => []

/-- Whether every closing tag names the innermost open element. -/
def namesMatch (opened : List (List Char)) : List Token → Bool
  | [] => true
  | .openTag tag :: rest => namesMatch (tag.name :: opened) rest
  | .closeTag name :: rest =>
    match opened with
    | [] => false
    | innermost :: outer => name == innermost && namesMatch outer rest
  | _ :: rest => namesMatch opened rest

end CallbackGateway.Markup
