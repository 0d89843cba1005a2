import CallbackGateway.Proofs.Markup.Children
import CallbackGateway.Proofs.Markup.DividedText
import CallbackGateway.Proofs.Markup.NotePlace
import Mathlib.Data.List.Chain

/-!
# The value of a leaf

The text that is written in a leaf is that of its texts and sections in order. A leaf is read as
this text, but for white space at its two ends: a text in front of a section or of a tag is kept
verbatim, and any other text loses the white space that it has at an end of the leaf. A leaf is
read as it is written just if there is no such white space.
-/

namespace CallbackGateway.Markup

/-- The piece of a token, if the token is text or a section. -/
def Token.piece? : Token → Option Piece
  | .text raw => some (.text raw)
  | .cdata raw => some (.cdata raw)
  | _ => none

/-- The text that is written in tokens, none if a reference in it is malformed. -/
def writtenText (tokens : List Token) : Option (List Char) :=
  joinPieces (tokens.filterMap Token.piece?)

/-- The pieces that the text of a leaf is kept as: a text that a section or a tag follows as
sections, any other as text. -/
def keptPieces : List Token → List Piece
  | [] => []
  | .text raw :: rest => placedPieces (unescape raw) rest.head? ++ keptPieces rest
  | .cdata raw :: rest => .cdata raw :: keptPieces rest
  | _ :: rest => keptPieces rest

/-- Whether a piece is text that begins with white space. -/
def Piece.opensBlank : Piece → Bool
  | .text raw => raw.head?.any isSpace
  | .cdata _ => false

/-- Whether a piece is text that ends with white space. -/
def Piece.closesBlank : Piece → Bool
  | .text raw => raw.getLast?.any isSpace
  | .cdata _ => false

/-- Whether pieces have white space at an end that no section holds. -/
def exposesEdge (pieces : List Piece) : Bool :=
  pieces.head?.any Piece.opensBlank || pieces.getLast?.any Piece.closesBlank

/-- Whether a text is another one without some of the white space at its ends. -/
def IsTrimmed (text whole : List Char) : Prop :=
  ∃ front back, (∀ c ∈ front, isSpace c = true) ∧ (∀ c ∈ back, isSpace c = true) ∧
    whole = front ++ (text ++ back)

/-- Content that is one text and nothing else; an empty text leaves no item. -/
inductive HoldsText : List Item → List Char → Prop
  | none : HoldsText [] []
  | text (text : List Char) : HoldsText [.text (some text)] text

section HoldsText

variable {items : List Item} {text other : List Char}

/-- A leaf holds one text. -/
theorem HoldsText.unique (h : HoldsText items text) (hother : HoldsText items other) :
    text = other := by
  cases h <;> cases hother <;> rfl

/-- A leaf with a text holds nothing else. -/
theorem HoldsText.isText (h : HoldsText items text) : ∀ item ∈ items, item.isText = true := by
  cases h with
  | none => simp
  | text => exact List.forall_mem_singleton.mpr rfl

/-- A leaf with a text holds one item at most. -/
theorem HoldsText.length_le (h : HoldsText items text) : items.length ≤ 1 := by
  cases h <;> simp

end HoldsText

/-! ## Trimmed runs -/

section Runs

variable {run pieces : List Piece} {text : List Char}

/-- A run that does not begin with white space is not trimmed there. -/
theorem trimRunStart_eq_self (hne : .text [] ∉ run)
    (h : run.head?.any Piece.opensBlank = false) : trimRunStart run = run := by
  cases run with
  | nil => rfl
  | cons piece run =>
    cases piece with
    | cdata raw => rfl
    | text raw =>
      cases raw with
      | nil => exact absurd List.mem_cons_self hne
      | cons c raw =>
        have hc : isSpace c = false := h
        rw [trimRunStart, List.dropWhile_cons_of_neg (by simp [hc])]

/-- A run that begins with white space is shorter without it. -/
theorem joinPieces_trimRunStart_lt (h : run.head?.any Piece.opensBlank = true)
    (hvalue : joinPieces run = some text) :
    ∃ rest, joinPieces (trimRunStart run) = some rest ∧ rest.length < text.length := by
  cases run with
  | nil => cases h
  | cons piece run =>
    cases piece with
    | cdata raw => cases h
    | text raw =>
      cases raw with
      | nil => cases h
      | cons c raw =>
        have hc : isSpace c = true := h
        have hspace : ∀ d ∈ [c], isSpace d = true := List.forall_mem_singleton.mpr hc
        have htail : trimRunStart (.text (c :: raw) :: run) = trimRunStart (.text raw :: run) := by
          rw [trimRunStart, List.dropWhile_cons_of_pos hc, trimRunStart]
        obtain ⟨first, hfirst, h⟩ := Option.bind_eq_some_iff.mp hvalue
        obtain ⟨others, hothers, h⟩ := Option.bind_eq_some_iff.mp h
        obtain rfl := Option.some.inj h
        obtain ⟨value, hraw, rfl⟩ := unescape_spaces_append hspace hfirst
        have hjoin : joinPieces (.text raw :: run) = some (value ++ others) := by
          rw [joinPieces, Piece.value, hraw, hothers]
          rfl
        obtain ⟨spaces, rest, -, hrest, hsplit⟩ := joinPieces_trimRunStart hjoin
        refine ⟨rest, htail ▸ hrest, ?_⟩
        rw [List.append_assoc, hsplit]
        simp only [List.length_append, List.length_singleton]
        omega

/-- A run that does not end with white space is not trimmed there. -/
theorem trimRunEnd_eq_self (h : run.getLast?.any Piece.closesBlank = false) :
    trimRunEnd run = run := by
  rcases List.eq_nil_or_concat run with rfl | ⟨front, last, rfl⟩
  · rfl
  · rw [List.concat_eq_append] at h ⊢
    rw [List.getLast?_concat, Option.any_some] at h
    rw [trimRunEnd_append (List.cons_ne_nil _ _)]
    cases last with
    | cdata raw => rfl
    | text raw =>
      have hself : trimSpaceEnd raw = raw := trimSpaceEnd_eq_self (isSpace_of_any_eq_false h)
      have htrim : trimRunEnd [.text raw] = [.text (trimSpaceEnd raw)] := rfl
      rw [htrim, hself]

/-- A run that ends with white space is shorter without it. -/
theorem joinPieces_trimRunEnd_lt (h : run.getLast?.any Piece.closesBlank = true)
    (hvalue : joinPieces run = some text) :
    ∃ rest, joinPieces (trimRunEnd run) = some rest ∧ rest.length < text.length := by
  rcases List.eq_nil_or_concat run with rfl | ⟨front, last, rfl⟩
  · cases h
  · rw [List.concat_eq_append] at h hvalue ⊢
    rw [List.getLast?_concat, Option.any_some] at h
    cases last with
    | cdata raw => cases h
    | text raw =>
      rcases List.eq_nil_or_concat raw with rfl | ⟨raw, c, rfl⟩
      · cases h
      · rw [List.concat_eq_append] at hvalue ⊢
        have hspace : ∀ d ∈ [c], isSpace d = true := by
          rw [Piece.closesBlank, List.concat_eq_append, List.getLast?_concat, Option.any_some] at h
          exact List.forall_mem_singleton.mpr h
        have htail : trimRunEnd (front ++ [.text (raw ++ [c])]) =
            trimRunEnd (front ++ [.text raw]) := by
          rw [trimRunEnd_append (List.cons_ne_nil _ _), trimRunEnd_append (List.cons_ne_nil _ _)]
          exact congrArg (front ++ [Piece.text ·]) (trimSpaceEnd_append_spaces hspace raw)
        rw [joinPieces_append, joinPieces_text] at hvalue
        obtain ⟨first, hfirst, h⟩ := Option.bind_eq_some_iff.mp hvalue
        obtain ⟨last, hlast, rfl⟩ := Option.map_eq_some_iff.mp h
        obtain ⟨value, hraw, rfl⟩ := unescape_append_spaces hspace hlast
        have hjoin : joinPieces (front ++ [.text raw]) = some (first ++ value) := by
          rw [joinPieces_append, joinPieces_text, hfirst, hraw]
          rfl
        obtain ⟨spaces, rest, -, hrest, hsplit⟩ := joinPieces_trimRunEnd hjoin
        refine ⟨rest, htail ▸ hrest, ?_⟩
        rw [← List.append_assoc, hsplit]
        simp only [List.length_append, List.length_singleton]
        omega

/-- Trimming at the start does not change how a run ends, if anything is left. -/
theorem closesBlank_trimRunStart (h : trimRunStart run ≠ []) :
    (trimRunStart run).getLast?.any Piece.closesBlank = run.getLast?.any Piece.closesBlank := by
  induction run with
  | nil => rfl
  | cons piece run ih =>
    cases piece with
    | cdata raw => rfl
    | text raw =>
      rw [trimRunStart] at h ⊢
      cases hdrop : raw.dropWhile isSpace with
      | nil =>
        rw [hdrop] at h
        obtain ⟨next, rest, rfl⟩ : ∃ next rest, run = next :: rest := by
          refine List.exists_cons_of_ne_nil ?_
          rintro rfl
          exact h rfl
        rw [List.getLast?_cons_cons, ← ih h]
      | cons c tail =>
        cases run with
        | nil =>
          have hlast : raw.getLast? = (c :: tail).getLast? := by
            rw [← List.takeWhile_append_dropWhile (p := isSpace) (l := raw), hdrop,
              List.getLast?_append]
            rfl
          exact congrArg (Option.any isSpace) hlast.symm
        | cons next rest => rw [List.getLast?_cons_cons, List.getLast?_cons_cons]

/-- Blank pieces stand for white space, and for some if there are any. -/
theorem exists_joinPieces_of_blank (hblank : ∀ piece ∈ pieces, piece.isBlank = true) :
    ∃ spaces, joinPieces pieces = some spaces ∧ (∀ c ∈ spaces, isSpace c = true) ∧
      (.text [] ∉ pieces → spaces = [] → pieces = []) := by
  induction pieces with
  | nil => exact ⟨[], rfl, by simp, fun _ _ => rfl⟩
  | cons piece pieces ih =>
    obtain ⟨hpiece, hothers⟩ := List.forall_mem_cons.mp hblank
    obtain ⟨spaces, hspaces, hall, -⟩ := ih hothers
    cases piece with
    | cdata raw => cases hpiece
    | text raw =>
      have hraw : ∀ c ∈ raw, isSpace c = true := List.all_eq_true.mp hpiece
      have hself : unescape raw = some raw :=
        unescape_eq_self fun hmem => absurd (hraw _ hmem) (by decide)
      refine ⟨raw ++ spaces, ?_, List.forall_mem_append.mpr ⟨hraw, hall⟩, fun hne hnil => ?_⟩
      · rw [joinPieces, Piece.value, hself, hspaces]
        rfl
      · obtain ⟨rfl, -⟩ := List.append_eq_nil_iff.mp hnil
        exact absurd List.mem_cons_self hne

/-- Blank pieces have white space at both ends. -/
theorem opensBlank_of_isBlank {piece : Piece} (hblank : piece.isBlank = true)
    (hne : piece ≠ .text []) : piece.opensBlank = true ∧ piece.closesBlank = true := by
  cases piece with
  | cdata raw => cases hblank
  | text raw =>
    have hraw : ∀ c ∈ raw, isSpace c = true := List.all_eq_true.mp hblank
    have hraw' : raw ≠ [] := fun hnil => hne (congrArg Piece.text hnil)
    refine ⟨?_, ?_⟩
    · rw [Piece.opensBlank, List.head?_eq_some_head hraw', Option.any_some]
      exact hraw _ (List.head_mem hraw')
    · rw [Piece.closesBlank, List.getLast?_eq_some_getLast hraw', Option.any_some]
      exact hraw _ (List.getLast_mem hraw')

/-- A run is read as its text, and without the white space that is exposed at its ends. -/
theorem exists_holdsText_runItem (hne : .text [] ∉ run) {whole : List Char}
    (hvalue : joinPieces run = some whole) :
    ∃ text, HoldsText (runItem run) text ∧ IsTrimmed text whole ∧
      (text = whole ↔ exposesEdge run = false) := by
  have hstart (h : exposesEdge run = false) : trimRunStart run = run :=
    trimRunStart_eq_self hne (Bool.or_eq_false_iff.mp h).1
  by_cases hnil : trimRunStart run = []
  · obtain ⟨spaces, hspaces, hall, hempty⟩ :=
      exists_joinPieces_of_blank (trimRunStart_eq_nil_iff.mp hnil)
    obtain rfl : spaces = whole := Option.some.inj (hspaces.symm.trans hvalue)
    refine ⟨[], by rw [runItem, hnil]; exact .none, ⟨spaces, [], hall, by simp, by simp⟩,
      fun h => ?_, fun h => ?_⟩
    · rw [hempty hne h.symm]
      rfl
    · rw [hstart h] at hnil
      rw [hnil] at hvalue
      exact Option.some.inj hvalue
  · obtain ⟨front, rest, hfront, hrest, rfl⟩ := joinPieces_trimRunStart hvalue
    obtain ⟨back, text, hback, htext, rfl⟩ := joinPieces_trimRunEnd hrest
    obtain ⟨piece, others, hcons⟩ := List.exists_cons_of_ne_nil hnil
    refine ⟨text, ?_, ⟨front, back, hfront, hback, rfl⟩, fun h => ?_, fun h => ?_⟩
    · have hitem : runItem run = [.text (joinPieces (trimRunEnd (trimRunStart run)))] := by
        rw [runItem, hcons]
      rw [hitem, htext]
      exact .text text
    · have hlength := congrArg List.length h
      simp only [List.length_append] at hlength
      refine Bool.or_eq_false_iff.mpr ⟨Bool.eq_false_iff.mpr fun hopens => ?_,
        Bool.eq_false_iff.mpr fun hcloses => ?_⟩
      · obtain ⟨short, hshort, hlt⟩ := joinPieces_trimRunStart_lt hopens hvalue
        obtain rfl := Option.some.inj (hshort.symm.trans hrest)
        simp only [List.length_append] at hlt
        omega
      · rw [← closesBlank_trimRunStart hnil] at hcloses
        obtain ⟨short, hshort, hlt⟩ := joinPieces_trimRunEnd_lt hcloses hrest
        obtain rfl := Option.some.inj (hshort.symm.trans htext)
        simp only [List.length_append] at hlt
        omega
    · rw [hstart h] at htext
      rw [trimRunEnd_eq_self (Bool.or_eq_false_iff.mp h).2, hvalue] at htext
      exact (Option.some.inj htext).symm

/-- White space around a run counts as exposed. -/
theorem exists_holdsText_between {before after : List Piece}
    (hne : .text [] ∉ before ++ (run ++ after))
    (hbefore : ∀ piece ∈ before, piece.isBlank = true)
    (hafter : ∀ piece ∈ after, piece.isBlank = true) {whole : List Char}
    (hvalue : joinPieces (before ++ (run ++ after)) = some whole) :
    ∃ text, HoldsText (runItem run) text ∧ IsTrimmed text whole ∧
      (text = whole ↔ exposesEdge (before ++ (run ++ after)) = false) := by
  obtain ⟨front, hfront, hfrontSpaces, hfrontNil⟩ := exists_joinPieces_of_blank hbefore
  obtain ⟨back, hback, hbackSpaces, hbackNil⟩ := exists_joinPieces_of_blank hafter
  rw [joinPieces_append, joinPieces_append, hfront, hback, Option.bind_some] at hvalue
  obtain ⟨rest, hrest, rfl⟩ := Option.map_eq_some_iff.mp hvalue
  obtain ⟨held, hheld, hrest⟩ := Option.bind_eq_some_iff.mp hrest
  obtain rfl : held ++ back = rest := Option.some.inj hrest
  simp only [List.mem_append, not_or] at hne
  obtain ⟨hneBefore, hneRun, hneAfter⟩ := hne
  obtain ⟨text, htext, ⟨first, last, hfirst, hlast, rfl⟩, hiff⟩ :=
    exists_holdsText_runItem hneRun hheld
  have hwhole (hbeforeNil : before = []) (hafterNil : after = []) :
      text = front ++ (first ++ (text ++ last) ++ back) ↔
        exposesEdge (before ++ (run ++ after)) = false := by
    subst hbeforeNil hafterNil
    obtain rfl : [] = front := Option.some.inj hfront
    obtain rfl : [] = back := Option.some.inj hback
    rw [List.nil_append, List.append_nil, List.nil_append, List.append_nil]
    exact hiff
  refine ⟨text, htext, ⟨front ++ first, last ++ back, List.forall_mem_append.mpr
    ⟨hfrontSpaces, hfirst⟩, List.forall_mem_append.mpr ⟨hlast, hbackSpaces⟩, by simp⟩,
    fun h => ?_, fun h => ?_⟩
  · have hlength := congrArg List.length h
    simp only [List.length_append] at hlength
    refine (hwhole (hfrontNil hneBefore ?_) (hbackNil hneAfter ?_)).mp h
    · exact List.length_eq_zero_iff.mp (by omega)
    · exact List.length_eq_zero_iff.mp (by omega)
  · obtain ⟨hopens, hcloses⟩ := Bool.or_eq_false_iff.mp h
    refine (hwhole ?_ ?_).mpr h
    · by_contra hcons
      obtain ⟨piece, others, rfl⟩ := List.exists_cons_of_ne_nil hcons
      have hpiece : piece.opensBlank = true := (opensBlank_of_isBlank
        (hbefore _ List.mem_cons_self) fun h => hneBefore (h ▸ List.mem_cons_self)).1
      rw [List.cons_append, List.head?_cons, Option.any_some, hpiece] at hopens
      cases hopens
    · by_contra hcons
      obtain ⟨others, piece, rfl⟩ := (List.eq_nil_or_concat after).resolve_left hcons
      rw [List.concat_eq_append] at hafter hneAfter hcloses
      have hmem : piece ∈ others ++ [piece] := List.mem_append_right _ List.mem_cons_self
      have hpiece : piece.closesBlank = true := (opensBlank_of_isBlank
        (hafter _ hmem) fun h => hneAfter (h ▸ hmem)).2
      rw [← List.append_assoc, ← List.append_assoc, List.getLast?_concat, Option.any_some,
        hpiece] at hcloses
      cases hcloses

end Runs

/-- The piece of a part, if it is one. -/
def Part.piece? : Part → Option Piece
  | .piece held => some held
  | .whole _ | .boundary => none

/-- Parts that are no more than one text are one run and blank pieces around it. -/
theorem exists_run_of_length_le {parts : List Part} (hwhole : ∀ item, .whole item ∉ parts)
    (run : List Piece) (hlength : (joinRuns run parts).length ≤ 1) :
    ∃ before held after, run.reverse ++ parts.filterMap Part.piece? = before ++ (held ++ after) ∧
      (∀ piece ∈ before, piece.isBlank = true) ∧ (∀ piece ∈ after, piece.isBlank = true) ∧
      joinRuns run parts = runItem held := by
  induction parts generalizing run with
  | nil => exact ⟨[], run.reverse, [], by simp, by simp, by simp, rfl⟩
  | cons part parts ih =>
    have hothers : ∀ item, .whole item ∉ parts := fun item hmem =>
      hwhole item (List.mem_cons_of_mem _ hmem)
    cases part with
    | whole item => exact absurd List.mem_cons_self (hwhole item)
    | piece piece =>
      rw [joinRuns] at hlength ⊢
      obtain ⟨before, held, after, hsplit, hblank⟩ := ih hothers _ hlength
      refine ⟨before, held, after, ?_, hblank⟩
      rw [← hsplit, List.reverse_cons, List.append_assoc]
      rfl
    | boundary =>
      have hpieces : (Part.boundary :: parts).filterMap Part.piece? =
        parts.filterMap Part.piece? := rfl
      rw [joinRuns] at hlength ⊢
      rw [hpieces]
      by_cases hrun : ∀ piece ∈ run, piece.isBlank = true
      · have hreverse := blank_reverse.mpr hrun
        rw [runItem_of_blank hreverse, List.nil_append] at hlength ⊢
        obtain ⟨before, held, after, hsplit, hbefore, hafter, hjoin⟩ := ih hothers [] hlength
        rw [List.reverse_nil, List.nil_append] at hsplit
        exact ⟨run.reverse ++ before, held, after, by rw [hsplit, List.append_assoc],
          List.forall_mem_append.mpr ⟨hreverse, hbefore⟩, hafter, hjoin⟩
      · obtain ⟨value, hvalue⟩ := runItem_of_not_blank fun h => hrun (blank_reverse.mp h)
        have hnil : joinRuns [] parts = [] := by
          rw [hvalue, List.length_append, List.length_singleton] at hlength
          exact List.length_eq_zero_iff.mp (by omega)
        refine ⟨[], run.reverse, parts.filterMap Part.piece?, rfl, by simp, fun piece hpiece => ?_,
          by rw [hnil, List.append_nil]⟩
        obtain ⟨part, hpart, hsome⟩ := List.mem_filterMap.mp hpiece
        have hlayout := (joinRuns_eq_nil_iff hothers).mp hnil part hpart
        cases part with
        | whole | boundary => cases hsome
        | piece held =>
          obtain rfl := Option.some.inj hsome
          exact hlayout

/-! ## Separate texts -/

/-- Tokens in which no text is empty or stands next to another one. -/
structure Separate (tokens : List Token) : Prop where
  ne_nil : .text [] ∉ tokens
  apart : tokens.IsChain fun first second => first.isText = false ∨ second.isText = false

/-- Part of separate tokens is separate. -/
theorem Separate.of_part {tokens others : List Token} (h : Separate tokens)
    (hpart : others <:+: tokens) : Separate others :=
  ⟨fun hmem => h.ne_nil (hpart.subset hmem), List.IsChain.infix h.apart hpart⟩

/-- The texts of a document are separate. -/
theorem separate_scan {text : List Char} : Separate (scan text).tokens := by
  generalize htokens : (scan text).tokens = tokens
  induction tokens generalizing text with
  | nil => exact ⟨List.not_mem_nil, .nil⟩
  | cons token tokens ih =>
    obtain ⟨after, hstep, hrest, -⟩ := step_of_scan_cons htokens
    obtain ⟨written, -, hbracket, hlexeme⟩ := lexeme_of_step hstep
    obtain ⟨hne, hapart⟩ := ih hrest
    refine ⟨?_, List.isChain_cons.mpr ⟨fun next hnext => ?_, hapart⟩⟩
    · rw [List.mem_cons, not_or]
      refine ⟨?_, hne⟩
      rintro rfl
      rcases hlexeme with hlexeme | ⟨-, hunclosed⟩
      · exact (of_lexeme_text hlexeme).2.1 rfl
      · cases hunclosed
    · cases htext : token.isText with
      | false => exact .inl rfl
      | true => exact .inr (isText_of_scan (hbracket htext) next (hrest ▸ hnext))

/-! ## Leaves -/

/-- No text of a leaf is kept as an empty one. -/
theorem notMem_keptPieces {tokens : List Token} (h : .text [] ∉ tokens) :
    .text [] ∉ keptPieces tokens := by
  induction tokens with
  | nil => exact List.not_mem_nil
  | cons token tokens ih =>
    rw [List.mem_cons, not_or] at h
    have hrest := ih h.2
    cases token with
    | openTag | emptyTag | closeTag | comment | instruction | doctype => exact hrest
    | cdata raw =>
      rw [keptPieces, List.mem_cons, not_or]
      exact ⟨Piece.noConfusion, hrest⟩
    | text raw =>
      rw [keptPieces, List.mem_append, not_or]
      refine ⟨fun hmem => ?_, hrest⟩
      cases htext : unescape raw with
      | none => simp [htext, placedPieces] at hmem
      | some text =>
        have hne : text ≠ [] := ne_nil_of_unescape (fun hnil => h.1 (by rw [hnil])) htext
        obtain ⟨c, rest, rfl⟩ := List.exists_cons_of_ne_nil hne
        rw [htext, placedPieces] at hmem
        split at hmem
        · obtain ⟨chunk, -, hchunk⟩ := List.mem_map.mp hmem
          cases hchunk
        · have hescape := Piece.text.inj (List.mem_singleton.mp hmem)
          exact escapeChar_ne_nil c (List.append_eq_nil_iff.mp hescape.symm).1

/-- The text of a leaf is kept. -/
theorem exists_joinPieces_keptPieces {tokens : List Token}
    (h : tokens.all Token.hasValue = true) :
    ∃ text, joinPieces (keptPieces tokens) = some text ∧ writtenText tokens = some text := by
  induction tokens with
  | nil => exact ⟨[], rfl, rfl⟩
  | cons token tokens ih =>
    rw [List.all_cons, Bool.and_eq_true] at h
    obtain ⟨rest, hkept, hwritten⟩ := ih h.2
    cases token with
    | openTag | emptyTag | closeTag | comment | instruction | doctype =>
      exact ⟨rest, hkept, hwritten⟩
    | cdata raw =>
      refine ⟨raw ++ rest, ?_, ?_⟩
      · rw [keptPieces, joinPieces, hkept]
        rfl
      · change joinPieces (.cdata raw :: tokens.filterMap Token.piece?) = _
        rw [joinPieces, ← writtenText, hwritten]
        rfl
    | text raw =>
      obtain ⟨text, htext⟩ := Option.isSome_iff_exists.mp h.1
      have hsplit : writtenText (.text raw :: tokens) =
          (joinPieces [.text raw]).bind fun text => (writtenText tokens).map (text ++ ·) :=
        joinPieces_append [.text raw] _
      refine ⟨text ++ rest, ?_, ?_⟩
      · rw [keptPieces, joinPieces_append, joinPieces_placedPieces, hkept, htext]
        rfl
      · rw [hsplit, joinPieces_text, htext, hwritten]
        rfl

/-- The pieces of what is placed for pending text. -/
theorem filterMap_piece?_placePending (pending : Option (List Char)) (next : Option Token) :
    (placePending pending next).filterMap Token.piece? = placedPieces pending next := by
  have hpiece (piece : Piece) : piece.token.piece? = some piece := by cases piece <;> rfl
  rw [← map_token_placedPieces, List.filterMap_map]
  exact (List.filterMap_congr fun piece _ => hpiece piece).trans List.filterMap_some

/-- The pieces among the parts of tokens without tags are the texts and sections. -/
theorem exists_content_pieces {tokens : List Token} (h : ∀ token ∈ tokens, token.isTag = false) :
    ∃ parts, Content tokens parts ∧ (∀ item, .whole item ∉ parts) ∧
      parts.filterMap Part.piece? = tokens.filterMap Token.piece? := by
  induction tokens with
  | nil => exact ⟨[], .nil, by simp, rfl⟩
  | cons token tokens ih =>
    obtain ⟨htag, hrest⟩ := List.forall_mem_cons.mp h
    obtain ⟨parts, hparts, hwhole, hpieces⟩ := ih hrest
    cases token with
    | openTag | emptyTag | closeTag => cases htag
    | text raw =>
      exact ⟨_, .text hparts, by simpa using hwhole, congrArg (Piece.text raw :: ·) hpieces⟩
    | cdata raw =>
      exact ⟨_, .cdata hparts, by simpa using hwhole, congrArg (Piece.cdata raw :: ·) hpieces⟩
    | comment body => exact ⟨_, .comment hparts, hwhole, hpieces⟩
    | instruction body => exact ⟨_, .instruction hparts, hwhole, hpieces⟩
    | doctype body => exact ⟨_, .doctype hparts, by simpa using hwhole, hpieces⟩

/-- What is kept of a leaf are its kept pieces. -/
theorem filterMap_keepLeafTextFrom {inner kept : List Token} {name : List Char}
    (htags : ∀ token ∈ inner, token.isTag = false) (hseparate : Separate inner)
    (h : keepLeafTextFrom true none (inner ++ [.closeTag name]) = some kept) :
    kept.filterMap Token.piece? = keptPieces (inner ++ [.closeTag name]) := by
  induction inner generalizing kept with
  | nil =>
    obtain rfl : [.closeTag name] = kept := Option.some.inj h
    rfl
  | cons token inner ih =>
    obtain ⟨htag, hothers⟩ := List.forall_mem_cons.mp htags
    have hinner : Separate inner := hseparate.of_part ⟨[token], [], by simp⟩
    rw [List.cons_append] at h ⊢
    cases token with
    | openTag | emptyTag | closeTag => cases htag
    | comment | instruction | doctype =>
      rw [keepLeafTextFrom_markup rfl] at h
      obtain ⟨others, hkept, rfl⟩ := Option.map_eq_some_iff.mp h
      have hpieces := ih hothers hinner hkept
      exact hpieces
    | cdata raw =>
      rw [keepLeafTextFrom_markup rfl] at h
      obtain ⟨others, hkept, rfl⟩ := Option.map_eq_some_iff.mp h
      exact congrArg (Piece.cdata raw :: ·) (ih hothers hinner hkept)
    | text raw =>
      rw [keepLeafTextFrom_leafText] at h
      obtain ⟨text, htext, h⟩ := Option.bind_eq_some_iff.mp h
      have hfirst : ∀ token ∈ (inner ++ [Token.closeTag name]).head?, token.isText = false := by
        intro next hnext
        cases inner with
        | nil =>
          obtain rfl := Option.some.inj hnext
          rfl
        | cons other inner =>
          obtain rfl := Option.some.inj hnext
          exact ((List.isChain_cons_cons.mp hseparate.apart).1).resolve_left Bool.noConfusion
      rw [Option.getD_none, List.nil_append, keepLeafTextFrom_pending hfirst] at h
      obtain ⟨others, hkept, rfl⟩ := Option.map_eq_some_iff.mp h
      rw [List.filterMap_append, ih hothers hinner hkept, keptPieces, htext,
        filterMap_piece?_placePending]

/-- Content that is kept as some pieces is read as the text of these, but for the white space that
is exposed at its ends. -/
theorem exists_writtenText_of_parts {tokens : List Token} {parts : List Part} {text : List Char}
    (hwhole : ∀ item, .whole item ∉ parts)
    (hpieces : parts.filterMap Part.piece? = keptPieces tokens) (hne : .text [] ∉ tokens)
    (hvalues : tokens.all Token.hasValue = true) (htext : HoldsText (joinRuns [] parts) text) :
    ∃ whole, writtenText tokens = some whole ∧ IsTrimmed text whole ∧
      (text = whole ↔ exposesEdge (keptPieces tokens) = false) := by
  obtain ⟨before, run, after, hrun, hbefore, hafter, hitems⟩ :=
    exists_run_of_length_le hwhole [] htext.length_le
  obtain ⟨whole, hkept, hwritten⟩ := exists_joinPieces_keptPieces hvalues
  have hnonempty := notMem_keptPieces hne
  rw [List.reverse_nil, List.nil_append, hpieces] at hrun
  rw [hrun] at hkept hnonempty ⊢
  obtain ⟨value, hvalue, htrimmed⟩ := exists_holdsText_between hnonempty hbefore hafter hkept
  rw [← hitems] at hvalue
  obtain rfl := hvalue.unique htext
  exact ⟨whole, hwritten, htrimmed⟩

/-- A leaf is read as the text that is written in it, but for the white space that is exposed at
its ends. -/
theorem IsElement.exists_writtenText {root : List Token} {tag : Tag} {content : List Item}
    {text : List Char} (hroot : IsElement root) (hseparate : Separate root)
    (hitem : (Markup.keepLeafText root).map assemble = some [.element tag content true])
    (htext : HoldsText content text) :
    ∃ whole, writtenText root = some whole ∧ IsTrimmed text whole ∧
      (text = whole ↔ exposesEdge (keptPieces root) = false) := by
  obtain ⟨kept, hkept, hassemble⟩ := Option.map_eq_some_iff.mp hitem
  cases hroot with
  | emptyTag root =>
    obtain rfl : [.emptyTag root] = kept := Option.some.inj hkept
    obtain ⟨-, rfl, -⟩ : root = tag ∧ [] = content ∧ true = true := by
      simpa [assemble, assembleFrom, leaveOpen, itemsOf, joinRuns, runItem, trimRunStart]
        using hassemble
    cases htext
    exact ⟨[], rfl, ⟨[], [], by simp, by simp, rfl⟩, by simp [keptPieces, exposesEdge]⟩
  | @element root inner hinner =>
    rw [Markup.keepLeafText, keepLeafTextFrom_markup rfl, leafAfter] at hkept
    obtain ⟨keptInner, hkeptInner, rfl⟩ := Option.map_eq_some_iff.mp hkept
    obtain ⟨front, _, _, rfl, hnone, halike⟩ :=
      hinner.exists_keptAlike (fun _ => true) hkeptInner
    obtain rfl : [] = _ := Option.some.inj hnone
    obtain ⟨parts, hparts, -⟩ := halike.parts
    obtain ⟨rfl, rfl⟩ : root = tag ∧ joinRuns [] parts = content := by
      have helement : Content (.openTag root :: (front ++ [.closeTag root.name]))
          [.whole (.element root (joinRuns [] parts) true)] := .element hparts .nil
      rw [placePending, List.nil_append, helement.assemble] at hassemble
      simpa [joinRuns, runItem, trimRunStart] using hassemble
    -- An element that is read as a text holds no other, and its tokens are text and notes.
    have hfrontTags := hparts.noTags_of_joinRuns htext.isText
    have htags : ∀ token ∈ inner, token.isTag = false := by
      have hsame := filter_keepLeafTextFrom hkeptInner
      rw [List.filter_append, List.filter_append] at hsame
      rw [noTags_iff, ← List.append_cancel_right hsame, ← noTags_iff]
      exact hfrontTags
    obtain ⟨held, hheld, hwhole, hpieces⟩ := exists_content_pieces hfrontTags
    have hkeptPieces := filterMap_keepLeafTextFrom htags
      (hseparate.of_part ⟨[.openTag root], [_], rfl⟩) hkeptInner
    have hfront : (front ++ [Token.closeTag root.name]).filterMap Token.piece? =
        front.filterMap Token.piece? := by simp [Token.piece?]
    have hvalues : (Token.openTag root :: (inner ++ [.closeTag root.name])).all
        Token.hasValue = true := by
      rw [List.all_cons, List.all_append, all_hasValue_of_inLeaf htags hkeptInner]
      rfl
    rw [← hparts.assemble, hheld.assemble] at htext
    exact exists_writtenText_of_parts hwhole (hpieces.trans (hfront.symm.trans hkeptPieces))
      hseparate.ne_nil hvalues htext

end CallbackGateway.Markup
