import CallbackGateway.Proofs.Markup.Root
import CallbackGateway.Proofs.Markup.Readable
import Mathlib.Data.List.Induction

/-!
# White space at the ends of runs

A run is read as the text that its pieces join to, but for white space at the ends: which of it
counts depends on how the text is divided into pieces. Two divisions of one text are read as the
same text but for this white space, and where the text does not begin or end with white space
they are read as the same.
-/

namespace CallbackGateway.Markup

/-! ## Trimming -/

/-- Drop the characters of a class at both ends of a text. -/
def trimBy (p : Char → Bool) (text : List Char) : List Char :=
  ((text.dropWhile p).reverse.dropWhile p).reverse

/-- Drop the white space at the end of a text. -/
def trimSpaceEnd (text : List Char) : List Char := (text.reverse.dropWhile isSpace).reverse

/-- Drop the white space at both ends of a text. -/
def trimSpace (text : List Char) : List Char := trimBy isSpace text

section

variable {p q : Char → Bool} {edge : List Char}

/-- What is trimmed may be added in front. -/
theorem trimBy_append_left (h : ∀ c ∈ edge, p c = true) (text : List Char) :
    trimBy p (edge ++ text) = trimBy p text := by
  rw [trimBy, List.dropWhile_append_of_pos h, trimBy]

/-- What is trimmed may be added behind. -/
theorem trimBy_append_right (h : ∀ c ∈ edge, p c = true) (text : List Char) :
    trimBy p (text ++ edge) = trimBy p text := by
  rw [trimBy, trimBy, List.dropWhile_append]
  split
  · rename_i hnil
    rw [List.isEmpty_iff.mp hnil, List.dropWhile_eq_nil_iff.mpr h]
  · rw [List.reverse_append,
      List.dropWhile_append_of_pos fun c hc => h c (List.mem_reverse.mp hc)]

/-- A text is what is left of it, between what is trimmed. -/
theorem exists_trimBy (p : Char → Bool) (text : List Char) :
    ∃ front back, (∀ c ∈ front, p c = true) ∧ (∀ c ∈ back, p c = true) ∧
      text = front ++ (trimBy p text ++ back) := by
  refine ⟨text.takeWhile p, ((text.dropWhile p).reverse.takeWhile p).reverse,
    fun c hc => List.mem_takeWhile_imp hc,
    fun c hc => List.mem_takeWhile_imp (List.mem_reverse.mp hc), ?_⟩
  rw [trimBy, ← List.reverse_append, List.takeWhile_append_dropWhile, List.reverse_reverse,
    List.takeWhile_append_dropWhile]

/-- Trimming by a wider class makes up for trimming by a narrower one. -/
theorem trimBy_trimBy (h : ∀ c, p c = true → q c = true) (text : List Char) :
    trimBy q (trimBy p text) = trimBy q text := by
  obtain ⟨front, back, hfront, hback, htext⟩ := exists_trimBy p text
  have hwider {edge : List Char} (hedge : ∀ c ∈ edge, p c = true) : ∀ c ∈ edge, q c = true :=
    fun c hc => h c (hedge c hc)
  calc trimBy q (trimBy p text)
      = trimBy q (front ++ (trimBy p text ++ back)) := by
        rw [trimBy_append_left (hwider hfront), trimBy_append_right (hwider hback)]
    _ = trimBy q text := by rw [← htext]

end

variable {text spaces : List Char}

/-- White space behind a text is trimmed. -/
theorem trimSpaceEnd_append_spaces (h : ∀ c ∈ spaces, isSpace c = true) (text : List Char) :
    trimSpaceEnd (text ++ spaces) = trimSpaceEnd text := by
  rw [trimSpaceEnd, List.reverse_append,
    List.dropWhile_append_of_pos fun c hc => h c (List.mem_reverse.mp hc), trimSpaceEnd]

/-- Behind a text that does not end with white space, only what follows is trimmed. -/
theorem trimSpaceEnd_append {first second : List Char}
    (h : (∀ c ∈ first.getLast?, isSpace c = false) ∨ ∃ c ∈ second, isSpace c = false) :
    trimSpaceEnd (first ++ second) = first ++ trimSpaceEnd second := by
  rw [trimSpaceEnd, List.reverse_append, List.dropWhile_append, trimSpaceEnd]
  split
  · rename_i hnil
    have hnil := List.isEmpty_iff.mp hnil
    have hspaces : ∀ c ∈ second, isSpace c = true := fun c hc =>
      List.dropWhile_eq_nil_iff.mp hnil c (List.mem_reverse.mpr hc)
    have hlast : ∀ c ∈ first.getLast?, isSpace c = false := by
      rcases h with h | ⟨c, hc, hspace⟩
      · exact h
      · rw [hspaces c hc] at hspace
        cases hspace
    rw [hnil, List.reverse_nil, List.append_nil]
    cases hfirst : first.reverse with
    | nil => rw [List.reverse_eq_nil_iff.mp hfirst]; rfl
    | cons c rest =>
      have hc : isSpace c = false := by
        refine hlast c ?_
        rw [Option.mem_def, ← List.head?_reverse, hfirst]
        rfl
      rw [List.dropWhile_cons_of_neg (by simp [hc]), ← hfirst, List.reverse_reverse]
  · rw [List.reverse_append, List.reverse_reverse]

/-- A text is what is left of it, and the white space that is trimmed. -/
theorem exists_spaces_trimSpaceEnd (text : List Char) :
    ∃ spaces, (∀ c ∈ spaces, isSpace c = true) ∧ text = trimSpaceEnd text ++ spaces := by
  refine ⟨(text.reverse.takeWhile isSpace).reverse,
    fun c hc => List.mem_takeWhile_imp (List.mem_reverse.mp hc), ?_⟩
  rw [trimSpaceEnd, ← List.reverse_append, List.takeWhile_append_dropWhile, List.reverse_reverse]

/-- A text that does not end in white space is not trimmed. -/
theorem trimSpaceEnd_eq_self (h : ∀ c ∈ text.getLast?, isSpace c = false) :
    trimSpaceEnd text = text := by
  have hnil : trimSpaceEnd (text ++ []) = text ++ trimSpaceEnd [] := trimSpaceEnd_append (.inl h)
  rwa [List.append_nil, trimSpaceEnd.eq_1 [], List.reverse_nil, List.dropWhile_nil,
    List.reverse_nil, List.append_nil] at hnil

/-! ## Trimmed escapes -/

/-- White space is written as it is. -/
theorem escapeChar_of_isSpace {c : Char} (h : isSpace c = true) : escapeChar c = [c] := by
  have hne {mark : Char} (hmark : isSpace mark = false) : (c == mark) = false := by
    rw [beq_eq_false_iff_ne]
    rintro rfl
    rw [h] at hmark
    cases hmark
  unfold escapeChar
  rw [hne (by decide), hne (by decide), hne (by decide), hne (by decide), hne (by decide)]
  rfl

/-- What is written for a character that is no white space holds none. -/
theorem isSpace_of_mem_escapeChar {c d : Char} (h : isSpace c = false) (hd : d ∈ escapeChar c) :
    isSpace d = false := by
  have hname {reference : List Char} (hreference : reference.all (!isSpace ·) = true)
      (hmem : d ∈ reference) : isSpace d = false :=
    (Bool.not_eq_true' _).mp (List.all_eq_true.mp hreference d hmem)
  unfold escapeChar at hd
  split at hd
  · exact hname rfl hd
  · split at hd
    · exact hname rfl hd
    · split at hd
      · exact hname rfl hd
      · split at hd
        · exact hname rfl hd
        · split at hd
          · exact hname rfl hd
          · obtain rfl := List.mem_singleton.mp hd
            exact h

/-- Every character takes some characters to be written. -/
theorem escapeChar_ne_nil (c : Char) : escapeChar c ≠ [] := by
  unfold escapeChar
  repeat' split
  all_goals exact List.cons_ne_nil _ _

/-- White space in front is dropped before or after writing. -/
theorem dropWhile_escape (text : List Char) :
    (escape text).dropWhile isSpace = escape (text.dropWhile isSpace) := by
  induction text with
  | nil => rfl
  | cons c rest ih =>
    have hcons : escape (c :: rest) = escapeChar c ++ escape rest := rfl
    cases hc : isSpace c with
    | true =>
      rw [hcons, escapeChar_of_isSpace hc, List.singleton_append, List.dropWhile_cons_of_pos hc,
        List.dropWhile_cons_of_pos hc, ih]
    | false =>
      obtain ⟨d, tail, hd⟩ := List.exists_cons_of_ne_nil (escapeChar_ne_nil c)
      have hspace : isSpace d = false := isSpace_of_mem_escapeChar hc (by simp [hd])
      rw [List.dropWhile_cons_of_neg (by simp [hc]), hcons, hd, List.cons_append,
        List.dropWhile_cons_of_neg (by simp [hspace])]

/-- White space at the end is trimmed before or after writing. -/
theorem trimSpaceEnd_escape (text : List Char) :
    trimSpaceEnd (escape text) = escape (trimSpaceEnd text) := by
  induction text using List.reverseRecOn with
  | nil => rfl
  | append_singleton rest c ih =>
    have happend : escape (rest ++ [c]) = escape rest ++ escapeChar c := by simp [escape]
    cases hc : isSpace c with
    | true =>
      have hspaces : ∀ d ∈ [c], isSpace d = true := List.forall_mem_singleton.mpr hc
      rw [happend, escapeChar_of_isSpace hc, trimSpaceEnd_append_spaces hspaces,
        trimSpaceEnd_append_spaces hspaces, ih]
    | false =>
      rw [trimSpaceEnd_eq_self fun d hd => ?_, trimSpaceEnd_eq_self (by simpa using hc)]
      obtain ⟨front, last, hlast⟩ := List.eq_nil_or_concat (escapeChar c) |>.resolve_left
        (escapeChar_ne_nil c)
      rw [happend, hlast, List.concat_eq_append, ← List.append_assoc, List.getLast?_concat] at hd
      obtain rfl := Option.some.inj hd
      exact isSpace_of_mem_escapeChar hc (by simp [hlast])

/-! ## Joined pieces -/

/-- Pieces are joined one part after another. -/
theorem joinPieces_append (first second : List Piece) :
    joinPieces (first ++ second) =
      (joinPieces first).bind fun text => (joinPieces second).map (text ++ ·) := by
  induction first with
  | nil => exact Option.map_id'.symm
  | cons piece first ih =>
    rw [List.cons_append, joinPieces, joinPieces, ih]
    cases piece.value <;> cases joinPieces first <;> cases joinPieces second <;> simp

/-- One raw text is joined to what it stands for. -/
theorem joinPieces_text (raw : List Char) : joinPieces [.text raw] = unescape raw := by
  cases hvalue : unescape raw <;> simp [joinPieces, Piece.value, hvalue]

/-- White space in front of a text stands for itself. -/
theorem unescape_spaces_append {raw text : List Char} (h : ∀ c ∈ spaces, isSpace c = true)
    (hvalue : unescape (spaces ++ raw) = some text) :
    ∃ rest, unescape raw = some rest ∧ text = spaces ++ rest := by
  have hspaces : unescape spaces = some spaces :=
    unescape_eq_self fun hmem => absurd (h _ hmem) (by decide)
  rw [unescape, unescapeFrom_append hspaces] at hvalue
  obtain ⟨rest, hrest, rfl⟩ := Option.map_eq_some_iff.mp hvalue
  exact ⟨rest, hrest, rfl⟩

/-- White space behind a raw text stands for itself. -/
theorem unescape_append_spaces {raw text : List Char} (h : ∀ c ∈ spaces, isSpace c = true)
    (hvalue : unescape (raw ++ spaces) = some text) :
    ∃ rest, unescape raw = some rest ∧ text = rest ++ spaces := by
  have hraw : isEscaped raw = true := by
    rw [← isEscaped_append_spaces h, isEscaped, hvalue]
    rfl
  have hspaces : unescapeFrom none spaces = some spaces :=
    unescape_eq_self fun hmem => absurd (h _ hmem) (by decide)
  obtain ⟨rest, hrest⟩ := Option.isSome_iff_exists.mp hraw
  rw [unescape, unescapeFrom_append hrest, hspaces] at hvalue
  exact ⟨rest, hrest, (Option.some.inj hvalue).symm⟩

/-- What is dropped at the start of a run is white space at the start of its text. -/
theorem joinPieces_trimRunStart {run : List Piece} {text : List Char}
    (h : joinPieces run = some text) : ∃ spaces rest, (∀ c ∈ spaces, isSpace c = true) ∧
      joinPieces (trimRunStart run) = some rest ∧ text = spaces ++ rest := by
  induction run generalizing text with
  | nil =>
    obtain rfl := Option.some.inj h
    exact ⟨[], [], by simp, rfl, rfl⟩
  | cons piece run ih =>
    cases piece with
    | cdata raw => exact ⟨[], text, by simp, h, rfl⟩
    | text raw =>
      have hspaces : ∀ c ∈ raw.takeWhile isSpace, isSpace c = true := fun c hc =>
        List.mem_takeWhile_imp hc
      obtain ⟨first, hfirst, others, hothers, rfl⟩ : ∃ first, unescape raw = some first ∧
          ∃ others, joinPieces run = some others ∧ text = first ++ others := by
        rw [joinPieces] at h
        obtain ⟨first, hfirst, h⟩ := Option.bind_eq_some_iff.mp h
        obtain ⟨others, hothers, h⟩ := Option.bind_eq_some_iff.mp h
        exact ⟨first, hfirst, others, hothers, (Option.some.inj h).symm⟩
      rw [← List.takeWhile_append_dropWhile (p := isSpace) (l := raw)] at hfirst
      obtain ⟨rest, hrest, rfl⟩ := unescape_spaces_append hspaces hfirst
      rw [trimRunStart]
      split
      · rename_i hnil
        rw [hnil] at hrest
        obtain rfl := Option.some.inj hrest
        obtain ⟨more, tail, hmore, htail, rfl⟩ := ih hothers
        refine ⟨raw.takeWhile isSpace ++ more, tail,
          List.forall_mem_append.mpr ⟨hspaces, hmore⟩, htail, by simp⟩
      · rename_i c tail hdrop
        rw [hdrop] at hrest
        refine ⟨raw.takeWhile isSpace, rest ++ others, hspaces, ?_, List.append_assoc ..⟩
        rw [joinPieces, Piece.value, hrest, hothers]
        rfl

/-- Only the last piece of a run is trimmed at its end. -/
theorem trimRunEnd_append {second : List Piece} (hne : second ≠ []) (first : List Piece) :
    trimRunEnd (first ++ second) = first ++ trimRunEnd second := by
  induction first with
  | nil => rfl
  | cons piece first ih =>
    obtain ⟨next, rest, hcons⟩ :=
      List.exists_cons_of_ne_nil (List.append_ne_nil_of_right_ne_nil first hne)
    rw [List.cons_append, List.cons_append, ← ih, hcons, trimRunEnd]
    exact List.cons_ne_nil _ _

/-- What is dropped at the end of a run is white space at the end of its text. -/
theorem joinPieces_trimRunEnd {run : List Piece} {text : List Char}
    (h : joinPieces run = some text) : ∃ spaces rest, (∀ c ∈ spaces, isSpace c = true) ∧
      joinPieces (trimRunEnd run) = some rest ∧ text = rest ++ spaces := by
  rcases List.eq_nil_or_concat run with rfl | ⟨front, last, rfl⟩
  · exact ⟨[], text, by simp, h, (List.append_nil _).symm⟩
  · rw [List.concat_eq_append] at h ⊢
    cases last with
    | cdata raw =>
      refine ⟨[], text, by simp, ?_, (List.append_nil _).symm⟩
      rw [trimRunEnd_append (List.cons_ne_nil _ _)]
      exact h
    | text raw =>
      obtain ⟨spaces, hspaces, hraw⟩ := exists_spaces_trimSpaceEnd raw
      rw [joinPieces_append, joinPieces_text] at h
      obtain ⟨first, hfirst, h⟩ := Option.bind_eq_some_iff.mp h
      obtain ⟨value, hvalue, rfl⟩ := Option.map_eq_some_iff.mp h
      rw [hraw] at hvalue
      obtain ⟨rest, hrest, rfl⟩ := unescape_append_spaces hspaces hvalue
      refine ⟨spaces, first ++ rest, hspaces, ?_, (List.append_assoc ..).symm⟩
      have htrim : trimRunEnd [.text raw] = [.text (trimSpaceEnd raw)] := rfl
      rw [trimRunEnd_append (List.cons_ne_nil _ _), htrim, joinPieces_append, hfirst,
        joinPieces_text, hrest]
      rfl

/-- A run is read as its text, but for white space at the ends. -/
theorem exists_runItem {run : List Piece} {text : List Char} (h : joinPieces run = some text) :
    (runItem run = [] ∧ trimSpace text = []) ∨
      ∃ value, runItem run = [.text (some value)] ∧ trimSpace value = trimSpace text := by
  obtain ⟨front, rest, hfront, hrest, rfl⟩ := joinPieces_trimRunStart h
  rw [trimSpace, trimBy_append_left hfront, runItem]
  split
  · rename_i hnil
    rw [hnil] at hrest
    obtain rfl := Option.some.inj hrest
    exact .inl ⟨rfl, rfl⟩
  · obtain ⟨back, value, hback, hvalue, rfl⟩ := joinPieces_trimRunEnd hrest
    exact .inr ⟨value, by rw [hvalue], (trimBy_append_right hback value).symm⟩

/-! ## Texts that are divided anew -/

/-- Two divisions of one text into pieces. The second is blank where the first is. -/
structure Resplit (pieces others : List Piece) : Prop where
  value : joinPieces others = joinPieces pieces
  blank : (∀ piece ∈ pieces, piece.isBlank = true) → ∀ piece ∈ others, piece.isBlank = true

/-- The items of two runs with the same text but for white space at its ends. Where the text is
white space the second run may be no item. -/
inductive SameButEdges : List Item → List Item → Prop
  | none : SameButEdges [] []
  | unreadable : SameButEdges [.text none] [.text none]
  | lost {text : List Char} (h : trimSpace text = []) : SameButEdges [.text (some text)] []
  | text {text other : List Char} (h : trimSpace other = trimSpace text) :
      SameButEdges [.text (some text)] [.text (some other)]

namespace Resplit

variable {pieces others : List Piece} (h : Resplit pieces others)

include h

/-- What divisions agree on may stand on both sides. -/
theorem append (front back : List Piece) :
    Resplit (front ++ (pieces ++ back)) (front ++ (others ++ back)) := by
  refine ⟨?_, fun hblank => ?_⟩
  · rw [joinPieces_append, joinPieces_append others, h.value, ← joinPieces_append pieces,
      ← joinPieces_append]
  · simp only [List.forall_mem_append] at hblank ⊢
    exact ⟨hblank.1, h.blank hblank.2.1, hblank.2.2⟩

/-- A run that is divided anew is read as before, but for white space at the ends. -/
theorem sameButEdges : SameButEdges (runItem pieces) (runItem others) := by
  cases hvalue : joinPieces pieces with
  | none =>
    have unreadable {run : List Piece} (hrun : joinPieces run = none) :
        runItem run = [.text none] := by
      have hnone := all_hasValue_runItem run
      rw [← isSome_joinPieces, hrun, runItem] at hnone
      rw [runItem]
      split at hnone
      · cases hnone
      · cases hjoin : joinPieces (trimRunEnd (trimRunStart run)) with
        | none => rfl
        | some value => simp [hjoin, Item.hasValue] at hnone
    rw [unreadable hvalue, unreadable (h.value.trans hvalue)]
    exact .unreadable
  | some text =>
    rcases exists_runItem hvalue with ⟨hnil, -⟩ | ⟨first, hfirst, htrim⟩
    · have hblank : ∀ piece ∈ pieces, piece.isBlank = true := by
        by_contra hnot
        obtain ⟨value, hitem⟩ := runItem_of_not_blank hnot
        rw [hnil] at hitem
        cases hitem
      rw [hnil, runItem_of_blank (h.blank hblank)]
      exact .none
    · rw [hfirst]
      rcases exists_runItem (h.value.trans hvalue) with ⟨hnil, hspaces⟩ | ⟨second, hsecond, hother⟩
      · rw [hnil]
        exact .lost (htrim.trans hspaces)
      · rw [hsecond]
        exact .text (hother.trans htrim.symm)

end Resplit

end CallbackGateway.Markup
