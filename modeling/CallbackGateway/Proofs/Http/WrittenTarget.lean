import CallbackGateway.Http.Query
import CallbackGateway.Http.Route
import CallbackGateway.Http.Target
import CallbackGateway.Proofs.Text.Size
import Mathlib.Data.List.TakeWhile

/-!
# Written targets

A target is written with the id of an app and with parameters. If all of them are letters, digits
and underscores, nothing has to be encoded: the target leads to that app, and its query holds those
parameters, in their order.
-/

namespace CallbackGateway.Http

open Text

/-! ## Plain texts -/

/-- Whether a character is a letter, a digit or an underscore. -/
def isPlainChar (c : Char) : Bool :=
  let n := c.toNat
  (48 ≤ n && n ≤ 57) || (65 ≤ n && n ≤ 90) || n == 95 || (97 ≤ n && n ≤ 122)

/-- Whether a text stands for itself everywhere in a target. -/
def IsPlainText (text : String) : Prop := ∀ c ∈ text.toList, isPlainChar c = true

instance (text : String) : Decidable (IsPlainText text) := List.decidableBAll _ text.toList

/-- What the plain characters are. -/
theorem isPlainChar_iff {c : Char} : isPlainChar c = true ↔
    48 ≤ c.toNat ∧ c.toNat ≤ 57 ∨ 65 ≤ c.toNat ∧ c.toNat ≤ 90 ∨ c.toNat = 95 ∨
      97 ≤ c.toNat ∧ c.toNat ≤ 122 := by
  simp only [isPlainChar, Bool.or_eq_true, Bool.and_eq_true, decide_eq_true_eq, beq_iff_eq,
    or_assoc]

/-- No character that divides a target or stands for another one is plain. -/
theorem ne_of_isPlainChar {c mark : Char} (h : isPlainChar c = true)
    (hmark : isPlainChar mark = false) : c ≠ mark := by
  rintro rfl
  exact Bool.false_ne_true (hmark.symm.trans h)

/-- A plain text holds no percent sign. -/
theorem percentDecode_plain {text : String} (h : IsPlainText text) :
    percentDecode (Utf8.encode text.toList) = Utf8.encode text.toList := by
  refine percentDecode_eq_self fun hmem => ?_
  obtain ⟨c, hc, hbyte⟩ := List.mem_flatMap.mp hmem
  have hplain := isPlainChar_iff.mp (h c hc)
  rw [Utf8.encodeChar, if_pos (show c.toNat < 0x80 by omega), List.mem_singleton] at hbyte
  have hvalue : 37 = c.toNat.toUInt8.toNat := congrArg UInt8.toNat hbyte
  rw [Utf8.toNat_toUInt8 (by omega)] at hvalue
  omega

/-- A plain text stands for itself in a query. -/
theorem formText_plain {text : String} (h : IsPlainText text) : formText text.toList = text := by
  have hspaced : (text.toList.map fun c => if c = '+' then ' ' else c) = text.toList :=
    (List.map_congr_left fun c hc => if_neg (ne_of_isPlainChar (h c hc) (by decide))).trans
      (List.map_id text.toList)
  rw [formText, hspaced, percentDecode_plain h, Utf8.decodeLossy_encode, String.ofList_toList]

/-- A plain segment names its app. -/
theorem segmentText?_plain {text : String} (h : IsPlainText text) :
    segmentText? text.toList = some text := by
  rw [segmentText?, percentDecode_plain h, Utf8.decode?_encode, Option.map_some,
    String.ofList_toList]

/-! ## Queries -/

/-- Whether the name and the value of a parameter are plain. -/
def IsPlainPair (pair : String × String) : Prop := IsPlainText pair.1 ∧ IsPlainText pair.2

instance (pair : String × String) : Decidable (IsPlainPair pair) :=
  inferInstanceAs (Decidable (_ ∧ _))

/-- A parameter as it is written. -/
def writePair (pair : String × String) : List Char := pair.1.toList ++ '=' :: pair.2.toList

/-- Parameters as they are written, between ampersands. -/
def writeQuery : List (String × String) → List Char
  | [] => []
  | [last] => writePair last
  | pair :: rest => writePair pair ++ '&' :: writeQuery rest

/-- A plain parameter is read as it was written. -/
theorem formPair_writePair {pair : String × String} (h : IsPlainPair pair) :
    formPair (writePair pair) = pair := by
  have hname : ∀ c ∈ pair.1.toList, decide (c ≠ '=') = true := fun c hc =>
    decide_eq_true (ne_of_isPlainChar (h.1 c hc) (by decide))
  rw [formPair, writePair, List.takeWhile_append_of_pos hname, List.dropWhile_append_of_pos hname]
  simp only [List.takeWhile_cons, List.dropWhile_cons, ne_eq, not_true_eq_false, decide_false,
    Bool.false_eq_true, if_false, List.append_nil, List.drop_succ_cons, List.drop_zero]
  rw [formText_plain h.1, formText_plain h.2]

/-- A written parameter holds no ampersand. -/
theorem ne_of_mem_writePair {pair : String × String} (h : IsPlainPair pair) {c mark : Char}
    (hc : c ∈ writePair pair) (hmark : isPlainChar mark = false) (hequals : mark ≠ '=') :
    c ≠ mark := by
  rcases List.mem_append.mp hc with hname | hvalue
  · exact ne_of_isPlainChar (h.1 c hname) hmark
  · rcases List.mem_cons.mp hvalue with rfl | hvalue
    · exact hequals.symm
    · exact ne_of_isPlainChar (h.2 c hvalue) hmark

/-- A text is split at the first mark. -/
theorem splitAt_append {mark : Char} {front : List Char} (h : ∀ c ∈ front, c ≠ mark)
    (rest : List Char) : splitAt mark (front ++ mark :: rest) = front :: splitAt mark rest := by
  induction front with
  | nil => rw [List.nil_append, splitAt, if_pos rfl]
  | cons c front ih =>
    obtain ⟨hc, hfront⟩ := List.forall_mem_cons.mp h
    rw [List.cons_append, splitAt, if_neg hc, ih hfront]

/-- A text without marks is not split. -/
theorem splitAt_eq_singleton {mark : Char} {text : List Char} (h : ∀ c ∈ text, c ≠ mark) :
    splitAt mark text = [text] := by
  induction text with
  | nil => rfl
  | cons c text ih =>
    obtain ⟨hc, htext⟩ := List.forall_mem_cons.mp h
    rw [splitAt, if_neg hc, ih htext]

/-- A written query is split into its parameters. -/
theorem splitAt_writeQuery {pairs : List (String × String)} (h : ∀ pair ∈ pairs, IsPlainPair pair)
    (hne : pairs ≠ []) : splitAt '&' (writeQuery pairs) = pairs.map writePair := by
  induction pairs with
  | nil => exact absurd rfl hne
  | cons pair rest ih =>
    obtain ⟨hpair, hrest⟩ := List.forall_mem_cons.mp h
    have hmark : ∀ c ∈ writePair pair, c ≠ '&' := fun c hc =>
      ne_of_mem_writePair hpair hc (by decide) (by decide)
    cases rest with
    | nil => exact splitAt_eq_singleton hmark
    | cons next others =>
      have hquery : writeQuery (pair :: next :: others) =
          writePair pair ++ '&' :: writeQuery (next :: others) := rfl
      rw [hquery, splitAt_append hmark, ih hrest (List.cons_ne_nil _ _)]
      rfl

/-- Plain parameters are read as they were written. -/
theorem formPairs_writeQuery {pairs : List (String × String)}
    (h : ∀ pair ∈ pairs, IsPlainPair pair) : formPairs (writeQuery pairs) = pairs := by
  by_cases hne : pairs = []
  · subst hne
    rfl
  · have hfilled : ∀ written ∈ pairs.map writePair, decide (written ≠ []) = true := by
      intro written hwritten
      obtain ⟨pair, -, rfl⟩ := List.mem_map.mp hwritten
      simp [writePair]
    rw [formPairs, splitAt_writeQuery h hne, List.filter_eq_self.mpr hfilled, List.map_map]
    exact (List.map_congr_left fun pair hpair => formPair_writePair (h pair hpair)).trans
      (List.map_id pairs)

/-- A written query holds plain characters, equals signs and ampersands. -/
theorem mem_writeQuery {pairs : List (String × String)} (h : ∀ pair ∈ pairs, IsPlainPair pair)
    {c : Char} (hc : c ∈ writeQuery pairs) : isPlainChar c = true ∨ c = '=' ∨ c = '&' := by
  have pair_mem {pair : String × String} (hpair : IsPlainPair pair) (hc : c ∈ writePair pair) :
      isPlainChar c = true ∨ c = '=' ∨ c = '&' := by
    rcases List.mem_append.mp hc with hname | hvalue
    · exact .inl (hpair.1 c hname)
    · rcases List.mem_cons.mp hvalue with rfl | hvalue
      · exact .inr (.inl rfl)
      · exact .inl (hpair.2 c hvalue)
  induction pairs with
  | nil => exact absurd hc List.not_mem_nil
  | cons pair rest ih =>
    obtain ⟨hpair, hrest⟩ := List.forall_mem_cons.mp h
    cases rest with
    | nil => exact pair_mem hpair hc
    | cons next others =>
      rcases List.mem_append.mp hc with hfirst | hbehind
      · exact pair_mem hpair hfirst
      · rcases List.mem_cons.mp hbehind with rfl | hbehind
        · exact .inr (.inr rfl)
        · exact ih hrest hbehind

/-! ## Targets -/

/-- The path of the callbacks of an app. -/
def portalPath (appId : String) : List Char := "/v1/portal/".toList ++ appId.toList

/-- The target of the callbacks of an app with parameters. -/
def portalTarget (appId : String) (pairs : List (String × String)) : List Char :=
  portalPath appId ++ '?' :: writeQuery pairs

/-- A written query takes two characters for each parameter, besides its name and its value. -/
theorem length_writeQuery_le (pairs : List (String × String)) :
    (writeQuery pairs).length ≤ sizeSum (fun pair => pair.1.length + pair.2.length + 2) pairs := by
  have hpair (pair : String × String) :
      (writePair pair).length = pair.1.length + pair.2.length + 1 := by
    rw [writePair, List.length_append, List.length_cons, String.length_toList,
      String.length_toList, Nat.add_assoc]
  induction pairs with
  | nil => exact Nat.le_refl _
  | cons pair rest ih =>
    rw [sizeSum_cons]
    cases rest with
    | nil =>
      rw [writeQuery, hpair]
      omega
    | cons next others =>
      have hquery : writeQuery (pair :: next :: others) =
          writePair pair ++ '&' :: writeQuery (next :: others) := rfl
      rw [hquery, List.length_append, List.length_cons, hpair]
      omega

/-- What a target takes, besides the id of the app and the parameters. -/
theorem length_portalTarget_le (appId : String) (pairs : List (String × String)) :
    (portalTarget appId pairs).length ≤
      appId.length + sizeSum (fun pair => pair.1.length + pair.2.length + 2) pairs + 12 := by
  have hquery := length_writeQuery_le pairs
  have hstart : "/v1/portal/".length = 11 := by decide
  have hpath : portalPath appId = "/v1/portal/".toList ++ appId.toList := rfl
  rw [portalTarget, hpath, List.length_append, List.length_append, List.length_cons,
    String.length_toList, String.length_toList, hstart]
  omega

/-- A text is broken at its first mark. -/
theorem breakAtAny_append {marks front : List Char} {mark : Char} (h : ∀ c ∈ front, c ∉ marks)
    (hmark : mark ∈ marks) (rest : List Char) :
    Target.breakAtAny marks (front ++ mark :: rest) = (front, mark :: rest) := by
  have hkept : ∀ c ∈ front, (!marks.contains c) = true := fun c hc => by simpa using h c hc
  rw [Target.breakAtAny, List.takeWhile_append_of_pos hkept, List.dropWhile_append_of_pos hkept]
  simp [hmark]

/-- A text without marks is not broken. -/
theorem breakAtAny_eq_self {marks text : List Char} (h : ∀ c ∈ text, c ∉ marks) :
    Target.breakAtAny marks text = (text, []) := by
  have hkept : ∀ c ∈ text, (!marks.contains c) = true := fun c hc => by simpa using h c hc
  rw [Target.breakAtAny, List.takeWhile_eq_self_iff.mpr hkept, List.dropWhile_eq_nil_iff.mpr hkept]

/-- A plain path holds characters of paths and no mark. -/
theorem mem_portalPath {appId : String} (happ : IsPlainText appId) {c : Char}
    (hc : c ∈ portalPath appId) : Target.isPathChar c = true ∧ c ∉ ['?', '#'] := by
  rcases List.mem_append.mp hc with hfixed | hid
  · have hall : "/v1/portal/".toList.all
        (fun c => Target.isPathChar c && !(['?', '#'].contains c)) = true := by decide
    have hc := List.all_eq_true.mp hall c hfixed
    rw [Bool.and_eq_true, Bool.not_eq_true', List.contains_eq_mem, decide_eq_false_iff_not] at hc
    exact hc
  · have hplain := happ c hid
    have hrange := isPlainChar_iff.mp hplain
    refine ⟨?_, ?_⟩
    · simp only [Target.isPathChar, Bool.or_eq_true, Bool.and_eq_true, decide_eq_true_eq,
        beq_iff_eq]
      omega
    · have hmark : c ≠ '?' := ne_of_isPlainChar hplain (by decide)
      have hhash : c ≠ '#' := ne_of_isPlainChar hplain (by decide)
      simp [hmark, hhash]

/-- A written query holds characters of queries and no fragment. -/
theorem isQueryChar_of_mem_writeQuery {pairs : List (String × String)}
    (h : ∀ pair ∈ pairs, IsPlainPair pair) {c : Char} (hc : c ∈ writeQuery pairs) :
    Target.isQueryChar c = true ∧ c ∉ ['#'] := by
  rcases mem_writeQuery h hc with hplain | rfl | rfl
  · have hrange := isPlainChar_iff.mp hplain
    have hhash : c ≠ '#' := ne_of_isPlainChar hplain (by decide)
    refine ⟨?_, by simpa using hhash⟩
    simp only [Target.isQueryChar, Bool.or_eq_true, Bool.and_eq_true, decide_eq_true_eq,
      beq_iff_eq]
    omega
  · decide
  · decide

/-- A plain target is read as its path and its query. -/
theorem parse?_portalTarget {appId : String} {pairs : List (String × String)}
    (happ : IsPlainText appId) (h : ∀ pair ∈ pairs, IsPlainPair pair)
    (hlength : 4 * (portalTarget appId pairs).length ≤ Target.longest) :
    Target.parse? (portalTarget appId pairs) =
      some ⟨portalPath appId, some (writeQuery pairs)⟩ := by
  have hbytes := (Utf8.byteCount_range (portalTarget appId pairs)).2
  have hshort : ¬ Target.longest < (Utf8.encode (portalTarget appId pairs)).length :=
    Nat.not_lt.mpr (Nat.le_trans hbytes hlength)
  have hbreak : Target.breakAtAny ['?', '#'] (portalTarget appId pairs) =
      (portalPath appId, '?' :: writeQuery pairs) :=
    breakAtAny_append (fun c hc => (mem_portalPath happ hc).2) (by decide) _
  have hwhole : Target.breakAtAny ['#'] (writeQuery pairs) = (writeQuery pairs, []) :=
    breakAtAny_eq_self fun c hc => (isQueryChar_of_mem_writeQuery h hc).2
  have hpathChars : (portalPath appId).all Target.isPathChar = true :=
    List.all_eq_true.mpr fun c hc => (mem_portalPath happ hc).1
  have hqueryChars : (writeQuery pairs).all Target.isQueryChar = true :=
    List.all_eq_true.mpr fun c hc => (isQueryChar_of_mem_writeQuery h hc).1
  have hpath : Target.ofPath? (portalTarget appId pairs) =
      some ⟨portalPath appId, some (writeQuery pairs)⟩ := by
    simp only [Target.ofPath?, hbreak, hwhole, hpathChars, Option.all_some, hqueryChars]
    rfl
  have hstart : portalTarget appId pairs =
      '/' :: ("v1/portal/".toList ++ appId.toList ++ '?' :: writeQuery pairs) := rfl
  unfold Target.parse?
  rw [if_neg hshort, ← hpath, hstart]
  rfl

/-- A plain path leads to the callbacks of its app. -/
theorem ofPath?_portalPath {appId : String} (happ : IsPlainText appId) (hne : appId ≠ "") :
    Route.ofPath? (portalPath appId) = some (.portal appId.toList) := by
  have hslash : ∀ c ∈ appId.toList, c ≠ '/' := fun c hc =>
    ne_of_isPlainChar (happ c hc) (by decide)
  have hsplit : splitAt '/' (portalPath appId) =
      ["".toList, "v1".toList, "portal".toList, appId.toList] := by
    have hpath : portalPath appId =
        "".toList ++ '/' :: ("v1".toList ++ '/' :: ("portal".toList ++ '/' :: appId.toList)) := rfl
    rw [hpath, splitAt_append (by simp), splitAt_append (by simp), splitAt_append (by simp),
      splitAt_eq_singleton hslash]
  rw [Route.ofPath?, hsplit]
  simp [hne]

end CallbackGateway.Http
