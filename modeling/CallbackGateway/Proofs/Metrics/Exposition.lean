import CallbackGateway.Metrics.Page
import CallbackGateway.Proofs.Text.Decimal

/-!
# Reading lines of measurements

A reader of the text format in which measurements are exposed, and what it makes of the lines
that are written here. A line is blank, a comment, the type of a family, or a sample: a name,
labels in braces, a value and perhaps a time. Blanks may stand between any two tokens. In the
value of a label a backslash stands in front of a backslash, a quotation mark or the `n` of a
line break, and in front of nothing else.

The reader takes the whole language of lines, not only those that are written, except that a
value is a whole number. So a label value that could end its own quotation marks early, or its
line, would show as a different line.
-/

namespace CallbackGateway.Metrics.Exposition

open Text

/-! ## The reader -/

/-- A measurement, and the time that it is of. -/
structure Sample where
  name : String
  labels : Labels
  value : Nat
  time : Option Int := none
  deriving DecidableEq, Repr

/-- A line of a page. -/
inductive Line
  | blank
  | comment
  | type (name kind : String)
  | sample (sample : Sample)
  deriving DecidableEq, Repr

/-- Whether a character may stand between tokens. -/
def isGap (c : Char) : Bool := c == ' ' || c == '\t'

/-- The text from the next token on. -/
def skip (text : List Char) : List Char := text.dropWhile isGap

/-- The text up to the next gap, and the rest. -/
def readToken (text : List Char) : List Char × List Char :=
  (text.takeWhile (!isGap ·), text.dropWhile (!isGap ·))

/-- Whether the name of a label may start with a character. -/
def startsLabel (c : Char) : Bool := c.isAlpha || c == '_'

/-- Whether the name of a measurement may start with a character. -/
def startsMetric (c : Char) : Bool := startsLabel c || c == ':'

/-- Whether a name goes on with a character: with one that may start it, or with a digit. -/
def continues (starts : Char → Bool) (c : Char) : Bool := starts c || c.isDigit

/-- Whether a text is a name. -/
def isName (starts : Char → Bool) : List Char → Bool
  | [] => false
  | c :: rest => starts c && rest.all (continues starts)

/-- A name, and the rest. -/
def readName (starts : Char → Bool) (text : List Char) : Option (String × List Char) :=
  let name := text.takeWhile (continues starts)
  if isName starts name then some (String.ofList name, text.dropWhile (continues starts))
  else none

/-- The rest of a quoted text up to its closing mark, and what follows. -/
def readQuoted : List Char → Option (List Char × List Char)
  | [] => none
  | '"' :: rest => some ([], rest)
  | '\n' :: _ => none
  | '\\' :: '\\' :: rest => (readQuoted rest).map (.map ('\\' :: ·) id)
  | '\\' :: '"' :: rest => (readQuoted rest).map (.map ('"' :: ·) id)
  | '\\' :: 'n' :: rest => (readQuoted rest).map (.map ('\n' :: ·) id)
  | '\\' :: _ => none
  | c :: rest => (readQuoted rest).map (.map (c :: ·) id)

/-- The text after a mark that comes next. -/
def expect (mark : Char) (text : List Char) : Option (List Char) :=
  match skip text with
  | [] => none
  | c :: rest => if c == mark then some rest else none

/-- A label, and the text from the next token on. -/
def readLabel (text : List Char) : Option ((String × String) × List Char) := do
  let (name, rest) ← readName startsLabel text
  let rest ← expect '=' rest
  let rest ← expect '"' rest
  let (value, rest) ← readQuoted rest
  return ((name, String.ofList value), skip rest)

/-- Skipping gaps makes nothing longer. -/
theorem skip_length (text : List Char) : (skip text).length ≤ text.length :=
  (List.dropWhile_suffix _).length_le

/-- An expected mark takes a character. -/
theorem expect_length {mark : Char} {text rest : List Char} (h : expect mark text = some rest) :
    rest.length < text.length := by
  have hskip := skip_length text
  unfold expect at h
  split at h
  · simp at h
  · rename_i hcons
    rw [hcons, List.length_cons] at hskip
    obtain ⟨-, rfl⟩ : _ ∧ _ = rest := by simpa using h
    omega

/-- A quoted value takes at least its quotes. -/
theorem readQuoted_length {text value rest : List Char}
    (h : readQuoted text = some (value, rest)) : rest.length < text.length := by
  induction text using readQuoted.induct generalizing value rest <;>
    simp [readQuoted] at h <;> grind

/-- A label takes up some of the text. -/
theorem readLabel_length {text rest : List Char} {label : String × String}
    (h : readLabel text = some (label, rest)) : rest.length < text.length := by
  simp only [readLabel, Option.bind_eq_bind, Option.bind_eq_some_iff, Option.pure_def,
    Option.some.injEq, Prod.mk.injEq, Prod.exists] at h
  obtain ⟨name, afterName, hname, afterEquals, hequals, opened, hopened, value, closed, hvalue,
    -, rfl⟩ := h
  have hrest : afterName.length ≤ text.length := by
    unfold readName at hname
    simp only [Option.ite_none_right_eq_some, Option.some.injEq, Prod.mk.injEq] at hname
    rw [← hname.2.2]
    exact (List.dropWhile_suffix _).length_le
  have hequals := expect_length hequals
  have hopened := expect_length hopened
  have hvalue := readQuoted_length hvalue
  have hclosed := skip_length closed
  omega

/-- The labels up to the closing brace, and the rest. The last one may have a comma. -/
def readLabels (text : List Char) : Option (Labels × List Char) :=
  match skip text with
  | '\x7d' :: rest => some ([], rest)
  | _ =>
    match _ : readLabel (skip text) with
    | some (label, ',' :: rest) => (readLabels rest).map (.map (label :: ·) id)
    | some (label, '\x7d' :: rest) => some ([label], rest)
    | _ => none
termination_by text.length
decreasing_by
  rename_i hlabel
  have hshorter := readLabel_length hlabel
  have hskip := skip_length text
  rw [List.length_cons] at hshorter
  omega

/-- The labels of a sample, if there are braces. -/
def readSeries (text : List Char) : Option (Labels × List Char) :=
  match skip text with
  | '\x7b' :: rest => readLabels rest
  | rest => some ([], rest)

/-- The last token of a line. -/
def readLast (text : List Char) : Option (List Char) :=
  let (last, rest) := readToken text
  if skip rest = [] then some last else none

/-- The time of a sample, if there is one. -/
def readTime (text : List Char) : Option (Option Int) :=
  if skip text = [] then some none
  else (readLast (skip text)).bind fun last => (IntegerRange.signed64.read? last).map some

/-- A sample. -/
def readSample (text : List Char) : Option Sample := do
  let (name, rest) ← readName startsMetric text
  let (labels, rest) ← readSeries rest
  let (number, rest) := readToken (skip rest)
  let value ← natural? 10 number
  let time ← readTime rest
  return { name, labels, value, time }

/-- The types of families. -/
def kinds : List String := ["counter", "gauge", "histogram", "summary", "untyped"]

/-- What a line says whose first character is a hash sign. -/
def readComment (text : List Char) : Option Line :=
  let (keyword, rest) := readToken (skip text)
  if keyword = "TYPE".toList then do
    let (name, rest) ← readName startsMetric (skip rest)
    let kind ← readLast (skip rest)
    if String.ofList kind ∈ kinds then some (.type name (String.ofList kind)) else none
  else some .comment

/-- What a line says. -/
def Line.read? (text : List Char) : Option Line :=
  match skip text with
  | [] => some .blank
  | '#' :: rest => readComment rest
  | start => (readSample start).map .sample

/-! ## What is written -/

section Written

variable {starts : Char → Bool} {name rest : List Char}

/-- A name holds only characters of names. -/
theorem continues_of_isName (h : isName starts name = true) {c : Char} (hc : c ∈ name) :
    continues starts c = true := by
  cases name with
  | nil => simp at hc
  | cons first more =>
    obtain ⟨hfirst, hmore⟩ := (Bool.and_eq_true _ _).mp h
    rcases List.mem_cons.mp hc with rfl | hc
    · rw [continues, hfirst, Bool.true_or]
    · exact List.all_eq_true.mp hmore c hc

/-- A name is read up to a character that it cannot go on with. -/
theorem readName_append (h : isName starts name = true)
    (hrest : ∀ c ∈ rest.head?, continues starts c = false) :
    readName starts (name ++ rest) = some (String.ofList name, rest) := by
  have hall : ∀ c ∈ name, continues starts c = true := fun c hc => continues_of_isName h hc
  have hstop :
      rest.takeWhile (continues starts) = [] ∧ rest.dropWhile (continues starts) = rest := by
    cases rest with
    | nil => exact ⟨rfl, rfl⟩
    | cons c more =>
      have hc := hrest c rfl
      exact ⟨List.takeWhile_cons_of_neg (by simp [hc]), List.dropWhile_cons_of_neg (by simp [hc])⟩
  rw [readName, List.takeWhile_append_of_pos hall, List.dropWhile_append_of_pos hall, hstop.1,
    hstop.2, List.append_nil, if_pos h]

/-- The first character of a metric is no gap. -/
theorem isGap_of_startsMetric {c : Char} (h : startsMetric c = true) : isGap c = false := by
  rw [Bool.eq_false_iff]
  intro hgap
  simp only [isGap, Bool.or_eq_true, beq_iff_eq] at hgap
  rcases hgap with rfl | rfl
  · exact absurd h (by decide)
  · exact absurd h (by decide)

/-- A name has a first character. -/
theorem exists_of_isName (h : isName starts name = true) :
    ∃ c more, name = c :: more ∧ starts c = true := by
  cases name with
  | nil => simp [isName] at h
  | cons c more => exact ⟨c, more, rfl, ((Bool.and_eq_true _ _).mp h).1⟩

/-- Nothing is skipped in front of a metric. -/
theorem skip_of_startsMetric {c : Char} (h : startsMetric c = true) (text : List Char) :
    skip (c :: text) = c :: text :=
  List.dropWhile_cons_of_neg (by simp [isGap_of_startsMetric h])

end Written

/-- What is written for a character is read as the character. -/
theorem readQuoted_escapeChar (c : Char) (rest : List Char) :
    readQuoted (escapeChar c ++ rest) = (readQuoted rest).map (.map (c :: ·) id) := by
  unfold escapeChar
  by_cases hbackslash : c = '\\'
  · subst hbackslash
    rfl
  by_cases hquote : c = '"'
  · subst hquote
    rfl
  by_cases hnewline : c = '\n'
  · subst hnewline
    rfl
  · simp [hbackslash, hquote, hnewline, readQuoted]

/-- What is written for a value is read as the value, up to the closing mark. -/
theorem readQuoted_escape (value : String) (rest : List Char) :
    readQuoted (escape value ++ '"' :: rest) = some (value.toList, rest) := by
  unfold escape
  induction value.toList with
  | nil => rfl
  | cons c more ih =>
    rw [List.flatMap_cons, List.append_assoc, readQuoted_escapeChar, ih]
    rfl

/-- Whether every label has a name. -/
def Named (labels : Labels) : Prop := ∀ label ∈ labels, isName startsLabel label.1.toList = true

instance (labels : Labels) : Decidable (Named labels) :=
  inferInstanceAs (Decidable (∀ label ∈ labels, _))

/-- A label is read as it was written. -/
theorem readLabel_writeLabel {label : String × String}
    (h : isName startsLabel label.1.toList = true) (rest : List Char) :
    readLabel (writeLabel label ++ rest) = some (label, skip rest) := by
  have hname : readName startsLabel
      (label.1.toList ++ '=' :: '"' :: (escape label.2 ++ '"' :: rest)) =
      some (label.1, '=' :: '"' :: (escape label.2 ++ '"' :: rest)) := by
    rw [readName_append h (by simp; decide), String.ofList_toList]
  have hwritten : writeLabel label ++ rest =
      label.1.toList ++ '=' :: '"' :: (escape label.2 ++ '"' :: rest) := by
    simp [writeLabel]
  rw [hwritten, readLabel, hname]
  simp [expect, skip, isGap, readQuoted_escape]

/-- A name starts a token, and not the end of a list of labels. -/
theorem skip_writeLabel {label : String × String}
    (h : isName startsLabel label.1.toList = true) (rest : List Char) :
    skip (writeLabel label ++ rest) = writeLabel label ++ rest ∧
      (writeLabel label ++ rest).head? ≠ some '\x7d' := by
  obtain ⟨c, more, hname, hstart⟩ := exists_of_isName h
  rw [writeLabel, hname]
  refine ⟨skip_of_startsMetric ((Bool.or_eq_true _ _).mpr (.inl hstart)) _, fun hc => ?_⟩
  obtain rfl : c = '\x7d' := Option.some.inj hc
  exact absurd hstart (by decide)

/-- After a comma the labels go on. -/
theorem readLabels_comma {label : String × String}
    (h : isName startsLabel label.1.toList = true) (rest : List Char) :
    readLabels (writeLabel label ++ ',' :: rest) =
      (readLabels rest).map (.map (label :: ·) id) := by
  obtain ⟨hskip, hend⟩ := skip_writeLabel h (',' :: rest)
  have hlabel := readLabel_writeLabel h (',' :: rest)
  rw [readLabels]
  split
  · rename_i hbrace
    rw [hskip] at hbrace
    exact absurd (congrArg List.head? hbrace) hend
  · rw [← hskip] at hlabel
    split <;> simp_all [skip, isGap]

/-- After a brace there are no more labels. -/
theorem readLabels_last {label : String × String}
    (h : isName startsLabel label.1.toList = true) (rest : List Char) :
    readLabels (writeLabel label ++ '\x7d' :: rest) = some ([label], rest) := by
  obtain ⟨hskip, hend⟩ := skip_writeLabel h ('\x7d' :: rest)
  have hlabel := readLabel_writeLabel h ('\x7d' :: rest)
  rw [readLabels]
  split
  · rename_i hbrace
    rw [hskip] at hbrace
    exact absurd (congrArg List.head? hbrace) hend
  · rw [← hskip] at hlabel
    split <;> simp_all [skip, isGap]

/-- Labels are read up to the closing brace. -/
theorem readLabels_writeLabels {labels : Labels} (h : Named labels) (rest : List Char) :
    readLabels (writeLabels labels ++ '\x7d' :: rest) = some (labels, rest) := by
  induction labels with
  | nil =>
    rw [writeLabels, readLabels]
    rfl
  | cons label more ih =>
    obtain ⟨hlabel, hmore⟩ := List.forall_mem_cons.mp h
    cases more with
    | nil => exact readLabels_last hlabel rest
    | cons next more =>
      have hwritten : writeLabels (label :: next :: more) =
          writeLabel label ++ ',' :: writeLabels (next :: more) := rfl
      rw [hwritten, List.append_assoc, List.cons_append, readLabels_comma hlabel, ih hmore]
      rfl

/-! ## Lines -/

/-- A number is read as its digits. -/
theorem readToken_digits (n : Nat) :
    readToken (skip (' ' :: Nat.toDigits 10 n)) = (Nat.toDigits 10 n, []) := by
  have hgap : ∀ c ∈ Nat.toDigits 10 n, isGap c = false := by
    intro c hc
    have hdigit : c.isDigit = true := Nat.isDigit_of_mem_toDigits (by decide) (by decide) hc
    rw [Bool.eq_false_iff]
    intro hgap
    simp only [isGap, Bool.or_eq_true, beq_iff_eq] at hgap
    rcases hgap with rfl | rfl <;> simp at hdigit
  have hskip : skip (' ' :: Nat.toDigits 10 n) = Nat.toDigits 10 n := by
    obtain ⟨c, rest, hcons⟩ := List.exists_cons_of_ne_nil (Nat.toDigits_ne_nil (n := n) (b := 10))
    rw [skip, List.dropWhile_cons_of_pos rfl, hcons,
      List.dropWhile_cons_of_neg (by simp [hgap c (by simp [hcons])])]
  have htoken : ∀ c ∈ Nat.toDigits 10 n, (!isGap c) = true := fun c hc => by rw [hgap c hc]; rfl
  have htake : (Nat.toDigits 10 n ++ []).takeWhile (!isGap ·) = Nat.toDigits 10 n ++ [] :=
    List.takeWhile_append_of_pos htoken
  have hdrop : (Nat.toDigits 10 n ++ []).dropWhile (!isGap ·) = [] :=
    List.dropWhile_append_of_pos htoken
  rw [List.append_nil] at htake hdrop
  rw [hskip, readToken, htake, hdrop]

/-- A name starts a line that is neither blank nor a comment. -/
theorem read?_name {name : String} (hname : isName startsMetric name.toList = true)
    (rest : List Char) :
    Line.read? (name.toList ++ rest) = (readSample (name.toList ++ rest)).map .sample := by
  obtain ⟨c, more, hchars, hstart⟩ := exists_of_isName hname
  have hhash : c ≠ '#' := fun hc => absurd (hc ▸ hstart) (by decide)
  rw [hchars, List.cons_append, Line.read?, skip_of_startsMetric hstart]
  split
  · simp_all
  · simp_all
  · rfl

/-- The line of a sample is read as the sample. -/
theorem read?_writeSample {name : String} {labels : Labels}
    (hname : isName startsMetric name.toList = true) (hlabels : Named labels) (value : UInt64) :
    Line.read? (writeSample name.toList (writeLabels labels) value) =
      some (.sample { name, labels, value := value.toNat }) := by
  have hwritten : writeSample name.toList (writeLabels labels) value = name.toList ++
      '\x7b' :: (writeLabels labels ++ '\x7d' :: (' ' :: Nat.toDigits 10 value.toNat)) := by
    simp [writeSample, writeCount]
  have hseries : readSeries
      ('\x7b' :: (writeLabels labels ++ '\x7d' :: (' ' :: Nat.toDigits 10 value.toNat))) =
      some (labels, ' ' :: Nat.toDigits 10 value.toNat) := readLabels_writeLabels hlabels _
  rw [hwritten, read?_name hname, readSample, readName_append hname (by simp; decide)]
  simp only [Option.bind_eq_bind, Option.bind_some, hseries, readToken_digits,
    natural?_toDigits, String.ofList_toList]
  rfl

/-- The line of a type is read as the type. -/
theorem read?_typeLine {name kind : String} (hname : isName startsMetric name.toList = true)
    (hkind : kind ∈ kinds) :
    Line.read? (typeLine name kind) = some (.type name kind) := by
  have hwritten : typeLine name kind =
      "# TYPE ".toList ++ name.toList ++ ' ' :: kind.toList := rfl
  have hstart : "# TYPE ".toList = ['#', ' ', 'T', 'Y', 'P', 'E', ' '] := by decide
  have hread (rest : List Char) : Line.read? ('#' :: rest) = readComment rest := rfl
  have hkeyword (rest : List Char) :
      readToken (skip (' ' :: 'T' :: 'Y' :: 'P' :: 'E' :: ' ' :: rest)) =
        (['T', 'Y', 'P', 'E'], ' ' :: rest) := by
    simp [readToken, skip, isGap]
  have hnamed : readName startsMetric (skip (' ' :: (name.toList ++ ' ' :: kind.toList))) =
      some (name, ' ' :: kind.toList) := by
    obtain ⟨c, more, hchars, hstart⟩ := exists_of_isName hname
    have hskip : skip (' ' :: (name.toList ++ ' ' :: kind.toList)) =
        name.toList ++ ' ' :: kind.toList := by
      rw [hchars]
      exact skip_of_startsMetric hstart _
    rw [hskip, readName_append hname (by simp; decide), String.ofList_toList]
  have hlast : readLast (skip (' ' :: kind.toList)) = some kind.toList := by
    simp only [kinds, List.mem_cons, List.not_mem_nil, or_false] at hkind
    rcases hkind with rfl | rfl | rfl | rfl | rfl <;> rfl
  rw [hwritten, List.append_assoc, hstart, List.cons_append, hread, readComment]
  have htype : ['T', 'Y', 'P', 'E'] = "TYPE".toList := by simp
  simp only [List.cons_append, List.nil_append, hkeyword, htype, if_true, hnamed,
    Option.bind_eq_bind, Option.bind_some, hlast, String.ofList_toList, if_pos hkind]

end CallbackGateway.Metrics.Exposition
