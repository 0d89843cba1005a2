import CallbackGateway.Proofs.Markup.Retold
import CallbackGateway.Proofs.Record.UnknownElement

/-!
# Records that differ in white space

Contents that differ in one run are read as records that differ in one text at most, and there
only in white space at its ends. Numbers are read without it, and layout between elements is
skipped, so that only the text of a leaf can tell the contents apart.
-/

namespace CallbackGateway.Record

open Markup Text

/-- Two values that differ in one text at most, and there only in white space at its ends. -/
inductive Value.Respaced : Value → Value → Prop
  | refl (value : Value) : Respaced value value
  | text {content other : String} (h : trimSpace other.toList = trimSpace content.toList) :
      Respaced (.text content) (.text other)
  | field {value other : Value} (before after : Fields) (key : String) :
      Respaced value other →
      Respaced (.record (before ++ (key, value) :: after))
        (.record (before ++ (key, other) :: after))
  | item {fields others : Fields} (before after : List Fields) :
      Respaced (.record fields) (.record others) →
      Respaced (.records (before ++ fields :: after)) (.records (before ++ others :: after))

namespace Value.Respaced

variable {fields others : Fields}

/-- Both records have the same fields. -/
theorem has_eq (h : Respaced (.record fields) (.record others)) (name : String) :
    others.has name = fields.has name := by
  cases h with
  | refl => rfl
  | field before after key =>
    rw [Fields.has, Fields.has, List.lookup_append, List.lookup_append, List.lookup_cons,
      List.lookup_cons]
    cases List.lookup name before <;> cases name == key <;> rfl

/-- Records that differ in spacing only still do with the same fields behind them. -/
theorem append (h : Respaced (.record fields) (.record others)) (more : Fields) :
    Respaced (.record (fields ++ more)) (.record (others ++ more)) := by
  cases h with
  | refl => exact .refl _
  | field before after key h =>
    rw [List.append_assoc, List.append_assoc, List.cons_append, List.cons_append]
    exact .field before (after ++ more) key h

/-- A field more is one that differs, if the values do. -/
theorem concat {value other : Value} (h : Respaced value other) (fields : Fields) (key : String) :
    Respaced (.record (fields ++ [(key, value)])) (.record (fields ++ [(key, other)])) :=
  .field fields [] key h

end Value.Respaced

/-! ## Leaves -/

/-- White space of markup is blank. -/
theorem isBlank_of_isSpace {c : Char} (h : isSpace c = true) : isBlank c = true := by
  simp only [isSpace, Bool.or_eq_true, beq_iff_eq] at h
  rcases h with ((rfl | rfl) | rfl) | rfl <;> decide

/-- Texts that are one without the white space of markup at their ends are one without blanks. -/
theorem trim_eq_of_trimSpace_eq {text other : List Char} (h : trimSpace other = trimSpace text) :
    trim other = trim text := by
  have htrim (text : List Char) : trim (trimSpace text) = trim text :=
    trimBy_trimBy (fun _ => isBlank_of_isSpace) text
  rw [← htrim other, h, htrim]

/-- White space at its ends is kept of a text, and does not count for a number. -/
theorem Kind.readLeaf_respaced {kind : Kind} {text other : List Char} {value : Value}
    (htrim : trimSpace other = trimSpace text) (h : kind.readLeaf text = .ok value) :
    ∃ value', kind.readLeaf other = .ok value' ∧ value.Respaced value' := by
  have hnumber (read? : List Char → Option Value) : numberLeaf read? other =
      numberLeaf read? text := by
    rw [numberLeaf, numberLeaf, trim_eq_of_trimSpace_eq htrim]
  cases kind with
  | text =>
    obtain rfl := Except.ok.inj h
    refine ⟨.text (String.ofList other), rfl, .text ?_⟩
    rw [String.toList_ofList, String.toList_ofList, htrim]
  | integer | real => exact ⟨value, (hnumber _).trans h, .refl value⟩
  | record | records => cases h

/-- Content that has a leaf's text is the content of a leaf. -/
theorem isLeafContent_of_leafText? {content : List Item} {text : List Char}
    (h : leafText? content = some text) : isLeafContent content = true := by
  unfold leafText? at h
  split at h
  · rfl
  · rfl
  · cases h

/-- The text of a leaf is told with other white space at its ends at most. -/
theorem exists_leafText? {same : Prop} {content others : List Item} {text : List Char}
    (h : Retold same content others) (htext : leafText? content = some text) :
    ∃ other, leafText? others = some other ∧ trimSpace other = trimSpace text := by
  have hlength := length_le_of_isLeafContent (isLeafContent_of_leafText? htext)
  cases h with
  | refl => exact ⟨text, htext, rfl⟩
  | nested before after tag closed _ h =>
    cases before with
    | nil => cases after <;> cases htext
    | cons item before =>
      rw [List.length_append, List.length_cons, List.length_cons] at hlength
      omega
  | here before after hrun =>
    cases hrun with
    | none | unreadable => exact ⟨text, htext, rfl⟩
    | lost htrim | text htrim =>
      -- A run that is an item leaves no room for others.
      rw [List.length_append, List.length_append, List.length_singleton] at hlength
      obtain rfl : before = [] := List.eq_nil_of_length_eq_zero (by omega)
      obtain rfl : after = [] := List.eq_nil_of_length_eq_zero (by omega)
      obtain rfl := Option.some.inj htext
      first
        | exact ⟨[], rfl, htrim.symm⟩
        | exact ⟨_, rfl, htrim⟩

/-- Whether an unknown element can be skipped is told from its first item. -/
theorem isSkippable_eq (content : List Item) (closed : Bool) :
    isSkippable content closed = (content.head?.all Item.hasValue && closed) := by
  cases content with
  | nil => rfl
  | cons item rest =>
    cases item with
    | element => rfl
    | text value => cases value <;> rfl

/-- Retold content can be skipped just if the content can. -/
theorem isSkippable_retold {same : Prop} {content others : List Item} (closed : Bool)
    (h : Retold same content others) : isSkippable others closed = isSkippable content closed := by
  rw [isSkippable_eq, isSkippable_eq]
  cases h with
  | refl => rfl
  | nested before =>
    cases before <;> rfl
  | here before after hrun hlost =>
    cases before with
    | cons => rfl
    | nil =>
      cases hrun with
      | none | unreadable | text => rfl
      | lost =>
        have hafter := hlost (List.cons_ne_nil _ _) rfl
        rw [List.nil_append, List.nil_append, List.nil_append]
        cases after with
        | nil => rfl
        | cons item =>
          have hvalue := hafter item rfl
          rw [List.head?_cons, Option.all_some, hvalue]
          rfl

/-! ## Readings in parallel -/

variable {schema : Schema}

/-- Two states of reading that differ in one text, among the fields that were found or in the run
that is open. -/
inductive StateRespaced : Fields → Option Run → Fields → Option Run → Prop
  | found {found others : Fields} (h : Value.Respaced (.record found) (.record others))
      (run : Option Run) : StateRespaced found run others run
  | latest {item other : Fields} (found : Fields) (tagName : List Char) (key : String)
      (fields : Schema) (before after : List Fields)
      (h : Value.Respaced (.record item) (.record other)) :
      StateRespaced found (some ⟨tagName, key, fields, before ++ item :: after⟩)
        found (some ⟨tagName, key, fields, before ++ other :: after⟩)

namespace StateRespaced

variable {found others : Fields} {run run' : Option Run}

/-- States that differ in spacing only settle into records that do. -/
theorem settle (h : StateRespaced found run others run') :
    Value.Respaced (.record (Record.settle found run)) (.record (Record.settle others run')) := by
  cases h with
  | found h =>
    cases run with
    | none => exact h
    | some run => exact h.append _
  | latest found tagName key _ before after h =>
    refine .concat ?_ found key
    rw [List.reverse_append, List.reverse_append, List.reverse_cons, List.reverse_cons,
      List.append_assoc, List.append_assoc]
    exact .item _ _ h

/-- A run that an element does not continue is not continued in the other state either. -/
theorem continues?_eq_none {tag : Tag} (h : StateRespaced found run others run')
    (hrun : continues? run tag = none) : continues? run' tag = none := by
  cases h with
  | found => exact hrun
  | latest =>
    rw [continues?, Option.filter_some] at hrun ⊢
    split at hrun
    · cases hrun
    · rename_i hname
      exact if_neg hname

/-- A run that is continued in one state is continued in the other. -/
theorem exists_continues? {tag : Tag} {first : Run} (h : StateRespaced found run others run')
    (hrun : continues? run tag = some first) :
    ∃ second, continues? run' tag = some second ∧ second.fields = first.fields ∧
      ∀ item, StateRespaced found (some { first with latest := item :: first.latest })
        others (some { second with latest := item :: second.latest }) := by
  cases h with
  | found h => exact ⟨first, hrun, rfl, fun item => .found h _⟩
  | latest found tagName key _ before after h =>
    obtain ⟨hfirst, hname⟩ := continues?_eq_some_iff.mp hrun
    obtain rfl := Option.some.inj hfirst
    exact ⟨_, continues?_eq_some_iff.mpr ⟨rfl, hname⟩, rfl,
      fun item => .latest found tagName key _ (item :: before) after h⟩

/-- The same item leads to states that differ in one text. -/
theorem readStep {item : Item} {after : Fields} {next : Option Run}
    (h : StateRespaced found run others run')
    (hstep : Record.readStep schema found run item = .ok (after, next)) :
    ∃ after' next', Record.readStep schema others run' item = .ok (after', next') ∧
      StateRespaced after next after' next' := by
  cases item with
  | text value =>
    obtain ⟨rfl, hvalue, hstate⟩ := readStep_text.mp hstep
    obtain ⟨rfl, rfl⟩ := Prod.mk.inj hstate
    cases h with
    | found h => exact ⟨others, none, readStep_text.mpr ⟨rfl, hvalue, rfl⟩, .found h none⟩
  | element tag content closed =>
    have hsettled := h.settle
    have hhas := hsettled.has_eq (String.ofList (localName tag.name))
    simp only [readStep_element_eq_ok_iff] at hstep ⊢
    cases hstep with
    | continued hrun hitem =>
      obtain ⟨second, hsecond, hsame, hnext⟩ := h.exists_continues? hrun
      exact ⟨_, _, .continued hsecond (hsame ▸ hitem), hnext _⟩
    | skipped hrun hkind hskip =>
      exact ⟨_, _, .skipped (h.continues?_eq_none hrun) hkind hskip, .found hsettled none⟩
    | started hrun hkind hnew hitem =>
      exact ⟨_, _, .started (h.continues?_eq_none hrun) hkind (hhas.trans hnew) hitem,
        .found hsettled _⟩
    | nested hrun hkind hnew hitem =>
      exact ⟨_, _, .nested (h.continues?_eq_none hrun) hkind (hhas.trans hnew) hitem,
        .found (hsettled.append _) none⟩
    | leaf hrun hkind hnew hvalue =>
      exact ⟨_, _, .leaf (h.continues?_eq_none hrun) hkind (hhas.trans hnew) hvalue,
        .found (hsettled.append _) none⟩

/-- The same items lead to records that differ in one text. -/
theorem readItems {items : List Item} {fields : Fields} (h : StateRespaced found run others run')
    (hread : Record.readItems schema found run items = .ok fields) :
    ∃ fields', Record.readItems schema others run' items = .ok fields' ∧
      Value.Respaced (.record fields) (.record fields') := by
  induction items generalizing found run others run' with
  | nil =>
    obtain rfl := Except.ok.inj hread
    exact ⟨_, rfl, h.settle⟩
  | cons item items ih =>
    rw [readItems_cons] at hread
    obtain ⟨⟨after, next⟩, hstep, hrest⟩ := exists_of_bind_eq_ok hread
    obtain ⟨after', next', hstep', hnext⟩ := h.readStep hstep
    rw [readItems_of_readStep hstep']
    exact ih hnext hrest

end StateRespaced

/-! ## Contents that differ in one run -/

variable {same : Prop}

/-- An element is read from other content as its fields are. -/
theorem readRecord_retold {tag : Tag} {content others : List Item} {closed : Bool} {item : Fields}
    (hcontent : ∀ fields, readItems schema [] none content = .ok fields →
      ∃ fields', readItems schema [] none others = .ok fields' ∧
        Value.Respaced (.record fields) (.record fields') ∧ (same → fields' = fields))
    (h : readRecord schema (.element tag content closed) = .ok item) :
    ∃ other, readRecord schema (.element tag others closed) = .ok other ∧
      Value.Respaced (.record item) (.record other) ∧ (same → other = item) := by
  rw [readRecord, closeRecord_eq_ok_iff] at h
  obtain ⟨htag, hclosed, hread⟩ := h
  obtain ⟨other, hother, hrespaced⟩ := hcontent item hread
  refine ⟨other, ?_, hrespaced⟩
  rw [readRecord]
  exact closeRecord_eq_ok_iff.mpr ⟨htag, hclosed, hother⟩

/-- What an element with other content does differs in one text. -/
theorem readStep_retold {found : Fields} {run : Option Run} {tag : Tag}
    {content others : List Item} {closed : Bool} {after : Fields} {next : Option Run}
    (hcontent : Retold same content others)
    (hsame : same → isLeafContent content = true → others = content)
    (hrecord : ∀ schema item, readRecord schema (.element tag content closed) = .ok item →
      ∃ other, readRecord schema (.element tag others closed) = .ok other ∧
        Value.Respaced (.record item) (.record other) ∧ (same → other = item))
    (hstep : readStep schema found run (.element tag content closed) = .ok (after, next)) :
    ∃ after' next', readStep schema found run (.element tag others closed) = .ok (after', next') ∧
      StateRespaced after next after' next' ∧ (same → after' = after ∧ next' = next) := by
  simp only [readStep_element_eq_ok_iff] at hstep ⊢
  cases hstep with
  | continued hrun hitem =>
    obtain ⟨other, hother, hrespaced, hequal⟩ := hrecord _ _ hitem
    exact ⟨_, _, .continued hrun hother, .latest found _ _ _ [] _ hrespaced,
      fun hsame => ⟨rfl, by rw [hequal hsame]⟩⟩
  | skipped hrun hkind hskip =>
    exact ⟨_, _, .skipped hrun hkind ((isSkippable_retold closed hcontent).trans hskip),
      .found (.refl _) none, fun _ => ⟨rfl, rfl⟩⟩
  | started hrun hkind hnew hitem =>
    obtain ⟨other, hother, hrespaced, hequal⟩ := hrecord _ _ hitem
    exact ⟨_, _, .started hrun hkind hnew hother, .latest _ _ _ _ [] [] hrespaced,
      fun hsame => ⟨rfl, by rw [hequal hsame]⟩⟩
  | nested hrun hkind hnew hitem =>
    obtain ⟨other, hother, hrespaced, hequal⟩ := hrecord _ _ hitem
    exact ⟨_, _, .nested hrun hkind hnew hother, .found (.concat hrespaced _ _) none,
      fun hsame => ⟨by rw [hequal hsame], rfl⟩⟩
  | @leaf kind value hrun hkind hnew hvalue =>
    obtain ⟨text, htext, rfl, hleaf⟩ := readLeafElement_eq_ok_iff.mp hvalue
    obtain ⟨other, hother, htrim⟩ := exists_leafText? hcontent htext
    obtain ⟨value', hvalue', hrespaced⟩ := Kind.readLeaf_respaced htrim hleaf
    have hread := readLeafElement_eq_ok_iff.mpr ⟨other, hother, rfl, hvalue'⟩
    refine ⟨_, _, .leaf hrun hkind hnew hread, .found (.concat hrespaced _ _) none, fun h => ?_⟩
    rw [hsame h (isLeafContent_of_leafText? htext), hvalue] at hread
    exact ⟨by rw [Except.ok.inj hread], rfl⟩

/-- Between elements a run of text is skipped, whatever white space it has. -/
theorem readSteps_sameButEdges {found : Fields} {run : Option Run} {items others : List Item}
    {state : Fields × Option Run} (h : SameButEdges items others)
    (hsteps : readSteps schema found run items = .ok state) :
    readSteps schema found run others = .ok state := by
  cases h with
  | none | unreadable => exact hsteps
  | lost | text =>
    obtain ⟨after, hstep, hnil⟩ := exists_of_bind_eq_ok hsteps
    obtain ⟨rfl, -, rfl⟩ := readStep_text.mp hstep
    exact hnil

/-- Contents that differ in one run are read as records that differ in one text. -/
theorem readItems_retold {items others : List Item} {fields : Fields}
    (h : Retold same items others) (hread : readItems schema [] none items = .ok fields) :
    ∃ fields', readItems schema [] none others = .ok fields' ∧
      Value.Respaced (.record fields) (.record fields') ∧ (same → fields' = fields) := by
  induction h generalizing schema fields with
  | refl => exact ⟨fields, hread, .refl _, fun _ => rfl⟩
  | here before after hrun =>
    obtain ⟨_, _, hfront, hread⟩ := exists_of_readItems_append hread
    obtain ⟨_, _, hrunRead, hrest⟩ := exists_of_readItems_append hread
    have hothers := readSteps_sameButEdges hrun hrunRead
    refine ⟨fields, ?_, .refl _, fun _ => rfl⟩
    rw [readItems_of_readSteps hfront, readItems_of_readSteps hothers]
    exact hrest
  | nested before after tag closed hsame hcontent ih =>
    obtain ⟨_, _, hfront, hread⟩ := exists_of_readItems_append hread
    rw [readItems_cons] at hread
    obtain ⟨⟨found, run⟩, hstep, hrest⟩ := exists_of_bind_eq_ok hread
    obtain ⟨found', run', hstep', hstate, hequal⟩ := readStep_retold hcontent hsame
      (fun _ _ => readRecord_retold fun _ hfields => ih hfields) hstep
    obtain ⟨fields', hread', hrespaced⟩ := hstate.readItems hrest
    rw [readItems_of_readSteps hfront, readItems_of_readStep hstep']
    refine ⟨fields', hread', hrespaced, fun h => ?_⟩
    obtain ⟨rfl, rfl⟩ := hequal h
    exact Except.ok.inj (hread'.symm.trans hrest)

/-- Documents that differ in one run are read as records that differ in one text. -/
theorem ofItems_retold {items others : List Item} {fields : Fields}
    (h : Retold same items others) (hread : ofItems schema items = .ok fields) :
    ∃ fields', ofItems schema others = .ok fields' ∧
      Value.Respaced (.record fields) (.record fields') ∧ (same → fields' = fields) := by
  have hequal (others : List Item) (hhead : others.head? = items.head?) :
      ∃ fields', ofItems schema others = .ok fields' ∧
        Value.Respaced (.record fields) (.record fields') ∧ (same → fields' = fields) :=
    ⟨fields, (ofItems_congr hhead).trans hread, .refl _, fun _ => rfl⟩
  cases h with
  | refl => exact hequal _ rfl
  | here before after hrun =>
    cases before with
    | cons => exact hequal _ rfl
    | nil =>
      cases hrun with
      | none | unreadable => exact hequal _ rfl
      | lost | text => cases hread
  | nested before after tag closed _ hcontent =>
    cases before with
    | cons => exact hequal _ rfl
    | nil => exact readRecord_retold (fun _ => readItems_retold hcontent) hread

end CallbackGateway.Record
