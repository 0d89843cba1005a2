import CallbackGateway.Proofs.Markup.Insertion
import CallbackGateway.Proofs.Record.Agreement
import CallbackGateway.Proofs.Record.MarkupReading

/-!
# Unknown elements

An element that a schema does not know is skipped, wherever it stands among the elements of a
record. One thing is not skipped with it: the elements of a repeated field have to be neighbours,
so that an unknown element between two of them makes the second one a repetition of the field.
-/

namespace CallbackGateway.Record

open Markup

/-! ## Steps of reading -/

/-- The kind that a schema declares for the elements of a name. -/
def kindOf (schema : Schema) (name : List Char) : Option Kind :=
  List.lookup (String.ofList (localName name)) schema

/-- What is found, and the run that is open, after one item more. -/
def readStep (schema : Schema) (found : Fields) (run : Option Run) :
    Item → Except RecordError (Fields × Option Run)
  | .text value =>
    if run.isSome || value.isNone then .error .malformed else .ok (found, none)
  | .element tag content closed =>
    match continues? run tag with
    | some run => do
      let item ← readRecord run.fields (.element tag content closed)
      return (found, some { run with latest := item :: run.latest })
    | none =>
      let found := settle found run
      let key := String.ofList (localName tag.name)
      match kindOf schema tag.name with
      | none => if isSkippable content closed then .ok (found, none) else .error .malformed
      | some kind =>
        if found.has key then .error .malformed
        else
          match kind with
          | .records fields => do
            let item ← readRecord fields (.element tag content closed)
            return (found, some ⟨tag.name, key, fields, [item]⟩)
          | .record fields => do
            let item ← readRecord fields (.element tag content closed)
            return (found ++ [(key, .record item)], none)
          | leaf => do
            let value ← readLeafElement leaf content closed
            return (found ++ [(key, value)], none)

/-- What is found, and the run that is open, after some items more. -/
def readSteps (schema : Schema) (found : Fields) (run : Option Run) :
    List Item → Except RecordError (Fields × Option Run)
  | [] => .ok (found, run)
  | item :: rest => do
    let (found, run) ← readStep schema found run item
    readSteps schema found run rest

variable {schema : Schema} {found : Fields} {run : Option Run}

/-- Items are read step by step. -/
theorem readItems_cons (item : Item) (rest : List Item) :
    readItems schema found run (item :: rest) =
      (readStep schema found run item).bind fun (found, run) =>
        readItems schema found run rest := by
  cases item with
  | text value =>
    rw [readItems, readStep]
    split <;> rfl
  | element tag content closed =>
    rw [readItems, readStep]
    cases continues? run tag with
    | some run =>
      dsimp only
      cases readRecord run.fields (.element tag content closed) <;> rfl
    | none =>
      dsimp only
      rw [kindOf]
      cases List.lookup (String.ofList (localName tag.name)) schema with
      | none =>
        dsimp only
        split <;> rfl
      | some kind =>
        dsimp only
        split
        · rfl
        · cases kind with
          | record fields | records fields =>
            dsimp only
            cases readRecord fields (.element tag content closed) <;> rfl
          | text | integer | real =>
            dsimp only
            cases readLeafElement _ content closed <;> rfl

/-- Items are read step by step. -/
theorem readItems_append (items rest : List Item) :
    readItems schema found run (items ++ rest) =
      (readSteps schema found run items).bind fun (found, run) =>
        readItems schema found run rest := by
  induction items generalizing found run with
  | nil => rfl
  | cons item items ih =>
    rw [List.cons_append, readItems_cons, readSteps]
    cases readStep schema found run item with
    | error e => rfl
    | ok state => exact ih

/-- After items that can be read, the rest is read from where they lead. -/
theorem readItems_of_readSteps {items : List Item} {after : Fields} {next : Option Run}
    (h : readSteps schema found run items = .ok (after, next)) (rest : List Item) :
    readItems schema found run (items ++ rest) = readItems schema after next rest := by
  rw [readItems_append, h]
  rfl

/-- Items in two parts are read through a state between the parts. -/
theorem exists_of_readItems_append {items rest : List Item} {fields : Fields}
    (h : readItems schema found run (items ++ rest) = .ok fields) :
    ∃ after next, readSteps schema found run items = .ok (after, next) ∧
      readItems schema after next rest = .ok fields := by
  rw [readItems_append] at h
  obtain ⟨⟨after, next⟩, hitems, hrest⟩ := exists_of_bind_eq_ok h
  exact ⟨after, next, hitems, hrest⟩

/-- The items behind one that is read are read in the state that it leads to. -/
theorem readItems_of_readStep {item : Item} {after : Fields} {next : Option Run}
    (h : readStep schema found run item = .ok (after, next)) (rest : List Item) :
    readItems schema found run (item :: rest) = readItems schema after next rest := by
  rw [readItems_cons, h]
  rfl

/-- The steps over items in two parts are those over each part in turn. -/
theorem readSteps_append (items rest : List Item) :
    readSteps schema found run (items ++ rest) =
      (readSteps schema found run items).bind fun (found, run) =>
        readSteps schema found run rest := by
  induction items generalizing found run with
  | nil => rfl
  | cons item items ih =>
    rw [List.cons_append, readSteps, readSteps]
    cases readStep schema found run item with
    | error e => rfl
    | ok state => exact ih

/-- An element continues a run just if there is one and it has the element's tag name. -/
theorem continues?_eq_some_iff {tag : Tag} {first : Run} :
    continues? run tag = some first ↔ run = some first ∧ first.tagName = tag.name := by
  rw [continues?, Option.filter_eq_some_iff, beq_iff_eq]

/-- Text between elements is passed over outside a run only, and changes nothing. -/
theorem readStep_text {value : Option (List Char)} {state : Fields × Option Run} :
    readStep schema found run (.text value) = .ok state ↔
      run = none ∧ value.isSome = true ∧ state = (found, none) := by
  rw [readStep]
  cases run <;> cases value <;> simp [eq_comm]

/-- What an element does that can be read: it continues the run that is open, or it ends the run
and is skipped, starts another run, or is a field. -/
inductive ElementStep (schema : Schema) (found : Fields) (run : Option Run) (tag : Tag)
    (content : List Item) (closed : Bool) : Fields → Option Run → Prop
  | continued {first : Run} {item : Fields} (hrun : continues? run tag = some first)
      (hitem : readRecord first.fields (.element tag content closed) = .ok item) :
      ElementStep schema found run tag content closed found
        (some { first with latest := item :: first.latest })
  | skipped (hrun : continues? run tag = none) (hkind : kindOf schema tag.name = none)
      (hskip : isSkippable content closed = true) :
      ElementStep schema found run tag content closed (settle found run) none
  | started {fields : Schema} {item : Fields} (hrun : continues? run tag = none)
      (hkind : kindOf schema tag.name = some (.records fields))
      (hnew : (settle found run).has (String.ofList (localName tag.name)) = false)
      (hitem : readRecord fields (.element tag content closed) = .ok item) :
      ElementStep schema found run tag content closed (settle found run)
        (some ⟨tag.name, String.ofList (localName tag.name), fields, [item]⟩)
  | nested {fields : Schema} {item : Fields} (hrun : continues? run tag = none)
      (hkind : kindOf schema tag.name = some (.record fields))
      (hnew : (settle found run).has (String.ofList (localName tag.name)) = false)
      (hitem : readRecord fields (.element tag content closed) = .ok item) :
      ElementStep schema found run tag content closed
        (settle found run ++ [(String.ofList (localName tag.name), .record item)]) none
  | leaf {kind : Kind} {value : Value} (hrun : continues? run tag = none)
      (hkind : kindOf schema tag.name = some kind)
      (hnew : (settle found run).has (String.ofList (localName tag.name)) = false)
      (hvalue : readLeafElement kind content closed = .ok value) :
      ElementStep schema found run tag content closed
        (settle found run ++ [(String.ofList (localName tag.name), value)]) none

/-- A leaf is read from its text. -/
theorem readLeafElement_eq_ok_iff {kind : Kind} {content : List Item} {closed : Bool}
    {value : Value} : readLeafElement kind content closed = .ok value ↔
      ∃ text, leafText? content = some text ∧ closed = true ∧ kind.readLeaf text = .ok value := by
  unfold readLeafElement
  constructor
  · intro h
    split at h
    · rename_i text htext
      exact ⟨text, htext, rfl, h⟩
    · cases h
  · rintro ⟨text, htext, rfl, h⟩
    rw [htext]
    exact h

/-- An element is read just if one of the steps for elements applies. -/
theorem readStep_element_eq_ok_iff {tag : Tag} {content : List Item} {closed : Bool}
    {after : Fields} {next : Option Run} :
    readStep schema found run (.element tag content closed) = .ok (after, next) ↔
      ElementStep schema found run tag content closed after next := by
  constructor
  · intro h
    rw [readStep] at h
    cases hrun : continues? run tag with
    | some first =>
      rw [hrun] at h
      obtain ⟨item, hitem, hstate⟩ := exists_of_bind_eq_ok h
      obtain ⟨rfl, rfl⟩ := Prod.mk.inj (Except.ok.inj hstate)
      exact .continued hrun hitem
    | none =>
      rw [hrun] at h
      dsimp only at h
      cases hkind : kindOf schema tag.name with
      | none =>
        rw [hkind] at h
        dsimp only at h
        split at h
        · rename_i hskip
          obtain ⟨rfl, rfl⟩ := Prod.mk.inj (Except.ok.inj h)
          exact .skipped hrun hkind hskip
        · cases h
      | some kind =>
        rw [hkind] at h
        dsimp only at h
        split at h
        · cases h
        · rename_i hhas
          have hnew := Bool.eq_false_iff.mpr hhas
          cases kind with
          | records fields | record fields =>
            obtain ⟨item, hitem, hstate⟩ := exists_of_bind_eq_ok h
            obtain ⟨rfl, rfl⟩ := Prod.mk.inj (Except.ok.inj hstate)
            first
              | exact .started hrun hkind hnew hitem
              | exact .nested hrun hkind hnew hitem
          | text | integer | real =>
            obtain ⟨value, hvalue, hstate⟩ := exists_of_bind_eq_ok h
            obtain ⟨rfl, rfl⟩ := Prod.mk.inj (Except.ok.inj hstate)
            exact .leaf hrun hkind hnew hvalue
  · intro h
    rw [readStep]
    cases h with
    | continued hrun hitem =>
      rw [hrun]
      dsimp only
      rw [hitem]
      rfl
    | skipped hrun hkind hskip =>
      rw [hrun, hkind]
      exact if_pos hskip
    | started hrun hkind hnew hitem | nested hrun hkind hnew hitem =>
      rw [hrun, hkind]
      dsimp only
      rw [hnew, hitem]
      rfl
    | @leaf kind value hrun hkind hnew hvalue =>
      rw [hrun, hkind]
      dsimp only
      rw [hnew]
      cases kind with
      | records | record =>
        obtain ⟨_, -, -, hleaf⟩ := readLeafElement_eq_ok_iff.mp hvalue
        cases hleaf
      | text | integer | real =>
        dsimp only
        rw [hvalue]
        rfl

/-! ## Runs -/

/-- Whether the elements of a name are a repeated field. -/
def isRepeated (schema : Schema) (name : List Char) : Bool :=
  match kindOf schema name with
  | some (.records _) => true
  | _ => false

/-- Whether a run is one of a repeated field of a schema. -/
structure Run.IsOf (schema : Schema) (run : Run) : Prop where
  key : run.key = String.ofList (localName run.tagName)
  kind : kindOf schema run.tagName = some (.records run.fields)

/-- After an element a run is open just if the element is one of a repeated field. -/
theorem run_of_readStep {tag : Tag} {content : List Item} {closed : Bool} {after : Fields}
    {next : Option Run} (hrun : ∀ first ∈ run, first.IsOf schema)
    (h : readStep schema found run (.element tag content closed) = .ok (after, next)) :
    (∀ first ∈ next, first.IsOf schema) ∧
      next.map Run.tagName = if isRepeated schema tag.name then some tag.name else none := by
  have none_of (hrepeated : isRepeated schema tag.name = false) :
      (∀ first ∈ (none : Option Run), first.IsOf schema) ∧ Option.map Run.tagName none =
        if isRepeated schema tag.name then some tag.name else none := by
    rw [hrepeated]
    exact ⟨by simp, rfl⟩
  cases readStep_element_eq_ok_iff.mp h with
  | @continued first item hcontinues hitem =>
    obtain ⟨rfl, hname⟩ := continues?_eq_some_iff.mp hcontinues
    have hfirst := hrun first rfl
    have hrepeated : isRepeated schema tag.name = true := by
      rw [isRepeated, ← hname, hfirst.kind]
    rw [hrepeated, if_pos rfl, ← hname]
    exact ⟨fun other hother => Option.mem_some.mp hother ▸ ⟨hfirst.key, hfirst.kind⟩, rfl⟩
  | started _ hkind =>
    have hrepeated : isRepeated schema tag.name = true := by
      rw [isRepeated, hkind]
    rw [hrepeated]
    exact ⟨fun other hother => Option.mem_some.mp hother ▸ ⟨rfl, hkind⟩, rfl⟩
  | skipped _ hkind | nested _ hkind => exact none_of (by rw [isRepeated, hkind])
  | @leaf kind value _ hkind _ hvalue =>
    refine none_of ?_
    rw [isRepeated, hkind]
    cases kind with
    | records =>
      obtain ⟨_, -, -, hleaf⟩ := readLeafElement_eq_ok_iff.mp hvalue
      cases hleaf
    | text | integer | real | record => rfl

/-- A run stays one of a field that the schema declares. -/
theorem isOf_of_readSteps {items : List Item} {after : Fields} {next : Option Run}
    (hrun : ∀ first ∈ run, first.IsOf schema)
    (h : readSteps schema found run items = .ok (after, next)) :
    ∀ first ∈ next, first.IsOf schema := by
  induction items generalizing found run with
  | nil =>
    obtain ⟨-, rfl⟩ := Prod.mk.inj (Except.ok.inj h)
    exact hrun
  | cons item items ih =>
    obtain ⟨⟨middle, open'⟩, hstep, hrest⟩ := exists_of_bind_eq_ok h
    refine ih ?_ hrest
    cases item with
    | text value =>
      obtain ⟨-, -, hstate⟩ := readStep_text.mp hstep
      obtain ⟨-, rfl⟩ := Prod.mk.inj hstate
      simp
    | element tag content closed => exact (run_of_readStep hrun hstep).1

/-- The run that is open after some items, if the last of them is an element. -/
theorem run_of_readSteps {items : List Item} {after : Fields} {next : Option Run}
    (hlast : ∀ item ∈ items.getLast?, item.isText = false)
    (h : readSteps schema [] none items = .ok (after, next)) :
    next.map Run.tagName = (items.getLast?.bind Item.name?).filter (isRepeated schema) := by
  rcases List.eq_nil_or_concat items with rfl | ⟨front, last, rfl⟩
  · obtain ⟨-, rfl⟩ := Prod.mk.inj (Except.ok.inj h)
    rfl
  · rw [List.concat_eq_append] at h hlast ⊢
    rw [readSteps_append] at h
    obtain ⟨⟨middle, open'⟩, hfront, hend⟩ := exists_of_bind_eq_ok h
    obtain ⟨state, hstep, hnil⟩ := exists_of_bind_eq_ok hend
    obtain rfl : state = (after, next) := Except.ok.inj hnil
    rw [List.getLast?_concat]
    cases last with
    | text value => exact absurd (hlast _ List.getLast?_concat) (by simp [Item.isText])
    | element tag content closed =>
      have hopen := isOf_of_readSteps (by simp) hfront
      rw [(run_of_readStep hopen hstep).2, Option.bind_some, Item.name?, Option.filter_some]

/-! ## Skipped items -/

/-- Text between elements is looked at, and then skipped. -/
theorem readSteps_texts {items : List Item} (htexts : items.all Item.isText = true)
    {state : Fields × Option Run} (h : readSteps schema found run items = .ok state) :
    state = (found, run) ∧ items.all Item.hasValue = true ∧ (run ≠ none → items = []) := by
  induction items generalizing found run with
  | nil => exact ⟨(Except.ok.inj h).symm, rfl, fun _ => rfl⟩
  | cons item items ih =>
    rw [List.all_cons, Bool.and_eq_true] at htexts
    obtain ⟨⟨middle, open'⟩, hstep, hrest⟩ := exists_of_bind_eq_ok h
    cases item with
    | element => simp [Item.isText] at htexts
    | text value =>
      obtain ⟨rfl, hvalue, hstate⟩ := readStep_text.mp hstep
      obtain ⟨rfl, rfl⟩ := Prod.mk.inj hstate
      obtain ⟨hsame, hvalues, -⟩ := ih htexts.2 hrest
      refine ⟨hsame, ?_, fun hne => absurd rfl hne⟩
      rw [List.all_cons, hvalues, Bool.and_true]
      exact hvalue

/-- Texts outside a run are passed over. -/
theorem readSteps_skip_texts {items : List Item} (htexts : items.all Item.isText = true)
    (hvalues : items.all Item.hasValue = true) :
    readSteps schema found none items = .ok (found, none) := by
  induction items with
  | nil => rfl
  | cons item items ih =>
    rw [List.all_cons, Bool.and_eq_true] at htexts hvalues
    cases item with
    | element => simp [Item.isText] at htexts
    | text value =>
      have hstep : readStep schema found none (.text value) = .ok (found, none) :=
        readStep_text.mpr ⟨rfl, hvalues.1, rfl⟩
      rw [readSteps, hstep]
      exact ih htexts.2 hvalues.2

/-- Content whose references all have values can be skipped. -/
theorem isSkippable_of_hasValue {content : List Item} (h : content.all Item.hasValue = true) :
    isSkippable content true = true := by
  cases content with
  | nil => rfl
  | cons item rest =>
    rw [List.all_cons, Bool.and_eq_true] at h
    cases item with
    | element => rfl
    | text value =>
      cases value with
      | none => simp [Item.hasValue] at h
      | some => rfl

/-- An unknown element ends the run that is open, and is skipped. -/
theorem readStep_unknown {tag : Tag} {content : List Item}
    (hrun : ∀ first ∈ run, first.IsOf schema) (hkind : kindOf schema tag.name = none)
    (hcontent : content.all Item.hasValue = true) :
    readStep schema found run (.element tag content true) = .ok (settle found run, none) := by
  have hcontinues : continues? run tag = none := by
    cases hcontinues : continues? run tag with
    | none => rfl
    | some first =>
      obtain ⟨rfl, hname⟩ := continues?_eq_some_iff.mp hcontinues
      have hfirst := (hrun first rfl).kind
      rw [hname, hkind] at hfirst
      cases hfirst
  rw [readStep, hcontinues]
  dsimp only
  rw [hkind]
  dsimp only
  rw [if_pos (isSkippable_of_hasValue hcontent)]

/-- Where a run has ended, it makes no difference that it was settled before. -/
theorem readItems_settled {items : List Item} (hrun : ∀ first ∈ run, first.IsOf schema)
    (hfirst : ∀ item ∈ items.head?, item.isText = false) :
    readItems schema (settle found run) none items =
      if (run.map Run.tagName).isSome && run.map Run.tagName == items.head?.bind Item.name?
      then .error .malformed else readItems schema found run items := by
  cases items with
  | nil =>
    cases run with
    | none => rfl
    | some first => rfl
  | cons item rest =>
    cases item with
    | text => exact absurd (hfirst _ rfl) (by simp [Item.isText])
    | element tag content closed =>
      have hname : ((Item.element tag content closed :: rest).head?.bind Item.name?) =
          some tag.name := rfl
      rw [hname]
      rw [readItems_cons, readItems_cons]
      cases hcontinues : continues? run tag with
      | some first =>
        -- The run was settled, so that its field is found already.
        obtain ⟨rfl, hsame⟩ := continues?_eq_some_iff.mp hcontinues
        obtain ⟨hkey, hkind⟩ := hrun first rfl
        have hfound : (settle found (some first)).has (String.ofList (localName tag.name)) =
            true := by
          rw [← hsame, ← hkey, settle, Fields.has, List.lookup_append, List.lookup_cons_self]
          cases List.lookup first.key found <;> rfl
        rw [Option.map_some, hsame, Option.isSome_some, beq_self_eq_true, Bool.and_self, if_pos rfl,
          readStep]
        dsimp only [continues?, Option.filter_none]
        rw [← hsame, hkind, settle.eq_1, hsame, hfound]
        rfl
      | none =>
        have hnot : ((run.map Run.tagName).isSome && run.map Run.tagName == some tag.name) =
            false := by
          cases run with
          | none => rfl
          | some first =>
            rw [Bool.and_eq_false_iff]
            refine .inr (beq_eq_false_iff_ne.mpr fun hsame => ?_)
            have hfirst := continues?_eq_some_iff.mpr ⟨rfl, Option.some.inj hsame⟩
            rw [hcontinues] at hfirst
            cases hfirst
        rw [hnot, if_neg Bool.false_ne_true, readStep, readStep, hcontinues]
        rfl

/-! ## One element more -/

/-- The schema of the records in the elements with some names, the outermost first. -/
def schemaAt? (schema : Schema) : List (List Char) → Option Schema
  | [] => some schema
  | name :: path =>
    match kindOf schema name with
    | some (.record fields) | some (.records fields) => schemaAt? fields path
    | _ => none

/-- Whether two neighbouring elements belong to one repeated field. -/
def formRun (schema : Schema) (last next : Option (List Char)) : Bool :=
  last.any fun name => isRepeated schema name && next == some name

/-- Whether the next element continues the run is read off the tag names alone. -/
theorem formRun_eq {last next : Option (List Char)}
    (h : run.map Run.tagName = last.filter (isRepeated schema)) :
    ((run.map Run.tagName).isSome && run.map Run.tagName == next) = formRun schema last next := by
  rw [h, formRun]
  cases last with
  | none => rfl
  | some name =>
    rw [Option.filter_some, Option.any_some]
    cases isRepeated schema name with
    | true => rw [if_pos rfl, Option.isSome_some, Bool.true_and, Bool.true_and, BEq.comm]
    | false => rfl

/-- A record is read from wider content as its fields are. -/
theorem readRecord_widened {tag : Tag} {content wider : List Item} {divides : Bool} {item : Fields}
    (hwider : ∀ fields, readItems schema [] none content = .ok fields →
      readItems schema [] none wider = if divides then .error .malformed else .ok fields)
    (h : readRecord schema (.element tag content true) = .ok item) :
    readRecord schema (.element tag wider true) =
      if divides then .error .malformed else .ok item := by
  rw [readRecord, closeRecord] at h ⊢
  cases htag : tag.isWellFormed with
  | false =>
    rw [htag] at h
    cases h
  | true =>
    rw [htag] at h
    cases hfields : readItems schema [] none content with
    | error e =>
      rw [hfields] at h
      cases h
    | ok fields =>
      rw [hfields] at h
      obtain rfl : fields = item := Except.ok.inj h
      rw [hwider fields hfields]
      cases divides <;> rfl

/-- An element that is read as a record is read from wider content as its record is. -/
theorem readStep_widened {inner : Schema} {tag : Tag} {content wider : List Item} {divides : Bool}
    {state : Fields × Option Run} (hrun : ∀ first ∈ run, first.IsOf schema)
    (hkind : kindOf schema tag.name = some (.record inner) ∨
      kindOf schema tag.name = some (.records inner))
    (hwider : ∀ fields, readItems inner [] none content = .ok fields →
      readItems inner [] none wider = if divides then .error .malformed else .ok fields)
    (h : readStep schema found run (.element tag content true) = .ok state) :
    readStep schema found run (.element tag wider true) =
      if divides then .error .malformed else .ok state := by
  rw [readStep] at h ⊢
  cases hcontinues : continues? run tag with
  | some first =>
    obtain ⟨rfl, hname⟩ := continues?_eq_some_iff.mp hcontinues
    have hfirst := (hrun first rfl).kind
    obtain rfl : first.fields = inner := by
      rw [hname] at hfirst
      rcases hkind with hrecord | hrecords
      · rw [hrecord] at hfirst
        cases hfirst
      · rw [hrecords] at hfirst
        exact (Kind.records.inj (Option.some.inj hfirst)).symm
    rw [hcontinues] at h
    obtain ⟨item, hitem, hstate⟩ := exists_of_bind_eq_ok h
    dsimp only
    rw [readRecord_widened hwider hitem]
    cases divides with
    | true => rfl
    | false => exact hstate
  | none =>
    rw [hcontinues] at h
    dsimp only at h ⊢
    rcases hkind with hkind | hkind <;>
    · rw [hkind] at h ⊢
      dsimp only at h ⊢
      split at h
      · cases h
      · rename_i hnew
        obtain ⟨item, hitem, hstate⟩ := exists_of_bind_eq_ok h
        rw [if_neg hnew, readRecord_widened hwider hitem]
        cases divides with
        | true => rfl
        | false => exact hstate

/-- Content with one element more is read as the content, if the schema does not know the element
and if it does not come between two elements of one repeated field. -/
theorem readItems_widened {name : List Char} {path : List (List Char)}
    {last next : Option (List Char)} {items wider : List Item} {inner : Schema} {fields : Fields}
    (h : Widened name path last next items wider) (hpath : schemaAt? schema path = some inner)
    (hname : kindOf inner name = none) (hread : readItems schema [] none items = .ok fields) :
    readItems schema [] none wider =
      if formRun inner last next then .error .malformed else .ok fields := by
  induction h generalizing schema fields with
  | @here before gap first second after tag content htag hcontent hbefore hafter hgap hfirst
      hsecond hvalue hempty =>
    obtain rfl : schema = inner := Option.some.inj hpath
    subst htag
    obtain ⟨_, _, hfront, hrest⟩ := exists_of_readItems_append hread
    obtain ⟨found, run, hgapRead, hafterRead⟩ := exists_of_readItems_append hrest
    obtain ⟨hstate, hgapValue, hgapNil⟩ := readSteps_texts hgap hgapRead
    obtain ⟨rfl, rfl⟩ := Prod.mk.inj hstate
    have hrun := isOf_of_readSteps (by simp) hfront
    have hfirstRead : readSteps schema found run first = .ok (found, run) := by
      cases run with
      | none => exact readSteps_skip_texts hfirst (hvalue hgapValue).1
      | some opened =>
        have hne : before ≠ [] := by
          rintro rfl
          cases hfront
        rw [hempty hne (hgapNil (by simp))]
        rfl
    have hsecondRead : readSteps schema (settle found run) none second =
        .ok (settle found run, none) := readSteps_skip_texts hsecond (hvalue hgapValue).2
    rw [readItems_of_readSteps hfront, readItems_of_readSteps hfirstRead,
      readItems_of_readStep (readStep_unknown hrun hname hcontent),
      readItems_of_readSteps hsecondRead, readItems_settled hrun hafter,
      formRun_eq (run_of_readSteps hbefore hfront), hafterRead]
  | @nested path last next tag content wider before after _ ih =>
    obtain ⟨nested, hkind, hinner⟩ : ∃ nested, (kindOf schema tag.name = some (.record nested) ∨
        kindOf schema tag.name = some (.records nested)) ∧
          schemaAt? nested path = some inner := by
      rw [schemaAt?] at hpath
      split at hpath
      · rename_i nested hkind
        exact ⟨nested, .inl hkind, hpath⟩
      · rename_i nested hkind
        exact ⟨nested, .inr hkind, hpath⟩
      · cases hpath
    obtain ⟨found, run, hfront, hread⟩ := exists_of_readItems_append hread
    rw [readItems_cons] at hread
    obtain ⟨⟨after', next'⟩, hstep, hread⟩ := exists_of_bind_eq_ok hread
    have hwider := readStep_widened (isOf_of_readSteps (by simp) hfront) hkind
      (fun fields hfields => ih hinner hfields) hstep
    rw [readItems_of_readSteps hfront, readItems_cons, hwider]
    split
    · rfl
    · exact hread

end CallbackGateway.Record
