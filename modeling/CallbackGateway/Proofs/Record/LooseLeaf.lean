import CallbackGateway.Proofs.Record.Spelling
import CallbackGateway.Proofs.Record.UnknownElement
import CallbackGateway.Proofs.Record.UnknownMember

/-!
# Integer leaves as texts

A schema is loosened at an integer leaf if the leaf is declared as a text. What the schema itself
reads in a document is then told from the record with the text: the text is read as the integer, or
refused, and everything else stays as it is. This holds for markup and for JSON, so that a leaf can
be followed in documents of either format by its text alone.
-/

namespace CallbackGateway.Record

open Markup Text

/-! ## Loosened kinds -/

/-- A kind in which the leaf at a path is a text. -/
def Kind.loosen : List String → Kind → Kind
  | [], _ => .text
  | name :: path, .record schema =>
    .record (schema.map fun (key, kind) => (key, if key = name then kind.loosen path else kind))
  | _ :: _, kind => kind

/-- A schema in which the leaf at a path behind a name is a text. -/
def loosenAt (name : String) (path : List String) (schema : Schema) : Schema :=
  schema.map fun (key, kind) => (key, if key = name then kind.loosen path else kind)

/-- Whether a kind declares an integer of a range at a path. -/
def Kind.HasInteger (range : IntegerRange) : List String → Kind → Prop
  | [], kind => kind = .integer range
  | name :: path, .record schema => ∀ kind, (name, kind) ∈ schema → kind.HasInteger range path
  | _ :: _, _ => False

/-- What a value is with the text at a path read as an integer. -/
def Value.tighten (range : IntegerRange) : List String → Value → Except RecordError Value
  | [], .text content => (Kind.integer range).readLeaf content.toList
  | name :: path, .record fields =>
    (collect (fun (key, value) =>
      if key = name then (value.tighten range path).map fun tight => [(key, tight)]
      else .ok [(key, value)]) fields).map .record
  | _, value => .ok value

/-- What a field is with the text at a path behind a name read as an integer. -/
def tightenField (range : IntegerRange) (name : String) (path : List String) :
    String × Value → Except RecordError Fields
  | (key, value) =>
    if key = name then (value.tighten range path).map fun tight => [(key, tight)]
    else .ok [(key, value)]

variable {range : IntegerRange} {name : String} {path : List String} {schema : Schema}

/-- A record is tightened at a path through the fields under the path's first name. -/
theorem tighten_record (fields : Fields) : (Value.record fields).tighten range (name :: path) =
    (collect (tightenField range name path) fields).map .record := rfl

/-- A list of records has no leaf at a path, and is left as it is. -/
theorem tighten_records (items : List Fields) :
    (Value.records items).tighten range path = .ok (.records items) := by
  cases path <;> rfl

/-- The field under the path's first name is tightened at the rest of the path. -/
theorem tightenField_same (value : Value) : tightenField range name path (name, value) =
    (value.tighten range path).map fun tight => [(name, tight)] := if_pos rfl

/-- A field under another name is left as it is. -/
theorem tightenField_other {key : String} (h : key ≠ name) (value : Value) :
    tightenField range name path (key, value) = .ok [(key, value)] := if_neg h

/-- A tightened field keeps its name. -/
theorem readsOwnField_tightenField : ReadsOwnField (tightenField range name path) := by
  intro key value found h
  rw [tightenField] at h
  split at h
  · obtain ⟨tight, -, rfl⟩ := exists_of_map_eq_ok h
    exact .inr ⟨tight, rfl⟩
  · obtain rfl := Except.ok.inj h
    exact .inr ⟨value, rfl⟩

/-- A record's kind is never a list's. -/
theorem record_ne_records {fields : Schema} (inner : Schema) :
    Kind.record fields ≠ .records inner := nofun

/-- A kind with an integer at a path is no list's, before and after the leaf is loosened. -/
theorem kind_ne_records {kind : Kind} (h : kind.HasInteger range path) (inner : Schema) :
    kind ≠ .records inner ∧ kind.loosen path ≠ .records inner := by
  cases path with
  | nil =>
    obtain rfl : kind = .integer range := h
    constructor <;> exact fun hsame => by cases hsame
  | cons name path =>
    cases kind with
    | record schema => constructor <;> exact fun hsame => by cases hsame
    | text | integer | real | records => exact h.elim

/-- The loosened schema declares the names of the schema, with the kind under the path's first name
loosened. -/
theorem lookup_loosenAt (key : String) : List.lookup key (loosenAt name path schema) =
    (List.lookup key schema).map fun kind => if key = name then kind.loosen path else kind :=
  lookup_updated key schema

/-- The kind of an element in the loosened schema is its kind in the schema, loosened where it has
the path's first name. -/
theorem kindOf_loosenAt (tagName : List Char) : kindOf (loosenAt name path schema) tagName =
    (kindOf schema tagName).map fun kind =>
      if String.ofList (localName tagName) = name then kind.loosen path else kind :=
  lookup_loosenAt _

/-! ## Collecting in two steps -/

section Collect

variable {α : Type} {read : String × α → Except RecordError Fields}

/-- Entries in two parts are collected part by part. -/
theorem collect_append (first rest : List (String × α)) : collect read (first ++ rest) =
    (collect read first).bind fun found => (collect read rest).map (found ++ ·) := by
  induction first with
  | nil =>
    rw [List.nil_append, collect, Except.bind]
    cases collect read rest <;> rfl
  | cons entry first ih =>
    rw [List.cons_append, collect, collect, ih]
    cases read entry with
    | error e => rfl
    | ok found =>
      cases collect read first with
      | error e => rfl
      | ok others =>
        cases collect read rest <;>
          simp [bind, Except.bind, pure, Except.pure, Except.map]

/-- One entry alone is collected as it is read. -/
theorem collect_singleton (entry : String × α) : collect read [entry] = read entry := by
  rw [collect]
  cases read entry <;> simp [collect, bind, Except.bind, pure, Except.pure]

/-- What is collected in two steps is collected in one, where every entry can be read so. -/
theorem collect_collect {loose : String × α → Except RecordError Fields}
    {next : String × Value → Except RecordError Fields} {entries : List (String × α)}
    {found : Fields}
    (hread : ∀ entry found, loose entry = .ok found → read entry = collect next found)
    (h : collect loose entries = .ok found) : collect read entries = collect next found := by
  induction entries generalizing found with
  | nil =>
    obtain rfl := Except.ok.inj h
    rfl
  | cons entry entries ih =>
    obtain ⟨first, others, hfirst, hothers, rfl⟩ := collect_cons_eq_ok h
    rw [collect, hread entry first hfirst, ih hothers, collect_append]
    cases collect next first with
    | error e => rfl
    | ok tight => cases collect next others <;> rfl

end Collect

/-! ## Markup -/

/-- Read an element as a field that is not repeated. -/
def readField (kind : Kind) (tag : Tag) (content : List Item) (closed : Bool) :
    Except RecordError Value :=
  match kind with
  | .record fields => (readRecord fields (.element tag content closed)).map .record
  | kind => readLeafElement kind content closed

section Markup

variable {found : Fields} {run : Option Run} {tag : Tag} {content : List Item} {closed : Bool}

/-- A new field that is not repeated is added to what was found. -/
theorem readStep_field {kind : Kind} (hrun : continues? run tag = none)
    (hkind : kindOf schema tag.name = some kind)
    (hnew : (settle found run).has (String.ofList (localName tag.name)) = false)
    (hone : ∀ inner, kind ≠ .records inner) :
    readStep schema found run (.element tag content closed) =
      (readField kind tag content closed).map fun value =>
        (settle found run ++ [(String.ofList (localName tag.name), value)], none) := by
  rw [readStep, hrun, hkind]
  dsimp only
  rw [hnew, if_neg Bool.false_ne_true]
  cases kind with
  | records inner => exact absurd rfl (hone inner)
  | record inner =>
    dsimp only [readField]
    cases readRecord inner (.element tag content closed) <;> rfl
  | text | integer | real =>
    dsimp only [readField]
    cases readLeafElement _ content closed <;> rfl

/-- An element that is read as a leaf of a kind is read as a field of that kind. -/
theorem readField_of_leaf {kind : Kind} {value : Value}
    (h : readLeafElement kind content closed = .ok value) :
    (∀ inner, kind ≠ .records inner) ∧ readField kind tag content closed = .ok value := by
  obtain ⟨_, -, -, hread⟩ := readLeafElement_eq_ok_iff.mp h
  cases kind with
  | record | records => cases hread
  | text | integer | real => exact ⟨fun _ => nofun, h⟩

/-- An element that is read as a record is read as a field of the record's kind. -/
theorem readField_of_record {inner : Schema} {fields : Fields}
    (h : readRecord inner (.element tag content closed) = .ok fields) :
    readField (.record inner) tag content closed = .ok (.record fields) := by
  dsimp only [readField]
  rw [h]
  rfl

/-- Nothing that was found is lost. -/
theorem exists_append_of_readItems {items : List Item} {fields : Fields}
    (h : readItems schema found run items = .ok fields) : ∃ more, fields = found ++ more := by
  have hsettle (found : Fields) (run : Option Run) : ∃ more, settle found run = found ++ more := by
    cases run with
    | none => exact ⟨[], (List.append_nil found).symm⟩
    | some run => exact ⟨_, rfl⟩
  induction items generalizing found run with
  | nil =>
    obtain ⟨more, hmore⟩ := hsettle found run
    rw [readItems] at h
    exact ⟨more, (Except.ok.inj h).symm.trans hmore⟩
  | cons item rest ih =>
    rw [readItems_cons] at h
    obtain ⟨⟨after, next⟩, hstep, hrest⟩ := exists_of_bind_eq_ok h
    obtain ⟨more, rfl⟩ := ih hrest
    obtain ⟨middle, hmiddle⟩ := hsettle found run
    cases item with
    | text value =>
      obtain ⟨-, -, hstate⟩ := readStep_text.mp hstep
      obtain ⟨rfl, -⟩ := Prod.mk.inj hstate
      exact ⟨more, rfl⟩
    | element tag content closed =>
      cases readStep_element_eq_ok_iff.mp hstep with
      | continued => exact ⟨more, rfl⟩
      | skipped | started | nested | leaf =>
        rw [hmiddle]
        simp only [List.append_assoc]
        exact ⟨_, rfl⟩

end Markup

section Loosened

variable {loose found : Fields} {run : Option Run}
  (hschema : ∀ kind, (name, kind) ∈ schema → kind.HasInteger range path)
  (hfield : ∀ {kind : Kind} {tag : Tag} {content : List Item} {closed : Bool} {value : Value},
    kind.HasInteger range path → readField (kind.loosen path) tag content closed = .ok value →
      readField kind tag content closed = value.tighten range path)

/-- A run that is settled into loose fields is settled into the tightened ones. -/
theorem collect_settle (h : collect (tightenField range name path) loose = .ok found) :
    collect (tightenField range name path) (settle loose run) = .ok (settle found run) := by
  cases run with
  | none => exact h
  | some run =>
    have hrun : tightenField range name path (run.key, .records run.latest.reverse) =
        .ok [(run.key, .records run.latest.reverse)] := by
      rw [tightenField, tighten_records]
      split <;> rfl
    rw [settle, collect_append, h, collect_singleton, hrun]
    rfl

/-- The tightened fields hold the names of the loose ones. -/
theorem has_eq_of_collect (h : collect (tightenField range name path) loose = .ok found)
    (key : String) : found.has key = loose.has key := by
  induction loose generalizing found with
  | nil =>
    obtain rfl := Except.ok.inj h
    rfl
  | cons entry loose ih =>
    obtain ⟨other, value⟩ := entry
    obtain ⟨first, others, hfirst, hothers, rfl⟩ := collect_cons_eq_ok h
    obtain ⟨tight, rfl⟩ : ∃ tight, first = [(other, tight)] := by
      by_cases hname : other = name
      · subst hname
        rw [tightenField_same] at hfirst
        obtain ⟨tight, -, rfl⟩ := exists_of_map_eq_ok hfirst
        exact ⟨tight, rfl⟩
      · rw [tightenField_other hname] at hfirst
        exact ⟨value, (Except.ok.inj hfirst).symm⟩
    have hrest := ih hothers
    rw [Fields.has, Fields.has] at hrest ⊢
    rw [List.singleton_append, List.lookup_cons, List.lookup_cons]
    cases key == other
    · exact hrest
    · rfl

include hschema

/-- A kind that is loosened declares no repeated field that the schema does not. -/
theorem kindOf_records_of_loosenAt {tagName : List Char} {inner : Schema}
    (h : kindOf (loosenAt name path schema) tagName = some (.records inner)) :
    kindOf schema tagName = some (.records inner) := by
  rw [kindOf_loosenAt] at h
  obtain ⟨kind, hkind, hsame⟩ := Option.map_eq_some_iff.mp h
  rw [hkind]
  split at hsame
  · rename_i hname
    have hinteger := hschema kind (hname ▸ mem_of_lookup hkind)
    exact absurd hsame (kind_ne_records hinteger inner).2
  · rw [hsame]

include hfield

/-- A new field of a loosened schema is the field of the schema up to its text. -/
theorem readStep_loosen_field {tag : Tag} {content : List Item} {closed : Bool} {kind : Kind}
    {value : Value} (hfound : collect (tightenField range name path) loose = .ok found)
    (hrun : continues? run tag = none)
    (hkind : kindOf (loosenAt name path schema) tag.name = some kind)
    (hone : ∀ inner, kind ≠ .records inner)
    (hnew : (settle loose run).has (String.ofList (localName tag.name)) = false)
    (hread : readField kind tag content closed = .ok value) :
    readStep schema found run (.element tag content closed) =
      (collect (tightenField range name path)
        (settle loose run ++ [(String.ofList (localName tag.name), value)])).map (·, none) := by
  have hsettled : collect (tightenField range name path) (settle loose run) =
      .ok (settle found run) := collect_settle hfound
  rw [← has_eq_of_collect hsettled] at hnew
  rw [collect_append, hsettled, collect_singleton, Except.bind]
  rw [kindOf_loosenAt] at hkind
  obtain ⟨declared, hdeclared, hsame⟩ := Option.map_eq_some_iff.mp hkind
  by_cases hname : String.ofList (localName tag.name) = name
  · rw [if_pos hname] at hsame
    have hinteger := hschema declared (hname ▸ mem_of_lookup hdeclared)
    rw [← hsame] at hread
    rw [readStep_field hrun hdeclared hnew fun inner => (kind_ne_records hinteger inner).1,
      hfield hinteger hread, hname, tightenField_same]
    cases value.tighten range path <;> rfl
  · rw [if_neg hname] at hsame
    subst hsame
    rw [readStep_field hrun hdeclared hnew hone, hread, tightenField_other hname]
    rfl

/-- A step under the loosened schema is a step under the schema, up to the text. -/
theorem readStep_loosen {item : Item} {after : Fields} {next : Option Run}
    (hfound : collect (tightenField range name path) loose = .ok found)
    (h : readStep (loosenAt name path schema) loose run item = .ok (after, next)) :
    readStep schema found run item =
      (collect (tightenField range name path) after).map (·, next) := by
  cases item with
  | text value =>
    obtain ⟨rfl, hvalue, hstate⟩ := readStep_text.mp h
    obtain ⟨rfl, rfl⟩ := Prod.mk.inj hstate
    rw [hfound]
    exact readStep_text.mpr ⟨rfl, hvalue, rfl⟩
  | element tag content closed =>
    cases readStep_element_eq_ok_iff.mp h with
    | continued hrun hitem =>
      rw [hfound]
      exact readStep_element_eq_ok_iff.mpr (.continued hrun hitem)
    | skipped hrun hkind hskip =>
      rw [kindOf_loosenAt, Option.map_eq_none_iff] at hkind
      rw [collect_settle hfound]
      exact readStep_element_eq_ok_iff.mpr (.skipped hrun hkind hskip)
    | started hrun hkind hnew hitem =>
      rw [collect_settle hfound]
      rw [← has_eq_of_collect (collect_settle hfound)] at hnew
      exact readStep_element_eq_ok_iff.mpr
        (.started hrun (kindOf_records_of_loosenAt hschema hkind) hnew hitem)
    | nested hrun hkind hnew hitem =>
      exact readStep_loosen_field hschema hfield hfound hrun hkind record_ne_records hnew
        (readField_of_record hitem)
    | leaf hrun hkind hnew hvalue =>
      obtain ⟨hone, hread⟩ := readField_of_leaf hvalue
      exact readStep_loosen_field hschema hfield hfound hrun hkind hone hnew hread

/-- Items that a loosened schema reads are read by the schema, up to the text. -/
theorem readItems_loosen {items : List Item} {fields : Fields}
    (hfound : collect (tightenField range name path) loose = .ok found)
    (h : readItems (loosenAt name path schema) loose run items = .ok fields) :
    readItems schema found run items = collect (tightenField range name path) fields := by
  induction items generalizing loose found run with
  | nil =>
    rw [readItems] at h ⊢
    obtain rfl := Except.ok.inj h
    exact (collect_settle hfound).symm
  | cons item rest ih =>
    rw [readItems_cons] at h ⊢
    obtain ⟨⟨after, next⟩, hstep, hrest⟩ := exists_of_bind_eq_ok h
    rw [readStep_loosen hschema hfield hfound hstep]
    cases hafter : collect (tightenField range name path) after with
    | ok tight => exact ih hafter hrest
    | error e =>
      -- what was found before the error stays in front of the rest
      obtain ⟨more, rfl⟩ := exists_append_of_readItems hrest
      rw [collect_append, hafter]
      rfl

end Loosened

/-- A field that a loosened kind reads is read by the kind, up to the text. -/
theorem readField_loosen {kind : Kind} {tag : Tag} {content : List Item} {closed : Bool}
    {value : Value} (hkind : kind.HasInteger range path)
    (h : readField (kind.loosen path) tag content closed = .ok value) :
    readField kind tag content closed = value.tighten range path := by
  induction path generalizing kind tag content closed value with
  | nil =>
    obtain rfl : kind = .integer range := hkind
    obtain ⟨text, htext, rfl, hread⟩ := readLeafElement_eq_ok_iff.mp h
    obtain rfl := Except.ok.inj hread
    rw [Value.tighten, String.toList_ofList]
    dsimp only [readField, readLeafElement]
    rw [htext]
  | cons name path ih =>
    cases kind with
    | record schema =>
      obtain ⟨fields, hfields, rfl⟩ := exists_of_map_eq_ok h
      rw [readRecord] at hfields
      obtain ⟨htag, rfl, hitems⟩ := closeRecord_eq_ok_iff.mp hfields
      have hnothing : collect (tightenField range name path) [] = .ok [] := rfl
      have hread := readItems_loosen hkind ih hnothing hitems
      dsimp only [readField]
      rw [tighten_record, readRecord, hread, closeRecord, htag]
      cases collect (tightenField range name path) fields <;> rfl
    | text | integer | real | records => exact hkind.elim

/-! ## JSON -/

section Json

variable (hschema : ∀ kind, (name, kind) ∈ schema → kind.HasInteger range path)
  (hvalue : ∀ {kind : Kind} {json : Json.Value} {value : Value}, kind.HasInteger range path →
    readValue (kind.loosen path) json = .ok value → readValue kind json = value.tighten range path)

include hschema hvalue

/-- A value under a declared name is read as the field, up to its text. -/
theorem readValue_declared {key : String} {kind : Kind} {json : Json.Value} {value : Value}
    (hkind : (key, kind) ∈ schema)
    (h : readValue (if key = name then kind.loosen path else kind) json = .ok value) :
    (readValue kind json).map (fun found => [(key, found)]) =
      tightenField range name path (key, value) := by
  by_cases hname : key = name
  · subst hname
    rw [if_pos rfl] at h
    rw [hvalue (hschema kind hkind) h, tightenField_same]
  · rw [if_neg hname] at h
    rw [h, tightenField_other hname]
    rfl

/-- A member is read by the strict schema as it is read by the loose one and tightened. -/
theorem readMember_loosen {member : String × Json.Value} {found : Fields}
    (h : readMember (loosenAt name path schema) member = .ok found) :
    readMember schema member = collect (tightenField range name path) found := by
  obtain ⟨key, json⟩ := member
  by_cases hnull : json = .null
  · subst hnull
    obtain rfl := Except.ok.inj h
    rfl
  cases hkind : List.lookup key schema with
  | none =>
    have hloose : List.lookup key (loosenAt name path schema) = none := by
      rw [lookup_loosenAt, hkind, Option.map_none]
    rw [readMember_unknown hloose] at h
    obtain rfl := Except.ok.inj h
    exact readMember_unknown hkind json
  | some kind =>
    have hloose : List.lookup key (loosenAt name path schema) =
        some (if key = name then kind.loosen path else kind) := by
      rw [lookup_loosenAt, hkind, Option.map_some]
    rw [readMember_known hloose hnull] at h
    obtain ⟨value, hread, rfl⟩ := exists_of_map_eq_ok h
    rw [readMember_known hkind hnull, collect_singleton]
    exact readValue_declared hschema hvalue (mem_of_lookup hkind) hread

/-- An array is read by the strict schema as it is read by the loose one and tightened. -/
theorem readPositions_loosen {items : List Json.Value} {found : Fields}
    (h : readPositions (loosenAt name path schema) items = .ok found) :
    readPositions schema items = collect (tightenField range name path) found := by
  induction items generalizing schema found with
  | nil =>
    obtain rfl := Except.ok.inj h
    rfl
  | cons item rest ih =>
    cases schema with
    | nil => cases h
    | cons field others =>
      obtain ⟨key, kind⟩ := field
      rw [loosenAt, List.map_cons, readPositions] at h
      obtain ⟨value, hfirst, h⟩ := exists_of_bind_eq_ok h
      obtain ⟨fields, hrest, h⟩ := exists_of_bind_eq_ok h
      obtain rfl := Except.ok.inj h
      have hdeclared := readValue_declared hschema hvalue List.mem_cons_self hfirst
      have hothers := ih (fun kind hmem => hschema kind (List.mem_cons_of_mem _ hmem)) hrest
      rw [readPositions, collect, hothers, ← hdeclared]
      cases readValue kind item with
      | error e => rfl
      | ok read => cases collect (tightenField range name path) fields <;> rfl

end Json

/-- A value that a loosened kind reads is read by the kind, up to the text. -/
theorem readValue_loosen {kind : Kind} {json : Json.Value} {value : Value}
    (hkind : kind.HasInteger range path) (h : readValue (kind.loosen path) json = .ok value) :
    readValue kind json = value.tighten range path := by
  induction path generalizing kind json value with
  | nil =>
    obtain rfl : kind = .integer range := hkind
    cases json with
    | null | array | object => cases h
    | boolean | number | string =>
      obtain rfl := Except.ok.inj h
      rw [Value.tighten, String.toList_ofList]
      rfl
  | cons name path ih =>
    cases kind with
    | record schema =>
      cases json with
      | null | boolean | number | string => cases h
      | array items =>
        obtain ⟨fields, hfields, rfl⟩ := exists_of_map_eq_ok h
        rw [readValue, readPositions_loosen hkind ih hfields, tighten_record]
      | object members =>
        obtain ⟨fields, hfields, rfl⟩ := exists_of_map_eq_ok h
        rw [readMembers_eq_collect] at hfields
        rw [readValue, readMembers_eq_collect, tighten_record,
          collect_collect (fun _ _ => readMember_loosen hkind ih) hfields]
    | text | integer | real | records => exact hkind.elim

end CallbackGateway.Record
