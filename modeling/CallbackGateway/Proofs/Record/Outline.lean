import CallbackGateway.Proofs.Markup.Balanced
import CallbackGateway.Proofs.Record.ReadBack
import CallbackGateway.Proofs.Text.Utf8
import CallbackGateway.Record.Encode

/-!
# Outlines of documents

What a document says can be told without its format: it is a text, or a record of named parts. In
markup a repeated part is one element for each item, and in JSON it is an array; its parts come in
one order, but between parts of different names no order is kept.

A written record has the same outline in both formats.
-/

namespace CallbackGateway.Record

open Text

/-- What a document says. A repeated part comes once for each of its items. -/
inductive Outline
  | text (content : String)
  | record (parts : List (String × Outline))

namespace Outline

/-- The parts with a name, in their order. -/
def under (name : String) (parts : List (String × Outline)) : List Outline :=
  (parts.filter fun part => part.1 == name).map Prod.snd

/-- Outlines that say the same: equal texts, or records with the same parts under every name. -/
inductive Same : Outline → Outline → Prop
  | text (content : String) : Same (.text content) (.text content)
  | record {first second : List (String × Outline)}
      (h : ∀ name, List.Forall₂ Same (under name first) (under name second)) :
      Same (.record first) (.record second)

/-- Outlines under a name in two parts are those of each part in turn. -/
theorem under_append (name : String) (first second : List (String × Outline)) :
    under name (first ++ second) = under name first ++ under name second := by
  rw [under, List.filter_append, List.map_append, under, under]

/-- The parts of named groups. -/
def ungroup (groups : List (String × List Outline)) : List (String × Outline) :=
  groups.flatMap fun group => group.2.map fun outline => (group.1, outline)

/-- Outlines that all stand under one name are under that name and no other. -/
theorem under_group (name other : String) (outlines : List Outline) :
    under name (outlines.map fun outline => (other, outline)) =
      if other = name then outlines else [] := by
  rw [under, List.filter_map, List.map_map]
  by_cases hname : other = name
  · subst hname
    simp [Function.comp_def]
  · simp [Function.comp_def, hname]

/-- Under a name are the parts of its group. -/
theorem under_ungroup {groups : List (String × List Outline)} (h : NoRepeats groups)
    (name : String) : under name (ungroup groups) = (List.lookup name groups).getD [] := by
  induction groups with
  | nil => rfl
  | cons group groups ih =>
    obtain ⟨other, outlines⟩ := group
    obtain ⟨hnew, hrest⟩ := noRepeats_cons.mp h
    rw [ungroup, List.flatMap_cons, ← ungroup, under_append, under_group, ih hrest,
      List.lookup_cons]
    by_cases hname : name = other
    · subst hname
      rw [if_pos rfl, lookup_eq_none_iff.mpr hnew, beq_self_eq_true, Option.getD_none,
        List.append_nil, Option.getD_some]
    · rw [if_neg (Ne.symm hname), beq_false_of_ne hname, List.nil_append]

/-! ## Reading -/

open Markup in
mutual

/-- The part that an element is. It must be closed and have no attributes. -/
def part? : Item → Option (String × Outline)
  | .element tag content closed =>
    if closed && tag.attributes.isEmpty then
      (ofContent? content).map fun outline => (String.ofList tag.name, outline)
    else none
  | .text _ => none
termination_by structural item => item

/-- The parts that several elements are. -/
def parts? : List Item → Option (List (String × Outline))
  | [] => some []
  | item :: rest => do return (← part? item) :: (← parts? rest)
termination_by structural items => items

/-- What the content of an element says: it is one run of text, or elements alone. -/
def ofContent? : List Item → Option Outline
  | [] => some (.text "")
  | [.text value] => value.map fun content => .text (String.ofList content)
  | item :: rest => do return .record ((← part? item) :: (← parts? rest))
termination_by structural items => items

end

/-- What a markup document says, with the name of its root. -/
def readMarkup? (body : Bytes) : Option (String × Outline) :=
  (Utf8.decode? body).bind fun text =>
    let scan := Markup.scan text
    if scan.complete && Markup.namesMatch [] scan.tokens then
      match Markup.assemble scan.tokens with
      | [item] => part? item
      | _ => none
    else none

mutual

/-- What a value says; an array says what its items say, one after the other. -/
def ofJson? : Json.Value → Option (List Outline)
  | .string content => some [.text content]
  | .number number => some [.text (String.ofList number.text)]
  | .array items => ofItems? items
  | .object members => (groups? members).map fun groups => [.record (ungroup groups)]
  | .null | .boolean _ => none
termination_by structural value => value

/-- What several values say. -/
def ofItems? : List Json.Value → Option (List Outline)
  | [] => some []
  | item :: rest => do return (← ofJson? item) ++ (← ofItems? rest)
termination_by structural items => items

/-- What the members of an object say under their keys. -/
def groups? : List (String × Json.Value) → Option (List (String × List Outline))
  | [] => some []
  | member :: rest => do return (← group? member) :: (← groups? rest)
termination_by structural members => members

/-- What a member says under its key. -/
def group? : String × Json.Value → Option (String × List Outline)
  | (key, value) => (ofJson? value).map fun outlines => (key, outlines)
termination_by structural member => member

end

/-- What a JSON document says. -/
def readJson? (body : Bytes) : Option Outline :=
  match (Json.Value.read? body).bind ofJson? with
  | some [outline] => some outline
  | _ => none

end Outline

/-! ## Outlines of records -/

mutual

/-- What a value says, once for each item. -/
def Value.outlines : Value → List Outline
  | .text content => [.text content]
  | .integer n => [.text (decimal n)]
  | .real x => [.text (String.ofList (Binary64.render x))]
  | .blank => [.text ""]
  | .record fields => [.record (Outline.ungroup (fieldGroups fields))]
  | .records items => itemOutlines items
termination_by structural value => value

/-- What the items of a repeated field say. -/
def itemOutlines : List (List (String × Value)) → List Outline
  | [] => []
  | item :: rest => .record (Outline.ungroup (fieldGroups item)) :: itemOutlines rest
termination_by structural items => items

/-- What the fields of a record say under their names. -/
def fieldGroups : List (String × Value) → List (String × List Outline)
  | [] => []
  | field :: rest => fieldGroup field :: fieldGroups rest
termination_by structural fields => fields

/-- What a field says under its name. -/
def fieldGroup : String × Value → String × List Outline
  | (name, value) => (name, value.outlines)
termination_by structural field => field

end

/-- What a record says. -/
def Fields.outline (fields : Fields) : Outline := .record (Outline.ungroup (fieldGroups fields))

/-- Values that keep their outlines in both formats: no record is empty or has two fields of one
name. Floating-point numbers are left out. -/
inductive HasOutline : Value → Prop
  | text (content : String) : HasOutline (.text content)
  | integer (n : Int) : HasOutline (.integer n)
  | blank : HasOutline .blank
  | record {fields : Fields} (hnames : NoRepeats fields)
      (hparts : Outline.ungroup (fieldGroups fields) ≠ [])
      (h : ∀ name value, (name, value) ∈ fields → HasOutline value) : HasOutline (.record fields)
  | records {items : List Fields} (h : ∀ item ∈ items, HasOutline (.record item)) :
      HasOutline (.records items)

variable {fields : Fields} {name : String} {value : Value}

/-- The group under a name holds the outlines of the value under it. -/
theorem lookup_fieldGroups (name : String) (fields : Fields) :
    List.lookup name (fieldGroups fields) = (List.lookup name fields).map Value.outlines := by
  induction fields with
  | nil => rfl
  | cons field fields ih =>
    obtain ⟨other, value⟩ := field
    rw [fieldGroups, fieldGroup, List.lookup_cons, List.lookup_cons]
    split
    · rfl
    · exact ih

/-- The groups of fields have the names of the fields, in their order. -/
theorem map_fst_fieldGroups (fields : Fields) :
    (fieldGroups fields).map Prod.fst = fields.map Prod.fst := by
  induction fields with
  | nil => rfl
  | cons field fields ih =>
    obtain ⟨name, value⟩ := field
    rw [fieldGroups, fieldGroup, List.map_cons, List.map_cons, ih]

/-! ## Markup -/

namespace Outline

open Markup

/-- Content in two parts has the outlines of each part in turn. -/
theorem parts?_append {first second : List Item} {parts others : List (String × Outline)}
    (hfirst : parts? first = some parts) (hsecond : parts? second = some others) :
    parts? (first ++ second) = some (parts ++ others) := by
  induction first generalizing parts with
  | nil =>
    obtain rfl := Option.some.inj hfirst
    exact hsecond
  | cons item first ih =>
    rw [parts?] at hfirst
    obtain ⟨part, hpart, hfirst⟩ := Option.bind_eq_some_iff.mp hfirst
    obtain ⟨rest, hrest, hfirst⟩ := Option.bind_eq_some_iff.mp hfirst
    obtain rfl := Option.some.inj hfirst
    rw [List.cons_append, parts?, hpart, ih hrest]
    rfl

/-- Elements alone are a record. -/
theorem ofContent?_of_parts? {items : List Item} {parts : List (String × Outline)}
    (h : parts? items = some parts) (hparts : parts ≠ []) :
    ofContent? items = some (.record parts) := by
  cases items with
  | nil => exact absurd (Option.some.inj h).symm hparts
  | cons item rest =>
    rw [parts?] at h
    obtain ⟨part, hpart, h⟩ := Option.bind_eq_some_iff.mp h
    obtain ⟨others, hothers, h⟩ := Option.bind_eq_some_iff.mp h
    obtain rfl := Option.some.inj h
    cases item with
    | text value => simp [part?] at hpart
    | element tag content closed =>
      rw [ofContent?, hpart, hothers]
      · rfl
      · simp

/-- Content of one text has that text as its outline. -/
theorem ofContent?_text (content : String) :
    ofContent? [.text (some content.toList)] = some (.text content) := by
  rw [ofContent?, Option.map_some, String.ofList_toList]

/-- One element alone has the outline of its content, under its name. -/
theorem parts?_element {content : List Item} {outline : Outline} (name : String)
    (h : ofContent? content = some outline) :
    parts? [.element (fieldTag name) content true] = some [(name, outline)] := by
  rw [parts?, part?, h, fieldTag]
  simp [parts?]

end Outline

/-- The elements of a field are its parts. -/
theorem HasOutline.parts?_valueItems (h : HasOutline value) (name : String) :
    Outline.parts? (valueItems name value) =
      some (value.outlines.map fun outline => (name, outline)) := by
  induction h generalizing name with
  | text content =>
    exact Outline.parts?_element name (Outline.ofContent?_text content)
  | integer n =>
    exact Outline.parts?_element name (Outline.ofContent?_text (decimal n))
  | blank => exact Outline.parts?_element name rfl
  | @record fields hnames hparts hfields ih =>
    have hitems : Outline.parts? (fieldsItems fields) =
        some (Outline.ungroup (fieldGroups fields)) := by
      clear hnames hparts hfields
      induction fields with
      | nil => rfl
      | cons field fields ihfields =>
        obtain ⟨other, held⟩ := field
        exact Outline.parts?_append (ih other held List.mem_cons_self other)
          (ihfields fun name value hmem => ih name value (List.mem_cons_of_mem _ hmem))
    exact Outline.parts?_element name (Outline.ofContent?_of_parts? hitems hparts)
  | @records items hitems ih =>
    clear hitems
    induction items with
    | nil => rfl
    | cons item items ihitems =>
      exact Outline.parts?_append (ih item List.mem_cons_self name)
        (ihitems fun other hmem => ih other (List.mem_cons_of_mem _ hmem))

/-- A record that is written as markup is read as its outline. -/
theorem readMarkup?_encode (hplain : arePlainFields fields = true)
    (h : HasOutline (.record fields)) :
    Outline.readMarkup? (fields.encode .xml) = some (rootName, fields.outline) := by
  have hroot : Markup.IsPlainName rootName.toList := by decide
  have hmatch := (Markup.Balanced.of_content (content_element_whole rootName
    (content_fieldsTokens fields hplain))).namesMatch_nil
  have hparts : Outline.parts? [.element (fieldTag rootName) (fieldsItems fields) true] =
      some [(rootName, fields.outline)] := h.parts?_valueItems rootName
  have hpart : Outline.part? (.element (fieldTag rootName) (fieldsItems fields) true) =
      some (rootName, fields.outline) := by
    simpa [Outline.parts?, Option.bind_eq_some_iff] using hparts
  rw [Fields.encode, Outline.readMarkup?, Utf8.decode?_encode, Option.bind_some,
    scan_toMarkup hroot hplain]
  dsimp only
  rw [hmatch, Bool.and_self, if_pos rfl, assemble_fieldsTokens rootName hplain]
  exact hpart

/-! ## JSON -/

namespace Outline

/-- Members are grouped just if the first one has outlines and the others are grouped. -/
theorem exists_of_groups?_cons {key : String} {value : Json.Value}
    {members : List (String × Json.Value)} {groups : List (String × List Outline)}
    (h : groups? ((key, value) :: members) = some groups) :
    ∃ outlines others, ofJson? value = some outlines ∧ groups? members = some others ∧
      groups = (key, outlines) :: others := by
  rw [groups?, group?] at h
  obtain ⟨group, hgroup, h⟩ := Option.bind_eq_some_iff.mp h
  obtain ⟨others, hothers, h⟩ := Option.bind_eq_some_iff.mp h
  obtain ⟨outlines, houtlines, rfl⟩ := Option.map_eq_some_iff.mp hgroup
  exact ⟨outlines, others, houtlines, hothers, (Option.some.inj h).symm⟩

/-- Under a key is what its member says. -/
theorem lookup_groups? {members : List (String × Json.Value)}
    {groups : List (String × List Outline)} (h : groups? members = some groups) (name : String) :
    List.lookup name groups = (List.lookup name members).bind ofJson? := by
  induction members generalizing groups with
  | nil =>
    obtain rfl := Option.some.inj h
    rfl
  | cons member members ih =>
    obtain ⟨outlines, others, houtlines, hothers, rfl⟩ := exists_of_groups?_cons h
    rw [List.lookup_cons, List.lookup_cons]
    split
    · exact houtlines.symm
    · exact ih hothers

/-- The groups of members have the names of the members, in their order. -/
theorem map_fst_groups? {members : List (String × Json.Value)}
    {groups : List (String × List Outline)} (h : groups? members = some groups) :
    groups.map Prod.fst = members.map Prod.fst := by
  induction members generalizing groups with
  | nil =>
    obtain rfl := Option.some.inj h
    rfl
  | cons member members ih =>
    obtain ⟨outlines, others, -, hothers, rfl⟩ := exists_of_groups?_cons h
    rw [List.map_cons, List.map_cons, ih hothers]

/-- Members that all say something say it together. -/
theorem exists_groups? {members : List (String × Json.Value)}
    (h : ∀ key value, (key, value) ∈ members → ∃ outlines, ofJson? value = some outlines) :
    ∃ groups, groups? members = some groups := by
  induction members with
  | nil => exact ⟨[], rfl⟩
  | cons member members ih =>
    obtain ⟨key, value⟩ := member
    obtain ⟨outlines, houtlines⟩ := h key value List.mem_cons_self
    obtain ⟨groups, hgroups⟩ := ih fun other held hmem => h other held (List.mem_cons_of_mem _ hmem)
    rw [groups?, group?, houtlines, hgroups]
    exact ⟨_, rfl⟩

end Outline

/-- What is written for a value says the same as the value. -/
theorem HasOutline.exists_ofJson? (h : HasOutline value) :
    ∃ outlines, Outline.ofJson? value.toJson = some outlines ∧
      List.Forall₂ Outline.Same value.outlines outlines := by
  induction h with
  | text content => exact ⟨_, rfl, .cons (.text content) .nil⟩
  | integer n =>
    refine ⟨[.text (decimal n)], ?_, .cons (.text (decimal n)) .nil⟩
    rw [Value.toJson, Outline.ofJson?, Json.Number.text, String.ofList_toList]
  | blank => exact ⟨_, rfl, .cons (.text "") .nil⟩
  | @record fields hnames _ _ ih =>
    have hkeys : NoRepeats (jsonMembers fields) := by
      rw [NoRepeats, map_fst_jsonMembers]
      exact hnames
    obtain ⟨members, hmembers, hperm⟩ := Json.exists_ofMembers hkeys
    have hdistinct : NoRepeats members := (hperm.map Prod.fst).nodup_iff.mpr hkeys
    obtain ⟨groups, hgroups⟩ : ∃ groups, Outline.groups? members = some groups := by
      refine Outline.exists_groups? fun key json hmem => ?_
      obtain ⟨value, hvalue, rfl⟩ := exists_of_mem_jsonMembers (hperm.mem_iff.mp hmem)
      exact (ih key value hvalue).imp fun _ h => h.1
    refine ⟨[.record (Outline.ungroup groups)], ?_, .cons (.record fun name => ?_) .nil⟩
    · rw [Value.toJson, hmembers, Outline.ofJson?, hgroups]
      rfl
    · have hfields : NoRepeats (fieldGroups fields) := by
        rw [NoRepeats, map_fst_fieldGroups]
        exact hnames
      have hothers : NoRepeats groups := by
        rw [NoRepeats, Outline.map_fst_groups? hgroups]
        exact hdistinct
      rw [Outline.under_ungroup hfields, Outline.under_ungroup hothers, lookup_fieldGroups,
        Outline.lookup_groups? hgroups, lookup_of_perm hdistinct hperm, lookup_jsonMembers]
      cases hvalue : List.lookup name fields with
      | none => exact .nil
      | some value =>
        obtain ⟨outlines, houtlines, hsame⟩ := ih name value (mem_of_lookup hvalue)
        rw [Option.map_some, Option.map_some, Option.bind_some, houtlines]
        exact hsame
  | @records items hitems ih =>
    clear hitems
    induction items with
    | nil => exact ⟨[], rfl, .nil⟩
    | cons item items ihitems =>
      obtain ⟨outlines, hitem, hsame⟩ := ih item List.mem_cons_self
      obtain ⟨others, hothers, hrest⟩ :=
        ihitems fun other hmem => ih other (List.mem_cons_of_mem _ hmem)
      rw [Value.toJson] at hitem
      rw [Value.toJson, Outline.ofJson?] at hothers
      refine ⟨outlines ++ others, ?_, List.rel_append hsame hrest⟩
      rw [Value.toJson, Outline.ofJson?, jsonItems, Outline.ofItems?, hitem, hothers]
      rfl

/-- A record that is written as JSON is read as an outline that says the same. -/
theorem exists_readJson?_encode (hfits : FitsJson Json.deepest (.record fields))
    (h : HasOutline (.record fields)) :
    ∃ outline, Outline.readJson? (fields.encode .json) = some outline ∧
      fields.outline.Same outline := by
  obtain ⟨outlines, houtlines, hsame⟩ := h.exists_ofJson?
  obtain ⟨outline, hrecord, rfl⟩ : ∃ outline, fields.outline.Same outline ∧
      outlines = [outline] := by
    cases hsame with
    | cons hrecord hnil =>
      cases hnil
      exact ⟨_, hrecord, rfl⟩
  refine ⟨outline, ?_, hrecord⟩
  rw [Outline.readJson?, Fields.encode, Fields.toJson, hfits.stable.read?_toBytes,
    Option.bind_some, houtlines]

end CallbackGateway.Record
