import CallbackGateway.Proofs.Json.TextSize
import CallbackGateway.Proofs.Markup.TextSize
import CallbackGateway.Proofs.Record.Lookup
import CallbackGateway.Proofs.Record.UnknownElement
import CallbackGateway.Record.FromJson

/-!
# How long the texts of a record are

A record takes its texts from its document, so none of them is longer than the texts there. A leaf
in JSON is one text of its document, so there a bound on each text is enough. A leaf in markup joins
runs of text and sections, so there it is the characters of the whole document that are counted.
-/

namespace CallbackGateway.Record

open Markup

variable {bound : Nat}

/-- No text in a field is longer than so many characters. -/
inductive Value.TextsWithin (bound : Nat) : Value → Prop
  | text {content : String} (h : content.length ≤ bound) : TextsWithin bound (.text content)
  | integer (n : Int) : TextsWithin bound (.integer n)
  | real (x : Binary64) : TextsWithin bound (.real x)
  | blank : TextsWithin bound .blank
  | record {fields : List (String × Value)} (h : ∀ field ∈ fields, TextsWithin bound field.2) :
      TextsWithin bound (.record fields)
  | records {items : List (List (String × Value))}
      (h : ∀ item ∈ items, ∀ field ∈ item, TextsWithin bound field.2) :
      TextsWithin bound (.records items)

/-- A bound on a value's texts may be raised. -/
theorem Value.TextsWithin.mono {value : Value} {larger : Nat} (h : value.TextsWithin bound)
    (hle : bound ≤ larger) : value.TextsWithin larger := by
  induction h with
  | text h => exact .text (Nat.le_trans h hle)
  | integer n => exact .integer n
  | real x => exact .real x
  | blank => exact .blank
  | record h ih => exact .record ih
  | records h ih => exact .records ih

/-- No text in a record is longer than so many characters. -/
def Fields.TextsWithin (bound : Nat) (fields : Fields) : Prop :=
  ∀ field ∈ fields, field.2.TextsWithin bound

namespace Fields.TextsWithin

variable {fields others : Fields} {name : String} {value : Value}

/-- No fields have no texts. -/
theorem nil : TextsWithin bound [] := fun _ hmem => absurd hmem List.not_mem_nil

/-- A field in front keeps the bound, if its texts do. -/
theorem cons (hvalue : value.TextsWithin bound) (h : fields.TextsWithin bound) :
    TextsWithin bound ((name, value) :: fields) := List.forall_mem_cons.mpr ⟨hvalue, h⟩

/-- Fields one after the other keep the bound of both. -/
theorem append (h : fields.TextsWithin bound) (hothers : others.TextsWithin bound) :
    TextsWithin bound (fields ++ others) := List.forall_mem_append.mpr ⟨h, hothers⟩

/-- A field at the end keeps the bound, if its texts do. -/
theorem concat (h : fields.TextsWithin bound) (hvalue : value.TextsWithin bound) :
    TextsWithin bound (fields ++ [(name, value)]) := h.append (nil.cons hvalue)

/-- A bound on a record's texts may be raised. -/
theorem mono {larger : Nat} (h : fields.TextsWithin bound) (hle : bound ≤ larger) :
    fields.TextsWithin larger := fun field hfield => (h field hfield).mono hle

/-- The text of a field. -/
theorem length_text_le (h : fields.TextsWithin bound) (name : String) :
    (fields.text name).length ≤ bound := by
  unfold Fields.text
  split
  · rename_i content hlookup
    cases h _ (mem_of_lookup hlookup) with
    | text hcontent => exact hcontent
  · exact Nat.zero_le _

/-- The fields of a nested record. -/
theorem record (h : fields.TextsWithin bound) (name : String) :
    (fields.record name).TextsWithin bound := by
  unfold Fields.record
  split
  · rename_i inner hlookup
    cases h _ (mem_of_lookup hlookup) with
    | record hinner => exact hinner
  · exact nil

end Fields.TextsWithin

/-! ## Leaves -/

/-- What a leaf of number kind is read as keeps the bound that its numbers keep. -/
theorem textsWithin_numberLeaf {read? : List Char → Option Value} {text : List Char} {value : Value}
    (hread : ∀ trimmed found, read? trimmed = some found → found.TextsWithin bound)
    (h : numberLeaf read? text = .ok value) : value.TextsWithin bound := by
  unfold numberLeaf at h
  split at h
  · obtain rfl := Except.ok.inj h
    exact .blank
  · split at h
    · rename_i found hfound
      obtain rfl := Except.ok.inj h
      exact hread _ _ hfound
    · cases h

/-- A field that is written as text has that text or none. -/
theorem textsWithin_readLeaf {kind : Kind} {text : List Char} {value : Value}
    (hlength : text.length ≤ bound) (h : kind.readLeaf text = .ok value) :
    value.TextsWithin bound := by
  cases kind with
  | text =>
    obtain rfl := Except.ok.inj h
    exact .text (by rwa [String.length_ofList])
  | integer range =>
    refine textsWithin_numberLeaf (fun _ _ hfound => ?_) h
    obtain ⟨n, -, rfl⟩ := Option.map_eq_some_iff.mp hfound
    exact .integer n
  | real =>
    refine textsWithin_numberLeaf (fun _ _ hfound => ?_) h
    obtain ⟨x, -, rfl⟩ := Option.map_eq_some_iff.mp hfound
    exact .real x
  | record fields | records fields => cases h

/-! ## JSON -/

/-- The fields of a value keep the bound on the value's texts. -/
theorem textsWithin_fields {value : Value} (h : value.TextsWithin bound) :
    value.fields.TextsWithin bound := by
  cases h with
  | record h => exact h
  | text | integer | real | blank | records => exact .nil

/-- The text of a truth value has at most five characters. -/
theorem length_booleanText_le (value : Bool) : (Json.booleanText value).length ≤ 5 := by
  cases value <;> decide

mutual

/-- What a JSON value is read as keeps the bound on the value's texts. -/
theorem textsWithin_readValue (hbound : 5 ≤ bound) : (value : Json.Value) → (kind : Kind) →
    (found : Value) → value.TextsWithin bound → readValue kind value = .ok found →
    found.TextsWithin bound
  | .null, _, _, _, h => by cases h
  | .boolean truth, _, _, _, h =>
    textsWithin_readLeaf (Nat.le_trans (length_booleanText_le truth) hbound) h
  | .number _, _, _, .number htext, h => textsWithin_readLeaf htext h
  | .string text, _, _, .string htext, h => textsWithin_readLeaf (by rwa [String.length_toList]) h
  | .array items, kind, _, .array hitems, h => by
    cases kind with
    | record schema =>
      obtain ⟨fields, hfields, rfl⟩ := exists_of_map_eq_ok h
      exact .record (textsWithin_readPositions hbound items schema fields hitems hfields)
    | records schema =>
      obtain ⟨records, hrecords, rfl⟩ := exists_of_map_eq_ok h
      exact .records (textsWithin_readEach hbound items schema records hitems hrecords)
    | text | integer | real => cases h
  | .object members, kind, _, .object hmembers, h => by
    cases kind with
    | record schema =>
      obtain ⟨fields, hfields, rfl⟩ := exists_of_map_eq_ok h
      exact .record (textsWithin_readMembers hbound members schema fields hmembers hfields)
    | text | integer | real | records => cases h
termination_by structural value => value

/-- A record read out of an array keeps the bound on the array's texts. -/
theorem textsWithin_readPositions (hbound : 5 ≤ bound) : (items : List Json.Value) →
    (schema : Schema) → (fields : Fields) → (∀ item ∈ items, item.TextsWithin bound) →
    readPositions schema items = .ok fields → fields.TextsWithin bound
  | [], _, _, _, h => by
    obtain rfl := Except.ok.inj h
    exact .nil
  | _ :: _, [], _, _, h => by cases h
  | item :: rest, (name, kind) :: others, _, hitems, h => by
    obtain ⟨value, hvalue, h⟩ := exists_of_bind_eq_ok h
    obtain ⟨fields, hfields, h⟩ := exists_of_bind_eq_ok h
    obtain rfl := Except.ok.inj h
    obtain ⟨hitem, hrest⟩ := List.forall_mem_cons.mp hitems
    exact .cons (textsWithin_readValue hbound item kind value hitem hvalue)
      (textsWithin_readPositions hbound rest others fields hrest hfields)
termination_by structural items => items

/-- The records read out of an array keep the bound on the array's texts. -/
theorem textsWithin_readEach (hbound : 5 ≤ bound) : (items : List Json.Value) →
    (schema : Schema) → (records : List Fields) → (∀ item ∈ items, item.TextsWithin bound) →
    readEach schema items = .ok records → ∀ record ∈ records, record.TextsWithin bound
  | [], _, _, _, h => by
    obtain rfl := Except.ok.inj h
    exact fun _ hmem => absurd hmem List.not_mem_nil
  | item :: rest, schema, _, hitems, h => by
    obtain ⟨value, hvalue, h⟩ := exists_of_bind_eq_ok h
    obtain ⟨others, hothers, h⟩ := exists_of_bind_eq_ok h
    obtain rfl := Except.ok.inj h
    obtain ⟨hitem, hrest⟩ := List.forall_mem_cons.mp hitems
    exact List.forall_mem_cons.mpr
      ⟨textsWithin_fields (textsWithin_readValue hbound item _ value hitem hvalue),
        textsWithin_readEach hbound rest schema others hrest hothers⟩
termination_by structural items => items

/-- A record read out of members keeps the bound on their texts. -/
theorem textsWithin_readMembers (hbound : 5 ≤ bound) : (members : List (String × Json.Value)) →
    (schema : Schema) → (fields : Fields) → (∀ member ∈ members, member.2.TextsWithin bound) →
    readMembers schema members = .ok fields → fields.TextsWithin bound
  | [], _, _, _, h => by
    obtain rfl := Except.ok.inj h
    exact .nil
  | member :: rest, schema, _, hmembers, h => by
    obtain ⟨found, hfound, h⟩ := exists_of_bind_eq_ok h
    obtain ⟨others, hothers, h⟩ := exists_of_bind_eq_ok h
    obtain rfl := Except.ok.inj h
    obtain ⟨hmember, hrest⟩ := List.forall_mem_cons.mp hmembers
    exact .append (textsWithin_readMember hbound member schema found hmember hfound)
      (textsWithin_readMembers hbound rest schema others hrest hothers)
termination_by structural members => members

/-- The fields that a member is read as keep the bound on its texts. -/
theorem textsWithin_readMember (hbound : 5 ≤ bound) : (member : String × Json.Value) →
    (schema : Schema) → (fields : Fields) → member.2.TextsWithin bound →
    readMember schema member = .ok fields → fields.TextsWithin bound
  | (key, value), schema, _, hvalue, h => by
    rw [readMember.eq_def] at h
    split at h
    · obtain rfl := Except.ok.inj h
      exact .nil
    · rename_i heq
      obtain ⟨rfl, rfl⟩ := Prod.mk.inj heq
      split at h
      · obtain rfl := Except.ok.inj h
        exact .nil
      · obtain ⟨found, hfound, rfl⟩ := exists_of_map_eq_ok h
        exact .cons (textsWithin_readValue hbound value _ found hvalue hfound) .nil
termination_by structural member => member

end

/-! ## Markup -/

/-- A leaf's text is no longer than the text of its content. -/
theorem textSize_le_of_leafText? {content : List Item} {text : List Char}
    (h : leafText? content = some text) : text.length ≤ itemsTextSize content := by
  unfold leafText? at h
  split at h
  · obtain rfl := Option.some.inj h
    exact Nat.zero_le _
  · obtain rfl := h
    exact Nat.le_refl _
  · cases h

/-- What a leaf element is read as keeps the bound on its content's text. -/
theorem textsWithin_readLeafElement {kind : Kind} {content : List Item} {closed : Bool}
    {value : Value} (hsize : itemsTextSize content ≤ bound)
    (h : readLeafElement kind content closed = .ok value) : value.TextsWithin bound := by
  obtain ⟨text, htext, -, hleaf⟩ := readLeafElement_eq_ok_iff.mp h
  exact textsWithin_readLeaf (Nat.le_trans (textSize_le_of_leafText? htext) hsize) hleaf

/-- No text of an open run is longer than so many characters. -/
def RunWithin (bound : Nat) (run : Option Run) : Prop :=
  ∀ open' ∈ run, ∀ item ∈ open'.latest, Fields.TextsWithin bound item

/-- A settled run keeps the bound that the fields and the run keep. -/
theorem textsWithin_settle {found : Fields} {run : Option Run} (hfound : found.TextsWithin bound)
    (hrun : RunWithin bound run) : (settle found run).TextsWithin bound := by
  cases run with
  | none => exact hfound
  | some run =>
    refine hfound.concat (.records fun item hitem => ?_)
    exact hrun run rfl item (List.mem_reverse.mp hitem)

/-- One element more adds texts of its own only. -/
theorem textsWithin_readStep {schema : Schema} {found after : Fields} {run next : Option Run}
    {item : Item} (hfound : found.TextsWithin bound) (hrun : RunWithin bound run)
    (hsize : item.textSize ≤ bound)
    (hrecord : ∀ inner fields, readRecord inner item = .ok fields → fields.TextsWithin bound)
    (h : readStep schema found run item = .ok (after, next)) :
    after.TextsWithin bound ∧ RunWithin bound next := by
  -- The elements of an open run are no field yet, so both halves of the state carry the bound.
  have hnone : RunWithin bound none := fun _ hmem => by cases hmem
  cases item with
  | text value =>
    obtain ⟨-, -, hstate⟩ := readStep_text.mp h
    obtain ⟨rfl, rfl⟩ := Prod.mk.inj hstate
    exact ⟨hfound, hnone⟩
  | element tag content closed =>
    have hsettled := textsWithin_settle hfound hrun
    cases readStep_element_eq_ok_iff.mp h with
    | @continued first fields hcontinues hfields =>
      obtain ⟨rfl, -⟩ := continues?_eq_some_iff.mp hcontinues
      refine ⟨hfound, fun other hother => ?_⟩
      obtain rfl := Option.mem_some.mp hother
      exact List.forall_mem_cons.mpr ⟨hrecord _ _ hfields, hrun first rfl⟩
    | skipped => exact ⟨hsettled, hnone⟩
    | started _ _ _ hfields =>
      refine ⟨hsettled, fun other hother => ?_⟩
      obtain rfl := Option.mem_some.mp hother
      exact List.forall_mem_singleton.mpr (hrecord _ _ hfields)
    | nested _ _ _ hfields => exact ⟨hsettled.concat (.record (hrecord _ _ hfields)), hnone⟩
    | leaf _ _ _ hvalue =>
      exact ⟨hsettled.concat (textsWithin_readLeafElement hsize hvalue), hnone⟩

mutual

/-- A record read out of an element keeps the bound on the element's text. -/
theorem textsWithin_readRecord : (item : Item) → (schema : Schema) → (fields : Fields) →
    item.textSize ≤ bound → readRecord schema item = .ok fields → fields.TextsWithin bound
  | .text _, _, _, _, h => by cases h
  | .element tag content closed, schema, fields, hsize, h => by
    rw [readRecord] at h
    exact textsWithin_readItems content schema [] none fields .nil (fun _ hmem => by cases hmem)
      hsize (closeRecord_eq_ok_iff.mp h).2.2
termination_by structural item => item

/-- The fields read out of items keep the bound on the items' text and on what was read before. -/
theorem textsWithin_readItems : (items : List Item) → (schema : Schema) → (found : Fields) →
    (run : Option Run) → (fields : Fields) → found.TextsWithin bound → RunWithin bound run →
    itemsTextSize items ≤ bound → readItems schema found run items = .ok fields →
    fields.TextsWithin bound
  | [], _, _, _, _, hfound, hrun, _, h => by
    obtain rfl := Except.ok.inj h
    exact textsWithin_settle hfound hrun
  | item :: rest, schema, found, run, fields, hfound, hrun, hsize, h => by
    rw [itemsTextSize] at hsize
    rw [readItems_cons] at h
    obtain ⟨⟨after, next⟩, hstep, h⟩ := exists_of_bind_eq_ok h
    have hitem : item.textSize ≤ bound := by omega
    obtain ⟨hafter, hnext⟩ := textsWithin_readStep hfound hrun hitem
      (fun inner fields => textsWithin_readRecord item inner fields hitem) hstep
    exact textsWithin_readItems rest schema after next fields hafter hnext (by omega) h
termination_by structural items => items

end

/-- The record of a document has no longer texts than the document. -/
theorem textsWithin_ofItems {schema : Schema} {items : List Item} {fields : Fields}
    (h : ofItems schema items = .ok fields) : fields.TextsWithin (itemsTextSize items) := by
  cases items with
  | nil => cases h
  | cons item rest =>
    refine textsWithin_readRecord item schema fields ?_ h
    rw [itemsTextSize]
    exact Nat.le_add_right _ _

end CallbackGateway.Record
