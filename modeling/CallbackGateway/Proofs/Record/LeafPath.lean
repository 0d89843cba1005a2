import CallbackGateway.Proofs.Record.JsonForm
import CallbackGateway.Proofs.Record.LooseLeaf
import CallbackGateway.Proofs.Text.Numeral

/-!
# Leaves at paths

A leaf is found in a record by the names that lead to it. No record that is read has a field twice,
in either format, so that there is one value at most at a path: reading its text as an integer gives
the integer at this path, or the error of the whole record.
-/

namespace CallbackGateway.Record

open Markup Text

/-- The value at a path. -/
def Value.at? : List String → Value → Option Value
  | [], value => some value
  | name :: path, .record fields => (List.lookup name fields).bind (Value.at? path)
  | _ :: _, _ => none

/-- Whether no record on the way to a path has a field twice. -/
def Value.NoRepeatsAlong : List String → Value → Prop
  | name :: path, .record fields =>
    NoRepeats fields ∧ ∀ value, List.lookup name fields = some value → value.NoRepeatsAlong path
  | _, _ => True

variable {range : IntegerRange} {name : String} {path : List String} {schema : Schema}

/-! ## Texts of integers -/

section Leaf

variable {text : List Char}

/-- A blank leaf of integer kind is read as blank. -/
theorem readLeaf_blank (h : trim text = []) : (Kind.integer range).readLeaf text = .ok .blank := by
  rw [Kind.readLeaf, numberLeaf, h]

/-- A leaf of integer kind that is not blank is read as the integer that its trimmed text spells, or
refused. -/
theorem readLeaf_eq_read? (h : trim text ≠ []) : (Kind.integer range).readLeaf text =
    match range.read? (trim text) with
    | some n => .ok (.integer n)
    | none => .error (.notANumber (trim text)) := by
  rw [Kind.readLeaf]
  unfold numberLeaf
  split
  · exact absurd ‹_› h
  · dsimp only
    cases range.read? (trim text) <;> rfl

/-- A leaf whose trimmed text spells an integer of the range is read as that integer. -/
theorem readLeaf_integer {n : Int} (h : IsIntegerText range (trim text) n) :
    (Kind.integer range).readLeaf text = .ok (.integer n) := by
  have hne : trim text ≠ [] := by
    intro hempty
    rw [hempty] at h
    cases h with
    | plain hne => exact hne rfl
  rw [readLeaf_eq_read? hne, IntegerRange.read?_eq_some_iff.mpr h]

/-- A leaf that is neither blank nor an integer of the range is refused with its trimmed text. -/
theorem readLeaf_notANumber (hne : trim text ≠ []) (h : ∀ n, ¬ IsIntegerText range (trim text) n) :
    (Kind.integer range).readLeaf text = .error (.notANumber (trim text)) := by
  have hnone : range.read? (trim text) = none :=
    Option.eq_none_iff_forall_ne_some.mpr fun n hn => h n (IntegerRange.read?_eq_some_iff.mp hn)
  rw [readLeaf_eq_read? hne, hnone]

end Leaf

/-! ## Reading the text at a path -/

/-- If a record cannot be read as an integer at a path, it is because of the field there. -/
theorem tighten_eq_of_collect {fields : Fields} {value : Value} {e : RecordError}
    (hrepeats : NoRepeats fields) (hvalue : List.lookup name fields = some value)
    (h : collect (tightenField range name path) fields = .error e) :
    value.tighten range path = .error e := by
  obtain ⟨key, held, hmem, herror⟩ := exists_error_of_collect h
  by_cases hname : key = name
  · subst hname
    rw [lookup_of_mem hrepeats hmem] at hvalue
    obtain rfl := Option.some.inj hvalue
    rw [tightenField_same] at herror
    cases htight : held.tighten range path with
    | ok tight =>
      rw [htight] at herror
      cases herror
    | error cause =>
      rw [htight] at herror
      obtain rfl : cause = e := Except.error.inj herror
      rfl
  · rw [tightenField_other hname] at herror
    cases herror

/-- The field at a path is found in the record that is read as the value that it is read as. -/
theorem tighten_of_collect {fields tight : Fields} {value : Value}
    (hrepeats : NoRepeats fields) (hvalue : List.lookup name fields = some value)
    (h : collect (tightenField range name path) fields = .ok tight) :
    ∃ read, value.tighten range path = .ok read ∧ List.lookup name tight = some read := by
  have hunder := readUnder_of_collect readsOwnField_tightenField hrepeats h name
  rw [hvalue, readUnder, tightenField_same] at hunder
  cases hread : value.tighten range path with
  | error e =>
    rw [hread] at hunder
    cases hunder
  | ok read =>
    rw [hread] at hunder
    exact ⟨read, rfl, (Except.ok.inj hunder).symm.trans List.lookup_cons_self⟩

/-- Fields under other names stay as they are. -/
theorem text_of_collect_tightenField {fields tight : Fields} {other : String}
    (hrepeats : NoRepeats fields) (hother : other ≠ name)
    (h : collect (tightenField range name path) fields = .ok tight) :
    tight.text other = fields.text other := by
  have hunder := readUnder_of_collect readsOwnField_tightenField hrepeats h other
  have hlookup : List.lookup other tight = List.lookup other fields := by
    cases hvalue : List.lookup other fields with
    | none =>
      rw [hvalue] at hunder
      exact (Except.ok.inj hunder).symm
    | some value =>
      rw [hvalue, readUnder, tightenField_other hother] at hunder
      exact (Except.ok.inj hunder).symm.trans List.lookup_cons_self
  rw [Fields.text, hlookup, Fields.text]

/-- A text at a path that is an integer is found as the integer. -/
theorem exists_tighten_of_text {value leaf : Value} {content : String}
    (hrepeats : value.NoRepeatsAlong path) (htext : value.at? path = some (.text content))
    (hleaf : (Kind.integer range).readLeaf content.toList = .ok leaf) :
    ∃ tight, value.tighten range path = .ok tight ∧ tight.at? path = some leaf := by
  induction path generalizing value with
  | nil =>
    obtain rfl := Option.some.inj htext
    exact ⟨leaf, hleaf, rfl⟩
  | cons name path ih =>
    cases value with
    | record fields =>
      obtain ⟨inner, hinner, htext⟩ := Option.bind_eq_some_iff.mp htext
      obtain ⟨read, hread, hfound⟩ := ih (hrepeats.2 inner hinner) htext
      rw [tighten_record]
      cases hcollect : collect (tightenField range name path) fields with
      | error e =>
        rw [tighten_eq_of_collect hrepeats.1 hinner hcollect] at hread
        cases hread
      | ok tight =>
        obtain ⟨other, hother, hlookup⟩ := tighten_of_collect hrepeats.1 hinner hcollect
        obtain rfl := Except.ok.inj (hread.symm.trans hother)
        refine ⟨.record tight, rfl, ?_⟩
        rw [Value.at?, hlookup]
        exact hfound
    | text | integer | real | blank | records => cases htext

/-- A text at a path that is no integer is the error of the whole record. -/
theorem tighten_of_text_error {value : Value} {content : String} {e : RecordError}
    (hrepeats : value.NoRepeatsAlong path) (htext : value.at? path = some (.text content))
    (hleaf : (Kind.integer range).readLeaf content.toList = .error e) :
    value.tighten range path = .error e := by
  induction path generalizing value with
  | nil =>
    obtain rfl := Option.some.inj htext
    exact hleaf
  | cons name path ih =>
    cases value with
    | record fields =>
      obtain ⟨inner, hinner, htext⟩ := Option.bind_eq_some_iff.mp htext
      have herror := ih (hrepeats.2 inner hinner) htext
      rw [tighten_record]
      cases hcollect : collect (tightenField range name path) fields with
      | error cause =>
        rw [tighten_eq_of_collect hrepeats.1 hinner hcollect] at herror
        rw [Except.error.inj herror]
        rfl
      | ok tight =>
        obtain ⟨read, hread, -⟩ := tighten_of_collect hrepeats.1 hinner hcollect
        rw [hread] at herror
        cases herror
    | text | integer | real | blank | records => cases htext

/-! ## Records without repetition -/

/-- A field under a new name at the end repeats no name. -/
theorem noRepeats_concat {fields : Fields} {key : String} {value : Value} (h : NoRepeats fields)
    (hnew : fields.has key = false) : NoRepeats (fields ++ [(key, value)]) := by
  rw [Fields.has_eq_false_iff, lookup_eq_none_iff] at hnew
  rw [NoRepeats, List.map_append, List.nodup_append]
  refine ⟨h, List.pairwise_singleton _ _, fun other hother found hfound hsame => ?_⟩
  obtain rfl := List.mem_singleton.mp hfound
  exact hnew (hsame ▸ hother)

/-- What a leaf is read as repeats no name, as it holds no fields. -/
theorem noRepeatsAlong_readLeaf {kind : Kind} {text : List Char} {value : Value}
    (h : kind.readLeaf text = .ok value) : value.NoRepeatsAlong path := by
  have hleaf (h : ∀ fields, value ≠ .record fields) : value.NoRepeatsAlong path := by
    cases path with
    | nil => trivial
    | cons name path =>
      cases value with
      | record fields => exact absurd rfl (h fields)
      | text | integer | real | blank | records => trivial
  refine hleaf fun fields hvalue => ?_
  subst hvalue
  have hnumber {read? : List Char → Option Value}
      (hread : ∀ text, read? text ≠ some (.record fields))
      (h : numberLeaf read? text = .ok (.record fields)) : False := by
    unfold numberLeaf at h
    split at h
    · cases h
    · split at h
      · rename_i hsome
        obtain rfl := Except.ok.inj h
        exact hread _ hsome
      · cases h
  cases kind with
  | text | record | records => cases h
  | integer range => exact hnumber (fun text => by simp) h
  | real => exact hnumber (fun text => by simp) h

/-- What holds of every field that is read holds of the fields of a record, none of which comes
twice. -/
theorem forall_of_readItems {property : Value → Prop}
    (hfield : ∀ kind tag content closed value,
      readField kind tag content closed = .ok value → property value)
    (hrecords : ∀ items, property (.records items)) {items : List Item} {found fields : Fields}
    {run : Option Run} (hrepeats : NoRepeats (settle found run))
    (hfound : ∀ field ∈ settle found run, property field.2)
    (h : readItems schema found run items = .ok fields) :
    NoRepeats fields ∧ ∀ field ∈ fields, property field.2 := by
  induction items generalizing found run with
  | nil =>
    rw [readItems] at h
    obtain rfl := Except.ok.inj h
    exact ⟨hrepeats, hfound⟩
  | cons item rest ih =>
    rw [readItems_cons] at h
    obtain ⟨⟨after, next⟩, hstep, hrest⟩ := exists_of_bind_eq_ok h
    -- one field more than what was found, counting the run that is open
    have hmore {key : String} {value : Value} (hvalue : property value)
        (hnew : (settle found run).has key = false)
        (hafter : settle after next = settle found run ++ [(key, value)]) :
        NoRepeats fields ∧ ∀ field ∈ fields, property field.2 := by
      refine ih ?_ ?_ hrest
      · rw [hafter]
        exact noRepeats_concat hrepeats hnew
      · rw [hafter, List.forall_mem_append]
        exact ⟨hfound, List.forall_mem_singleton.mpr hvalue⟩
    cases item with
    | text value =>
      obtain ⟨rfl, -, hstate⟩ := readStep_text.mp hstep
      obtain ⟨rfl, rfl⟩ := Prod.mk.inj hstate
      exact ih hrepeats hfound hrest
    | element tag content closed =>
      cases readStep_element_eq_ok_iff.mp hstep with
      | @continued first item hrun hitem =>
        obtain ⟨rfl, -⟩ := continues?_eq_some_iff.mp hrun
        rw [settle, List.forall_mem_append] at hfound
        refine ih ?_ ?_ hrest
        · rw [settle, NoRepeats, List.map_append] at hrepeats ⊢
          exact hrepeats
        · rw [settle, List.forall_mem_append]
          exact ⟨hfound.1, List.forall_mem_singleton.mpr (hrecords _)⟩
      | skipped =>
        refine ih ?_ ?_ hrest
        · exact hrepeats
        · exact hfound
      | started hrun hkind hnew hitem => exact hmore (hrecords _) hnew rfl
      | nested hrun hkind hnew hitem =>
        exact hmore (hfield _ tag content closed _ (readField_of_record hitem)) hnew rfl
      | leaf hrun hkind hnew hvalue =>
        exact hmore (hfield _ tag content closed _ (readField_of_leaf hvalue).2) hnew rfl

/-- No record in markup is read with a field twice. -/
theorem noRepeatsAlong_readField {kind : Kind} {tag : Tag} {content : List Item} {closed : Bool}
    {value : Value} (h : readField kind tag content closed = .ok value) :
    value.NoRepeatsAlong path := by
  induction path generalizing kind tag content closed value with
  | nil => trivial
  | cons name path ih =>
    cases kind with
    | record inner =>
      obtain ⟨fields, hfields, rfl⟩ := exists_of_map_eq_ok h
      rw [readRecord] at hfields
      obtain ⟨-, -, hitems⟩ := closeRecord_eq_ok_iff.mp hfields
      have hnothing : NoRepeats (settle [] none) := List.nodup_nil
      have hrecords (items : List Fields) : (Value.records items).NoRepeatsAlong path := by
        cases path <;> trivial
      obtain ⟨hrepeats, hall⟩ := forall_of_readItems (fun _ _ _ _ _ => ih) hrecords hnothing
        (fun _ hmem => absurd hmem List.not_mem_nil) hitems
      exact ⟨hrepeats, fun value hvalue => hall _ (mem_of_lookup hvalue)⟩
    | text | integer | real | records =>
      obtain ⟨text, -, -, hread⟩ := readLeafElement_eq_ok_iff.mp h
      exact noRepeatsAlong_readLeaf hread

/-! ## JSON values without repetition -/

/-- Whether no object in a value has a key twice. -/
inductive KeysOnce : Json.Value → Prop
  | null : KeysOnce .null
  | boolean (value : Bool) : KeysOnce (.boolean value)
  | number (number : Json.Number) : KeysOnce (.number number)
  | string (text : String) : KeysOnce (.string text)
  | array {items : List Json.Value} (h : ∀ item ∈ items, KeysOnce item) : KeysOnce (.array items)
  | object {members : List (String × Json.Value)} (hkeys : NoRepeats members)
      (h : ∀ member ∈ members, KeysOnce member.2) : KeysOnce (.object members)

/-- Each value of a mapped list comes from an item of the list. -/
theorem exists_of_mem_mapM {α β : Type} {f : α → Option β} {items : List α} {values : List β}
    {b : β} (h : items.mapM f = some values) (hb : b ∈ values) : ∃ a ∈ items, f a = some b := by
  induction items generalizing values with
  | nil =>
    obtain rfl := Option.some.inj h
    cases hb
  | cons a rest ih =>
    rw [List.mapM_cons] at h
    obtain ⟨first, hfirst, h⟩ := Option.bind_eq_some_iff.mp h
    obtain ⟨others, hothers, h⟩ := Option.bind_eq_some_iff.mp h
    obtain rfl := Option.some.inj h
    rcases List.mem_cons.mp hb with rfl | hb
    · exact ⟨a, List.mem_cons_self, hfirst⟩
    · obtain ⟨other, hother, hvalue⟩ := ih hothers hb
      exact ⟨other, List.mem_cons_of_mem _ hother, hvalue⟩

/-- What a document says has no object with a key twice. -/
theorem keysOnce_of_value? {depth : Nat} {tree : Json.Tree} {value : Json.Value}
    (h : tree.value? depth = some value) : KeysOnce value := by
  induction depth using Nat.strongRecOn generalizing tree value with
  | ind depth ih =>
  cases tree with
  | null =>
    obtain rfl := Option.some.inj h
    exact .null
  | boolean b =>
    obtain rfl := Option.some.inj h
    exact .boolean b
  | number numeral =>
    obtain ⟨number, -, rfl⟩ := Option.map_eq_some_iff.mp h
    exact .number number
  | string quoted =>
    obtain ⟨text, -, rfl⟩ := Option.map_eq_some_iff.mp h
    exact .string text
  | array items =>
    cases depth with
    | zero => cases h
    | succ inner =>
      obtain ⟨values, hvalues, rfl⟩ := exists_of_value?_array h
      refine .array fun item hitem => ?_
      obtain ⟨tree, -, htree⟩ := exists_of_mem_mapM hvalues hitem
      exact ih inner inner.lt_succ_self htree
  | object members =>
    cases depth with
    | zero => cases h
    | succ inner =>
      obtain ⟨values, hvalues, rfl⟩ := exists_of_value?_object h
      obtain ⟨sorted, hsorted, horder, hmem⟩ := Json.exists_sorted_ofMembers values
      rw [hsorted]
      refine .object horder.noRepeats fun member hmember => ?_
      obtain ⟨⟨key, tree⟩, -, htree⟩ := exists_of_mem_mapM hvalues (hmem member hmember)
      obtain ⟨name, value, rfl, -, hvalue⟩ := exists_of_memberValue? htree
      exact ih inner inner.lt_succ_self hvalue

/-! ## Fields that are collected -/

section Collect

variable {α : Type} {read : String × α → Except RecordError Fields} {entries : List (String × α)}
  {fields : Fields}

/-- Where each entry is read as fields of its own name, the names that are collected stand in the
order of the entries. -/
theorem map_fst_of_collect (hread : ReadsOwnField read) (h : collect read entries = .ok fields) :
    (fields.map Prod.fst).Sublist (entries.map Prod.fst) := by
  induction entries generalizing fields with
  | nil =>
    obtain rfl := Except.ok.inj h
    exact List.Sublist.refl _
  | cons entry entries ih =>
    obtain ⟨key, a⟩ := entry
    obtain ⟨found, others, hfound, hothers, rfl⟩ := collect_cons_eq_ok h
    rcases hread key a found hfound with rfl | ⟨value, rfl⟩
    · exact (ih hothers).cons key
    · exact (ih hothers).cons_cons key

/-- A field that is collected is read from its entry. -/
theorem exists_of_mem_collect (hread : ReadsOwnField read) (h : collect read entries = .ok fields)
    {key : String} {value : Value} (hmem : (key, value) ∈ fields) :
    ∃ a, (key, a) ∈ entries ∧ read (key, a) = .ok [(key, value)] := by
  induction entries generalizing fields with
  | nil =>
    obtain rfl := Except.ok.inj h
    cases hmem
  | cons entry entries ih =>
    obtain ⟨other, a⟩ := entry
    obtain ⟨found, others, hfound, hothers, rfl⟩ := collect_cons_eq_ok h
    rcases List.mem_append.mp hmem with hfirst | hrest
    · rcases hread other a found hfound with rfl | ⟨held, rfl⟩
      · cases hfirst
      · obtain ⟨rfl, rfl⟩ := Prod.mk.inj (List.mem_singleton.mp hfirst)
        exact ⟨a, List.mem_cons_self, hfound⟩
    · obtain ⟨b, hb, hvalue⟩ := ih hothers hrest
      exact ⟨b, List.mem_cons_of_mem _ hb, hvalue⟩

end Collect

/-- A field that is read from a member is declared, and has the value of the member. -/
theorem exists_of_readMember {key : String} {json : Json.Value} {value : Value}
    (h : readMember schema (key, json) = .ok [(key, value)]) :
    ∃ kind, List.lookup key schema = some kind ∧ readValue kind json = .ok value := by
  by_cases hnull : json = .null
  · subst hnull
    cases h
  cases hkind : List.lookup key schema with
  | none =>
    rw [readMember_unknown hkind] at h
    cases h
  | some kind =>
    rw [readMember_known hkind hnull] at h
    obtain ⟨read, hread, hsame⟩ := exists_of_map_eq_ok h
    obtain ⟨-, rfl⟩ := Prod.mk.inj (List.singleton_inj.mp hsame)
    exact ⟨kind, rfl, hread⟩

/-- Items that are fields are read under the first names, each from its item. -/
theorem forall_of_readPositions {items : List Json.Value} {fields : Fields}
    (h : readPositions schema items = .ok fields) :
    (fields.map Prod.fst).Sublist (schema.map Prod.fst) ∧ ∀ key value, (key, value) ∈ fields →
      ∃ kind item, (key, kind) ∈ schema ∧ item ∈ items ∧ readValue kind item = .ok value := by
  induction items generalizing schema fields with
  | nil =>
    obtain rfl := Except.ok.inj h
    exact ⟨List.nil_sublist _, nofun⟩
  | cons item rest ih =>
    cases schema with
    | nil => cases h
    | cons field others =>
      obtain ⟨name, kind⟩ := field
      rw [readPositions] at h
      obtain ⟨first, hfirst, h⟩ := exists_of_bind_eq_ok h
      obtain ⟨tail, hrest, h⟩ := exists_of_bind_eq_ok h
      obtain rfl := Except.ok.inj h
      obtain ⟨hnames, hall⟩ := ih hrest
      refine ⟨hnames.cons_cons name, fun key value hmem => ?_⟩
      rcases List.mem_cons.mp hmem with hsame | hmem
      · obtain ⟨rfl, rfl⟩ := Prod.mk.inj hsame
        exact ⟨kind, item, List.mem_cons_self, List.mem_cons_self, hfirst⟩
      · obtain ⟨declared, held, hdeclared, hheld, hread⟩ := hall key value hmem
        exact ⟨declared, held, List.mem_cons_of_mem _ hdeclared, List.mem_cons_of_mem _ hheld,
          hread⟩

/-- No record in JSON is read with a field twice. -/
theorem noRepeatsAlong_readValue {kind : Kind} {json : Json.Value} {value : Value}
    (hkind : kind.isDistinct = true) (hjson : KeysOnce json)
    (h : readValue kind json = .ok value) : value.NoRepeatsAlong path := by
  induction path generalizing kind json value with
  | nil => trivial
  | cons name path ih =>
    cases hjson with
    | null => cases h
    | boolean | number | string => exact noRepeatsAlong_readLeaf h
    | @array items hitems =>
      cases kind with
      | record schema =>
        obtain ⟨hschema, hkinds⟩ := Kind.isDistinct_record.mp hkind
        obtain ⟨fields, hfields, rfl⟩ := exists_of_map_eq_ok h
        obtain ⟨hnames, hall⟩ := forall_of_readPositions hfields
        refine ⟨hschema.sublist hnames, fun value hvalue => ?_⟩
        obtain ⟨kind, item, hmem, hitem, hread⟩ := hall name value (mem_of_lookup hvalue)
        exact ih (isDistinct_of_mem hkinds hmem) (hitems item hitem) hread
      | records schema =>
        obtain ⟨records, -, rfl⟩ := exists_of_map_eq_ok h
        trivial
      | text | integer | real => cases h
    | @object members hkeys hmembers =>
      cases kind with
      | record schema =>
        obtain ⟨fields, hfields, rfl⟩ := exists_of_map_eq_ok h
        rw [readMembers_eq_collect] at hfields
        refine ⟨hkeys.sublist (map_fst_of_collect (readsOwnField_readMember schema) hfields),
          fun value hvalue => ?_⟩
        obtain ⟨held, hmem, hread⟩ :=
          exists_of_mem_collect (readsOwnField_readMember schema) hfields (mem_of_lookup hvalue)
        obtain ⟨kind, hdeclared, hheld⟩ := exists_of_readMember hread
        exact ih (isDistinct_of_mem (Kind.isDistinct_record.mp hkind).2 (mem_of_lookup hdeclared))
          (hmembers _ hmem) hheld
      | text | integer | real | records => cases h

/-! ## Whole records -/

/-- A record has an integer at a path just as the field at the first name has it at the rest of the
path. -/
theorem hasInteger_of_lookup {kind : Kind} (hrepeats : NoRepeats schema)
    (hkind : List.lookup name schema = some kind) (h : kind.HasInteger range path) :
    (Kind.record schema).HasInteger range (name :: path) := by
  intro other hmem
  rw [lookup_of_mem hrepeats hmem] at hkind
  rwa [Option.some.inj hkind]

/-- Results that are one record are one result of fields. -/
theorem eq_of_map_record {first second : Except RecordError Fields}
    (h : first.map Value.record = second.map Value.record) : first = second := by
  cases first <;> cases second <;> simp_all [Except.map]

/-- A document that a loosened schema reads is read by the schema, up to the text. -/
theorem ofItems_loosen {items : List Item} {loose : Fields}
    (hinteger : (Kind.record schema).HasInteger range (name :: path))
    (h : ofItems (loosenAt name path schema) items = .ok loose) :
    ofItems schema items = collect (tightenField range name path) loose ∧
      (Value.record loose).NoRepeatsAlong (name :: path) := by
  cases items with
  | nil => cases h
  | cons item rest =>
    cases item with
    | text value => cases h
    | element tag content closed =>
      rw [ofItems] at h ⊢
      have hfield := readField_of_record h
      have hread := readField_loosen hinteger hfield
      rw [tighten_record] at hread
      exact ⟨eq_of_map_record hread, noRepeatsAlong_readField hfield⟩

/-- A JSON value that a loosened schema reads is read by the schema, up to the text. -/
theorem ofJson_loosen {members : List (String × Json.Value)} {loose : Fields}
    (hinteger : (Kind.record schema).HasInteger range (name :: path))
    (hdistinct : (Kind.record (loosenAt name path schema)).isDistinct = true)
    (hjson : KeysOnce (.object members))
    (h : ofJson (loosenAt name path schema) (.object members) = .ok loose) :
    ofJson schema (.object members) = collect (tightenField range name path) loose ∧
      (Value.record loose).NoRepeatsAlong (name :: path) := by
  rw [ofJson_object] at h ⊢
  have hvalue : readValue (.record (loosenAt name path schema)) (.object members) =
      .ok (.record loose) := by
    rw [readValue, h]
    rfl
  have hread := readValue_loosen hinteger hvalue
  rw [tighten_record, readValue] at hread
  exact ⟨eq_of_map_record hread, noRepeatsAlong_readValue hdistinct hjson hvalue⟩

end CallbackGateway.Record
