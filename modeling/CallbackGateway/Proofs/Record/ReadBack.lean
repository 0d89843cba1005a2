import CallbackGateway.Proofs.Json.ReadBack
import CallbackGateway.Proofs.Record.KeptText
import CallbackGateway.Proofs.Record.Spelling
import CallbackGateway.Record.ToJson

/-!
# Written records are read back

A record is written in either format, and read again with a schema that need not know all of its
fields. The texts and integers that the schema declares are read as they were written, and fields
that the schema does not know are skipped, whatever they hold.
-/

namespace CallbackGateway.Record

open Json Markup Text

/-- Whether the written form of a field is read back: the schema declares it as a text or as an
integer, or does not know it. -/
inductive Belongs (schema : Schema) (name : String) : Value → Prop
  | text (content : String) (h : List.lookup name schema = some .text) :
      Belongs schema name (.text content)
  | integer {range : IntegerRange} {n : Int}
      (h : List.lookup name schema = some (.integer range)) (hn : range.Contains n) :
      Belongs schema name (.integer n)
  | unknown {value : Value} (h : List.lookup name schema = none) : Belongs schema name value

/-- Whether the integers of a value have 64 bits, and it nests at most to a depth. -/
inductive FitsJson : Nat → Value → Prop
  | text {depth : Nat} (content : String) : FitsJson depth (.text content)
  | integer {depth : Nat} {n : Int} (h : FitsInteger n) : FitsJson depth (.integer n)
  | blank {depth : Nat} : FitsJson depth .blank
  | record {depth : Nat} {fields : Fields}
      (h : ∀ name value, (name, value) ∈ fields → FitsJson depth value) :
      FitsJson (depth + 1) (.record fields)
  | records {depth : Nat} {items : List Fields}
      (h : ∀ item ∈ items, ∀ name value, (name, value) ∈ item → FitsJson depth value) :
      FitsJson (depth + 2) (.records items)

/-- The fields that a schema declares. -/
def Fields.declaredBy (schema : Schema) (fields : Fields) : Fields :=
  fields.filter fun field => (List.lookup field.1 schema).isSome

/-- What it takes for a written record to be read back in both formats. -/
structure IsReadBack (schema : Schema) (fields : Fields) : Prop where
  noRepeats : NoRepeats fields
  isPlain : arePlainFields fields = true
  fitsJson : FitsJson deepest (.record fields)
  belongs : ∀ name value, (name, value) ∈ fields → Belongs schema name value

variable {schema : Schema} {fields : Fields} {name : String} {value : Value}

/-- Among the declared fields, what is found under a declared name is what the record holds, and
nothing is found under another. -/
theorem lookup_declaredBy : List.lookup name (fields.declaredBy schema) =
    if (List.lookup name schema).isSome then List.lookup name fields else none := by
  rw [Fields.declaredBy]
  induction fields with
  | nil => simp
  | cons field fields ih =>
    obtain ⟨other, held⟩ := field
    rw [List.filter_cons, List.lookup_cons]
    by_cases hname : name = other
    · subst hname
      rw [beq_self_eq_true]
      by_cases hdeclared : (List.lookup name schema).isSome = true
      · rw [if_pos hdeclared, if_pos hdeclared, List.lookup_cons_self]
      · rw [if_neg hdeclared, ih, if_neg hdeclared, if_neg hdeclared]
    · rw [beq_false_of_ne hname]
      split
      · rw [List.lookup_cons, beq_false_of_ne hname, ih]
      · exact ih

/-- The leaf of a declared integer is read from its digits. -/
theorem readLeaf_decimal {range : IntegerRange} {n : Int} (h : range.Contains n) :
    (Kind.integer range).readLeaf (decimal n).toList = .ok (.integer n) := by
  have htrim : trim (decimal n).toList = (decimal n).toList :=
    trim_eq_self fun c hc => isBlank_of_mem_decimal hc
  obtain ⟨c, rest, hcons⟩ := List.exists_cons_of_ne_nil (decimal_ne_nil n)
  have hread := IntegerRange.read?_decimal h
  rw [Kind.readLeaf, numberLeaf, htrim, hcons]
  dsimp only
  rw [← hcons, hread]
  rfl

/-! ## Markup -/

/-- What a list of records stands for are closed elements only. -/
theorem exists_of_mem_repeatedItems {items : List Fields} {item : Item}
    (h : item ∈ repeatedItems name items) : ∃ tag content, item = .element tag content true := by
  induction items with
  | nil => simp [repeatedItems] at h
  | cons first items ih =>
    rcases List.mem_cons.mp h with rfl | h
    · exact ⟨_, _, rfl⟩
    · exact ih h

/-- A written record consists of elements. -/
theorem exists_of_mem_fieldsItems {item : Item} (h : item ∈ fieldsItems fields) :
    ∃ tag content, item = .element tag content true := by
  induction fields with
  | nil => simp [fieldsItems] at h
  | cons field fields ih =>
    obtain ⟨name, value⟩ := field
    rcases List.mem_append.mp h with h | h
    · cases value with
      | text | integer | real | blank | record => exact ⟨_, _, List.mem_singleton.mp h⟩
      | records items => exact exists_of_mem_repeatedItems h
    · exact ih h

/-- The elements of fields can be skipped where nothing declares them. -/
theorem isSkippable_fieldsItems (fields : Fields) :
    isSkippable (fieldsItems fields) true = true := by
  unfold isSkippable
  split
  · rename_i rest heq
    have hmem : .text none ∈ fieldsItems fields := heq ▸ List.mem_cons_self
    obtain ⟨tag, content, htext⟩ := exists_of_mem_fieldsItems hmem
    cases htext
  · rfl

/-- The elements of a field that the schema does not know are skipped. -/
theorem readItems_unknown {found : Fields} (hname : IsPlainName name.toList)
    (hkind : List.lookup name schema = none) (value : Value) (rest : List Item) :
    readItems schema found none (valueItems name value ++ rest) =
      readItems schema found none rest := by
  cases value with
  | text | integer | real | blank => exact readItems_skip hname rfl hkind rfl rest
  | record fields => exact readItems_skip hname rfl hkind (isSkippable_fieldsItems fields) rest
  | records items =>
    rw [valueItems]
    induction items with
    | nil => rfl
    | cons item items ih =>
      rw [repeatedItems, List.cons_append,
        readItems_skip hname rfl hkind (isSkippable_fieldsItems item)]
      exact ih

/-- The elements of a record are read as the fields that the schema declares. -/
theorem readItems_eq_declaredBy {found : Fields} (hplain : arePlainFields fields = true)
    (hnew : NoRepeats (found ++ fields))
    (h : ∀ name value, (name, value) ∈ fields → Belongs schema name value) :
    readItems schema found none (fieldsItems fields) =
      .ok (found ++ fields.declaredBy schema) := by
  induction fields generalizing found with
  | nil => rw [fieldsItems, readItems, settle, Fields.declaredBy, List.filter_nil, List.append_nil]
  | cons field fields ih =>
    obtain ⟨name, value⟩ := field
    rw [arePlainFields, isPlainField, Bool.and_eq_true, Bool.and_eq_true, decide_eq_true_eq]
      at hplain
    have hrest : ∀ other held, (other, held) ∈ fields → Belongs schema other held :=
      fun other held hmem => h other held (List.mem_cons_of_mem _ hmem)
    have hlater : NoRepeats (found ++ [(name, value)] ++ fields) := by
      rwa [List.append_assoc, List.singleton_append]
    have hothers : NoRepeats (found ++ fields) :=
      hnew.sublist (((List.sublist_cons_self _ fields).append_left found).map Prod.fst)
    have hrun : continues? none (fieldTag name) = none := rfl
    have hown : (settle found none).has name = false := by
      rw [settle, Fields.has_eq_false_iff, lookup_eq_none_iff]
      rw [NoRepeats, List.map_append, List.nodup_append] at hnew
      exact fun hmem => hnew.2.2 name hmem name List.mem_cons_self rfl
    rw [fieldsItems, namedItems]
    -- A declared leaf is one element; its field comes after those that were found.
    have leaf {kind : Kind} {text : List Char} (hkind : List.lookup name schema = some kind)
        (hleaf : kind.isLeaf = true) (hread : kind.readLeaf text = .ok value) :
        readItems schema found none
          (.element (fieldTag name) [.text (some text)] true :: fieldsItems fields) =
          .ok (found ++ Fields.declaredBy schema ((name, value) :: fields)) := by
      rw [readItems_leaf hplain.1.1 hrun hkind hleaf hown, hread, Except.bind, settle,
        ih hplain.2 hlater hrest, Fields.declaredBy, Fields.declaredBy, List.filter_cons_of_pos
        (by rw [hkind]; rfl), List.append_assoc, List.singleton_append]
    cases h name value List.mem_cons_self with
    | text content hkind =>
      exact leaf hkind rfl (by rw [Kind.readLeaf, String.ofList_toList])
    | integer hkind hn => exact leaf hkind rfl (readLeaf_decimal hn)
    | unknown hkind =>
      rw [readItems_unknown hplain.1.1 hkind, ih hplain.2 hothers hrest, Fields.declaredBy,
        Fields.declaredBy, List.filter_cons_of_neg (by simp [hkind])]

/-- In markup, the fields that the schema declares are read back. -/
theorem IsReadBack.readItems (h : IsReadBack schema fields) :
    readItems schema [] none (fieldsItems fields) = .ok (fields.declaredBy schema) := by
  rw [readItems_eq_declaredBy h.isPlain (by rw [List.nil_append]; exact h.noRepeats) h.belongs,
    List.nil_append]

/-! ## JSON -/

/-- Each member written for a record is the JSON form of one of its fields. -/
theorem exists_of_mem_jsonMembers {key : String} {json : Json.Value}
    (h : (key, json) ∈ jsonMembers fields) :
    ∃ value, (key, value) ∈ fields ∧ json = value.toJson := by
  induction fields with
  | nil => simp [jsonMembers] at h
  | cons field fields ih =>
    obtain ⟨name, value⟩ := field
    rcases List.mem_cons.mp h with hfirst | h
    · obtain ⟨rfl, rfl⟩ := Prod.mk.inj hfirst
      exact ⟨value, List.mem_cons_self, rfl⟩
    · obtain ⟨value, hmem, hjson⟩ := ih h
      exact ⟨value, List.mem_cons_of_mem _ hmem, hjson⟩

/-- Each item written for a list of records is the object of one of them. -/
theorem exists_of_mem_jsonItems {items : List Fields} {json : Json.Value}
    (h : json ∈ jsonItems items) :
    ∃ item ∈ items, json = .ofMembers (jsonMembers item) := by
  induction items with
  | nil => simp [jsonItems] at h
  | cons item items ih =>
    rcases List.mem_cons.mp h with rfl | h
    · exact ⟨item, List.mem_cons_self, rfl⟩
    · obtain ⟨other, hmem, hjson⟩ := ih h
      exact ⟨other, List.mem_cons_of_mem _ hmem, hjson⟩

/-- An object is stable if all its members are, in whatever order they were given. -/
theorem stable_ofMembers {depth : Nat} {members : List (String × Json.Value)}
    (h : ∀ key value, (key, value) ∈ members → Stable depth value) :
    Stable (depth + 1) (.ofMembers members) := by
  obtain ⟨sorted, hsorted, horder, hmembers⟩ := exists_sorted_ofMembers members
  rw [hsorted]
  exact .object horder fun key value hmem => h key value (hmembers _ hmem)

/-- A value whose integers fit is stable in JSON. -/
theorem FitsJson.stable {depth : Nat} (h : FitsJson depth value) : Stable depth value.toJson := by
  induction h with
  | text content => exact .string content
  | integer hn => exact .integer hn
  | blank => exact .string ""
  | record _ ih =>
    refine stable_ofMembers fun key json hmem => ?_
    obtain ⟨value, hvalue, rfl⟩ := exists_of_mem_jsonMembers hmem
    exact ih key value hvalue
  | records _ ih =>
    refine .array fun json hjson => ?_
    obtain ⟨item, hitem, rfl⟩ := exists_of_mem_jsonItems hjson
    refine stable_ofMembers fun key json hmem => ?_
    obtain ⟨value, hvalue, rfl⟩ := exists_of_mem_jsonMembers hmem
    exact ih item hitem key value hvalue

/-- A member that was written for a field is read as this field, if the schema declares it. -/
theorem Belongs.readMember (h : Belongs schema name value) :
    readMember schema (name, value.toJson) = .ok (Fields.declaredBy schema [(name, value)]) := by
  have hnull : value.toJson ≠ .null := by
    cases value <;> simp [Value.toJson, Json.Value.ofMembers]
  rw [Fields.declaredBy]
  cases h with
  | text content hkind =>
    rw [readMember_known hkind hnull, List.filter_cons_of_pos (by rw [hkind]; rfl)]
    simp [Value.toJson, readValue, Kind.readLeaf, Except.map]
  | integer hkind hn =>
    rw [readMember_known hkind hnull, List.filter_cons_of_pos (by rw [hkind]; rfl),
      Value.toJson, readValue, Number.text, readLeaf_decimal hn]
    rfl
  | unknown hkind =>
    rw [List.filter_cons_of_neg (by simp [hkind])]
    generalize value.toJson = json at hnull
    cases json with
    | null => exact absurd rfl hnull
    | boolean | number | string | array | object => simp [Record.readMember, hkind]

/-- The member under a name is the JSON form of the value under it. -/
theorem lookup_jsonMembers (name : String) (fields : Fields) :
    List.lookup name (jsonMembers fields) = (List.lookup name fields).map Value.toJson := by
  induction fields with
  | nil => rfl
  | cons field fields ih =>
    obtain ⟨other, value⟩ := field
    rw [jsonMembers, jsonMember, List.lookup_cons, List.lookup_cons]
    split
    · rfl
    · exact ih

/-- The members written for a record have its names, in its order. -/
theorem map_fst_jsonMembers (fields : Fields) :
    (jsonMembers fields).map Prod.fst = fields.map Prod.fst := by
  induction fields with
  | nil => rfl
  | cons field fields ih =>
    obtain ⟨name, value⟩ := field
    rw [jsonMembers, jsonMember, List.map_cons, List.map_cons, ih]

/-- A record is read back as an object with a member for each field. -/
theorem IsReadBack.exists_members (h : IsReadBack schema fields) :
    ∃ members, Json.Value.read? fields.toJson.toBytes = some (.object members) ∧
      NoRepeats members ∧
      ∀ name, List.lookup name members = (List.lookup name fields).map Value.toJson := by
  have hkeys : NoRepeats (jsonMembers fields) := by
    rw [NoRepeats, map_fst_jsonMembers]
    exact h.noRepeats
  obtain ⟨members, hmembers, hperm⟩ := exists_ofMembers hkeys
  have hjson : fields.toJson = .object members := by
    rw [Fields.toJson, Value.toJson, hmembers]
  have hdistinct : NoRepeats members := (hperm.map Prod.fst).nodup_iff.mpr hkeys
  refine ⟨members, ?_, hdistinct, fun name => ?_⟩
  · rw [← hjson]
    exact h.fitsJson.stable.read?_toBytes
  · rw [lookup_of_perm hdistinct hperm, lookup_jsonMembers]

/-- The fields that the schema declares are read from the members. -/
theorem IsReadBack.exists_readMembers (h : IsReadBack schema fields)
    {members : List (String × Json.Value)} (hkeys : NoRepeats members)
    (hmembers : ∀ name, List.lookup name members = (List.lookup name fields).map Value.toJson) :
    ∃ found, readMembers schema members = .ok found ∧
      ∀ name, List.lookup name found = List.lookup name (fields.declaredBy schema) := by
  rw [readMembers_eq_collect]
  cases hcollect : collect (readMember schema) members with
  | error e =>
    -- A member that is refused was written for a field, and this field is read from its member.
    obtain ⟨name, json, hmem, herror⟩ := exists_error_of_collect hcollect
    have hlookup := lookup_of_mem hkeys hmem
    rw [hmembers] at hlookup
    obtain ⟨value, hvalue, rfl⟩ := Option.map_eq_some_iff.mp hlookup
    rw [(h.belongs name value (mem_of_lookup hvalue)).readMember] at herror
    cases herror
  | ok found =>
    refine ⟨found, rfl, fun name => ?_⟩
    have hread := readUnder_of_collect (readsOwnField_readMember schema) hkeys hcollect name
    rw [hmembers] at hread
    cases hvalue : List.lookup name fields with
    | none =>
      rw [hvalue] at hread
      rw [← Except.ok.inj hread, lookup_declaredBy, hvalue, ite_self]
    | some value =>
      rw [hvalue, Option.map_some, readUnder,
        (h.belongs name value (mem_of_lookup hvalue)).readMember] at hread
      rw [← Except.ok.inj hread, lookup_declaredBy, lookup_declaredBy, hvalue,
        List.lookup_cons_self]

/-- What is declared is the same in records of which the same fields are found. -/
theorem IsReadBack.alike_declaredBy (h : IsReadBack schema fields) {found : Fields}
    (hfound : ∀ name, List.lookup name found = List.lookup name (fields.declaredBy schema)) :
    Alike found (fields.declaredBy schema) := by
  refine .mk fun name => ?_
  rw [hfound, lookup_declaredBy]
  split
  · rename_i hdeclared
    cases hvalue : List.lookup name fields with
    | none => exact .absent
    | some value =>
      cases h.belongs name value (mem_of_lookup hvalue) with
      | text content => exact .text content
      | integer => exact .integer _
      | unknown hkind => simp [hkind] at hdeclared
  · exact .absent

end CallbackGateway.Record
