import CallbackGateway.Proofs.Json.IntegerText
import CallbackGateway.Proofs.Record.MarkupFields
import CallbackGateway.Record.FromJson

/-!
# Records of texts in JSON

A record of texts is spelled by an object with a member for each field, in any order. A text is
spelled by a string, or by a bare number or truth value that is written just like the text; what
is absent may be null; a repeated field is an array.

What is read from the object agrees with what is read from the record as markup.
-/

namespace CallbackGateway.Record

open Json Text

/-- Which values spell a text. -/
inductive TextSpelled : String → Json.Value → Prop
  | string (text : String) : TextSpelled text (.string text)
  | integer {n : Int} (h : FitsInteger n) : TextSpelled (decimal n) (.number (.integer n))
  | boolean (value : Bool) : TextSpelled (String.ofList (booleanText value)) (.boolean value)

/-- What may stand under one name in an object that spells a record, of which nested records are
compared by a relation. -/
inductive SpelledFound (spelled : Fields → List (String × Json.Value) → Prop) :
    Option Value → Option Json.Value → Prop
  | absent : SpelledFound spelled none none
  | null : SpelledFound spelled none (some .null)
  | text {content : String} {value : Json.Value} (h : TextSpelled content value) :
      SpelledFound spelled (some (.text content)) (some value)
  | record {fields : Fields} {members : List (String × Json.Value)} (h : spelled fields members) :
      SpelledFound spelled (some (.record fields)) (some (.object members))
  | records {items : List Fields} {rows : List (List (String × Json.Value))}
      (h : List.Forall₂ spelled items rows) :
      SpelledFound spelled (some (.records items)) (some (.array (rows.map .object)))

/-- Which members spell a record of texts. -/
inductive SpelledBy : Fields → List (String × Json.Value) → Prop
  | mk {fields : Fields} {members : List (String × Json.Value)} (hkeys : NoRepeats members)
      (h : ∀ name, SpelledFound SpelledBy (List.lookup name fields) (List.lookup name members)) :
      SpelledBy fields members

namespace SpelledBy

variable {fields : Fields} {members : List (String × Json.Value)}

/-- The members that spell a record repeat no name. -/
theorem noRepeats (h : SpelledBy fields members) : NoRepeats members := by
  cases h with
  | mk hkeys => exact hkeys

/-- The members spell the value under each name, or have none where the record has none. -/
theorem found (h : SpelledBy fields members) (name : String) :
    SpelledFound SpelledBy (List.lookup name fields) (List.lookup name members) := by
  cases h with
  | mk _ h => exact h name

/-- What stands nowhere is spelled. -/
theorem spelledFound_of_notMem {name : String} (hfields : name ∉ fields.map Prod.fst)
    (hmembers : name ∉ members.map Prod.fst) :
    SpelledFound SpelledBy (List.lookup name fields) (List.lookup name members) := by
  rw [lookup_eq_none_iff.mpr hfields, lookup_eq_none_iff.mpr hmembers]
  exact .absent

/-- Only names that stand somewhere are to be compared. -/
theorem of_names (names : List String) (hkeys : NoRepeats members)
    (hfields : fields.map Prod.fst ⊆ names) (hmembers : members.map Prod.fst ⊆ names)
    (h : ∀ name ∈ names,
      SpelledFound SpelledBy (List.lookup name fields) (List.lookup name members)) :
    SpelledBy fields members := by
  refine .mk hkeys fun name => ?_
  by_cases hname : name ∈ names
  · exact h name hname
  · exact spelledFound_of_notMem (fun hmem => hname (hfields hmem)) fun hmem =>
      hname (hmembers hmem)

end SpelledBy

/-- What may stand under one name in a record that fits a regular schema and in an object that
spells the record. -/
inductive SpelledKind : Nat → Option Kind → Option Value → Option Json.Value → Prop
  | absent {depth : Nat} {declared : Option Kind} : SpelledKind depth declared none none
  | null {depth : Nat} {declared : Option Kind} : SpelledKind depth declared none (some .null)
  | text {depth : Nat} {kind : Kind} {content : String} {json : Json.Value}
      (hleaf : kind.isLeaf = true) (h : TextSpelled content json) :
      SpelledKind depth (some kind) (some (.text content)) (some json)
  | record {depth : Nat} {inner : Schema} {fields : Fields} {members : List (String × Json.Value)}
      (hregular : areRegular depth inner = true) (hfits : Fits inner fields)
      (hspelled : SpelledBy fields members) : SpelledKind (depth + 1) (some (.record inner))
        (some (.record fields)) (some (.object members))
  | records {depth : Nat} {inner : Schema} {items : List Fields}
      {rows : List (List (String × Json.Value))} (hregular : areRegular depth inner = true)
      (hrows : List.Forall₂ (fun item row => Fits inner item ∧ SpelledBy item row) items rows) :
      SpelledKind (depth + 2) (some (.records inner)) (some (.records items))
        (some (.array (rows.map .object)))

/-- A spelled record that fits a regular schema is spelled kind by kind. -/
theorem SpelledBy.kind {depth : Nat} {schema : Schema} {fields : Fields}
    {members : List (String × Json.Value)} (h : SpelledBy fields members)
    (hschema : areRegular depth schema = true) (hfits : Fits schema fields) (name : String) :
    SpelledKind depth (List.lookup name schema) (List.lookup name fields)
      (List.lookup name members) := by
  have hfound := h.found name
  cases hvalue : List.lookup name fields with
  | none =>
    rw [hvalue] at hfound
    generalize List.lookup name members = member at hfound ⊢
    cases hfound with
    | absent => exact .absent
    | null => exact .null
  | some value =>
    have hkind := hfits.kind (mem_of_lookup hvalue)
    rw [hvalue] at hfound
    generalize hdeclared : List.lookup name schema = declared at hkind ⊢
    generalize List.lookup name members = member at hfound ⊢
    cases hkind with
    | text hleaf =>
      cases hfound with
      | text htext => exact .text hleaf htext
    | record hfields =>
      obtain ⟨-, hregular⟩ := isRegular_of_lookup hschema hdeclared
      obtain ⟨rest, rfl, hregular⟩ := Kind.isRegular_record hregular
      cases hfound with
      | record hinner => exact .record hregular hfields hinner
    | records hitems =>
      obtain ⟨-, hregular⟩ := isRegular_of_lookup hschema hdeclared
      obtain ⟨rest, rfl, hregular⟩ := Kind.isRegular_records hregular
      cases hfound with
      | records hrows =>
        exact .records hregular ((List.forall₂_and_left _ _).mpr ⟨hitems, hrows⟩)

/-! ## Reading members -/

/-- The members of an object are read by collecting what each of them is read as. -/
theorem readMembers_eq_collect (schema : Schema) (members : List (String × Json.Value)) :
    readMembers schema members = collect (readMember schema) members := by
  induction members with
  | nil => rfl
  | cons member members ih => rw [readMembers, collect, ih]

/-- An object is read as a record through its members. -/
theorem ofJson_object (schema : Schema) (members : List (String × Json.Value)) :
    ofJson schema (.object members) = readMembers schema members := by
  rw [ofJson, readValue]
  cases readMembers schema members <;> rfl

/-- A list of objects is read object by object. -/
theorem readEach_map_object (schema : Schema) (rows : List (List (String × Json.Value))) :
    readEach schema (rows.map .object) = rows.mapM (readMembers schema) := by
  induction rows with
  | nil => rfl
  | cons members rows ih =>
    rw [List.map_cons, readEach, ih, List.mapM_cons, readValue]
    cases readMembers schema members with
    | error e => rfl
    | ok fields => cases rows.mapM (readMembers schema) <;> rfl

/-- A text that is spelled is read as the text. -/
theorem readValue_of_textSpelled {content : String} {value : Json.Value}
    (h : TextSpelled content value) (kind : Kind) :
    readValue kind value = kind.readLeaf content.toList := by
  cases h with
  | string => rfl
  | integer => rfl
  | boolean => rw [readValue, String.toList_ofList]

/-- A member is read as a field of its own name. -/
theorem readsOwnField_readMember (schema : Schema) : ReadsOwnField (readMember schema) := by
  intro name value found h
  by_cases hnull : value = .null
  · subst hnull
    exact .inl (Except.ok.inj h).symm
  · cases hkind : List.lookup name schema with
    | none =>
      have hnone : readMember schema (name, value) = .ok [] := by
        cases value with
        | null => exact absurd rfl hnull
        | boolean | number | string | array | object => simp only [readMember, hkind]
      rw [hnone] at h
      exact .inl (Except.ok.inj h).symm
    | some kind =>
      rw [readMember_known hkind hnull] at h
      obtain ⟨held, -, rfl⟩ := exists_of_map_eq_ok h
      exact .inr ⟨held, rfl⟩

/-- What is read from the text of a leaf is no record. -/
theorem sameFound_of_readLeaf {kind : Kind} {text : List Char} {value : Value}
    (h : kind.readLeaf text = .ok value) : SameFound Alike (some value) (some value) := by
  have number {read? : List Char → Option Value} (hread : ∀ {text value}, read? text = some value →
      SameFound Alike (some value) (some value)) (h : numberLeaf read? text = .ok value) :
      SameFound Alike (some value) (some value) := by
    unfold numberLeaf at h
    split at h
    · obtain rfl := Except.ok.inj h
      exact .blank
    · split at h
      · rename_i hvalue
        obtain rfl := Except.ok.inj h
        exact hread hvalue
      · cases h
  cases kind with
  | text =>
    obtain rfl := Except.ok.inj h
    exact .text _
  | integer range =>
    refine number (fun hread => ?_) h
    obtain ⟨n, -, rfl⟩ := Option.map_eq_some_iff.mp hread
    exact .integer n
  | real =>
    refine number (fun hread => ?_) h
    obtain ⟨x, -, rfl⟩ := Option.map_eq_some_iff.mp hread
    exact .real x
  | record | records => cases h

/-! ## Agreement -/

/-- Readings that agree still do so when their results are kept under one name. -/
theorem agree_under {α β : Type} {related : α → β → Prop} {first : Except RecordError α}
    {second : Except RecordError β} {keep : α → Value} {hold : β → Value} (name : String)
    (h : Agree related first second)
    (hsame : ∀ {a b}, related a b → SameFound Alike (some (keep a)) (some (hold b))) :
    Agree (SameFound Alike) ((first.map fun a => [(name, keep a)]).map (List.lookup name))
      (((second.map hold).map fun held => [(name, held)]).map (List.lookup name)) := by
  cases h with
  | error e i => exact .error e i
  | ok h =>
    refine .ok ?_
    rw [List.lookup_cons_self, List.lookup_cons_self]
    exact hsame h

/-- A text and its spelling are read alike. -/
theorem agree_text {schema : Schema} {name : String} {kind : Kind}
    (hkind : List.lookup name schema = some kind) {content : String} {json : Json.Value}
    (h : TextSpelled content json) :
    Agree (SameFound Alike) (readUnder (readWritten schema) name (some (.text content)))
      (readUnder (readMember schema) name (some json)) := by
  have hnull : json ≠ .null := by
    rintro rfl
    cases h
  simp only [readUnder, readWritten, hkind]
  rw [readMember_known hkind hnull, readValue_of_textSpelled h]
  cases hread : kind.readLeaf content.toList with
  | error e => exact .error e e
  | ok held =>
    refine .ok ?_
    rw [List.lookup_cons_self]
    exact sameFound_of_readLeaf hread

/-- A repeated field and its array are read alike if their records are. -/
theorem agree_records {schema inner : Schema} {name : String}
    (hkind : List.lookup name schema = some (.records inner)) {items : List Fields}
    {rows : List (List (String × Json.Value))}
    (h : List.Forall₂ (fun item row => Agree Alike (readItems inner [] none (fieldsItems item))
      (readMembers inner row)) items rows) :
    Agree (SameFound Alike) (readUnder (readWritten schema) name (some (.records items)))
      (readUnder (readMember schema) name (some (.array (rows.map .object)))) := by
  rw [readUnder, readUnder, readMember_known hkind (by simp), readValue, readEach_map_object]
  cases h with
  | nil =>
    refine .ok ?_
    rw [List.lookup_cons_self]
    exact .empty
  | cons hrow hrows =>
    simp only [readWritten, hkind]
    exact agree_under name (.mapM (.cons hrow hrows)) .records

/-- What is read from the members agrees with what is read from the written fields. -/
theorem readMembers_agrees {depth : Nat} {schema : Schema} {fields : Fields}
    {members : List (String × Json.Value)} (hschema : areRegular depth schema = true)
    (hfits : Fits schema fields) (hspelled : SpelledBy fields members) :
    Agree Alike (collect (readWritten schema) fields) (readMembers schema members) := by
  induction fields using Fields.induction generalizing depth schema members with
  | step fields ih =>
  rw [readMembers_eq_collect]
  refine collect_agree (readsOwnField_readWritten schema) (readsOwnField_readMember schema)
    hfits.noRepeats hspelled.noRepeats fun name => ?_
  have hkind := hspelled.kind hschema hfits name
  generalize hdeclared : List.lookup name schema = declared at hkind
  generalize hvalue : List.lookup name fields = value at hkind ⊢
  generalize List.lookup name members = member at hkind ⊢
  cases hkind with
  | absent | null => exact .ok .absent
  | text _ htext => exact agree_text hdeclared htext
  | record hregular hfields hinner =>
    have hagree := ih name _ (mem_of_lookup hvalue) _ List.mem_cons_self hregular hfields hinner
    simp only [readUnder, readWritten, hdeclared, hfields.readItems hregular]
    rw [readMember_known hdeclared (by simp), readValue]
    exact agree_under name hagree .record
  | @records _ _ items rows hregular hrows =>
    have hboth := (List.forall₂_and_left items rows).mpr
      ⟨fun item (h : item ∈ items) => h, hrows⟩
    refine agree_records hdeclared (hboth.imp fun item row hrow => ?_)
    obtain ⟨hitem, hfields, hinner⟩ := hrow
    rw [hfields.readItems hregular]
    exact ih name _ (mem_of_lookup hvalue) item hitem hregular hfields hinner

end CallbackGateway.Record
