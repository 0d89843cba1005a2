import CallbackGateway.Proofs.Record.UnknownMember

/-!
# The form of JSON records

A value can be read as a record if every value that stands under a declared name has the form of
its kind: a leaf that is written as text, an array for repeated records, and for one record an
object or an array of no more values than there are names. An array is read as the object that has
its items under the first names. Members that are null stand for nothing, items that are null do
not.
-/

namespace CallbackGateway.Record

open Json

variable {schema : Schema} {kind : Kind} {value : Json.Value}

/-- Whether a value can be read as a field of a kind. -/
def Readable (kind : Kind) (value : Json.Value) : Prop := ∃ found, readValue kind value = .ok found

/-- The outermost form of values that are read as a field of a kind. -/
def HasForm : Kind → Json.Value → Prop
  | kind, .boolean value => ∃ found, kind.readLeaf (booleanText value) = .ok found
  | kind, .number number => ∃ found, kind.readLeaf number.text = .ok found
  | kind, .string text => ∃ found, kind.readLeaf text.toList = .ok found
  | .record schema, .array items => items.length ≤ schema.length
  | .records _, .array _ => True
  | .record _, .object _ => True
  | _, _ => False

/-- Values that stand in a value of a kind, with the kinds that are declared for them. Where records
are repeated, an object stands for an array of one. -/
inductive Within : Kind → Json.Value → Kind → Json.Value → Prop
  | here (kind : Kind) (value : Json.Value) : Within kind value kind value
  | member {schema : Schema} {members : List (String × Json.Value)} {key : String}
      {kind inner : Kind} {value deep : Json.Value} (hkey : List.lookup key schema = some kind)
      (hmem : (key, value) ∈ members) (hnull : value ≠ .null) :
      Within kind value inner deep → Within (.record schema) (.object members) inner deep
  | position {schema : Schema} {items : List Json.Value} {i : Nat} {name : String}
      {kind inner : Kind} {value deep : Json.Value} (hfield : schema[i]? = some (name, kind))
      (hitem : items[i]? = some value) :
      Within kind value inner deep → Within (.record schema) (.array items) inner deep
  | item {schema : Schema} {items : List Json.Value} {inner : Kind} {value deep : Json.Value}
      (hmem : value ∈ items) :
      Within (.record schema) value inner deep → Within (.records schema) (.array items) inner deep
  | sole {schema : Schema} {members : List (String × Json.Value)} {inner : Kind}
      {deep : Json.Value} :
      Within (.record schema) (.object members) inner deep →
      Within (.records schema) (.object members) inner deep

/-- What stands in a part stands in the whole. -/
theorem Within.trans {inner deepest : Kind} {deep last : Json.Value}
    (h : Within kind value inner deep) (hdeep : Within inner deep deepest last) :
    Within kind value deepest last := by
  induction h with
  | here => exact hdeep
  | member hkey hmem hnull _ ih => exact .member hkey hmem hnull (ih hdeep)
  | position hfield hitem _ ih => exact .position hfield hitem (ih hdeep)
  | item hmem _ ih => exact .item hmem (ih hdeep)
  | sole _ ih => exact .sole (ih hdeep)

/-! ## Reading parts -/

/-- Items are read as fields if there are names for them and each one is read. -/
theorem exists_readPositions_iff {items : List Json.Value} :
    (∃ found, readPositions schema items = .ok found) ↔ items.length ≤ schema.length ∧
      ∀ (i : Nat) name kind value, schema[i]? = some (name, kind) → items[i]? = some value →
        Readable kind value := by
  induction items generalizing schema with
  | nil => exact ⟨fun _ => ⟨Nat.zero_le _, by simp⟩, fun _ => ⟨[], rfl⟩⟩
  | cons item rest ih =>
    cases schema with
    | nil => simp [readPositions]
    | cons field others =>
      obtain ⟨name, kind⟩ := field
      have hstep : (∃ found, readPositions ((name, kind) :: others) (item :: rest) = .ok found) ↔
          Readable kind item ∧ ∃ found, readPositions others rest = .ok found := by
        rw [readPositions, Readable]
        cases readValue kind item <;> cases readPositions others rest <;>
          simp [bind, Except.bind, pure, Except.pure]
      rw [hstep, ih, List.length_cons, List.length_cons, Nat.add_le_add_iff_right]
      constructor
      · rintro ⟨hfirst, hlength, hrest⟩
        refine ⟨hlength, fun i other kind' value hfield hitem => ?_⟩
        cases i with
        | zero =>
          obtain ⟨rfl, rfl⟩ := Prod.mk.inj (Option.some.inj hfield)
          obtain rfl := Option.some.inj hitem
          exact hfirst
        | succ i => exact hrest i other kind' value hfield hitem
      · rintro ⟨hlength, hall⟩
        exact ⟨hall 0 name kind item rfl rfl, hlength, fun i => hall (i + 1)⟩

/-- Items are read as records if each one is. -/
theorem exists_readEach_iff {items : List Json.Value} :
    (∃ found, readEach schema items = .ok found) ↔
      ∀ value ∈ items, Readable (.record schema) value := by
  induction items with
  | nil => simp [readEach]
  | cons item rest ih =>
    rw [List.forall_mem_cons, ← ih, readEach, Readable]
    cases readValue (.record schema) item <;> cases readEach schema rest <;>
      simp [bind, Except.bind, pure, Except.pure]

/-- Members are read as fields if each one is read that is declared and not null. -/
theorem exists_readMembers_iff {members : List (String × Json.Value)} :
    (∃ found, readMembers schema members = .ok found) ↔
      ∀ key kind value, (key, value) ∈ members → List.lookup key schema = some kind →
        value ≠ .null → Readable kind value := by
  induction members with
  | nil => simp [readMembers]
  | cons member rest ih =>
    obtain ⟨key, value⟩ := member
    have hstep : (∃ found, readMembers schema ((key, value) :: rest) = .ok found) ↔
        (∃ found, readMember schema (key, value) = .ok found) ∧
          ∃ found, readMembers schema rest = .ok found := by
      rw [readMembers]
      cases readMember schema (key, value) <;> cases readMembers schema rest <;>
        simp [bind, Except.bind, pure, Except.pure]
    have hmember : (∃ found, readMember schema (key, value) = .ok found) ↔
        ∀ kind, List.lookup key schema = some kind → value ≠ .null → Readable kind value := by
      by_cases hnull : value = .null
      · subst hnull
        exact ⟨fun _ _ _ h => absurd rfl h, fun _ => ⟨[], rfl⟩⟩
      cases hkind : List.lookup key schema with
      | none => simp [readMember_unknown hkind]
      | some kind =>
        rw [readMember_known hkind hnull]
        constructor
        · rintro ⟨found, hfound⟩ other hother -
          obtain rfl := Option.some.inj hother
          cases hread : readValue kind value with
          | error error =>
            rw [hread] at hfound
            cases hfound
          | ok inner => exact ⟨inner, hread⟩
        · intro h
          obtain ⟨inner, hread⟩ := h kind rfl hnull
          exact ⟨_, by rw [hread]; rfl⟩
    rw [hstep, hmember, ih]
    constructor
    · rintro ⟨hfirst, hrest⟩ other kind held hmem
      rcases List.mem_cons.mp hmem with hsame | hmem
      · obtain ⟨rfl, rfl⟩ := Prod.mk.inj hsame
        exact hfirst kind
      · exact hrest other kind held hmem
    · intro h
      exact ⟨fun kind => h key kind value List.mem_cons_self,
        fun other kind held hmem => h other kind held (List.mem_cons_of_mem _ hmem)⟩

/-- An array is readable as a record just if it has no more items than there are fields, and each
item is readable as the field at its place. -/
theorem readable_positions_iff {items : List Json.Value} :
    Readable (.record schema) (.array items) ↔ items.length ≤ schema.length ∧
      ∀ (i : Nat) name kind value, schema[i]? = some (name, kind) → items[i]? = some value →
        Readable kind value := by
  rw [← exists_readPositions_iff, Readable, readValue]
  cases readPositions schema items <;> simp [Except.map]

/-- An array is readable as a list of records just if each item is readable as one record. -/
theorem readable_items_iff {items : List Json.Value} :
    Readable (.records schema) (.array items) ↔
      ∀ value ∈ items, Readable (.record schema) value := by
  rw [← exists_readEach_iff, Readable, readValue]
  cases readEach schema items <;> simp [Except.map]

/-- An object is readable as a record just if each declared member that is not null is readable as
its kind. -/
theorem readable_members_iff {members : List (String × Json.Value)} :
    Readable (.record schema) (.object members) ↔
      ∀ key kind value, (key, value) ∈ members → List.lookup key schema = some kind →
        value ≠ .null → Readable kind value := by
  rw [← exists_readMembers_iff, Readable, readValue]
  cases readMembers schema members <;> simp [Except.map]

/-! ## Reading values -/

/-- A value that is read has its form. -/
theorem Readable.hasForm (h : Readable kind value) : HasForm kind value := by
  obtain ⟨found, hread⟩ := h
  cases value with
  | null => cases hread
  | boolean | number | string => exact ⟨found, hread⟩
  | array items =>
    cases kind with
    | text | integer | real => cases hread
    | record schema => exact (readable_positions_iff.mp ⟨found, hread⟩).1
    | records schema => trivial
  | object members =>
    cases kind with
    | text | integer | real | records => cases hread
    | record schema => trivial

/-- Where a value is read, what stands in it has its form. -/
theorem Within.hasForm {inner : Kind} {deep : Json.Value} (h : Within kind value inner deep)
    (hread : Readable kind value) : HasForm inner deep := by
  induction h with
  | here => exact hread.hasForm
  | member hkey hmem hnull _ ih =>
    exact ih (readable_members_iff.mp hread _ _ _ hmem hkey hnull)
  | position hfield hitem _ ih =>
    exact ih ((readable_positions_iff.mp hread).2 _ _ _ _ hfield hitem)
  | item hmem _ ih => exact ih (readable_items_iff.mp hread _ hmem)
  | sole _ ih =>
    obtain ⟨found, hfound⟩ := hread
    cases hfound

/-- A member's value is smaller than the members it stands among. -/
theorem sizeOf_lt_of_mem {key : String} {members : List (String × Json.Value)}
    (h : (key, value) ∈ members) : sizeOf value < sizeOf members := by
  have hmember := List.sizeOf_lt_of_mem h
  rw [Prod.mk.sizeOf_spec] at hmember
  omega

/-- A value is read if everything that stands in it has its form. -/
theorem readable_of_forms : ∀ (kind : Kind) (value : Json.Value),
    (∀ inner deep, Within kind value inner deep → HasForm inner deep) → Readable kind value
  | kind, .null, h => by
    have hform := h kind _ (.here ..)
    cases kind <;> exact hform.elim
  | kind, .boolean _, h | kind, .number _, h | kind, .string _, h => h kind _ (.here ..)
  | .text, .array _, h | .integer _, .array _, h | .real, .array _, h => (h _ _ (.here ..)).elim
  | .record schema, .array items, h => by
    refine readable_positions_iff.mpr ⟨h _ _ (.here ..), fun i name kind item hfield hitem => ?_⟩
    have hmem := List.mem_of_getElem? hitem
    exact readable_of_forms kind item fun inner deep hwithin =>
      h inner deep (.position hfield hitem hwithin)
  | .records schema, .array items, h => by
    refine readable_items_iff.mpr fun item hmem => ?_
    exact readable_of_forms (.record schema) item fun inner deep hwithin =>
      h inner deep (.item hmem hwithin)
  | .text, .object _, h | .integer _, .object _, h | .real, .object _, h
  | .records _, .object _, h =>
    (h _ _ (.here ..)).elim
  | .record schema, .object members, h => by
    refine readable_members_iff.mpr fun key kind held hmem hkey hnull => ?_
    have hlt := sizeOf_lt_of_mem hmem
    exact readable_of_forms kind held fun inner deep hwithin =>
      h inner deep (.member hkey hmem hnull hwithin)
termination_by _ value => sizeOf value

/-- What is read is what has its form everywhere. -/
theorem readable_iff : Readable kind value ↔
    ∀ inner deep, Within kind value inner deep → HasForm inner deep :=
  ⟨fun hread _ _ hwithin => hwithin.hasForm hread, readable_of_forms kind value⟩

/-! ## Arrays of fields -/

/-- The items of an array as members under the first names of a schema. -/
def fieldMembers (schema : Schema) (items : List Json.Value) : List (String × Json.Value) :=
  (schema.map Prod.fst).zip items

/-- Fields that are read one by one are read as members under their names. -/
theorem readMembers_fieldMembers {fields : Schema} {items : List Json.Value}
    (hfields : ∀ name kind, (name, kind) ∈ fields → List.lookup name schema = some kind)
    (hlength : items.length ≤ fields.length) (hnull : Json.Value.null ∉ items) :
    readMembers schema (fieldMembers fields items) = readPositions fields items := by
  induction items generalizing fields with
  | nil =>
    rw [fieldMembers, List.zip_nil_right]
    rfl
  | cons item rest ih =>
    cases fields with
    | nil => cases hlength
    | cons field others =>
      obtain ⟨name, kind⟩ := field
      rw [List.mem_cons, not_or] at hnull
      have hkind := hfields name kind List.mem_cons_self
      have hrest := ih (fun other kind hmem => hfields other kind (List.mem_cons_of_mem _ hmem))
        (Nat.le_of_succ_le_succ hlength) hnull.2
      rw [fieldMembers] at hrest
      rw [fieldMembers, List.map_cons, List.zip_cons_cons, readMembers, hrest, readPositions,
        readMember_known hkind (Ne.symm hnull.1)]
      cases readValue kind item <;> rfl

/-- Whether a value is an array of fields, which is read as the object that has them under the first
names. -/
def IsFieldArray (schema : Schema) (value : Json.Value) : Prop :=
  ∃ items, value = .array items ∧ items.length ≤ schema.length ∧ Json.Value.null ∉ items ∧
    readValue (.record schema) value =
      readValue (.record schema) (.object (fieldMembers schema items))

/-- An array of fields is read as the object that has them under the first names. -/
theorem readValue_fieldMembers {items : List Json.Value} (hschema : NoRepeats schema)
    (hlength : items.length ≤ schema.length) (hnull : Json.Value.null ∉ items) :
    readValue (.record schema) (.object (fieldMembers schema items)) =
      readValue (.record schema) (.array items) := by
  rw [readValue, readValue,
    readMembers_fieldMembers (fun _ _ => lookup_of_mem hschema) hlength hnull]

/-- No item of an array of fields is null. -/
theorem null_notMem_of_readable {items : List Json.Value}
    (h : Readable (.record schema) (.array items)) : Json.Value.null ∉ items := by
  intro hmem
  obtain ⟨hlength, hitems⟩ := readable_positions_iff.mp h
  obtain ⟨i, hi⟩ := List.getElem?_of_mem hmem
  have hlt := (List.getElem?_eq_some_iff.mp hi).1
  have hfield := List.getElem?_eq_getElem (show i < schema.length by omega)
  obtain ⟨found, hfound⟩ := hitems i _ _ _ hfield hi
  cases hfound

/-! ## Schemas without repetition -/

mutual

/-- Whether no record of a kind has a name twice. -/
def Kind.isDistinct : Kind → Bool
  | .text | .integer _ | .real => true
  | .record fields | .records fields => decide (NoRepeats fields) && areDistinct fields
termination_by structural kind => kind

/-- Whether no record of any of the fields has a name twice. -/
def areDistinct : List (String × Kind) → Bool
  | [] => true
  | field :: rest => isDistinctField field && areDistinct rest
termination_by structural fields => fields

/-- Whether no record of a field has a name twice. -/
def isDistinctField : String × Kind → Bool
  | (_, kind) => kind.isDistinct
termination_by structural field => field

end

/-- The kinds of a schema with distinct names have distinct names themselves. -/
theorem isDistinct_of_mem {name : String} (h : areDistinct schema = true)
    (hmem : (name, kind) ∈ schema) : kind.isDistinct = true := by
  induction schema with
  | nil => cases hmem
  | cons field rest ih =>
    rw [areDistinct, Bool.and_eq_true] at h
    rcases List.mem_cons.mp hmem with rfl | hmem
    · exact h.1
    · exact ih h.2 hmem

/-- A record's names are distinct just if those of its schema are, at each depth. -/
theorem Kind.isDistinct_record :
    (Kind.record schema).isDistinct = true ↔ NoRepeats schema ∧ areDistinct schema = true := by
  rw [isDistinct, Bool.and_eq_true, decide_eq_true_eq]

/-- What stands in a value of a kind has no name twice either. -/
theorem Within.isDistinct {inner : Kind} {deep : Json.Value} (h : Within kind value inner deep)
    (hkind : kind.isDistinct = true) : inner.isDistinct = true := by
  induction h with
  | here => exact hkind
  | member hkey _ _ _ ih =>
    exact ih (isDistinct_of_mem (Kind.isDistinct_record.mp hkind).2 (mem_of_lookup hkey))
  | position hfield _ _ ih =>
    exact ih (isDistinct_of_mem (Kind.isDistinct_record.mp hkind).2 (List.mem_of_getElem? hfield))
  | item _ _ ih => exact ih hkind
  | sole _ ih => exact ih hkind

/-! ## Records that are read -/

/-- A record stands as an object, or as an array of fields. -/
theorem Within.object_or_array {inner : Schema} {deep : Json.Value}
    (h : Within kind value (.record inner) deep) (hkind : kind.isDistinct = true)
    (hread : Readable kind value) :
    (∃ members, deep = .object members) ∨ IsFieldArray inner deep := by
  have hdeep : Readable (.record inner) deep := by
    refine readable_iff.mpr fun other held hother => ?_
    exact (h.trans hother).hasForm hread
  cases deep with
  | object members => exact .inl ⟨members, rfl⟩
  | array items =>
    have hlength := (readable_positions_iff.mp hdeep).1
    have hnull := null_notMem_of_readable hdeep
    have hinner := (Kind.isDistinct_record.mp (h.isDistinct hkind)).1
    exact .inr ⟨items, rfl, hlength, hnull, (readValue_fieldMembers hinner hlength hnull).symm⟩
  | null | boolean | number | string => cases hdeep.choose_spec

end CallbackGateway.Record
