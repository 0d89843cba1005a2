import CallbackGateway.Proofs.Record.Lookup
import CallbackGateway.Proofs.Record.MarkupReading

/-!
# Records of texts

A record fits a schema if every field is declared and comes once, texts stand where the schema
has leaves, and nested records fit in turn. A schema is regular if its names are plain and it
nests at most to a depth.
-/

namespace CallbackGateway.Record

open Markup

/-! ## Nested records -/

/-- The records inside a value. -/
def Value.nested : Value → List Fields
  | .record fields => [fields]
  | .records items => items
  | .text _ | .integer _ | .real _ | .blank => []

/-- A nested record is smaller than the value that holds it. -/
theorem sizeOf_nested_lt {value : Value} {inner : Fields} (h : inner ∈ value.nested) :
    sizeOf inner < sizeOf value := by
  cases value with
  | text | integer | real | blank => simp [Value.nested] at h
  | record fields =>
    obtain rfl := List.mem_singleton.mp h
    simp only [Value.record.sizeOf_spec]
    omega
  | records items =>
    have hlt : sizeOf inner < sizeOf items := List.sizeOf_lt_of_mem h
    simp only [Value.records.sizeOf_spec]
    omega

/-- What holds of a record as soon as it holds of the records inside holds of every record. -/
theorem Fields.induction {motive : Fields → Prop}
    (step : ∀ fields : Fields, (∀ name value, (name, value) ∈ fields →
      ∀ inner ∈ value.nested, motive inner) → motive fields) (fields : Fields) : motive fields :=
  step fields fun _ _ _hmem inner _hinner => Fields.induction step inner
termination_by sizeOf fields
decreasing_by
  have hfield := List.sizeOf_lt_of_mem _hmem
  have hnested := sizeOf_nested_lt _hinner
  simp only [Prod.mk.sizeOf_spec] at hfield
  omega

/-! ## Regular schemas -/

mutual

/-- Whether a kind has plain names only and nests at most to a depth. -/
def Kind.isRegular (depth : Nat) : Kind → Bool
  | .text | .integer _ | .real => true
  | .record fields =>
    match depth with
    | 0 => false
    | inner + 1 => areRegular inner fields
  | .records fields =>
    match depth with
    | 0 | 1 => false
    | inner + 2 => areRegular inner fields
termination_by structural kind => kind

/-- Whether all fields of a schema are regular. -/
def areRegular (depth : Nat) : List (String × Kind) → Bool
  | [] => true
  | field :: rest => isRegularField depth field && areRegular depth rest
termination_by structural fields => fields

/-- Whether a declared field is regular. -/
def isRegularField (depth : Nat) : String × Kind → Bool
  | (name, kind) => decide (IsPlainName name.toList) && kind.isRegular depth
termination_by structural field => field

end

/-- A regular schema declares plain names and regular kinds. -/
theorem isRegular_of_lookup {depth : Nat} {schema : Schema} {name : String} {kind : Kind}
    (h : areRegular depth schema = true) (hkind : List.lookup name schema = some kind) :
    IsPlainName name.toList ∧ kind.isRegular depth = true := by
  induction schema with
  | nil => simp at hkind
  | cons field rest ih =>
    obtain ⟨other, declared⟩ := field
    rw [areRegular, isRegularField, Bool.and_eq_true, Bool.and_eq_true, decide_eq_true_eq] at h
    rw [List.lookup_cons] at hkind
    split at hkind
    · rename_i hname
      obtain rfl := beq_iff_eq.mp hname
      obtain rfl := Option.some.inj hkind
      exact h.1
    · exact ih h.2 hkind

/-- A regular record's schema is regular one level down. -/
theorem Kind.isRegular_record {depth : Nat} {inner : Schema}
    (h : (Kind.record inner).isRegular depth = true) :
    ∃ rest, depth = rest + 1 ∧ areRegular rest inner = true := by
  cases depth with
  | zero => simp [Kind.isRegular] at h
  | succ rest => exact ⟨rest, rfl, h⟩

/-- The schema of a regular list of records is regular two levels down, one for the list and one for
the record. -/
theorem Kind.isRegular_records {depth : Nat} {inner : Schema}
    (h : (Kind.records inner).isRegular depth = true) :
    ∃ rest, depth = rest + 2 ∧ areRegular rest inner = true := by
  cases depth with
  | zero => simp [Kind.isRegular] at h
  | succ depth =>
    cases depth with
    | zero => simp [Kind.isRegular] at h
    | succ rest => exact ⟨rest, rfl, h⟩

/-! ## Fitting records -/

/-- Which values fit what a schema declares, if nested records are judged by a relation. -/
inductive FitsKind (fits : Schema → Fields → Prop) : Option Kind → Value → Prop
  | text {kind : Kind} (hleaf : kind.isLeaf = true) (content : String) :
      FitsKind fits (some kind) (.text content)
  | record {inner : Schema} {fields : Fields} (h : fits inner fields) :
      FitsKind fits (some (.record inner)) (.record fields)
  | records {inner : Schema} {items : List Fields} (h : ∀ item ∈ items, fits inner item) :
      FitsKind fits (some (.records inner)) (.records items)

/-- Which records of texts fit a schema. -/
inductive Fits : Schema → Fields → Prop
  | mk {schema : Schema} {fields : Fields} (hnames : NoRepeats fields)
      (h : ∀ name value, (name, value) ∈ fields →
        FitsKind Fits (List.lookup name schema) value) : Fits schema fields

namespace Fits

variable {schema : Schema} {fields : Fields}

/-- A record that fits a schema repeats no name. -/
theorem noRepeats (h : Fits schema fields) : NoRepeats fields := by
  cases h with
  | mk hnames => exact hnames

/-- Each field of a record that fits a schema fits its declared kind. -/
theorem kind (h : Fits schema fields) {name : String} {value : Value}
    (hmem : (name, value) ∈ fields) : FitsKind Fits (List.lookup name schema) value := by
  cases h with
  | mk _ h => exact h name value hmem

end Fits

/-! ## Written texts -/

/-- Fields are plain just if the first one has a plain name and value and the others are plain. -/
theorem arePlainFields_cons {name : String} {value : Value} {rest : Fields} :
    arePlainFields ((name, value) :: rest) = true ↔
      IsPlainName name.toList ∧ value.isPlain = true ∧ arePlainFields rest = true := by
  rw [arePlainFields, isPlainField, Bool.and_eq_true, Bool.and_eq_true, decide_eq_true_eq,
    and_assoc]

/-- Fields are plain just if each has a plain name and value. -/
theorem arePlainFields_iff {fields : Fields} : arePlainFields fields = true ↔
    ∀ name value, (name, value) ∈ fields → IsPlainName name.toList ∧ value.isPlain = true := by
  induction fields with
  | nil => simp [arePlainFields]
  | cons field rest ih =>
    obtain ⟨name, value⟩ := field
    rw [arePlainFields_cons, ih]
    constructor
    · rintro ⟨hname, hvalue, hrest⟩ other held hmem
      rcases List.mem_cons.mp hmem with hfirst | hmem
      · obtain ⟨rfl, rfl⟩ := Prod.mk.inj hfirst
        exact ⟨hname, hvalue⟩
      · exact hrest other held hmem
    · intro h
      obtain ⟨hname, hvalue⟩ := h name value List.mem_cons_self
      exact ⟨hname, hvalue, fun other held hmem => h other held (List.mem_cons_of_mem _ hmem)⟩

/-- A list of records is plain just if each record is. -/
theorem arePlainItems_iff {items : List Fields} :
    arePlainItems items = true ↔ ∀ item ∈ items, arePlainFields item = true := by
  induction items with
  | nil => simp [arePlainItems]
  | cons item rest ih => rw [arePlainItems, Bool.and_eq_true, ih, List.forall_mem_cons]

/-- A record that fits a regular schema is plain. -/
theorem Fits.arePlainFields {depth : Nat} {schema : Schema} {fields : Fields}
    (h : Fits schema fields) (hschema : areRegular depth schema = true) :
    arePlainFields fields = true := by
  induction fields using Fields.induction generalizing depth schema with
  | step fields ih =>
  rw [arePlainFields_iff]
  intro name value hmem
  have hkind := h.kind hmem
  cases hdeclared : List.lookup name schema with
  | none =>
    rw [hdeclared] at hkind
    cases hkind
  | some kind =>
    obtain ⟨hname, hregular⟩ := isRegular_of_lookup hschema hdeclared
    refine ⟨hname, ?_⟩
    rw [hdeclared] at hkind
    cases hkind with
    | text => rfl
    | record hinner =>
      obtain ⟨rest, -, hregular⟩ := Kind.isRegular_record hregular
      exact ih name _ hmem _ List.mem_cons_self hinner hregular
    | records hitems =>
      obtain ⟨rest, -, hregular⟩ := Kind.isRegular_records hregular
      rw [Value.isPlain, arePlainItems_iff]
      exact fun item hitem => ih name _ hmem item hitem (hitems item hitem) hregular

end CallbackGateway.Record
