import CallbackGateway.Proofs.Record.MarkupFields

/-!
# Legible records

A record of texts is legible if it fits its schema and every text that stands for a number is one.
It is read then, and what is read says what the record says: its texts are found under their names,
and its repeated records are read one by one.
-/

namespace CallbackGateway

/-! ## Lists that are read item by item -/

section Lists

variable {α β ε : Type} {read : α → Except ε β} {items : List α}

/-- A list whose items all are read is read. -/
theorem exists_mapM (h : ∀ item ∈ items, ∃ found, read item = .ok found) :
    ∃ found, items.mapM read = .ok found := by
  induction items with
  | nil => exact ⟨[], rfl⟩
  | cons item items ih =>
    obtain ⟨⟨first, hfirst⟩, hitems⟩ := List.forall_mem_cons.mp h
    obtain ⟨others, hothers⟩ := ih hitems
    exact ⟨first :: others, by rw [List.mapM_cons, hfirst, hothers]; rfl⟩

/-- The values of a list that is read belong to its items, one by one. -/
theorem forall₂_of_mapM {found : List β} (h : items.mapM read = .ok found) :
    List.Forall₂ (fun item value => read item = .ok value) items found := by
  induction items generalizing found with
  | nil =>
    obtain rfl := Except.ok.inj h
    exact .nil
  | cons item items ih =>
    rw [List.mapM_cons] at h
    obtain ⟨first, hfirst, h⟩ := exists_of_bind_eq_ok h
    obtain ⟨others, hothers, h⟩ := exists_of_bind_eq_ok h
    obtain rfl := Except.ok.inj h
    exact .cons hfirst (ih hothers)

end Lists

namespace Record

/-! ## Legible records -/

/-- Which values are legible as what a schema declares, if nested records are judged by a
relation. -/
inductive LegibleKind (legible : Schema → Fields → Prop) : Option Kind → Value → Prop
  | text {kind : Kind} {content : String} {value : Value}
      (h : kind.readLeaf content.toList = .ok value) :
      LegibleKind legible (some kind) (.text content)
  | record {inner : Schema} {fields : Fields} (h : legible inner fields) :
      LegibleKind legible (some (.record inner)) (.record fields)
  | records {inner : Schema} {items : List Fields} (h : ∀ item ∈ items, legible inner item) :
      LegibleKind legible (some (.records inner)) (.records items)

/-- Which records of texts are legible. -/
inductive Legible : Schema → Fields → Prop
  | mk {schema : Schema} {fields : Fields} (hnames : NoRepeats fields)
      (h : ∀ name value, (name, value) ∈ fields →
        LegibleKind Legible (List.lookup name schema) value) : Legible schema fields

namespace Legible

variable {schema : Schema} {fields : Fields}

/-- A legible record repeats no name. -/
theorem noRepeats (h : Legible schema fields) : NoRepeats fields := by
  cases h with
  | mk hnames => exact hnames

/-- Each field of a legible record holds a legible value of its declared kind. -/
theorem kind (h : Legible schema fields) {name : String} {value : Value}
    (hmem : (name, value) ∈ fields) : LegibleKind Legible (List.lookup name schema) value := by
  cases h with
  | mk _ h => exact h name value hmem

/-- A legible record fits its schema. -/
theorem fits (h : Legible schema fields) : Fits schema fields := by
  induction fields using Fields.induction generalizing schema with
  | step fields ih =>
  refine .mk h.noRepeats fun name value hmem => ?_
  have hkind := h.kind hmem
  generalize List.lookup name schema = declared at hkind ⊢
  cases hkind with
  | @text kind content _ hread =>
    refine .text ?_ content
    cases kind with
    | text | integer | real => rfl
    | record | records => cases hread
  | record hinner => exact .record (ih name _ hmem _ List.mem_cons_self hinner)
  | records hitems => exact .records fun item hitem => ih name _ hmem item hitem (hitems item hitem)

/-- A legible record of a regular schema is read. -/
theorem exists_collect (h : Legible schema fields) {depth : Nat}
    (hschema : areRegular depth schema = true) :
    ∃ found, collect (readWritten schema) fields = .ok found := by
  induction fields using Fields.induction generalizing schema depth with
  | step fields ih =>
  cases hcollect : collect (readWritten schema) fields with
  | ok found => exact ⟨found, rfl⟩
  | error e =>
    -- One entry would have to fail, and each is legible.
    exfalso
    obtain ⟨name, value, hmem, herror⟩ := exists_error_of_collect hcollect
    have hkind := h.kind hmem
    generalize hdeclared : List.lookup name schema = declared at hkind
    cases hkind with
    | text hread =>
      simp only [readWritten, hdeclared] at herror
      rw [hread] at herror
      cases herror
    | record hinner =>
      obtain ⟨below, -, hregular⟩ :=
        Kind.isRegular_record (isRegular_of_lookup hschema hdeclared).2
      obtain ⟨found, hfound⟩ := ih name _ hmem _ List.mem_cons_self hinner hregular
      simp only [readWritten, hdeclared, hinner.fits.readItems hregular] at herror
      rw [hfound] at herror
      cases herror
    | @records inner items hitems =>
      obtain ⟨below, -, hregular⟩ :=
        Kind.isRegular_records (isRegular_of_lookup hschema hdeclared).2
      have hread : ∃ found, items.mapM (fun item => readItems inner [] none (fieldsItems item)) =
          .ok found := exists_mapM fun item hitem => by
        rw [(hitems item hitem).fits.readItems hregular]
        exact ih name _ hmem item hitem (hitems item hitem) hregular
      cases items with
      | nil => cases herror
      | cons first rest =>
        obtain ⟨found, hfound⟩ := hread
        simp only [readWritten, hdeclared] at herror
        rw [hfound] at herror
        cases herror

end Legible

/-! ## What is read -/

namespace Legible

variable {schema : Schema} {fields found : Fields} {name : String}

/-- The items of a repeated field are legible. -/
theorem items (h : Legible schema fields) {inner : Schema}
    (hkind : List.lookup name schema = some (.records inner)) :
    ∀ item ∈ fields.records name, Legible inner item := by
  intro item hitem
  unfold Fields.records at hitem
  cases hvalue : List.lookup name fields with
  | none => simp [hvalue] at hitem
  | some value =>
    have hlegible := h.kind (mem_of_lookup hvalue)
    rw [hkind] at hlegible
    cases hlegible with
    | text hread => cases hread
    | records hitems =>
      rw [hvalue] at hitem
      exact hitems item hitem

/-- A text is found just if it is there. -/
theorem lookup_of_text (h : Legible schema fields)
    (hfound : collect (readWritten schema) fields = .ok found)
    (hkind : List.lookup name schema = some .text) :
    List.lookup name found = List.lookup name fields := by
  have hunder := readUnder_of_collect (readsOwnField_readWritten schema) h.noRepeats hfound name
  cases hvalue : List.lookup name fields with
  | none =>
    rw [hvalue] at hunder
    exact (Except.ok.inj hunder).symm
  | some value =>
    have hlegible := h.kind (mem_of_lookup hvalue)
    rw [hkind] at hlegible
    rw [hvalue, readUnder] at hunder
    cases hlegible with
    | @text _ content =>
      simp only [readWritten, hkind] at hunder
      rw [← Except.ok.inj hunder, List.lookup_cons_self, String.ofList_toList]

/-- A text is found as it is. -/
theorem text_of_collect (h : Legible schema fields)
    (hfound : collect (readWritten schema) fields = .ok found)
    (hkind : List.lookup name schema = some .text) : found.text name = fields.text name := by
  rw [Fields.text, Fields.text, h.lookup_of_text hfound hkind]

/-- A nested record is found as it is collected. -/
theorem collect_record (h : Legible schema fields) {depth : Nat} {inner : Schema}
    (hschema : areRegular depth schema = true)
    (hfound : collect (readWritten schema) fields = .ok found)
    (hkind : List.lookup name schema = some (.record inner)) :
    Legible inner (fields.record name) ∧
      collect (readWritten inner) (fields.record name) = .ok (found.record name) := by
  have hunder := readUnder_of_collect (readsOwnField_readWritten schema) h.noRepeats hfound name
  unfold Fields.record
  cases hvalue : List.lookup name fields with
  | none =>
    rw [hvalue] at hunder
    rw [← Except.ok.inj hunder]
    exact ⟨.mk List.nodup_nil nofun, rfl⟩
  | some value =>
    have hlegible := h.kind (mem_of_lookup hvalue)
    rw [hkind] at hlegible
    rw [hvalue, readUnder] at hunder
    cases hlegible with
    | text hread => cases hread
    | @record _ held hheld =>
      obtain ⟨below, -, hregular⟩ := Kind.isRegular_record (isRegular_of_lookup hschema hkind).2
      simp only [readWritten, hkind] at hunder
      obtain ⟨own, hown, hlookup⟩ := exists_of_map_eq_ok hunder
      obtain ⟨read, hread, rfl⟩ := exists_of_map_eq_ok hown
      rw [← hlookup, List.lookup_cons_self]
      rw [hheld.fits.readItems hregular] at hread
      exact ⟨hheld, hread⟩

/-- The items of a repeated field are found as they are read one by one. -/
theorem forall₂_readItems (h : Legible schema fields) {inner : Schema}
    (hfound : collect (readWritten schema) fields = .ok found)
    (hkind : List.lookup name schema = some (.records inner)) :
    List.Forall₂ (fun item value => readItems inner [] none (fieldsItems item) = .ok value)
      (fields.records name) (found.records name) := by
  have hunder := readUnder_of_collect (readsOwnField_readWritten schema) h.noRepeats hfound name
  unfold Fields.records
  cases hvalue : List.lookup name fields with
  | none =>
    rw [hvalue] at hunder
    rw [← Except.ok.inj hunder]
    exact .nil
  | some value =>
    have hlegible := h.kind (mem_of_lookup hvalue)
    rw [hkind] at hlegible
    rw [hvalue, readUnder] at hunder
    cases hlegible with
    | text hread => cases hread
    | @records _ items =>
      cases items with
      | nil =>
        rw [← Except.ok.inj hunder]
        exact .nil
      | cons first rest =>
        simp only [readWritten, hkind] at hunder
        obtain ⟨own, hown, hlookup⟩ := exists_of_map_eq_ok hunder
        obtain ⟨read, hread, rfl⟩ := exists_of_map_eq_ok hown
        rw [← hlookup, List.lookup_cons_self]
        exact forall₂_of_mapM hread

/-- In a legible record of a regular schema, the items of a repeated field are legible and found as
they are collected. -/
theorem forall₂_collect (h : Legible schema fields) {depth : Nat} {inner : Schema}
    (hschema : areRegular depth schema = true)
    (hfound : collect (readWritten schema) fields = .ok found)
    (hkind : List.lookup name schema = some (.records inner)) :
    List.Forall₂ (fun item value => Legible inner item ∧
      collect (readWritten inner) item = .ok value) (fields.records name) (found.records name) := by
  obtain ⟨below, -, hregular⟩ := Kind.isRegular_records (isRegular_of_lookup hschema hkind).2
  have hboth := (List.forall₂_and_left _ _).mpr ⟨h.items hkind, h.forall₂_readItems hfound hkind⟩
  refine hboth.imp fun item value hitem => ⟨hitem.1, ?_⟩
  rw [← hitem.1.fits.readItems hregular]
  exact hitem.2

end Legible

end Record

end CallbackGateway
