import CallbackGateway.Proofs.Record.Agreement
import CallbackGateway.Proofs.Record.TextRecord

/-!
# Reading a written record of texts

The elements of a written record are read one by one into the fields that the schema declares:
reading all of them collects what is read from each field.
-/

namespace CallbackGateway.Record

open Markup

/-- What is read from the written form of a field. A repeated field without items is not written
at all. -/
def readWritten (schema : Schema) : String × Value → Except RecordError Fields
  | (name, .text content) =>
    match List.lookup name schema with
    | some kind => (kind.readLeaf content.toList).map fun value => [(name, value)]
    | none => .error .malformed
  | (name, .record fields) =>
    match List.lookup name schema with
    | some (.record inner) =>
      (readItems inner [] none (fieldsItems fields)).map fun found => [(name, .record found)]
    | _ => .error .malformed
  | (_, .records []) => .ok []
  | (name, .records (first :: rest)) =>
    match List.lookup name schema with
    | some (.records inner) =>
      ((first :: rest).mapM fun item => readItems inner [] none (fieldsItems item)).map
        fun found => [(name, .records found)]
    | _ => .error .malformed
  | _ => .error .malformed

/-- A run of elements whose tag is their key. -/
def Run.IsNamed (run : Option Run) : Prop := ∀ r ∈ run, r.tagName = r.key.toList

/-- A record lacks a name just if nothing is found under it. -/
theorem Fields.has_eq_false_iff {found : Fields} {name : String} :
    found.has name = false ↔ List.lookup name found = none := by
  rw [Fields.has, Option.isSome_eq_false_iff, Option.isNone_iff_eq_none]

/-- A field with a new name does not go on with the open run. -/
theorem continues?_of_new {found : Fields} {run : Option Run} {name : String}
    (hrun : Run.IsNamed run) (hnew : (settle found run).has name = false) :
    continues? run (fieldTag name) = none := by
  cases run with
  | none => rfl
  | some run =>
    have hne : ¬ (run.tagName == (fieldTag name).name) = true := by
      intro hsame
      have htag : run.tagName = name.toList := beq_iff_eq.mp hsame
      have hkey : name = run.key := by
        rw [hrun run rfl] at htag
        exact String.toList_injective htag.symm
      rw [Fields.has_eq_false_iff, settle, List.lookup_append, hkey] at hnew
      simp at hnew
    rw [continues?, Option.filter_some, if_neg hne]

/-- Further elements of a repeated field add their records to the open run. -/
theorem readItems_repeated {schema : Schema} {found : Fields} {name : String} {run : Run}
    (hrun : run.tagName = name.toList) (items : List Fields) (rest : List Item) :
    readItems schema found (some run) (repeatedItems name items ++ rest) =
      (items.mapM fun item => readItems run.fields [] none (fieldsItems item)).bind fun read =>
        readItems schema found (some { run with latest := read.reverse ++ run.latest }) rest := by
  induction items generalizing run with
  | nil => rfl
  | cons item items ih =>
    rw [repeatedItems, List.cons_append, readItems_continue hrun, List.mapM_cons]
    cases hitem : readItems run.fields [] none (fieldsItems item) with
    | error e => rfl
    | ok record =>
      have hnext : ({ run with latest := record :: run.latest } : Run).tagName = name.toList := hrun
      rw [Except.bind, ih hnext]
      dsimp only
      cases items.mapM fun item => readItems run.fields [] none (fieldsItems item) with
      | error e => rfl
      | ok others =>
        simp only [bind, Except.bind, pure, Except.pure, List.reverse_cons, List.append_assoc,
          List.singleton_append]

/-- The elements of a repeated field with items are read into a run of their own. -/
theorem readItems_repeatedItems {schema inner : Schema} {found : Fields} {run : Option Run}
    {name : String} (hname : IsPlainName name.toList)
    (hcontinues : continues? run (fieldTag name) = none)
    (hdeclared : List.lookup name schema = some (.records inner))
    (hown : (settle found run).has name = false) (item : Fields) (items : List Fields)
    (rest : List Item) :
    readItems schema found run (repeatedItems name (item :: items) ++ rest) =
      ((item :: items).mapM fun item => readItems inner [] none (fieldsItems item)).bind fun read =>
        readItems schema (settle found run) (some ⟨name.toList, name, inner, read.reverse⟩)
          rest := by
  rw [repeatedItems, List.cons_append, readItems_records hname hcontinues hdeclared hown,
    List.mapM_cons]
  cases readItems inner [] none (fieldsItems item) with
  | error e => rfl
  | ok first =>
    rw [Except.bind, readItems_repeated rfl]
    dsimp only
    cases items.mapM fun item => readItems inner [] none (fieldsItems item) with
    | error e => rfl
    | ok others => simp only [bind, Except.bind, pure, Except.pure, List.reverse_cons]

/-! ## One field -/

/-- A written field is read back under its own name. -/
theorem readsOwnField_readWritten (schema : Schema) : ReadsOwnField (readWritten schema) := by
  intro name value found h
  cases value with
  | integer | real | blank => cases h
  | text content =>
    simp only [readWritten] at h
    split at h
    · obtain ⟨held, -, rfl⟩ := exists_of_map_eq_ok h
      exact .inr ⟨held, rfl⟩
    · cases h
  | record fields =>
    simp only [readWritten] at h
    split at h
    · obtain ⟨held, -, rfl⟩ := exists_of_map_eq_ok h
      exact .inr ⟨.record held, rfl⟩
    · cases h
  | records items =>
    cases items with
    | nil => exact .inl (Except.ok.inj h).symm
    | cons item items =>
      simp only [readWritten] at h
      split at h
      · obtain ⟨held, -, rfl⟩ := exists_of_map_eq_ok h
        exact .inr ⟨.records held, rfl⟩
      · cases h

/-- What the elements of a written field come to, after the fields that were found: an error, or
one more field, which is still open if it is repeated. -/
inductive ReadsField (schema : Schema) (found : Fields) (run : Option Run)
    (field : String × Value) : Prop
  | error {e : RecordError} (hread : readWritten schema field = .error e)
      (h : ∀ rest, readItems schema found run (namedItems field ++ rest) = .error e)
  | ok {own next : Fields} {last : Option Run} (hread : readWritten schema field = .ok own)
      (hlast : Run.IsNamed last) (hsettle : settle next last = settle found run ++ own)
      (h : ∀ rest, readItems schema found run (namedItems field ++ rest) =
        readItems schema next last rest)

variable {schema : Schema} {found : Fields} {run : Option Run} {name : String} {value : Value}

/-- A field is read if it is read as a value that is then kept under its name. -/
theorem ReadsField.of_bind {α : Type} {read : Except RecordError α} {keep : α → Value}
    {next : α → Fields} {last : α → Option Run}
    (hread : readWritten schema (name, value) = read.map fun a => [(name, keep a)])
    (hlast : ∀ a, Run.IsNamed (last a))
    (hsettle : ∀ a, settle (next a) (last a) = settle found run ++ [(name, keep a)])
    (h : ∀ rest, readItems schema found run (namedItems (name, value) ++ rest) =
      read.bind fun a => readItems schema (next a) (last a) rest) :
    ReadsField schema found run (name, value) := by
  cases read with
  | error e => exact .error hread h
  | ok a => exact .ok hread (hlast a) (hsettle a) h

/-- The elements of a new field that fits the schema are read as this field. -/
theorem FitsKind.readsField (hkind : FitsKind Fits (List.lookup name schema) value)
    (hname : IsPlainName name.toList) (hrun : Run.IsNamed run)
    (hown : (settle found run).has name = false) : ReadsField schema found run (name, value) := by
  have hcontinues := continues?_of_new hrun hown
  have hclosed : Run.IsNamed none := by simp [Run.IsNamed]
  generalize hdeclared : List.lookup name schema = declared at hkind
  cases hkind with
  | @text kind hleaf content =>
    refine .of_bind ?_ (fun _ => hclosed) (fun _ => rfl) (readItems_leaf hname hcontinues hdeclared
      hleaf hown content.toList)
    simp only [readWritten, hdeclared]
  | @record inner fields _ =>
    refine .of_bind ?_ (fun _ => hclosed) (fun _ => rfl)
      (readItems_record hname hcontinues hdeclared hown (fieldsItems fields))
    simp only [readWritten, hdeclared]
  | @records inner items _ =>
    cases items with
    | nil => exact .ok rfl hrun (List.append_nil _).symm fun _ => rfl
    | cons item items =>
      have hread : readWritten schema (name, .records (item :: items)) =
          ((item :: items).mapM fun item => readItems inner [] none (fieldsItems item)).map
            fun read => [(name, .records read)] := by
        simp only [readWritten, hdeclared]
      refine .of_bind hread (fun _ => ?_) (fun read => ?_)
        (readItems_repeatedItems hname hcontinues hdeclared hown item items)
      · simp [Run.IsNamed]
      · rw [settle, List.reverse_reverse]

/-! ## All fields -/

/-- The written fields of a record are collected in front of the fields that were found. -/
theorem readItems_fieldsItems {fields : Fields} (hnames : NoRepeats fields)
    (hkinds : ∀ name value, (name, value) ∈ fields →
      FitsKind Fits (List.lookup name schema) value)
    (hplain : ∀ name ∈ fields.map Prod.fst, IsPlainName name.toList) (hrun : Run.IsNamed run)
    (hnew : ∀ name ∈ fields.map Prod.fst, (settle found run).has name = false) :
    readItems schema found run (fieldsItems fields) =
      (collect (readWritten schema) fields).map (settle found run ++ ·) := by
  induction fields generalizing found run with
  | nil => rw [fieldsItems, readItems, collect, Except.map, List.append_nil]
  | cons field rest ih =>
    obtain ⟨name, value⟩ := field
    obtain ⟨hfresh, hrest⟩ := noRepeats_cons.mp hnames
    have hfield := (hkinds name value List.mem_cons_self).readsField
      (hplain name List.mem_cons_self) hrun (hnew name List.mem_cons_self)
    rw [fieldsItems, collect]
    cases hfield with
    | error hread h =>
      rw [h, hread]
      rfl
    | @ok own next last hread hlast hsettle h =>
      have hothers : ∀ other ∈ rest.map Prod.fst, (settle next last).has other = false := by
        intro other hmem
        have hother := hnew other (List.mem_cons_of_mem _ hmem)
        rw [Fields.has_eq_false_iff] at hother ⊢
        rw [hsettle, List.lookup_append, hother, Option.none_or]
        rcases readsOwnField_readWritten schema name value own hread with rfl | ⟨held, rfl⟩
        · rfl
        · rw [lookup_eq_none_iff]
          rintro hsame
          obtain rfl := List.mem_singleton.mp hsame
          exact hfresh hmem
      rw [h, ih hrest (fun other held hmem => hkinds other held (List.mem_cons_of_mem _ hmem))
        (fun other hmem => hplain other (List.mem_cons_of_mem _ hmem)) hlast hothers, hsettle,
        hread]
      cases collect (readWritten schema) rest with
      | error e => rfl
      | ok others => simp only [bind, Except.bind, pure, Except.pure, Except.map, List.append_assoc]

/-- A written record that fits a regular schema is collected from its fields. -/
theorem Fits.readItems {depth : Nat} {fields : Fields} (h : Fits schema fields)
    (hschema : areRegular depth schema = true) :
    readItems schema [] none (fieldsItems fields) = collect (readWritten schema) fields := by
  have hplain : ∀ name ∈ fields.map Prod.fst, IsPlainName name.toList := by
    intro name hmem
    obtain ⟨⟨other, value⟩, hfield, rfl⟩ := List.mem_map.mp hmem
    exact (arePlainFields_iff.mp (h.arePlainFields hschema) other value hfield).1
  rw [readItems_fieldsItems h.noRepeats (fun _ _ hmem => h.kind hmem) hplain
    (by simp [Run.IsNamed]) (fun _ _ => rfl), settle]
  cases collect (readWritten schema) fields <;> rfl

end CallbackGateway.Record
