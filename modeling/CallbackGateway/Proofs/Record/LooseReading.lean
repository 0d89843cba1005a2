import CallbackGateway.Proofs.Record.LooseLeaf

/-!
# What a loosened schema reads

A loosened schema reads every document that the schema reads, in markup and in JSON: a text that is
an integer is a text. Only that it is read is told here; what is read follows from what the schema
makes of it.
-/

namespace CallbackGateway.Record

open Markup Text

variable {range : IntegerRange} {name : String} {path : List String} {schema : Schema}

/-! ## Markup -/

section Loosened

variable {loose found : Fields} {run : Option Run}
  (hschema : ∀ kind, (name, kind) ∈ schema → kind.HasInteger range path)
  (hfield : ∀ {kind : Kind} {tag : Tag} {content : List Item} {closed : Bool} {value : Value},
    kind.HasInteger range path → readField kind tag content closed = .ok value →
      ∃ held, readField (kind.loosen path) tag content closed = .ok held)

include hschema

/-- A kind that is repeated is not loosened. -/
theorem kindOf_loosenAt_records {tagName : List Char} {inner : Schema}
    (h : kindOf schema tagName = some (.records inner)) :
    kindOf (loosenAt name path schema) tagName = some (.records inner) := by
  rw [kindOf_loosenAt, h, Option.map_some, if_neg]
  intro hname
  have hinteger := hschema _ (hname ▸ mem_of_lookup h)
  exact (kind_ne_records hinteger inner).1 rfl

include hfield

/-- A new field is read under the loosened schema too. -/
theorem exists_readStep_loosen_field {tag : Tag} {content : List Item} {closed : Bool} {kind : Kind}
    {value : Value} (hrun : continues? run tag = none) (hkind : kindOf schema tag.name = some kind)
    (hone : ∀ inner, kind ≠ .records inner)
    (hnew : (settle loose run).has (String.ofList (localName tag.name)) = false)
    (hread : readField kind tag content closed = .ok value) :
    ∃ wide, readStep (loosenAt name path schema) loose run (.element tag content closed) =
      .ok (wide, none) := by
  have hloose : kindOf (loosenAt name path schema) tag.name =
      some (if String.ofList (localName tag.name) = name then kind.loosen path else kind) := by
    rw [kindOf_loosenAt, hkind, Option.map_some]
  by_cases hname : String.ofList (localName tag.name) = name
  · rw [if_pos hname] at hloose
    have hinteger := hschema kind (hname ▸ mem_of_lookup hkind)
    obtain ⟨held, hheld⟩ := hfield hinteger hread
    rw [readStep_field hrun hloose hnew fun inner => (kind_ne_records hinteger inner).2, hheld]
    exact ⟨_, rfl⟩
  · rw [if_neg hname] at hloose
    rw [readStep_field hrun hloose hnew hone, hread]
    exact ⟨_, rfl⟩

/-- A step under the schema is one under the loosened schema. -/
theorem exists_readStep_loosen {item : Item} {after : Fields} {next : Option Run}
    (hfound : collect (tightenField range name path) loose = .ok found)
    (h : readStep schema found run item = .ok (after, next)) :
    ∃ wide, readStep (loosenAt name path schema) loose run item = .ok (wide, next) := by
  have hhas (key : String) : (settle found run).has key = (settle loose run).has key :=
    has_eq_of_collect (collect_settle hfound) key
  cases item with
  | text value =>
    obtain ⟨rfl, hvalue, hstate⟩ := readStep_text.mp h
    obtain ⟨rfl, rfl⟩ := Prod.mk.inj hstate
    exact ⟨loose, readStep_text.mpr ⟨rfl, hvalue, rfl⟩⟩
  | element tag content closed =>
    cases readStep_element_eq_ok_iff.mp h with
    | continued hrun hitem =>
      exact ⟨loose, readStep_element_eq_ok_iff.mpr (.continued hrun hitem)⟩
    | skipped hrun hkind hskip =>
      have hloose : kindOf (loosenAt name path schema) tag.name = none := by
        rw [kindOf_loosenAt, hkind, Option.map_none]
      exact ⟨_, readStep_element_eq_ok_iff.mpr (.skipped hrun hloose hskip)⟩
    | started hrun hkind hnew hitem =>
      rw [hhas] at hnew
      exact ⟨_, readStep_element_eq_ok_iff.mpr
        (.started hrun (kindOf_loosenAt_records hschema hkind) hnew hitem)⟩
    | nested hrun hkind hnew hitem =>
      rw [hhas] at hnew
      exact exists_readStep_loosen_field hschema hfield hrun hkind record_ne_records hnew
        (readField_of_record hitem)
    | leaf hrun hkind hnew hvalue =>
      rw [hhas] at hnew
      obtain ⟨hone, hread⟩ := readField_of_leaf hvalue
      exact exists_readStep_loosen_field hschema hfield hrun hkind hone hnew hread

/-- Items that the schema reads are read by the loosened schema. -/
theorem exists_readItems_loosen {items : List Item} {fields : Fields}
    (hfound : collect (tightenField range name path) loose = .ok found)
    (h : readItems schema found run items = .ok fields) :
    ∃ wide, readItems (loosenAt name path schema) loose run items = .ok wide := by
  induction items generalizing loose found run with
  | nil => exact ⟨settle loose run, rfl⟩
  | cons item rest ih =>
    rw [readItems_cons] at h
    obtain ⟨⟨after, next⟩, hstep, hrest⟩ := exists_of_bind_eq_ok h
    obtain ⟨wide, hwide⟩ := exists_readStep_loosen hschema hfield hfound hstep
    -- the wider state is the state of the schema up to the text
    have htight := readStep_loosen hschema (fun hkind => readField_loosen hkind) hfound hwide
    rw [hstep] at htight
    obtain ⟨tight, hafter, hsame⟩ := exists_of_map_eq_ok htight.symm
    obtain ⟨rfl, -⟩ := Prod.mk.inj hsame
    obtain ⟨more, hmore⟩ := ih hafter hrest
    refine ⟨more, ?_⟩
    rw [readItems_cons, hwide]
    exact hmore

end Loosened

/-- A field of a kind is one of the loosened kind. -/
theorem exists_readField_loosen {kind : Kind} {tag : Tag} {content : List Item} {closed : Bool}
    {value : Value} (hkind : kind.HasInteger range path)
    (h : readField kind tag content closed = .ok value) :
    ∃ held, readField (kind.loosen path) tag content closed = .ok held := by
  induction path generalizing kind tag content closed value with
  | nil =>
    obtain rfl : kind = .integer range := hkind
    obtain ⟨text, htext, hclosed, -⟩ := readLeafElement_eq_ok_iff.mp h
    exact ⟨.text (String.ofList text), readLeafElement_eq_ok_iff.mpr ⟨text, htext, hclosed, rfl⟩⟩
  | cons name path ih =>
    cases kind with
    | record schema =>
      obtain ⟨fields, hfields, rfl⟩ := exists_of_map_eq_ok h
      rw [readRecord] at hfields
      obtain ⟨htag, hclosed, hitems⟩ := closeRecord_eq_ok_iff.mp hfields
      have hnothing : collect (tightenField range name path) [] = .ok [] := rfl
      obtain ⟨wide, hwide⟩ := exists_readItems_loosen hkind ih hnothing hitems
      refine ⟨.record wide, ?_⟩
      have hrecord : readRecord (loosenAt name path schema) (.element tag content closed) =
          .ok wide := by
        rw [readRecord]
        exact closeRecord_eq_ok_iff.mpr ⟨htag, hclosed, hwide⟩
      exact readField_of_record hrecord
    | text | integer | real | records => exact hkind.elim

/-- A document that the schema reads is read by the loosened schema. -/
theorem exists_ofItems_loosen {items : List Item} {fields : Fields}
    (hinteger : (Kind.record schema).HasInteger range (name :: path))
    (h : ofItems schema items = .ok fields) :
    ∃ loose, ofItems (loosenAt name path schema) items = .ok loose := by
  cases items with
  | nil => cases h
  | cons item rest =>
    cases item with
    | text value => cases h
    | element tag content closed =>
      rw [ofItems] at h ⊢
      obtain ⟨held, hheld⟩ := exists_readField_loosen hinteger (readField_of_record h)
      obtain ⟨loose, hloose, -⟩ := exists_of_map_eq_ok hheld
      exact ⟨loose, hloose⟩

/-! ## JSON -/

/-- What can be collected with one reader can be with another that reads every entry, too. -/
theorem exists_collect {α : Type} {first second : String × α → Except RecordError Fields}
    {entries : List (String × α)} {fields : Fields}
    (hread : ∀ entry found, first entry = .ok found → ∃ others, second entry = .ok others)
    (h : collect first entries = .ok fields) : ∃ others, collect second entries = .ok others := by
  induction entries generalizing fields with
  | nil => exact ⟨[], rfl⟩
  | cons entry entries ih =>
    obtain ⟨found, rest, hfound, hrest, -⟩ := collect_cons_eq_ok h
    obtain ⟨here, hhere⟩ := hread entry found hfound
    obtain ⟨others, hothers⟩ := ih hrest
    refine ⟨here ++ others, ?_⟩
    rw [collect, hhere, hothers]
    rfl

section Json

variable (hschema : ∀ kind, (name, kind) ∈ schema → kind.HasInteger range path)
  (hvalue : ∀ {kind : Kind} {json : Json.Value} {value : Value}, kind.HasInteger range path →
    readValue kind json = .ok value → ∃ held, readValue (kind.loosen path) json = .ok held)

include hschema hvalue

/-- A value under a declared name is read as the field of the loosened schema. -/
theorem exists_readValue_declared {key : String} {kind : Kind} {json : Json.Value} {value : Value}
    (hkind : (key, kind) ∈ schema) (h : readValue kind json = .ok value) :
    ∃ held, readValue (if key = name then kind.loosen path else kind) json = .ok held := by
  by_cases hname : key = name
  · subst hname
    rw [if_pos rfl]
    exact hvalue (hschema kind hkind) h
  · rw [if_neg hname]
    exact ⟨value, h⟩

/-- A member that the strict schema reads is read by the loose one. -/
theorem exists_readMember_loosen {member : String × Json.Value} {found : Fields}
    (h : readMember schema member = .ok found) :
    ∃ others, readMember (loosenAt name path schema) member = .ok others := by
  obtain ⟨key, json⟩ := member
  by_cases hnull : json = .null
  · subst hnull
    exact ⟨[], rfl⟩
  cases hkind : List.lookup key schema with
  | none =>
    refine ⟨[], readMember_unknown ?_ json⟩
    rw [lookup_loosenAt, hkind, Option.map_none]
  | some kind =>
    rw [readMember_known hkind hnull] at h
    obtain ⟨value, hread, -⟩ := exists_of_map_eq_ok h
    obtain ⟨held, hheld⟩ := exists_readValue_declared hschema hvalue (mem_of_lookup hkind) hread
    have hloose : List.lookup key (loosenAt name path schema) =
        some (if key = name then kind.loosen path else kind) := by
      rw [lookup_loosenAt, hkind, Option.map_some]
    rw [readMember_known hloose hnull, hheld]
    exact ⟨_, rfl⟩

/-- An array that the strict schema reads as a record is read so by the loose one. -/
theorem exists_readPositions_loosen {items : List Json.Value} {found : Fields}
    (h : readPositions schema items = .ok found) :
    ∃ others, readPositions (loosenAt name path schema) items = .ok others := by
  induction items generalizing schema found with
  | nil => exact ⟨[], rfl⟩
  | cons item rest ih =>
    cases schema with
    | nil => cases h
    | cons field others =>
      obtain ⟨key, kind⟩ := field
      rw [readPositions] at h
      obtain ⟨value, hfirst, h⟩ := exists_of_bind_eq_ok h
      obtain ⟨fields, hrest, -⟩ := exists_of_bind_eq_ok h
      obtain ⟨held, hheld⟩ := exists_readValue_declared hschema hvalue List.mem_cons_self hfirst
      obtain ⟨wide, hwide⟩ := ih (fun kind hmem => hschema kind (List.mem_cons_of_mem _ hmem)) hrest
      refine ⟨(key, held) :: wide, ?_⟩
      rw [loosenAt] at hwide ⊢
      rw [List.map_cons, readPositions, hheld, hwide]
      rfl

end Json

/-- A value of a kind is one of the loosened kind. -/
theorem exists_readValue_loosen {kind : Kind} {json : Json.Value} {value : Value}
    (hkind : kind.HasInteger range path) (h : readValue kind json = .ok value) :
    ∃ held, readValue (kind.loosen path) json = .ok held := by
  induction path generalizing kind json value with
  | nil =>
    obtain rfl : kind = .integer range := hkind
    cases json with
    | null | array | object => cases h
    | boolean | number | string => exact ⟨_, rfl⟩
  | cons name path ih =>
    cases kind with
    | record schema =>
      cases json with
      | null | boolean | number | string => cases h
      | array items =>
        obtain ⟨fields, hfields, -⟩ := exists_of_map_eq_ok h
        obtain ⟨wide, hwide⟩ := exists_readPositions_loosen hkind ih hfields
        refine ⟨.record wide, ?_⟩
        rw [Kind.loosen, readValue]
        exact congrArg _ hwide
      | object members =>
        obtain ⟨fields, hfields, -⟩ := exists_of_map_eq_ok h
        rw [readMembers_eq_collect] at hfields
        obtain ⟨wide, hwide⟩ :=
          exists_collect (fun _ _ => exists_readMember_loosen hkind ih) hfields
        refine ⟨.record wide, ?_⟩
        rw [Kind.loosen, readValue, readMembers_eq_collect]
        exact congrArg _ hwide
    | text | integer | real | records => exact hkind.elim

/-- A JSON value that the schema reads is read by the loosened schema. -/
theorem exists_ofJson_loosen {json : Json.Value} {fields : Fields}
    (hinteger : (Kind.record schema).HasInteger range (name :: path))
    (h : ofJson schema json = .ok fields) :
    ∃ loose, ofJson (loosenAt name path schema) json = .ok loose := by
  obtain ⟨value, hvalue, -⟩ := exists_of_map_eq_ok h
  obtain ⟨held, hheld⟩ := exists_readValue_loosen hinteger hvalue
  exact ⟨held.fields, congrArg _ hheld⟩

end CallbackGateway.Record
