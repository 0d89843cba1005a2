import CallbackGateway.Proofs.Message.TwoFormats
import CallbackGateway.Proofs.Record.Legible
import CallbackGateway.Proofs.Record.SpelledMarkup

/-!
# Shapes of popups

A callback is delivered as markup with any white space around its elements, or as JSON in which a
sole popup group, and the sole decision of a group, may stand without its array. Whatever the
shape, the body is read like the record that it delivers.
-/

namespace CallbackGateway.Message

open Markup Record Text

/-! ## Markup -/

/-- A spelled document is read as the record that is written. -/
theorem fieldsOfMarkup_spelled {root : String} {fields : Fields} {tokens : List Token}
    (hroot : IsPlainName root.toList) (hfits : Fits schema fields)
    (h : SpelledDocument root fields tokens) :
    fieldsOfMarkup (write tokens) = collect (readWritten schema) fields := by
  obtain ⟨kept, hkept, hread⟩ := h.exists_kept areRegular_schema hfits
  rw [fieldsOfMarkup, h.dropMark_write,
    scan_write (h.isWritten hroot (hfits.arePlainFields areRegular_schema))]
  dsimp only
  rw [h.balanced.namesMatch_nil, hkept]
  exact hread

/-! ## Members -/

/-- What may stand under the name of a repeated field of which a sole item may stand without its
array. -/
inductive Listed (spelled : Fields → List (String × Json.Value) → Prop) :
    Option Value → Option Json.Value → Prop
  | absent : Listed spelled none none
  | null : Listed spelled none (some .null)
  | items {items : List Fields} {rows : List (List (String × Json.Value))}
      (h : List.Forall₂ spelled items rows) :
      Listed spelled (some (.records items)) (some (.array (rows.map .object)))
  | sole {item : Fields} {members : List (String × Json.Value)} (h : spelled item members) :
      Listed spelled (some (.records [item])) (some (.object members))

/-- Which members spell a record, if one of its fields is listed. -/
structure ListingSpelled (key : String) (spelled : Fields → List (String × Json.Value) → Prop)
    (fields : Fields) (members : List (String × Json.Value)) : Prop where
  noRepeats : NoRepeats members
  listed : Listed spelled (List.lookup key fields) (List.lookup key members)
  found : ∀ name, name ≠ key →
    SpelledFound SpelledBy (List.lookup name fields) (List.lookup name members)

/-- Only names that stand somewhere are to be compared. -/
theorem ListingSpelled.of_names {key : String}
    {spelled : Fields → List (String × Json.Value) → Prop} {fields : Fields}
    {members : List (String × Json.Value)} (names : List String) (hkeys : NoRepeats members)
    (hfields : fields.map Prod.fst ⊆ names) (hmembers : members.map Prod.fst ⊆ names)
    (hlisted : Listed spelled (List.lookup key fields) (List.lookup key members))
    (h : ∀ name ∈ names, name ≠ key →
      SpelledFound SpelledBy (List.lookup name fields) (List.lookup name members)) :
    ListingSpelled key spelled fields members := by
  refine ⟨hkeys, hlisted, fun name hname => ?_⟩
  by_cases hmem : name ∈ names
  · exact h name hmem hname
  · exact SpelledBy.spelledFound_of_notMem (fun hin => hmem (hfields hin)) fun hin =>
      hmem (hmembers hin)

/-- Which members spell a popup group. -/
abbrev GroupSpelled : Fields → List (String × Json.Value) → Prop :=
  ListingSpelled "List" SpelledBy

/-- Which members spell a callback. -/
abbrev CallbackSpelled : Fields → List (String × Json.Value) → Prop :=
  ListingSpelled "SubscribeMsgPopupEvent" GroupSpelled

/-- Once its listed field has its array, a record is spelled as any other. -/
theorem ListingSpelled.exists_updated {key : String} {update : Json.Value → Json.Value}
    {spelled : Fields → List (String × Json.Value) → Prop} {fields : Fields}
    {members : List (String × Json.Value)} (h : ListingSpelled key spelled fields members)
    (hupdate : ∀ {value json}, Listed spelled value json →
      SpelledFound SpelledBy value (json.map update)) :
    ∃ updated, updateMember key update (.object members) = .object updated ∧
      SpelledBy fields updated := by
  refine ⟨_, rfl, .mk ?_ fun name => ?_⟩
  · rw [NoRepeats, List.map_map]
    exact h.noRepeats
  · rw [lookup_updated]
    by_cases hname : name = key
    · subst hname
      simp only [if_pos]
      exact hupdate h.listed
    · simp only [if_neg hname, Option.map_id']
      exact h.found name hname

/-- With its array, a listed field is a repeated field. -/
theorem Listed.enlist {spelled : Fields → List (String × Json.Value) → Prop}
    {value : Option Value} {json : Option Json.Value} (h : Listed spelled value json) :
    SpelledFound spelled value (json.map Message.enlist) := by
  cases h with
  | absent => exact .absent
  | null => exact .null
  | items hrows => exact .records hrows
  | sole hitem =>
    have hrows := List.Forall₂.cons hitem .nil
    exact .records hrows

/-- Groups whose decisions have their arrays are spelled as any other records. -/
theorem exists_updated_groups {groups : List Fields} {rows : List (List (String × Json.Value))}
    (h : List.Forall₂ GroupSpelled groups rows) :
    ∃ updated, (rows.map Json.Value.object).map (updateMember "List" enlist) =
      updated.map .object ∧ List.Forall₂ SpelledBy groups updated := by
  induction h with
  | nil => exact ⟨[], rfl, .nil⟩
  | cons hgroup _ ih =>
    obtain ⟨members, hmembers, hspelled⟩ := hgroup.exists_updated Listed.enlist
    obtain ⟨updated, hupdated, hrest⟩ := ih
    refine ⟨members :: updated, ?_, .cons hspelled hrest⟩
    rw [List.map_cons, List.map_cons, hmembers, hupdated, List.map_cons]

/-- The popup groups of a callback are given their arrays. -/
theorem exists_enlistPopups {fields : Fields} {members : List (String × Json.Value)}
    (h : CallbackSpelled fields members) :
    ∃ updated, enlistPopups (.object members) = .object updated ∧ SpelledBy fields updated := by
  refine h.exists_updated fun {value json} hlisted => ?_
  cases hlisted with
  | absent => exact .absent
  | null => exact .null
  | items hrows =>
    obtain ⟨updated, hupdated, hspelled⟩ := exists_updated_groups hrows
    rw [Option.map_some, Message.enlist]
    · dsimp only
      rw [hupdated]
      exact .records hspelled
    · simp
  | sole hgroup =>
    obtain ⟨updated, hupdated, hspelled⟩ := exists_updated_groups (.cons hgroup .nil)
    rw [Option.map_some, Message.enlist]
    dsimp only
    rw [← List.map_singleton, hupdated]
    exact .records hspelled

/-! ## Both formats -/

/-- Which bodies deliver a record. -/
inductive Delivers (fields : Fields) : WireFormat → Bytes → Prop
  | markup {root : String} {tokens : List Token} (hroot : IsPlainName root.toList)
      (h : SpelledDocument root fields tokens) : Delivers fields .xml (Utf8.encode (write tokens))
  | json {body : Bytes} {members : List (String × Json.Value)}
      (hbody : Json.Value.read? body = some (.object members))
      (h : CallbackSpelled fields members) : Delivers fields .json body

/-- A body that delivers a legible record is read as the message of the record. -/
theorem Delivers.exists_decode {fields : Fields} {format : WireFormat} {body : Bytes}
    (h : Delivers fields format body) (hlegible : Legible schema fields) :
    ∃ found, collect (readWritten schema) fields = .ok found ∧
      decode format body = .ok (ofFields found) := by
  obtain ⟨found, hfound⟩ := hlegible.exists_collect areRegular_schema
  refine ⟨found, hfound, ?_⟩
  cases h with
  | markup hroot hdocument =>
    rw [decode, fieldsOf, Utf8.decode_encode]
    dsimp only
    rw [fieldsOfMarkup_spelled hroot hlegible.fits hdocument, hfound]
    rfl
  | json hbody hmembers =>
    obtain ⟨updated, hupdated, hspelled⟩ := exists_enlistPopups hmembers
    have hagree := readMembers_agrees areRegular_schema hlegible.fits hspelled
    rw [hfound] at hagree
    rw [decode, fieldsOf, fieldsOfJson, hbody]
    dsimp only
    rw [hupdated, ofJson_object]
    generalize readMembers schema updated = read at hagree ⊢
    cases hagree with
    | ok halike =>
      rw [ofFields_eq_of_alike halike]
      rfl

end CallbackGateway.Message
