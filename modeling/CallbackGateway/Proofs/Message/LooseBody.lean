import CallbackGateway.Message.Decode
import CallbackGateway.Proofs.Record.LeafPath
import CallbackGateway.Proofs.Record.LooseReading

/-!
# Bodies under loosened schemas

A body is read in the same steps whatever the schema is. Under the schema of callbacks loosened at
an integer leaf, every body is read that is read as a callback, and from what is read it is told
what the body is as a callback: the text of the leaf is the integer, or the error of the body.
-/

namespace CallbackGateway.Message

open Markup Record Text

/-- The record that a schema reads in a body. -/
def fieldsUnder (schema : Schema) (format : WireFormat) (body : Bytes) :
    Except DecodeError Fields :=
  match format with
  | .xml =>
    match Utf8.decode body with
    | .ok text =>
      let scan := Markup.scan (dropMark text)
      (if scan.complete && namesMatch [] scan.tokens then
        match keepLeafText scan.tokens with
        | some tokens => ofItems schema (assemble (dropLeadingMark tokens))
        | none => .error .malformed
      else .error .malformed).mapError (.record .xml)
    | .error defect => .error (.notText defect)
  | .json =>
    match Json.Value.read? body with
    | none => .error (.record .json .malformed)
    | some (.object members) =>
      (ofJson schema (enlistPopups (.object members))).mapError (.record .json)
    | some _ => .error .notAnObject

/-- Callbacks are read under their own schema. -/
theorem fieldsUnder_schema (format : WireFormat) (body : Bytes) :
    fieldsUnder schema format body = fieldsOf format body := by
  cases format <;> rfl

section Json

variable {value : Json.Value}

/-- An update repeats no key. -/
theorem keysOnce_updateMember {key : String} {update : Json.Value → Json.Value}
    (hupdate : ∀ {held}, KeysOnce held → KeysOnce (update held)) (h : KeysOnce value) :
    KeysOnce (updateMember key update value) := by
  cases h with
  | object hkeys hmembers =>
    refine .object ?_ fun member hmem => ?_
    · rw [NoRepeats, List.map_map]
      exact hkeys
    · obtain ⟨⟨name, held⟩, hheld, rfl⟩ := List.mem_map.mp hmem
      dsimp only
      split
      · exact hupdate (hmembers _ hheld)
      · exact hmembers _ hheld
  | null => exact .null
  | boolean b => exact .boolean b
  | number number => exact .number number
  | string text => exact .string text
  | array hitems => exact .array hitems

/-- A list of one value repeats no key. -/
theorem keysOnce_enlist (h : KeysOnce value) : KeysOnce (enlist value) := by
  cases value with
  | object members => exact .array (List.forall_mem_singleton.mpr h)
  | null | boolean | number | string | array => exact h

/-- Giving the decisions of a popup their arrays repeats no key. -/
theorem keysOnce_enlistPopups (h : KeysOnce value) : KeysOnce (enlistPopups value) := by
  refine keysOnce_updateMember (fun {held} hheld => ?_) h
  have hlisted := keysOnce_enlist hheld
  split
  · rename_i groups hgroups
    rw [hgroups] at hlisted
    cases hlisted with
    | array hitems =>
      refine .array (List.forall_mem_map.mpr fun group hgroup => ?_)
      exact keysOnce_updateMember keysOnce_enlist (hitems group hgroup)
  · exact hlisted

end Json

/-- A body holds the same document for every schema, or is unreadable for all of them. -/
theorem fieldsUnder_cases (format : WireFormat) (body : Bytes) :
    (∃ e, ∀ schema, fieldsUnder schema format body = .error e) ∨
    (∃ items, ∀ schema,
      fieldsUnder schema format body = (ofItems schema items).mapError (.record format)) ∨
    ∃ members, KeysOnce (.object members) ∧ ∀ schema,
      fieldsUnder schema format body =
        (ofJson schema (.object members)).mapError (.record format) := by
  cases format with
  | xml =>
    unfold fieldsUnder
    dsimp only
    split
    · split
      · split
        · exact .inr (.inl ⟨_, fun _ => rfl⟩)
        · exact .inl ⟨_, fun _ => rfl⟩
      · exact .inl ⟨_, fun _ => rfl⟩
    · exact .inl ⟨_, fun _ => rfl⟩
  | json =>
    unfold fieldsUnder
    dsimp only
    split
    · exact .inl ⟨_, fun _ => rfl⟩
    · rename_i members hbody
      obtain ⟨tree, -, htree⟩ := Option.bind_eq_some_iff.mp hbody
      have hkeys : KeysOnce (.object members) := keysOnce_of_value? htree
      exact .inr (.inr ⟨_, keysOnce_enlistPopups hkeys, fun _ => rfl⟩)
    · exact .inl ⟨_, fun _ => rfl⟩

section Loosened

variable {range : IntegerRange} {name : String} {path : List String} {format : WireFormat}
  {body : Bytes} (hinteger : (Kind.record schema).HasInteger range (name :: path))

include hinteger

/-- A body that a loosened schema reads is read as a callback, up to the text. -/
theorem fieldsOf_loosen {loose : Fields}
    (hdistinct : (Kind.record (loosenAt name path schema)).isDistinct = true)
    (h : fieldsUnder (loosenAt name path schema) format body = .ok loose) :
    fieldsOf format body =
        (collect (tightenField range name path) loose).mapError (.record format) ∧
      (Value.record loose).NoRepeatsAlong (name :: path) := by
  rw [← fieldsUnder_schema]
  rcases fieldsUnder_cases format body with ⟨e, hbody⟩ | ⟨items, hbody⟩ | ⟨members, hkeys, hbody⟩
  · rw [hbody] at h
    cases h
  · rw [hbody] at h ⊢
    obtain ⟨htight, hrepeats⟩ := ofItems_loosen hinteger (eq_ok_of_mapError h)
    exact ⟨congrArg _ htight, hrepeats⟩
  · rw [hbody] at h ⊢
    obtain ⟨htight, hrepeats⟩ := ofJson_loosen hinteger hdistinct hkeys (eq_ok_of_mapError h)
    exact ⟨congrArg _ htight, hrepeats⟩

/-- A body that is read as a callback is read under a loosened schema. -/
theorem exists_fieldsUnder_loosen {fields : Fields} (h : fieldsOf format body = .ok fields) :
    ∃ loose, fieldsUnder (loosenAt name path schema) format body = .ok loose := by
  rw [← fieldsUnder_schema] at h
  rcases fieldsUnder_cases format body with ⟨e, hbody⟩ | ⟨items, hbody⟩ | ⟨members, -, hbody⟩
  · rw [hbody] at h
    cases h
  · rw [hbody] at h ⊢
    obtain ⟨loose, hloose⟩ := exists_ofItems_loosen hinteger (eq_ok_of_mapError h)
    exact ⟨loose, congrArg _ hloose⟩
  · rw [hbody] at h ⊢
    obtain ⟨loose, hloose⟩ := exists_ofJson_loosen hinteger (eq_ok_of_mapError h)
    exact ⟨loose, congrArg _ hloose⟩

end Loosened

end CallbackGateway.Message
