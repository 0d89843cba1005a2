import CallbackGateway.Record.Schema

/-!
# Comparing records

Values hold records and lists of records, so they are compared along their structure. That makes
equations between closed records decidable, and what a fixed document is read as can be computed.
-/

namespace CallbackGateway.Record

mutual

/-- Whether two values are the same. -/
def Value.same : Value → Value → Bool
  | .text content, .text other => content == other
  | .integer n, .integer m => n == m
  | .real x, .real y => x == y
  | .blank, .blank => true
  | .record fields, .record others => sameFields fields others
  | .records items, .records others => sameItems items others
  | _, _ => false
termination_by structural value => value

/-- Whether two lists of fields are the same. -/
def sameFields : List (String × Value) → List (String × Value) → Bool
  | [], [] => true
  | field :: rest, other :: others => sameField field other && sameFields rest others
  | _, _ => false
termination_by structural fields => fields

/-- Whether two lists of records are the same. -/
def sameItems : List (List (String × Value)) → List (List (String × Value)) → Bool
  | [], [] => true
  | item :: rest, other :: others => sameFields item other && sameItems rest others
  | _, _ => false
termination_by structural items => items

/-- Whether two fields are the same. -/
def sameField : String × Value → String × Value → Bool
  | (name, value), (other, held) => name == other && value.same held
termination_by structural field => field

end

mutual

/-- Values are the same if they are one value. -/
theorem Value.same_iff : (value other : Value) → value.same other = true ↔ value = other
  | .text _, other | .integer _, other | .real _, other | .blank, other => by
    cases other <;> simp [Value.same]
  | .record fields, other => by
    cases other with
    | record others => rw [Value.same, sameFields_iff fields others, Value.record.injEq]
    | text | integer | real | blank | records => simp [Value.same]
  | .records items, other => by
    cases other with
    | records others => rw [Value.same, sameItems_iff items others, Value.records.injEq]
    | text | integer | real | blank | record => simp [Value.same]
termination_by structural value => value

/-- Lists of fields are the same if they are one list. -/
theorem sameFields_iff : (fields others : List (String × Value)) →
    sameFields fields others = true ↔ fields = others
  | [], [] => by simp [sameFields]
  | [], _ :: _ | _ :: _, [] => by simp [sameFields]
  | field :: rest, other :: others => by
    rw [sameFields, Bool.and_eq_true, sameField_iff field other, sameFields_iff rest others,
      List.cons.injEq]
termination_by structural fields => fields

/-- Lists of records are the same if they are one list. -/
theorem sameItems_iff : (items others : List (List (String × Value))) →
    sameItems items others = true ↔ items = others
  | [], [] => by simp [sameItems]
  | [], _ :: _ | _ :: _, [] => by simp [sameItems]
  | item :: rest, other :: others => by
    rw [sameItems, Bool.and_eq_true, sameFields_iff item other, sameItems_iff rest others,
      List.cons.injEq]
termination_by structural items => items

/-- Fields are the same if they are one field. -/
theorem sameField_iff : (field other : String × Value) →
    sameField field other = true ↔ field = other
  | (name, value), (other, held) => by
    rw [sameField, Bool.and_eq_true, Value.same_iff value held, beq_iff_eq, Prod.mk.injEq]
termination_by structural field => field

end

instance : DecidableEq Value := fun value other => decidable_of_iff _ (value.same_iff other)

end CallbackGateway.Record
