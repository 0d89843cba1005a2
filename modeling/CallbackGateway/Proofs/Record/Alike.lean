import CallbackGateway.Record.Schema
import Mathlib.Data.List.Forall2

/-!
# Records that say the same

Two records are alike if the same is found under every name; whether a repeated field without
items is there or not makes no difference. Nothing that is read from a record tells alike
records apart. Records may also be compared under one name only, by what can be read there.
-/

namespace CallbackGateway.Record

/-- What may be found under one name in two records that say the same, of which nested records
are compared by a relation. -/
inductive SameFound (same : Fields → Fields → Prop) : Option Value → Option Value → Prop
  | absent : SameFound same none none
  /-- A repeated field without items. -/
  | empty : SameFound same none (some (.records []))
  | text (content : String) : SameFound same (some (.text content)) (some (.text content))
  | integer (n : Int) : SameFound same (some (.integer n)) (some (.integer n))
  | real (x : Binary64) : SameFound same (some (.real x)) (some (.real x))
  | blank : SameFound same (some .blank) (some .blank)
  | record {first second : Fields} (h : same first second) :
      SameFound same (some (.record first)) (some (.record second))
  | records {first second : List Fields} (h : List.Forall₂ same first second) :
      SameFound same (some (.records first)) (some (.records second))

/-- Records that say the same. -/
inductive Alike : Fields → Fields → Prop
  | mk {first second : Fields}
      (h : ∀ name, SameFound Alike (List.lookup name first) (List.lookup name second)) :
      Alike first second

namespace Alike

variable {first second : Fields}

/-- Alike records hold alike values, or both none, under each name. -/
theorem found (h : Alike first second) (name : String) :
    SameFound Alike (List.lookup name first) (List.lookup name second) := by
  cases h with
  | mk h => exact h name

/-- Records without fields are alike. -/
theorem nil : Alike [] [] := .mk fun _ => .absent

variable (h : Alike first second) (name : String)

include h

/-- Alike records have one text under each name. -/
theorem text_eq : first.text name = second.text name := by
  unfold Fields.text
  have hfound := h.found name
  generalize List.lookup name first = left at hfound ⊢
  generalize List.lookup name second = right at hfound ⊢
  cases hfound <;> rfl

/-- Alike records have one integer, or both none, under each name. -/
theorem integer?_eq : first.integer? name = second.integer? name := by
  unfold Fields.integer?
  have hfound := h.found name
  generalize List.lookup name first = left at hfound ⊢
  generalize List.lookup name second = right at hfound ⊢
  cases hfound <;> rfl

/-- Alike records have one number under each name. -/
theorem real_eq : first.real name = second.real name := by
  unfold Fields.real
  have hfound := h.found name
  generalize List.lookup name first = left at hfound ⊢
  generalize List.lookup name second = right at hfound ⊢
  cases hfound <;> rfl

/-- The records under one name of alike records are alike. -/
theorem record : Alike (first.record name) (second.record name) := by
  unfold Fields.record
  have hfound := h.found name
  generalize List.lookup name first = left at hfound ⊢
  generalize List.lookup name second = right at hfound ⊢
  cases hfound with
  | record h => exact h
  | absent | empty | text | integer | real | blank | records => exact nil

/-- The records listed under one name of alike records are alike, one by one. -/
theorem records : List.Forall₂ Alike (first.records name) (second.records name) := by
  unfold Fields.records
  have hfound := h.found name
  generalize List.lookup name first = left at hfound ⊢
  generalize List.lookup name second = right at hfound ⊢
  cases hfound with
  | records h => exact h
  | absent | empty | text | integer | real | blank | record => exact .nil

/-- Alike records have one integer under each name, an absent one counted as zero. -/
theorem integer_eq : first.integer name = second.integer name := by
  rw [Fields.integer, Fields.integer, h.integer?_eq]

end Alike

/-- What is read from alike records alike gives the same list. -/
theorem map_eq_of_forall₂_alike {α : Type} {read : Fields → α}
    (hread : ∀ {first second}, Alike first second → read first = read second)
    {first second : List Fields} (h : List.Forall₂ Alike first second) :
    first.map read = second.map read := by
  induction h with
  | nil => rfl
  | cons hhead _ ih => rw [List.map_cons, List.map_cons, hread hhead, ih]

/-! ## One name -/

mutual

/-- A value says the same as itself. -/
theorem SameFound.refl : (value : Value) → SameFound Alike (some value) (some value)
  | .text content => .text content
  | .integer n => .integer n
  | .real x => .real x
  | .blank => .blank
  | .record fields => .record (.mk (SameFound.lookup_refl fields))
  | .records items => .records (Alike.forall₂_refl items)
termination_by structural value => value

/-- A field's value is alike itself. -/
theorem SameFound.field_refl :
    (field : String × Value) → SameFound Alike (some field.2) (some field.2)
  | (_, value) => SameFound.refl value
termination_by structural field => field

/-- What is found in a record is alike itself. -/
theorem SameFound.lookup_refl : (fields : List (String × Value)) → (name : String) →
    SameFound Alike (List.lookup name fields) (List.lookup name fields)
  | [], _ => .absent
  | field :: rest, name => by
    rw [List.lookup_cons]
    cases name == field.1 with
    | true => exact SameFound.field_refl field
    | false => exact SameFound.lookup_refl rest name
termination_by structural fields => fields

/-- Each record of a list is alike itself. -/
theorem Alike.forall₂_refl :
    (items : List (List (String × Value))) → List.Forall₂ Alike items items
  | [] => .nil
  | item :: rest => .cons (.mk (SameFound.lookup_refl item)) (Alike.forall₂_refl rest)
termination_by structural items => items

end

/-- Whether two records say the same under a name, as far as a reader of the field can tell. -/
structure SameUnder (name : String) (first second : Fields) : Prop where
  text : first.text name = second.text name
  integer? : first.integer? name = second.integer? name
  real : first.real name = second.real name
  record : Alike (first.record name) (second.record name)
  records : List.Forall₂ Alike (first.records name) (second.records name)

/-- Records that say the same do so under every name. -/
theorem Alike.sameUnder {first second : Fields} (h : Alike first second) (name : String) :
    SameUnder name first second :=
  ⟨h.text_eq name, h.integer?_eq name, h.real_eq name, h.record name, h.records name⟩

namespace SameUnder

variable {name : String} {first second first' second' : Fields}

/-- Where nothing changed under a name, the records say the same. -/
theorem of_lookup (h : List.lookup name first = List.lookup name second) :
    SameUnder name first second where
  text := by rw [Fields.text, Fields.text, h]
  integer? := by rw [Fields.integer?, Fields.integer?, h]
  real := by rw [Fields.real, Fields.real, h]
  record := by
    have hrecord : first.record name = second.record name := by
      rw [Fields.record, Fields.record, h]
    rw [hrecord]
    exact .mk (SameFound.lookup_refl _)
  records := by
    have hrecords : first.records name = second.records name := by
      rw [Fields.records, Fields.records, h]
    rw [hrecords]
    exact Alike.forall₂_refl _

/-- What records say under a name is told from what is found there. -/
theorem congr (hfirst : List.lookup name first = List.lookup name first')
    (hsecond : List.lookup name second = List.lookup name second')
    (h : SameUnder name first second) : SameUnder name first' second' where
  text := by
    have htext := h.text
    rwa [Fields.text, Fields.text, hfirst, hsecond] at htext
  integer? := by
    have hinteger := h.integer?
    rwa [Fields.integer?, Fields.integer?, hfirst, hsecond] at hinteger
  real := by
    have hreal := h.real
    rwa [Fields.real, Fields.real, hfirst, hsecond] at hreal
  record := by
    have hrecord := h.record
    rwa [Fields.record, Fields.record, hfirst, hsecond] at hrecord
  records := by
    have hrecords := h.records
    rwa [Fields.records, Fields.records, hfirst, hsecond] at hrecords

/-- Records that agree under a name have one integer there. -/
theorem integer (h : SameUnder name first second) : first.integer name = second.integer name := by
  rw [Fields.integer, Fields.integer, h.integer?]

/-- Records that agree under a name have one text, or both none, there. -/
theorem text? (h : SameUnder name first second) : first.text? name = second.text? name := by
  rw [Fields.text?, Fields.text?, h.text]

end SameUnder

end CallbackGateway.Record
