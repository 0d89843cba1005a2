import CallbackGateway.Proofs.Markup.Children
import CallbackGateway.Proofs.Record.UnknownElement
import CallbackGateway.Record.FromJson

/-!
# Records without some of their fields

If a record can be read, it can also be read from those of its elements or members that have
certain names, and then exactly the fields of these names are found. For elements this follows
from a simulation: the fields that count are the same step by step, but in the smaller record
the run of a repeated field may still be open where another element has already ended it.
-/

namespace CallbackGateway.Record

open Markup

/-- The fields with certain names. -/
def Fields.only (fields : Fields) (names : List String) : Fields :=
  fields.filter fun field => names.contains field.1

/-- Whether an element is a field with one of certain names. -/
def isNamed (names : List String) (tag : Tag) : Bool :=
  names.contains (String.ofList (localName tag.name))

section Fields

variable {names : List String} {fields : Fields} {name : String}

/-- Fields in two parts are restricted part by part. -/
theorem Fields.only_append (first second : Fields) :
    Fields.only (first ++ second) names = first.only names ++ second.only names :=
  List.filter_append ..

/-- One field is kept just if its name is among the names. -/
theorem Fields.only_field (value : Value) :
    Fields.only [(name, value)] names = if names.contains name then [(name, value)] else [] := by
  rw [Fields.only, List.filter_cons, List.filter_nil]

/-- A field that counts is found as before. -/
theorem Fields.lookup_only (h : names.contains name = true) :
    List.lookup name (fields.only names) = List.lookup name fields := by
  induction fields with
  | nil => rfl
  | cons field fields ih =>
    obtain ⟨other, value⟩ := field
    rw [Fields.only] at ih
    rw [Fields.only, List.filter_cons]
    cases hother : names.contains other with
    | true => rw [if_pos rfl, List.lookup_cons, List.lookup_cons, ih]
    | false =>
      have hne : (name == other) = false := by
        rw [beq_eq_false_iff_ne]
        rintro rfl
        rw [h] at hother
        cases hother
      rw [if_neg Bool.false_ne_true, List.lookup_cons, hne, ih]

/-- A kept name is in the restricted record just if it is in the record. -/
theorem Fields.has_only (h : names.contains name = true) :
    (fields.only names).has name = fields.has name := by
  rw [Fields.has, Fields.has, Fields.lookup_only h]

end Fields

/-! ## Elements -/

/-- Where reading stands in a record, and where it stands if only certain names count. -/
structure Restricts (schema : Schema) (names : List String) (found : Fields) (run : Option Run)
    (own : Fields) (ownRun : Option Run) : Prop where
  settled : settle own ownRun = (settle found run).only names
  running : ∀ first ∈ run, names.contains first.key = true →
    ownRun = some first ∧ own = found.only names
  run_isOf : ∀ first ∈ run, first.IsOf schema
  ownRun_isOf : ∀ first ∈ ownRun, first.IsOf schema

section Elements

variable {schema : Schema} {names : List String} {found own after : Fields}
  {run ownRun next : Option Run}

/-- Nothing read yet is the restriction of nothing read yet. -/
theorem Restricts.nil (schema : Schema) (names : List String) :
    Restricts schema names [] none [] none :=
  ⟨rfl, by simp, by simp, by simp⟩

/-- Once a run has ended, only what was found matters. -/
theorem Restricts.of_settled (h : settle own ownRun = found.only names)
    (hown : ∀ first ∈ ownRun, first.IsOf schema) :
    Restricts schema names found none own ownRun :=
  ⟨h, by simp, by simp, hown⟩

/-- An item that does not count can be left out. -/
theorem Restricts.skip {item : Item} (h : Restricts schema names found run own ownRun)
    (htaken : item.isTaken (isNamed names) = false)
    (hstep : readStep schema found run item = .ok (after, next)) :
    Restricts schema names after next own ownRun := by
  obtain ⟨hsettled, -, hrun, hown⟩ := h
  cases item with
  | text value =>
    obtain ⟨rfl, -, hstate⟩ := readStep_text.mp hstep
    obtain ⟨rfl, rfl⟩ := Prod.mk.inj hstate
    exact .of_settled hsettled hown
  | element tag content closed =>
    have hkey : names.contains (String.ofList (localName tag.name)) = false := htaken
    have hnext := (run_of_readStep hrun hstep).1
    cases readStep_element_eq_ok_iff.mp hstep with
    | @continued first item hcontinues hitem =>
      obtain ⟨rfl, hname⟩ := continues?_eq_some_iff.mp hcontinues
      have hfirst : names.contains first.key = false := by
        rw [(hrun first rfl).key, hname, hkey]
      refine ⟨?_, fun other hother hcounts => ?_, hnext, hown⟩
      · rw [hsettled, settle, settle, Fields.only_append, Fields.only_append, Fields.only_field,
          Fields.only_field, hfirst]
        rfl
      · obtain rfl := Option.mem_some.mp hother
        rw [hfirst] at hcounts
        cases hcounts
    | skipped => exact .of_settled hsettled hown
    | started =>
      refine ⟨?_, fun other hother hcounts => ?_, hnext, hown⟩
      · rw [hsettled, settle.eq_2, Fields.only_append, Fields.only_field, hkey]
        exact (List.append_nil _).symm
      · obtain rfl := Option.mem_some.mp hother
        rw [hkey] at hcounts
        cases hcounts
    | nested | leaf =>
      refine .of_settled ?_ hown
      rw [hsettled, Fields.only_append, Fields.only_field, hkey]
      exact (List.append_nil _).symm

/-- A run that has been ended by another element does not go on. -/
theorem Restricts.continues?_eq_none {tag : Tag}
    (h : Restricts schema names found run own ownRun) (hcounts : isNamed names tag = true)
    (hnew : kindOf schema tag.name = none ∨
      (settle found run).has (String.ofList (localName tag.name)) = false) :
    continues? ownRun tag = none := by
  cases hcontinues : continues? ownRun tag with
  | none => rfl
  | some first =>
    obtain ⟨rfl, hname⟩ := continues?_eq_some_iff.mp hcontinues
    obtain ⟨hkey, hkind⟩ := h.ownRun_isOf first rfl
    rw [hname] at hkey hkind
    rcases hnew with hnone | hnew
    · rw [hnone] at hkind
      cases hkind
    · rw [← Fields.has_only hcounts, ← h.settled, settle, Fields.has, List.lookup_append, hkey,
        List.lookup_cons_self] at hnew
      cases hfound : List.lookup (String.ofList (localName tag.name)) own <;>
        rw [hfound] at hnew <;> cases hnew

/-- An item that counts is read as before. -/
theorem Restricts.step {item : Item} (h : Restricts schema names found run own ownRun)
    (htaken : item.isTaken (isNamed names) = true)
    (hstep : readStep schema found run item = .ok (after, next)) :
    ∃ ownAfter ownNext, readStep schema own ownRun item = .ok (ownAfter, ownNext) ∧
      Restricts schema names after next ownAfter ownNext := by
  cases item with
  | text value => cases htaken
  | element tag content closed =>
    have hcounts : names.contains (String.ofList (localName tag.name)) = true := htaken
    have hnew (h' : (settle found run).has (String.ofList (localName tag.name)) = false) :
        (settle own ownRun).has (String.ofList (localName tag.name)) = false := by
      rw [h.settled, Fields.has_only hcounts, h']
    have hnext := (run_of_readStep h.run_isOf hstep).1
    have hresult {ownAfter : Fields} {ownNext : Option Run}
        (hown : ElementStep schema own ownRun tag content closed ownAfter ownNext)
        (hsettled : settle ownAfter ownNext = (settle after next).only names)
        (hrunning : ∀ first ∈ next, names.contains first.key = true →
          ownNext = some first ∧ ownAfter = after.only names) :
        ∃ ownAfter ownNext, readStep schema own ownRun (.element tag content closed) =
          .ok (ownAfter, ownNext) ∧ Restricts schema names after next ownAfter ownNext := by
      have hownStep := readStep_element_eq_ok_iff.mpr hown
      exact ⟨_, _, hownStep, hsettled, hrunning, hnext,
        (run_of_readStep h.ownRun_isOf hownStep).1⟩
    cases readStep_element_eq_ok_iff.mp hstep with
    | @continued first item hcontinues hitem =>
      obtain ⟨rfl, hname⟩ := continues?_eq_some_iff.mp hcontinues
      have hfirst : names.contains first.key = true := by
        rw [(h.run_isOf first rfl).key, hname, hcounts]
      obtain ⟨rfl, rfl⟩ := h.running first rfl hfirst
      refine hresult (.continued hcontinues hitem) ?_ fun other hother _ => ?_
      · rw [settle, settle, Fields.only_append, Fields.only_field, hfirst]
        rfl
      · obtain rfl := Option.mem_some.mp hother
        exact ⟨rfl, rfl⟩
    | skipped _ hkind hskip =>
      exact hresult (.skipped (h.continues?_eq_none htaken (.inl hkind)) hkind hskip) h.settled
        (by simp)
    | started _ hkind hhas hitem =>
      refine hresult (.started (h.continues?_eq_none htaken (.inr hhas)) hkind (hnew hhas) hitem)
        ?_ fun other hother _ => ?_
      · rw [settle.eq_2, settle.eq_2, Fields.only_append, Fields.only_field, hcounts, h.settled]
        rfl
      · obtain rfl := Option.mem_some.mp hother
        exact ⟨rfl, h.settled⟩
    | nested _ hkind hhas hitem =>
      refine hresult (.nested (h.continues?_eq_none htaken (.inr hhas)) hkind (hnew hhas) hitem)
        ?_ (by simp)
      rw [settle.eq_1, settle.eq_1, Fields.only_append, Fields.only_field, hcounts, h.settled]
      rfl
    | leaf _ hkind hhas hvalue =>
      refine hresult (.leaf (h.continues?_eq_none htaken (.inr hhas)) hkind (hnew hhas) hvalue)
        ?_ (by simp)
      rw [settle.eq_1, settle.eq_1, Fields.only_append, Fields.only_field, hcounts, h.settled]
      rfl

/-- The elements with certain names are read as before. -/
theorem Restricts.readItems {items : List Item} {fields : Fields}
    (h : Restricts schema names found run own ownRun)
    (hread : readItems schema found run items = .ok fields) :
    readItems schema own ownRun (items.filter (Item.isTaken (isNamed names))) =
      .ok (fields.only names) := by
  induction items generalizing found run own ownRun with
  | nil =>
    obtain rfl : settle found run = fields := Except.ok.inj hread
    exact congrArg Except.ok h.settled
  | cons item items ih =>
    rw [readItems_cons] at hread
    obtain ⟨⟨after, next⟩, hstep, hrest⟩ := exists_of_bind_eq_ok hread
    cases htaken : item.isTaken (isNamed names) with
    | false =>
      rw [List.filter_cons_of_neg (by simp [htaken])]
      exact ih (h.skip htaken hstep) hrest
    | true =>
      obtain ⟨ownAfter, ownNext, hown, hafter⟩ := h.step htaken hstep
      rw [List.filter_cons_of_pos htaken, readItems_of_readStep hown]
      exact ih hafter hrest

/-- Of a record that can be read, the elements with certain names are the fields with these
names. -/
theorem readItems_filter {items : List Item} {fields : Fields} (names : List String)
    (h : Record.readItems schema [] none items = .ok fields) :
    Record.readItems schema [] none (items.filter (Item.isTaken (isNamed names))) =
      .ok (fields.only names) :=
  (Restricts.nil schema names).readItems h

/-- A record is read from the content of a first element that is closed. -/
theorem content_of_ofItems {items : List Item} {fields : Fields}
    (h : ofItems schema items = .ok fields) :
    ∃ tag content, items.head? = some (.element tag content true) ∧
      Record.readItems schema [] none content = .ok fields := by
  obtain ⟨tag, content, hhead⟩ := head?_of_ofItems h
  obtain ⟨rest, rfl⟩ := List.head?_eq_some_iff.mp hhead
  rw [ofItems, readRecord] at h
  exact ⟨tag, content, hhead, (closeRecord_eq_ok_iff.mp h).2.2⟩

/-- Of a document that can be read, the children of the root with certain names are the fields
with these names. -/
theorem ofItems_takeChildren {tokens kept : List Token} {fields : Fields} (names : List String)
    (root : String) (hkept : keepLeafText tokens = some kept)
    (h : ofItems schema (assemble (dropLeadingMark kept)) = .ok fields) :
    ∃ taken, keepLeafText (element root (takeChildren (isNamed names) tokens)) = some taken ∧
      ofItems schema (assemble taken) = .ok (fields.only names) := by
  obtain ⟨tag, content, hhead, hread⟩ := content_of_ofItems h
  obtain ⟨taken, htaken, hassemble⟩ := Option.map_eq_some_iff.mp
    (assemble_takeChildren hkept hhead (isNamed names) root)
  refine ⟨taken, htaken, ?_⟩
  have hroot : Tag.isWellFormed ⟨root.toList, []⟩ = true := rfl
  rw [hassemble, ofItems, readRecord]
  exact closeRecord_eq_ok_iff.mpr ⟨hroot, rfl, readItems_filter names hread⟩

end Elements

/-! ## Members -/

/-- A member is at most the field of its own name. -/
theorem only_of_readMember {schema : Schema} {names : List String} {member : String × Json.Value}
    {found : Fields} (h : readMember schema member = .ok found) :
    found.only names = if names.contains member.1 then found else [] := by
  obtain ⟨key, value⟩ := member
  have hfield : found = [] ∨ ∃ held, found = [(key, held)] := by
    cases hkind : List.lookup key schema with
    | none =>
      rw [readMember_unknown hkind] at h
      exact .inl (Except.ok.inj h).symm
    | some kind =>
      by_cases hnull : value = .null
      · subst hnull
        exact .inl (Except.ok.inj h).symm
      · rw [readMember_known hkind hnull] at h
        obtain ⟨held, -, rfl⟩ := exists_of_map_eq_ok h
        exact .inr ⟨held, rfl⟩
  rcases hfield with rfl | ⟨held, rfl⟩
  · cases names.contains key <;> rfl
  · exact Fields.only_field held

/-- Of a record that can be read, the members with certain names are the fields with these
names. -/
theorem readMembers_filter {schema : Schema} {members : List (String × Json.Value)}
    {fields : Fields} (names : List String) (h : readMembers schema members = .ok fields) :
    readMembers schema (members.filter fun member => names.contains member.1) =
      .ok (fields.only names) := by
  induction members generalizing fields with
  | nil =>
    obtain rfl : ([] : Fields) = fields := Except.ok.inj h
    rfl
  | cons member members ih =>
    rw [readMembers] at h
    obtain ⟨found, hfound, h⟩ := exists_of_bind_eq_ok h
    obtain ⟨others, hothers, hfields⟩ := exists_of_bind_eq_ok h
    obtain rfl : found ++ others = fields := Except.ok.inj hfields
    rw [List.filter_cons, Fields.only_append, only_of_readMember hfound]
    cases names.contains member.1 with
    | false => exact ih hothers
    | true =>
      rw [if_pos rfl, if_pos rfl, readMembers, hfound, ih hothers]
      rfl

end CallbackGateway.Record
