import CallbackGateway.Proofs.Json.Members
import CallbackGateway.Proofs.Json.Written
import CallbackGateway.Proofs.Record.Spelling

/-!
# Spelled records read back

An object that spells a record is written as JSON and read again: its members come in the order
of their keys then, and still spell the record.
-/

namespace CallbackGateway.Record

open Json Text

/-- Whether a member is read back as a value that stands for what is in the record. -/
def ReadsBack (depth : Nat) (fields : Fields) (member : String × Json.Value) : Prop :=
  ∃ tree value, HasTree member.2 tree ∧ tree.value? depth = some value ∧
    SpelledFound SpelledBy (List.lookup member.1 fields) (some value)

/-- Members are read back if each one is. -/
theorem exists_memberValues? {depth : Nat} {fields : Fields}
    {members : List (String × Json.Value)}
    (h : ∀ member ∈ members, ReadsBack depth fields member) :
    ∃ trees values, MembersHaveTrees members trees ∧ memberValues? depth trees = some values ∧
      values.map Prod.fst = members.map Prod.fst ∧
      ∀ name value, (name, value) ∈ values →
        SpelledFound SpelledBy (List.lookup name fields) (some value) := by
  induction members with
  | nil => exact ⟨[], [], .nil, rfl, rfl, by simp⟩
  | cons member members ih =>
    obtain ⟨key, json⟩ := member
    obtain ⟨hmember, hrest⟩ := List.forall_mem_cons.mp h
    obtain ⟨tree, value, htree, hvalue, hfound⟩ := hmember
    obtain ⟨trees, values, htrees, hvalues, hkeys, hall⟩ := ih hrest
    refine ⟨_, (key, value) :: values, .cons htree htrees, ?_, ?_, ?_⟩
    · rw [memberValues?, memberValue?, quotedText?_textParts, hvalue, hvalues, String.ofList_toList]
      rfl
    · rw [List.map_cons, List.map_cons, hkeys]
    · intro name other hmem
      rcases List.mem_cons.mp hmem with hfirst | hmem
      · obtain ⟨rfl, rfl⟩ := Prod.mk.inj hfirst
        exact hfound
      · exact hall name other hmem

/-- Sorted members that are read back still spell the record. -/
theorem spelledBy_of_perm {fields : Fields} {members values sorted : List (String × Json.Value)}
    (hspelled : SpelledBy fields members) (hkeys : values.map Prod.fst = members.map Prod.fst)
    (hall : ∀ name value, (name, value) ∈ values →
      SpelledFound SpelledBy (List.lookup name fields) (some value))
    (hperm : sorted.Perm values) : SpelledBy fields sorted := by
  have hsorted : (sorted.map Prod.fst).Perm (members.map Prod.fst) := by
    rw [← hkeys]
    exact hperm.map Prod.fst
  refine .mk (hsorted.nodup_iff.mpr hspelled.noRepeats) fun name => ?_
  cases hvalue : List.lookup name sorted with
  | some value => exact hall name value (hperm.mem_iff.mp (mem_of_lookup hvalue))
  | none =>
    rw [lookup_eq_none_iff, hsorted.mem_iff, ← lookup_eq_none_iff] at hvalue
    rw [← hvalue]
    exact hspelled.found name

/-- A text that is spelled is read back as it is. -/
theorem readsBack_of_textSpelled {content : String} {json : Json.Value}
    (h : TextSpelled content json) (depth : Nat) :
    ∃ tree, HasTree json tree ∧ tree.value? depth = some json := by
  cases h with
  | string =>
    refine ⟨_, .string content, ?_⟩
    rw [Tree.value?, quotedText?_textParts, String.ofList_toList]
    rfl
  | @integer n hfits =>
    refine ⟨_, .integer n, ?_⟩
    rw [Tree.value?, value?_integerNumeral hfits]
    rfl
  | boolean value => exact ⟨_, .boolean value, rfl⟩

/-- Rows are read back if each one is. -/
theorem exists_itemValues? {depth : Nat} {items : List Fields}
    {rows : List (List (String × Json.Value))}
    (h : List.Forall₂ (fun item members => ∃ trees sorted, MembersHaveTrees members trees ∧
      (memberValues? depth trees).map Value.ofMembers = some (.object sorted) ∧
      SpelledBy item sorted) items rows) :
    ∃ trees sorted, ItemsHaveTrees (rows.map .object) trees ∧
      itemValues? (depth + 1) trees = some (sorted.map .object) ∧
      List.Forall₂ SpelledBy items sorted := by
  induction h with
  | nil => exact ⟨[], [], .nil, rfl, .nil⟩
  | cons hrow _ ih =>
    obtain ⟨trees, sorted, htrees, hvalue, hspelled⟩ := hrow
    obtain ⟨others, rest, hothers, hvalues, hrest⟩ := ih
    refine ⟨.object trees :: others, sorted :: rest, .cons (.object htrees) hothers, ?_,
      .cons hspelled hrest⟩
    rw [itemValues?, Tree.value?, hvalue, hvalues]
    rfl

/-- Members that spell a record are read back as members that spell it. -/
theorem exists_sorted {depth : Nat} {schema : Schema} {fields : Fields}
    {members : List (String × Json.Value)} (hschema : areRegular depth schema = true)
    (hfits : Fits schema fields) (hspelled : SpelledBy fields members) :
    ∃ trees sorted, MembersHaveTrees members trees ∧
      (memberValues? depth trees).map Value.ofMembers = some (.object sorted) ∧
      SpelledBy fields sorted := by
  induction fields using Fields.induction generalizing depth schema members with
  | step fields ih =>
  have hback : ∀ member ∈ members, ReadsBack depth fields member := by
    rintro ⟨name, json⟩ hmember
    have hkind := hspelled.kind hschema hfits name
    rw [lookup_of_mem hspelled.noRepeats hmember] at hkind
    generalize List.lookup name schema = declared at hkind
    generalize hvalue : List.lookup name fields = value at hkind
    cases hkind with
    | null => exact ⟨_, .null, .null, rfl, hvalue ▸ .null⟩
    | text _ htext =>
      obtain ⟨tree, htree, hread⟩ := readsBack_of_textSpelled htext depth
      exact ⟨tree, json, htree, hread, hvalue ▸ .text htext⟩
    | record hregular hfields hinner =>
      obtain ⟨trees, sorted, htrees, hread, hsorted⟩ :=
        ih name _ (mem_of_lookup hvalue) _ List.mem_cons_self hregular hfields hinner
      exact ⟨.object trees, .object sorted, .object htrees, hread, hvalue ▸ .record hsorted⟩
    | @records _ _ items rows hregular hrows =>
      have hboth := (List.forall₂_and_left items rows).mpr
        ⟨fun item (h : item ∈ items) => h, hrows⟩
      obtain ⟨trees, sorted, htrees, hread, hsorted⟩ :=
        exists_itemValues? (hboth.imp fun item _ h =>
          ih name _ (mem_of_lookup hvalue) item h.1 hregular h.2.1 h.2.2)
      refine ⟨.array trees, .array (sorted.map .object), .array htrees, ?_,
        hvalue ▸ .records hsorted⟩
      rw [Tree.value?, hread]
      rfl
  obtain ⟨trees, values, htrees, hvalues, hkeys, hall⟩ := exists_memberValues? hback
  have hdistinct : NoRepeats values := by
    rw [NoRepeats, hkeys]
    exact hspelled.noRepeats
  obtain ⟨sorted, hsorted, hperm⟩ := exists_ofMembers hdistinct
  refine ⟨trees, sorted, htrees, ?_, spelledBy_of_perm hspelled hkeys hall hperm⟩
  rw [hvalues, Option.map_some, hsorted]

end CallbackGateway.Record
