import CallbackGateway.Proofs.Json.Members
import CallbackGateway.Record.FromJson

/-!
# Unknown members

A member that a schema does not know is skipped, in any record and whatever it holds. A value is
pruned if the members that its kind does not know are dropped everywhere in it: it is read as
before, and documents that differ in such a member only are pruned to one value.
-/

namespace CallbackGateway.Record

open Json

/-! ## Pruned values -/

mutual

/-- A value without the members that a kind does not know. -/
def prune (kind : Kind) : Json.Value → Json.Value
  | .array items =>
    match kind with
    | .record schema => .array (prunePositions schema items)
    | .records schema => .array (pruneEach schema items)
    | _ => .array items
  | .object members =>
    match kind with
    | .record schema | .records schema => .object (pruneMembers schema members)
    | _ => .object members
  | value => value
termination_by structural value => value

/-- Items that are the fields of a record, pruned one by one. -/
def prunePositions (schema : Schema) : List Json.Value → List Json.Value
  | [] => []
  | item :: rest =>
    match schema with
    | [] => item :: rest
    | (_, kind) :: others => prune kind item :: prunePositions others rest
termination_by structural items => items

/-- Items that are records of one schema, pruned. -/
def pruneEach (schema : Schema) : List Json.Value → List Json.Value
  | [] => []
  | item :: rest => prune (.record schema) item :: pruneEach schema rest
termination_by structural items => items

/-- The members that a schema knows, pruned. -/
def pruneMembers (schema : Schema) : List (String × Json.Value) → List (String × Json.Value)
  | [] => []
  | member :: rest => pruneMember schema member ++ pruneMembers schema rest
termination_by structural members => members

/-- A member, pruned if a schema knows it. -/
def pruneMember (schema : Schema) : String × Json.Value → List (String × Json.Value)
  | (key, value) =>
    match List.lookup key schema with
    | none => []
    | some kind => [(key, prune kind value)]
termination_by structural member => member

end

variable {schema : Schema}

/-- An undeclared member is cut. -/
theorem pruneMember_unknown {key : String} (h : List.lookup key schema = none)
    (value : Json.Value) : pruneMember schema (key, value) = [] := by
  rw [pruneMember, h]

/-- A declared member stays, with its value pruned. -/
theorem pruneMember_known {key : String} {kind : Kind} (h : List.lookup key schema = some kind)
    (value : Json.Value) : pruneMember schema (key, value) = [(key, prune kind value)] := by
  rw [pruneMember, h]

/-- The items of a list are pruned one by one. -/
theorem pruneEach_eq_map (items : List Json.Value) :
    pruneEach schema items = items.map (prune (.record schema)) := by
  induction items with
  | nil => rfl
  | cons item rest ih => rw [pruneEach, ih, List.map_cons]

/-- The members of an object are pruned one by one. -/
theorem pruneMembers_eq_flatMap (members : List (String × Json.Value)) :
    pruneMembers schema members = members.flatMap (pruneMember schema) := by
  induction members with
  | nil => rfl
  | cons member rest ih => rw [pruneMembers, ih, List.flatMap_cons]

/-- A pruned value is an object just if the value is one. -/
theorem exists_object_of_prune {kind : Kind} {value : Json.Value}
    {members : List (String × Json.Value)} (h : prune kind value = .object members) :
    ∃ others, value = .object others := by
  cases value with
  | object others => exact ⟨others, rfl⟩
  | array items => cases kind <;> cases h
  | null | boolean | number | string => cases h

/-- Only null is pruned to null. -/
theorem eq_null_of_prune {kind : Kind} {value : Json.Value} (h : prune kind value = .null) :
    value = .null := by
  cases value with
  | null => rfl
  | boolean | number | string => cases h
  | array | object => cases kind <;> cases h

/-! ## Reading pruned values -/

mutual

/-- A pruned value is read as before. -/
theorem readValue_prune (kind : Kind) : ∀ value, readValue kind (prune kind value) =
    readValue kind value
  | .null | .boolean _ | .number _ | .string _ => rfl
  | .array items => by
    cases kind with
    | text | integer | real => rfl
    | record schema => rw [prune, readValue, readValue, readPositions_prune schema items]
    | records schema => rw [prune, readValue, readValue, readEach_prune schema items]
  | .object members => by
    cases kind with
    | text | integer | real | records => rfl
    | record schema => rw [prune, readValue, readValue, readMembers_prune schema members]
termination_by structural value => value

/-- A pruned array is read as the same record. -/
theorem readPositions_prune (schema : Schema) : ∀ items,
    readPositions schema (prunePositions schema items) = readPositions schema items
  | [] => rfl
  | item :: rest => by
    cases schema with
    | nil => rfl
    | cons field others =>
      rw [prunePositions, readPositions, readPositions, readValue_prune field.2 item,
        readPositions_prune others rest]
termination_by structural items => items

/-- A pruned array is read as the same list of records. -/
theorem readEach_prune (schema : Schema) : ∀ items,
    readEach schema (pruneEach schema items) = readEach schema items
  | [] => rfl
  | item :: rest => by
    rw [pruneEach, readEach, readEach, readValue_prune (.record schema) item,
      readEach_prune schema rest]
termination_by structural items => items

/-- Pruned members are read as the same record. -/
theorem readMembers_prune (schema : Schema) : ∀ members,
    readMembers schema (pruneMembers schema members) = readMembers schema members
  | [] => rfl
  | member :: rest => by
    have hmember := readMember_prune schema member
    obtain ⟨key, value⟩ := member
    rw [pruneMembers, readMembers]
    cases hkind : List.lookup key schema with
    | none =>
      rw [pruneMember_unknown hkind, readMember_unknown hkind, List.nil_append,
        readMembers_prune schema rest]
      cases readMembers schema rest <;> rfl
    | some kind =>
      rw [pruneMember_known hkind, List.singleton_append, readMembers, hmember kind hkind,
        readMembers_prune schema rest]
termination_by structural members => members

/-- A declared member with its value pruned is read as the same fields. -/
theorem readMember_prune (schema : Schema) : ∀ (member : String × Json.Value) (kind : Kind),
    List.lookup member.1 schema = some kind →
      readMember schema (member.1, prune kind member.2) = readMember schema member
  | (key, value), kind, hkind => by
    by_cases hnull : value = .null
    · subst hnull
      rfl
    · have hprune : prune kind value ≠ .null := fun h => hnull (eq_null_of_prune h)
      rw [readMember_known hkind hprune, readMember_known hkind hnull, readValue_prune kind value]
termination_by structural member => member

end

/-! ## Pruned objects -/

/-- An undeclared member in front is cut. -/
theorem pruneMembers_cons_unknown {key : String} (h : List.lookup key schema = none)
    (value : Json.Value) (rest : List (String × Json.Value)) :
    pruneMembers schema ((key, value) :: rest) = pruneMembers schema rest := by
  rw [pruneMembers, pruneMember_unknown h, List.nil_append]

/-- A declared member in front stays, with its value pruned. -/
theorem pruneMembers_cons_known {key : String} {kind : Kind}
    (h : List.lookup key schema = some kind) (value : Json.Value)
    (rest : List (String × Json.Value)) :
    pruneMembers schema ((key, value) :: rest) =
      (key, prune kind value) :: pruneMembers schema rest := by
  rw [pruneMembers, pruneMember_known h, List.singleton_append]

/-- Members in two parts are pruned part by part. -/
theorem pruneMembers_append (first second : List (String × Json.Value)) :
    pruneMembers schema (first ++ second) =
      pruneMembers schema first ++ pruneMembers schema second := by
  simp only [pruneMembers_eq_flatMap, List.flatMap_append]

/-- A pruned object has no new keys. -/
theorem exists_of_mem_pruneMembers {member : String × Json.Value}
    {members : List (String × Json.Value)} (h : member ∈ pruneMembers schema members) :
    ∃ other ∈ members, other.1 = member.1 := by
  rw [pruneMembers_eq_flatMap] at h
  obtain ⟨⟨key, value⟩, hother, hmem⟩ := List.mem_flatMap.mp h
  refine ⟨_, hother, ?_⟩
  rw [pruneMember] at hmem
  split at hmem
  · cases hmem
  · obtain rfl := List.mem_singleton.mp hmem
    rfl

section Insert

variable {key : String} {found : List (String × Json.Value)}

/-- An unknown member of an object is dropped again. -/
theorem pruneMembers_insertMember_unknown (h : List.lookup key schema = none)
    (value : Json.Value) :
    pruneMembers schema (insertMember key value found) = pruneMembers schema found := by
  induction found with
  | nil => exact pruneMembers_cons_unknown h value []
  | cons member rest ih =>
    obtain ⟨other, held⟩ := member
    rw [insertMember]
    split
    · rename_i hsame
      subst hsame
      rw [pruneMembers_cons_unknown h, pruneMembers_cons_unknown h]
    · split
      · rw [pruneMembers_cons_unknown h]
      · rw [pruneMembers, pruneMembers, ih]

/-- A known member of an object stands at the same place once the object is pruned. -/
theorem pruneMembers_insertMember_known {kind : Kind} (h : List.lookup key schema = some kind)
    (value : Json.Value) (hsorted : Sorted found) :
    pruneMembers schema (insertMember key value found) =
      insertMember key (prune kind value) (pruneMembers schema found) := by
  induction found with
  | nil => exact pruneMembers_cons_known h value []
  | cons member rest ih =>
    obtain ⟨other, held⟩ := member
    obtain ⟨hfirst, hrest⟩ := List.pairwise_cons.mp hsorted
    rw [insertMember]
    split
    · rename_i hsame
      subst hsame
      rw [pruneMembers_cons_known h, pruneMembers_cons_known h, insertMember, if_pos rfl]
    · rename_i hne
      split
      · rename_i hlt
        rw [pruneMembers_cons_known h, insertMember_of_lt]
        intro member hmember
        obtain ⟨known, hknown, hkey⟩ := exists_of_mem_pruneMembers hmember
        rw [← hkey]
        rcases List.mem_cons.mp hknown with rfl | hknown
        · exact hlt
        · exact String.lt_trans hlt (hfirst known hknown)
      · rename_i hle
        rw [pruneMembers, pruneMembers, ih hrest]
        cases hother : List.lookup other schema with
        | none => rw [pruneMember_unknown hother, List.nil_append, List.nil_append]
        | some declared =>
          rw [pruneMember_known hother, List.singleton_append, List.singleton_append,
            insertMember, if_neg hne, if_neg hle]

/-- Members are pruned before or after they are put in order. -/
theorem pruneMembers_foldl_insertMember (members : List (String × Json.Value))
    (hsorted : Sorted found) :
    pruneMembers schema (members.foldl (fun found (key, value) => insertMember key value found)
        found) =
      (pruneMembers schema members).foldl (fun found (key, value) => insertMember key value found)
        (pruneMembers schema found) := by
  induction members generalizing found with
  | nil => rfl
  | cons member members ih =>
    obtain ⟨key, value⟩ := member
    rw [List.foldl_cons, ih hsorted.insertMember]
    cases hkind : List.lookup key schema with
    | none =>
      rw [pruneMembers_insertMember_unknown hkind, pruneMembers_cons_unknown hkind]
    | some kind =>
      rw [pruneMembers_insertMember_known hkind value hsorted, pruneMembers_cons_known hkind,
        List.foldl_cons]

end Insert

/-- An object is pruned by its members. -/
theorem prune_ofMembers {kind : Kind} (hkind : kind = .record schema ∨ kind = .records schema)
    (members : List (String × Json.Value)) :
    prune kind (.ofMembers members) = .ofMembers (pruneMembers schema members) := by
  rw [Json.Value.ofMembers, Json.Value.ofMembers]
  rcases hkind with rfl | rfl <;>
    rw [prune, pruneMembers_foldl_insertMember members List.Pairwise.nil, pruneMembers]

/-! ## One member more -/

/-- The kind that a schema declares for the members of a key. -/
def memberKind? (schema : Schema) (key : Quoted) : Option Kind :=
  (quotedText? key).bind fun name => List.lookup name schema

/-- Trees of which the second has one member more, in a record of the first whose schema does not
know the key. Records stand in members, in arrays of records, and at the positions of a record
that is written as an array; an object may stand for an array of one record. -/
inductive AddsMember : Kind → Tree → Tree → Prop
  | here {schema : Schema} {key : Quoted} (hkey : memberKind? schema key = none) (added : Tree)
      (before after : List (Quoted × Tree)) :
      AddsMember (.record schema) (.object (before ++ after))
        (.object (before ++ (key, added) :: after))
  | member {schema : Schema} {key : Quoted} {kind : Kind} {tree wider : Tree}
      (hkey : memberKind? schema key = some kind) (before after : List (Quoted × Tree)) :
      AddsMember kind tree wider →
      AddsMember (.record schema) (.object (before ++ (key, tree) :: after))
        (.object (before ++ (key, wider) :: after))
  | item {schema : Schema} {tree wider : Tree} (before after : List Tree) :
      AddsMember (.record schema) tree wider →
      AddsMember (.records schema) (.array (before ++ tree :: after))
        (.array (before ++ wider :: after))
  | position {schema : Schema} {name : String} {kind : Kind} {tree wider : Tree}
      {before : List Tree} (hkind : schema[before.length]? = some (name, kind))
      (after : List Tree) :
      AddsMember kind tree wider →
      AddsMember (.record schema) (.array (before ++ tree :: after))
        (.array (before ++ wider :: after))
  | sole {schema : Schema} {members others : List (Quoted × Tree)} :
      AddsMember (.record schema) (.object members) (.object others) →
      AddsMember (.records schema) (.object members) (.object others)

/-! ## Values of trees -/

/-- The values of members are those of each of them, if all have one. -/
theorem memberValues?_eq_mapM (depth : Nat) (members : List (Quoted × Tree)) :
    memberValues? depth members = members.mapM (memberValue? depth) := by
  induction members with
  | nil => rfl
  | cons member rest ih => rw [memberValues?, List.mapM_cons, ih]

/-- The values of items are those of each of them, if all have one. -/
theorem itemValues?_eq_mapM (depth : Nat) (items : List Tree) :
    itemValues? depth items = items.mapM (Tree.value? depth) := by
  induction items with
  | nil => rfl
  | cons item rest ih => rw [itemValues?, List.mapM_cons, ih]

/-- The value of an object is made of the values of its members, one level down. -/
theorem exists_of_value?_object {members : List (Quoted × Tree)} {depth : Nat}
    {value : Json.Value} (h : (Tree.object members).value? depth = some value) :
    ∃ values, members.mapM (memberValue? (depth - 1)) = some values ∧
      value = .ofMembers values := by
  cases depth with
  | zero => cases h
  | succ inner =>
    rw [Tree.value?, memberValues?_eq_mapM] at h
    obtain ⟨values, hvalues, rfl⟩ := Option.map_eq_some_iff.mp h
    exact ⟨values, hvalues, rfl⟩

/-- The value of an array is made of the values of its items, one level down. -/
theorem exists_of_value?_array {items : List Tree} {depth : Nat} {value : Json.Value}
    (h : (Tree.array items).value? depth = some value) :
    ∃ values, items.mapM (Tree.value? (depth - 1)) = some values ∧ value = .array values := by
  cases depth with
  | zero => cases h
  | succ inner =>
    rw [Tree.value?, itemValues?_eq_mapM] at h
    obtain ⟨values, hvalues, rfl⟩ := Option.map_eq_some_iff.mp h
    exact ⟨values, hvalues, rfl⟩

/-- The value of a member is its key's text with the value of its tree. -/
theorem exists_of_memberValue? {key : Quoted} {tree : Tree} {depth : Nat}
    {member : String × Json.Value} (h : memberValue? depth (key, tree) = some member) :
    ∃ name value, member = (name, value) ∧ quotedText? key = some name ∧
      tree.value? depth = some value := by
  rw [memberValue?] at h
  obtain ⟨name, hname, h⟩ := Option.bind_eq_some_iff.mp h
  obtain ⟨value, hvalue, h⟩ := Option.bind_eq_some_iff.mp h
  exact ⟨name, value, (Option.some.inj h).symm, hname, hvalue⟩

/-- The kind of a member is the one declared under its key's text. -/
theorem lookup_of_memberKind? {key : Quoted} {name : String} {kind : Option Kind}
    (h : memberKind? schema key = kind) (hname : quotedText? key = some name) :
    List.lookup name schema = kind := by
  rw [← h, memberKind?, hname, Option.bind_some]

section Parts

variable {α β : Type} {f : α → Option β} {before after : List α} {a : α} {values : List β}

/-- A list in two parts is mapped part by part. -/
theorem exists_of_mapM_append (h : (before ++ after).mapM f = some values) :
    ∃ first second, values = first ++ second ∧ before.mapM f = some first ∧
      after.mapM f = some second := by
  rw [List.mapM_append] at h
  obtain ⟨first, hfirst, h⟩ := Option.bind_eq_some_iff.mp h
  obtain ⟨second, hsecond, h⟩ := Option.bind_eq_some_iff.mp h
  exact ⟨first, second, (Option.some.inj h).symm, hfirst, hsecond⟩

/-- A list around an item is mapped through the value of the item. -/
theorem exists_of_mapM_append_cons (h : (before ++ a :: after).mapM f = some values) :
    ∃ first b second, values = first ++ b :: second ∧ before.mapM f = some first ∧
      f a = some b ∧ after.mapM f = some second := by
  obtain ⟨first, others, rfl, hfirst, hothers⟩ := exists_of_mapM_append h
  rw [List.mapM_cons] at hothers
  obtain ⟨b, hb, hothers⟩ := Option.bind_eq_some_iff.mp hothers
  obtain ⟨second, hsecond, hothers⟩ := Option.bind_eq_some_iff.mp hothers
  exact ⟨first, b, second, by rw [Option.some.inj hothers], hfirst, hb, hsecond⟩

/-- A mapped list is as long as the list. -/
theorem length_of_mapM (h : before.mapM f = some values) : values.length = before.length := by
  induction before generalizing values with
  | nil =>
    obtain rfl := Option.some.inj h
    rfl
  | cons a rest ih =>
    rw [List.mapM_cons] at h
    obtain ⟨b, -, h⟩ := Option.bind_eq_some_iff.mp h
    obtain ⟨others, hothers, h⟩ := Option.bind_eq_some_iff.mp h
    obtain rfl := Option.some.inj h
    rw [List.length_cons, List.length_cons, ih hothers]

/-- Lists that differ in one element have values that differ in one. -/
theorem exists_of_mapM_pair {a' : α} {others : List β}
    (h : (before ++ a :: after).mapM f = some values)
    (hother : (before ++ a' :: after).mapM f = some others) :
    ∃ first b b' second, values = first ++ b :: second ∧ others = first ++ b' :: second ∧
      first.length = before.length ∧ f a = some b ∧ f a' = some b' := by
  obtain ⟨first, b, second, rfl, hfirst, hb, hsecond⟩ := exists_of_mapM_append_cons h
  obtain ⟨first', b', second', rfl, hfirst', hb', hsecond'⟩ := exists_of_mapM_append_cons hother
  obtain rfl := Option.some.inj (hfirst.symm.trans hfirst')
  obtain rfl := Option.some.inj (hsecond.symm.trans hsecond')
  exact ⟨first, b, b', second, rfl, rfl, length_of_mapM hfirst, hb, hb'⟩

end Parts

/-- Two values at one position of a record that are pruned to one value make no difference. -/
theorem prunePositions_congr {name : String} {kind : Kind} {before : List Json.Value}
    {value other : Json.Value} (hkind : schema[before.length]? = some (name, kind))
    (h : prune kind value = prune kind other) (after : List Json.Value) :
    prunePositions schema (before ++ value :: after) =
      prunePositions schema (before ++ other :: after) := by
  induction before generalizing schema with
  | nil =>
    cases schema with
    | nil => simp at hkind
    | cons field others =>
      obtain rfl : field = (name, kind) := by simpa using hkind
      rw [List.nil_append, List.nil_append, prunePositions, prunePositions, h]
  | cons item before ih =>
    cases schema with
    | nil => simp at hkind
    | cons field others =>
      rw [List.cons_append, List.cons_append, prunePositions, prunePositions,
        ih (by simpa using hkind)]

/-- Values that differ in an unknown member are pruned to one value. -/
theorem AddsMember.prune_eq {kind : Kind} {tree wider : Tree} (h : AddsMember kind tree wider)
    {depth : Nat} {value other : Json.Value} (hvalue : tree.value? depth = some value)
    (hother : wider.value? depth = some other) : prune kind value = prune kind other := by
  induction h generalizing depth value other with
  | @here schema key hkey added before after =>
    obtain ⟨members, hmembers, rfl⟩ := exists_of_value?_object hvalue
    obtain ⟨others, hothers, rfl⟩ := exists_of_value?_object hother
    obtain ⟨first, second, rfl, hfirst, hsecond⟩ := exists_of_mapM_append hmembers
    obtain ⟨first', member, second', rfl, hfirst', hmember, hsecond'⟩ :=
      exists_of_mapM_append_cons hothers
    obtain rfl := Option.some.inj (hfirst.symm.trans hfirst')
    obtain rfl := Option.some.inj (hsecond.symm.trans hsecond')
    obtain ⟨name, value, rfl, hname, -⟩ := exists_of_memberValue? hmember
    rw [prune_ofMembers (.inl rfl), prune_ofMembers (.inl rfl), pruneMembers_append,
      pruneMembers_append, pruneMembers_cons_unknown (lookup_of_memberKind? hkey hname)]
  | @member schema key kind tree wider hkey before after _ ih =>
    obtain ⟨members, hmembers, rfl⟩ := exists_of_value?_object hvalue
    obtain ⟨others, hothers, rfl⟩ := exists_of_value?_object hother
    obtain ⟨first, member, member', second, rfl, rfl, -, hmember, hmember'⟩ :=
      exists_of_mapM_pair hmembers hothers
    obtain ⟨name, value, rfl, hname, hvalue⟩ := exists_of_memberValue? hmember
    obtain ⟨name', value', rfl, hname', hvalue'⟩ := exists_of_memberValue? hmember'
    obtain rfl := Option.some.inj (hname.symm.trans hname')
    have hkind := lookup_of_memberKind? hkey hname
    rw [prune_ofMembers (.inl rfl), prune_ofMembers (.inl rfl), pruneMembers_append,
      pruneMembers_append, pruneMembers_cons_known hkind, pruneMembers_cons_known hkind,
      ih hvalue hvalue']
  | @item schema tree wider before after _ ih =>
    obtain ⟨items, hitems, rfl⟩ := exists_of_value?_array hvalue
    obtain ⟨others, hothers, rfl⟩ := exists_of_value?_array hother
    obtain ⟨first, value, value', second, rfl, rfl, -, hvalue, hvalue'⟩ :=
      exists_of_mapM_pair hitems hothers
    rw [prune, prune, pruneEach_eq_map, pruneEach_eq_map, List.map_append, List.map_append,
      List.map_cons, List.map_cons, ih hvalue hvalue']
  | @position schema name kind tree wider before hkind after _ ih =>
    obtain ⟨items, hitems, rfl⟩ := exists_of_value?_array hvalue
    obtain ⟨others, hothers, rfl⟩ := exists_of_value?_array hother
    obtain ⟨first, value, value', second, rfl, rfl, hlength, hvalue, hvalue'⟩ :=
      exists_of_mapM_pair hitems hothers
    rw [← hlength] at hkind
    rw [prune, prune, prunePositions_congr hkind (ih hvalue hvalue')]
  | sole _ ih =>
    have hsame := ih hvalue hother
    obtain ⟨members, -, rfl⟩ := exists_of_value?_object hvalue
    obtain ⟨others, -, rfl⟩ := exists_of_value?_object hother
    rw [prune_ofMembers (.inl rfl), prune_ofMembers (.inl rfl)] at hsame
    rw [prune_ofMembers (.inr rfl), prune_ofMembers (.inr rfl), hsame]

end CallbackGateway.Record
