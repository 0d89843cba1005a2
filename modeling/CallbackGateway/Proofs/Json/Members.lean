import CallbackGateway.Json.Value
import CallbackGateway.Proofs.Record.Lookup

/-!
# Sorted members

An object keeps its members in the order of their keys, each of them once. Members whose keys
differ are only put into another order.
-/

namespace CallbackGateway.Json

open Record

/-- A member with a new key is added. -/
theorem insertMember_perm {key : String} {value : Value} {members : List (String × Value)}
    (h : key ∉ members.map Prod.fst) :
    (insertMember key value members).Perm ((key, value) :: members) := by
  induction members with
  | nil => exact .refl _
  | cons member members ih =>
    obtain ⟨other, held⟩ := member
    have hne : key ≠ other := by
      rintro rfl
      exact h List.mem_cons_self
    rw [insertMember, if_neg hne]
    split
    · exact .refl _
    · have hrest := ih fun hmem => h (List.mem_cons_of_mem _ hmem)
      exact (hrest.cons (other, held)).trans (.swap _ _ _)

/-- Members are added to others in any order. -/
theorem foldl_insertMember_perm {members found : List (String × Value)}
    (h : NoRepeats (members ++ found)) :
    (members.foldl (fun found (key, value) => insertMember key value found) found).Perm
      (members ++ found) := by
  induction members generalizing found with
  | nil => exact .refl _
  | cons member members ih =>
    obtain ⟨key, value⟩ := member
    rw [List.cons_append] at h
    obtain ⟨hnew, -⟩ := noRepeats_cons.mp h
    rw [List.map_append, List.mem_append, not_or] at hnew
    have hinsert : (insertMember key value found).Perm ((key, value) :: found) :=
      insertMember_perm hnew.2
    have hnext : (members ++ insertMember key value found).Perm
        ((key, value) :: (members ++ found)) :=
      (hinsert.append_left members).trans List.perm_middle
    have hkeys : NoRepeats (members ++ insertMember key value found) :=
      (hnext.map Prod.fst).nodup_iff.mpr h
    rw [List.foldl_cons]
    exact (ih hkeys).trans hnext

/-- An object has the members that it was made of. -/
theorem exists_ofMembers {members : List (String × Value)} (h : NoRepeats members) :
    ∃ sorted, Value.ofMembers members = .object sorted ∧ sorted.Perm members := by
  have hkeys : NoRepeats (members ++ []) := by rwa [List.append_nil]
  have hperm := foldl_insertMember_perm hkeys
  rw [List.append_nil] at hperm
  exact ⟨_, rfl, hperm⟩

/-! ## The order of the keys -/

/-- Whether members are in the order of their keys, and no key comes twice. -/
def Sorted (members : List (String × Value)) : Prop :=
  members.Pairwise fun first second => first.1 < second.1

instance (members : List (String × Value)) : Decidable (Sorted members) :=
  inferInstanceAs (Decidable (members.Pairwise _))

variable {key : String} {value : Value} {members : List (String × Value)}

/-- A key before all others goes to the front. -/
theorem insertMember_of_lt (h : ∀ member ∈ members, key < member.1) :
    insertMember key value members = (key, value) :: members := by
  cases members with
  | nil => rfl
  | cons member rest =>
    have hlt : key < member.1 := h member List.mem_cons_self
    have hne : key ≠ member.1 := fun hsame => String.lt_irrefl _ (hsame ▸ hlt)
    rw [insertMember, if_neg hne, if_pos hlt]

/-- What is among the members after one was put there. -/
theorem mem_insertMember {member : String × Value} (h : member ∈ insertMember key value members) :
    member = (key, value) ∨ member ∈ members := by
  induction members with
  | nil => exact .inl (List.mem_singleton.mp h)
  | cons first rest ih =>
    rw [insertMember] at h
    split at h
    · rcases List.mem_cons.mp h with rfl | hmem
      · exact .inl rfl
      · exact .inr (List.mem_cons_of_mem _ hmem)
    · split at h
      · exact (List.mem_cons.mp h).imp id id
      · rcases List.mem_cons.mp h with rfl | hmem
        · exact .inr List.mem_cons_self
        · exact (ih hmem).imp_right (List.mem_cons_of_mem _)

/-- A member is put where the keys stay sorted. -/
theorem Sorted.insertMember (h : Sorted members) : Sorted (insertMember key value members) := by
  induction members with
  | nil => exact List.pairwise_singleton _ _
  | cons first rest ih =>
    obtain ⟨hfirst, hrest⟩ := List.pairwise_cons.mp h
    rw [Json.insertMember]
    split
    · rename_i hsame
      refine List.pairwise_cons.mpr ⟨fun member hmem => ?_, hrest⟩
      rw [hsame]
      exact hfirst member hmem
    · rename_i hne
      split
      · rename_i hlt
        refine List.pairwise_cons.mpr ⟨fun member hmem => ?_, h⟩
        rcases List.mem_cons.mp hmem with rfl | hmem
        · exact hlt
        · exact String.lt_trans hlt (hfirst member hmem)
      · rename_i hle
        have hlt : first.1 < key := Std.lt_of_le_of_ne (String.not_lt.mp hle) (Ne.symm hne)
        refine List.pairwise_cons.mpr ⟨fun member hmem => ?_, ih hrest⟩
        rcases mem_insertMember hmem with rfl | hmem
        · exact hlt
        · exact hfirst member hmem

/-- Members that were put in one after another are among those that were given or were there. -/
theorem mem_foldl_insertMember {found : List (String × Value)} {member : String × Value}
    (h : member ∈
      members.foldl (fun found (key, value) => Json.insertMember key value found) found) :
    member ∈ members ∨ member ∈ found := by
  induction members generalizing found with
  | nil => exact .inr h
  | cons first rest ih =>
    rcases ih h with hmem | hmem
    · exact .inl (List.mem_cons_of_mem _ hmem)
    · rcases mem_insertMember hmem with rfl | hmem
      · exact .inl List.mem_cons_self
      · exact .inr hmem

/-- Members that are put in one after another stay sorted. -/
theorem Sorted.foldl_insertMember {found : List (String × Value)} (h : Sorted found) :
    Sorted (members.foldl (fun found (key, value) => Json.insertMember key value found) found) := by
  induction members generalizing found with
  | nil => exact h
  | cons first rest ih => exact ih h.insertMember

/-- An object has sorted members, each of which it was made of. -/
theorem exists_sorted_ofMembers (members : List (String × Value)) :
    ∃ sorted, Value.ofMembers members = .object sorted ∧ Sorted sorted ∧
      ∀ member ∈ sorted, member ∈ members := by
  refine ⟨_, rfl, Sorted.foldl_insertMember List.Pairwise.nil, fun member hmem => ?_⟩
  exact (mem_foldl_insertMember hmem).resolve_right (List.not_mem_nil)

/-- Sorted members have different keys. -/
theorem Sorted.noRepeats (h : Sorted members) : NoRepeats members := by
  rw [NoRepeats, List.Nodup, List.pairwise_map]
  refine h.imp fun {first second} hlt => ?_
  intro hsame
  rw [hsame] at hlt
  exact String.lt_irrefl _ hlt

/-- Sorted members stay in their order. -/
theorem Sorted.ofMembers_eq (h : Sorted members) : Value.ofMembers members = .object members := by
  obtain ⟨others, hothers, hperm⟩ := exists_ofMembers h.noRepeats
  obtain ⟨sorted, hsorted, hpairwise, -⟩ := exists_sorted_ofMembers members
  obtain rfl := Value.object.inj (hothers.symm.trans hsorted)
  rw [hothers, List.Perm.eq_of_pairwise (fun first second _ _ hlt hgt =>
    absurd (String.lt_trans hlt hgt) (String.lt_irrefl _)) hpairwise h hperm]

end CallbackGateway.Json
