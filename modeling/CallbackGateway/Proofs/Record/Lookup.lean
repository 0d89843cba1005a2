import CallbackGateway.Record.Schema

/-!
# Look-ups in records without repetition

If no name comes twice, what is found under a name is what stands there, wherever it stands.
-/

namespace CallbackGateway.Record

variable {α : Type} {entries others : List (String × α)} {name : String} {value : α}

/-- Whether no name comes twice. -/
def NoRepeats (entries : List (String × α)) : Prop := (entries.map Prod.fst).Nodup

instance (entries : List (String × α)) : Decidable (NoRepeats entries) :=
  inferInstanceAs (Decidable (entries.map Prod.fst).Nodup)

/-- A value that is found under a name stands in the list under it. -/
theorem mem_of_lookup (h : List.lookup name entries = some value) : (name, value) ∈ entries := by
  obtain ⟨before, after, rfl, -⟩ := List.lookup_eq_some_iff.mp h
  exact List.mem_append_right _ List.mem_cons_self

/-- Nothing is found under a name just if the name is not in the list. -/
theorem lookup_eq_none_iff : List.lookup name entries = none ↔ name ∉ entries.map Prod.fst := by
  rw [List.lookup_eq_none_iff, List.mem_map]
  constructor
  · rintro h ⟨entry, hentry, rfl⟩
    simpa using h entry hentry
  · intro h entry hentry
    rw [bne_iff_ne]
    rintro rfl
    exact h ⟨entry, hentry, rfl⟩

/-- A list repeats no name just if its first name is not in the rest and the rest repeats none. -/
theorem noRepeats_cons : NoRepeats ((name, value) :: entries) ↔
    name ∉ entries.map Prod.fst ∧ NoRepeats entries := List.nodup_cons

/-- What stands in the entries is found. -/
theorem lookup_of_mem (hentries : NoRepeats entries) (h : (name, value) ∈ entries) :
    List.lookup name entries = some value := by
  induction entries with
  | nil => simp at h
  | cons entry entries ih =>
    obtain ⟨other, held⟩ := entry
    obtain ⟨hnew, hrest⟩ := noRepeats_cons.mp hentries
    rcases List.mem_cons.mp h with hfirst | hmem
    · obtain ⟨rfl, rfl⟩ := Prod.mk.inj hfirst
      exact List.lookup_cons_self
    · have hne : name ≠ other := by
        rintro rfl
        exact hnew (List.mem_map_of_mem (f := Prod.fst) hmem)
      rw [List.lookup_cons, beq_false_of_ne hne]
      exact ih hrest hmem

/-- What is found under a name once the values under one key were changed. -/
theorem lookup_updated {key : String} {update : α → α} (name : String)
    (entries : List (String × α)) :
    List.lookup name (entries.map fun (other, value) =>
      (other, if other = key then update value else value)) =
        (List.lookup name entries).map fun value => if name = key then update value else value := by
  induction entries with
  | nil => rfl
  | cons entry entries ih =>
    obtain ⟨other, value⟩ := entry
    rw [List.map_cons, List.lookup_cons, List.lookup_cons, ih]
    by_cases hname : name = other
    · subst hname
      rw [beq_self_eq_true]
      rfl
    · rw [beq_false_of_ne hname]

/-- The order of the entries does not matter. -/
theorem lookup_of_perm (hentries : NoRepeats entries) (hperm : entries.Perm others)
    (name : String) : List.lookup name entries = List.lookup name others := by
  have hothers : NoRepeats others := (hperm.map Prod.fst).nodup_iff.mp hentries
  cases hvalue : List.lookup name others with
  | none =>
    rw [lookup_eq_none_iff] at hvalue ⊢
    exact fun hmem => hvalue ((hperm.map Prod.fst).mem_iff.mp hmem)
  | some value => exact lookup_of_mem hentries (hperm.mem_iff.mpr (mem_of_lookup hvalue))

end CallbackGateway.Record
