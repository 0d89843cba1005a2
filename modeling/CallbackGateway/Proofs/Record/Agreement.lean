import CallbackGateway.Proofs.Record.Alike
import CallbackGateway.Proofs.Record.Lookup

/-!
# Two readings that agree

Two readings agree if both fail, or both succeed with results that are related. Records that are
collected field by field agree as soon as they do so under every name, in whatever order the
fields stand.
-/

namespace CallbackGateway

/-- A changed result is a change of a result. -/
theorem exists_of_map_eq_ok {α β ε : Type} {f : α → β} {result : Except ε α} {b : β}
    (h : result.map f = .ok b) : ∃ a, result = .ok a ∧ f a = b := by
  cases result with
  | error e => cases h
  | ok a => exact ⟨a, rfl, Except.ok.inj h⟩

/-- A result that is worked on further is a result. -/
theorem exists_of_bind_eq_ok {α β ε : Type} {result : Except ε α} {next : α → Except ε β} {b : β}
    (h : result.bind next = .ok b) : ∃ a, result = .ok a ∧ next a = .ok b := by
  cases result with
  | error e => cases h
  | ok a => exact ⟨a, rfl, h⟩

/-- Where an error was renamed, a result stays as it is. -/
theorem eq_ok_of_mapError {α ε ε' : Type} {f : ε → ε'} {result : Except ε α} {a : α}
    (h : result.mapError f = .ok a) : result = .ok a := by
  cases result with
  | error e => cases h
  | ok a => exact congrArg Except.ok (Except.ok.inj h)

/-- Both results are errors, or both are values that are related. -/
inductive Agree {α β ε ι : Type} (related : α → β → Prop) : Except ε α → Except ι β → Prop
  | ok {a : α} {b : β} (h : related a b) : Agree related (.ok a) (.ok b)
  | error (e : ε) (i : ι) : Agree related (.error e) (.error i)

namespace Agree

variable {α β γ δ ε ι ε' ι' : Type} {related : α → β → Prop} {linked : γ → δ → Prop}
  {first : Except ε α} {second : Except ι β}

/-- Results that agree still do after functions that keep the relation. -/
theorem map {f : α → γ} {g : β → δ} (h : Agree related first second)
    (hmap : ∀ {a b}, related a b → linked (f a) (g b)) :
    Agree linked (first.map f) (second.map g) := by
  cases h with
  | ok h => exact .ok (hmap h)
  | error e i => exact .error e i

/-- Agreement looks at no error, so errors may be rewritten on either side. -/
theorem mapError {f : ε → ε'} {g : ι → ι'} (h : Agree related first second) :
    Agree related (first.mapError f) (second.mapError g) := by
  cases h with
  | ok h => exact .ok h
  | error e i => exact .error (f e) (g i)

/-- Lists that are read item by item agree if their items do. -/
theorem mapM {f : α → Except ε γ} {g : β → Except ι δ} {items : List α} {others : List β}
    (h : List.Forall₂ (fun a b => Agree linked (f a) (g b)) items others) :
    Agree (List.Forall₂ linked) (items.mapM f) (others.mapM g) := by
  induction h with
  | nil => exact .ok .nil
  | @cons a b items others hitem _ ih =>
    rw [List.mapM_cons, List.mapM_cons]
    generalize f a = left at hitem ⊢
    generalize g b = right at hitem ⊢
    cases hitem with
    | error e i => exact .error e i
    | ok hitem =>
      generalize items.mapM f = left at ih ⊢
      generalize others.mapM g = right at ih ⊢
      cases ih with
      | error e i => exact .error e i
      | ok hrest => exact .ok (.cons hitem hrest)

end Agree

namespace Record

/-! ## Collecting fields -/

variable {α β : Type}

/-- Collect the fields that are read from entries one by one. -/
def collect (read : String × α → Except RecordError Fields) :
    List (String × α) → Except RecordError Fields
  | [] => .ok []
  | entry :: rest => do
    let found ← read entry
    let others ← collect read rest
    return found ++ others

/-- Whether an entry is read as its own field, if it is read as a field at all. -/
def ReadsOwnField (read : String × α → Except RecordError Fields) : Prop :=
  ∀ name a found, read (name, a) = .ok found → found = [] ∨ ∃ value, found = [(name, value)]

/-- What is found under a name in the fields that are read from an optional entry. -/
def readUnder (read : String × α → Except RecordError Fields) (name : String) :
    Option α → Except RecordError (Option Value)
  | none => .ok none
  | some a => (read (name, a)).map (List.lookup name)

variable {read : String × α → Except RecordError Fields} {entries : List (String × α)}
  {fields : Fields}

/-- Entries are collected just if the first one and all others are read, and the fields stand in
their order. -/
theorem collect_cons_eq_ok {entry : String × α} (h : collect read (entry :: entries) = .ok fields) :
    ∃ found others, read entry = .ok found ∧ collect read entries = .ok others ∧
      fields = found ++ others := by
  rw [collect] at h
  cases hfound : read entry with
  | error e => simp [hfound, bind, Except.bind] at h
  | ok found =>
    cases hothers : collect read entries with
    | error e => simp [hfound, hothers, bind, Except.bind] at h
    | ok others =>
      simp only [hfound, hothers, bind, Except.bind, pure, Except.pure, Except.ok.injEq] at h
      exact ⟨found, others, rfl, rfl, h.symm⟩

/-- The fields that are collected are found under the names of their entries. -/
theorem readUnder_of_collect (hread : ReadsOwnField read) (hentries : NoRepeats entries)
    (h : collect read entries = .ok fields) (name : String) :
    readUnder read name (List.lookup name entries) = .ok (List.lookup name fields) := by
  induction entries generalizing fields with
  | nil =>
    cases h
    rfl
  | cons entry entries ih =>
    obtain ⟨other, a⟩ := entry
    obtain ⟨found, others, hfound, hothers, rfl⟩ := collect_cons_eq_ok h
    obtain ⟨hnew, hrest⟩ := noRepeats_cons.mp hentries
    have hlater := ih hrest hothers
    rw [List.lookup_append, List.lookup_cons]
    by_cases hname : name = other
    · subst hname
      rw [lookup_eq_none_iff.mpr hnew] at hlater
      rw [beq_self_eq_true, ← Except.ok.inj hlater, Option.or_none]
      dsimp only
      rw [readUnder, hfound]
      rfl
    · have hnone : List.lookup name found = none := by
        rcases hread other a found hfound with rfl | ⟨value, rfl⟩
        · rfl
        · rw [List.lookup_cons, beq_false_of_ne hname]
          rfl
      rw [beq_false_of_ne hname, hnone, Option.none_or]
      exact hlater

/-- If fields cannot be collected, the first entry that cannot be read gives the error. -/
theorem exists_error_of_collect {e : RecordError} (h : collect read entries = .error e) :
    ∃ name a, (name, a) ∈ entries ∧ read (name, a) = .error e := by
  induction entries with
  | nil => cases h
  | cons entry entries ih =>
    obtain ⟨name, a⟩ := entry
    rw [collect] at h
    cases hfound : read (name, a) with
    | error cause =>
      rw [hfound] at h
      obtain rfl := Except.error.inj h
      exact ⟨name, a, List.mem_cons_self, hfound⟩
    | ok found =>
      cases hothers : collect read entries with
      | error cause =>
        rw [hfound, hothers] at h
        obtain rfl := Except.error.inj h
        obtain ⟨other, b, hmem, herror⟩ := ih hothers
        exact ⟨other, b, List.mem_cons_of_mem _ hmem, herror⟩
      | ok others => simp [hfound, hothers, bind, Except.bind, pure, Except.pure] at h

/-- Records agree as a whole if they agree under every name. -/
theorem collect_agree {read : String × α → Except RecordError Fields}
    {other : String × β → Except RecordError Fields} {entries : List (String × α)}
    {others : List (String × β)} (hread : ReadsOwnField read) (hother : ReadsOwnField other)
    (hentries : NoRepeats entries) (hothers : NoRepeats others)
    (h : ∀ name, Agree (SameFound Alike) (readUnder read name (List.lookup name entries))
      (readUnder other name (List.lookup name others))) :
    Agree Alike (collect read entries) (collect other others) := by
  cases hfirst : collect read entries with
  | error e =>
    cases hsecond : collect other others with
    | error i => exact .error e i
    | ok found =>
      obtain ⟨name, a, hmem, herror⟩ := exists_error_of_collect hfirst
      have hname := h name
      rw [lookup_of_mem hentries hmem, readUnder, herror,
        readUnder_of_collect hother hothers hsecond] at hname
      cases hname
  | ok fields =>
    cases hsecond : collect other others with
    | error i =>
      obtain ⟨name, b, hmem, herror⟩ := exists_error_of_collect hsecond
      have hname := h name
      rw [lookup_of_mem hothers hmem, readUnder_of_collect hread hentries hfirst, readUnder,
        herror] at hname
      cases hname
    | ok found =>
      refine .ok (.mk fun name => ?_)
      have hname := h name
      rw [readUnder_of_collect hread hentries hfirst,
        readUnder_of_collect hother hothers hsecond] at hname
      cases hname with
      | ok h => exact h

end Record

end CallbackGateway
