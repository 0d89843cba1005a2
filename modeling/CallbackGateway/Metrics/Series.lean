import CallbackGateway.Metrics.Label

/-!
# Families of series

A family holds one measurement for each set of labels that was ever touched, in the order in
which they were first touched.
-/

namespace CallbackGateway.Metrics

/-- Measurements by their labels. -/
structure Family (α : Type) where
  series : List (Labels × α)
  deriving DecidableEq, Repr

namespace Family

variable {α : Type}

/-- A family without series. -/
def empty : Family α := ⟨[]⟩

/-- Change the measurement of some arranged labels in a list, starting from a first one if there
is none. -/
def updateIn (first : α) (change : α → α) (labels : Labels) :
    List (Labels × α) → List (Labels × α)
  | [] => [(labels, change first)]
  | (key, value) :: rest =>
    if key = labels then (key, change value) :: rest
    else (key, value) :: updateIn first change labels rest

/-- Change the measurement of labels. -/
def update (first : α) (change : α → α) (labels : Labels) (family : Family α) : Family α :=
  ⟨updateIn first change (arrange labels) family.series⟩

/-- The measurement of labels, if they were touched. -/
def get? (family : Family α) (labels : Labels) : Option α :=
  List.lookup (arrange labels) family.series

/-- An update changes the value under its own labels and under no other ones. -/
theorem lookup_updateIn (first : α) (change : α → α) (labels key : Labels)
    (series : List (Labels × α)) :
    List.lookup key (updateIn first change labels series) =
      if key = labels then some (change ((List.lookup key series).getD first))
      else List.lookup key series := by
  induction series with
  | nil =>
    by_cases h : key = labels
    · simp [updateIn, h]
    · have hb : (key == labels) = false := beq_false_of_ne h
      simp [updateIn, List.lookup_cons, h, hb]
  | cons entry rest ih =>
    obtain ⟨held, value⟩ := entry
    unfold updateIn
    by_cases hl : held = labels
    · subst hl
      by_cases hk : key = held
      · simp [hk]
      · have hb : (key == held) = false := beq_false_of_ne hk
        simp [List.lookup_cons, hk, hb]
    · simp only [hl, if_false, List.lookup_cons]
      by_cases hk : key = held
      · subst hk
        simp [hl]
      · have hb : (key == held) = false := beq_false_of_ne hk
        simp [hb, ih]

/-- Changing the measurement of labels changes that of no others. -/
theorem get?_update (first : α) (change : α → α) (labels other : Labels) (family : Family α) :
    (family.update first change labels).get? other =
      if arrange other = arrange labels then some (change ((family.get? other).getD first))
      else family.get? other :=
  lookup_updateIn first change (arrange labels) (arrange other) family.series

end Family

end CallbackGateway.Metrics
