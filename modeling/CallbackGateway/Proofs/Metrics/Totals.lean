import CallbackGateway.Metrics.Registry

/-!
# Totals

Sums over the series of a family, modulo 2^64. A change of one series by an amount changes the
total over a selection by that amount, if the series is selected, and leaves it alone otherwise.
-/

namespace CallbackGateway.Metrics

namespace Family

variable {α : Type}

/-- The sum of the weights of the entries whose labels are selected. -/
def totalOf (selected : Labels → Bool) (weight : α → UInt64) : List (Labels × α) → UInt64
  | [] => 0
  | (labels, value) :: rest =>
    (if selected labels then weight value else 0) + totalOf selected weight rest

/-- The sum of the weights of the series whose labels are selected. -/
def total (selected : Labels → Bool) (weight : α → UInt64) (family : Family α) : UInt64 :=
  totalOf selected weight family.series

/-- An update adds its amount to the total, if its labels are selected. -/
theorem totalOf_updateIn {selected : Labels → Bool} {weight : α → UInt64} {first : α}
    {change : α → α} {amount : UInt64} (hfirst : weight first = 0)
    (hchange : ∀ value, weight (change value) = weight value + amount) (labels : Labels)
    (series : List (Labels × α)) :
    totalOf selected weight (updateIn first change labels series) =
      totalOf selected weight series + if selected labels then amount else 0 := by
  induction series with
  | nil =>
    simp only [updateIn, totalOf, hchange, hfirst, UInt64.zero_add, UInt64.add_zero]
  | cons entry rest ih =>
    obtain ⟨key, value⟩ := entry
    rw [updateIn]
    split
    · rename_i hkey
      subst hkey
      rw [totalOf, totalOf, hchange]
      cases selected key with
      | true =>
        rw [if_pos rfl, if_pos rfl, if_pos rfl]
        ac_rfl
      | false =>
        rw [if_neg Bool.false_ne_true, if_neg Bool.false_ne_true, if_neg Bool.false_ne_true,
          UInt64.add_zero]
    · rw [totalOf, totalOf, ih, UInt64.add_assoc]

/-- A change of one series by an amount changes a total by that amount, if the series counts. -/
theorem total_update (selected : Labels → Bool) {weight : α → UInt64} {first : α}
    {change : α → α} {amount : UInt64} (hfirst : weight first = 0)
    (hchange : ∀ value, weight (change value) = weight value + amount) (labels : Labels)
    (family : Family α) :
    (family.update first change labels).total selected weight =
      family.total selected weight + if selected (arrange labels) then amount else 0 :=
  totalOf_updateIn hfirst hchange (arrange labels) family.series

/-- The total of nothing is zero. -/
@[simp] theorem total_empty (selected : Labels → Bool) (weight : α → UInt64) :
    (empty : Family α).total selected weight = 0 := rfl

end Family

/-! ## Counters -/

variable (counter : Counter) (labels other : Labels) (metrics : Metrics)

/-- The total of a counter over the selected labels. -/
def sum (counter : Counter) (selected : Labels → Bool) (metrics : Metrics) : UInt64 :=
  (metrics.counters counter).total selected id

/-- The number of durations that were observed. -/
def durations (metrics : Metrics) : UInt64 :=
  metrics.pipelineDuration.total (fun _ => true) Histogram.count

/-- An increment counts once, in its own counter only. -/
theorem sum_increment (changed : Counter) (selected : Labels → Bool) :
    (metrics.increment changed labels).sum counter selected = metrics.sum counter selected +
      if counter = changed ∧ selected (arrange labels) then 1 else 0 := by
  rw [increment, sum, counters_add]
  by_cases hcounter : counter = changed
  · have htotal := Family.total_update selected (show id (0 : UInt64) = 0 from rfl)
      (fun value => show id (value + 1) = id value + 1 from rfl) labels (metrics.counters counter)
    rw [if_pos hcounter, htotal, sum]
    simp only [hcounter, true_and]
  · simp [hcounter, sum]

/-- An addition counts in its own counter and under its own labels only. -/
theorem get_add (changed : Counter) (amount : UInt64) :
    (metrics.add changed labels amount).get counter other = metrics.get counter other +
      if counter = changed ∧ arrange other = arrange labels then amount else 0 := by
  rw [get, counters_add]
  by_cases hcounter : counter = changed
  · rw [if_pos hcounter, Family.get?_update, get]
    by_cases hlabels : arrange other = arrange labels
    · simp only [hcounter, hlabels, and_self, if_true, Option.getD_some]
    · simp [hlabels]
  · simp [hcounter, get]

/-- An increment counts under its own labels only. -/
theorem get_increment (changed : Counter) :
    (metrics.increment changed labels).get counter other = metrics.get counter other +
      if counter = changed ∧ arrange other = arrange labels then 1 else 0 :=
  get_add counter labels other metrics changed 1

/-- Durations are counted apart from the counters. -/
@[simp] theorem durations_increment : (metrics.increment counter labels).durations =
    metrics.durations := by
  cases counter <;> rfl

/-- Observing a duration changes no sum. -/
@[simp] theorem sum_observe (selected : Labels → Bool) (nanos : Nat) :
    (metrics.observe labels nanos).sum counter selected = metrics.sum counter selected := by
  cases counter <;> rfl

/-- Observing a duration changes no value. -/
@[simp] theorem get_observe (nanos : Nat) :
    (metrics.observe labels nanos).get counter other = metrics.get counter other := by
  cases counter <;> rfl

/-- A duration is observed once. -/
@[simp] theorem durations_observe (nanos : Nat) :
    (metrics.observe labels nanos).durations = metrics.durations + 1 := by
  exact Family.total_update (fun _ => true) (show Histogram.empty.count = 0 from rfl)
    (fun value => show (value.observe (micros nanos)).count = value.count + 1 from rfl) labels
    metrics.pipelineDuration

/-- Labels in order stay as they are. -/
theorem arrange_of_pairwise {labels : Labels}
    (h : labels.Pairwise fun left right => labelInOrder left right = true) :
    arrange labels = labels := List.mergeSort_of_pairwise h

/-- One label is in order. -/
@[simp] theorem arrange_singleton (label : String × String) : arrange [label] = [label] :=
  List.mergeSort_singleton label

end CallbackGateway.Metrics
