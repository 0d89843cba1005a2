import CallbackGateway.Metrics.Page
import CallbackGateway.Proofs.Metrics.Totals
import Mathlib.Algebra.GroupWithZero.Nat
import Mathlib.Data.List.Induction
import Mathlib.Data.Prod.Lex
import Mathlib.Data.String.Basic

/-!
# Runs of measurements

What fresh metrics hold after any steps, told by the steps alone: a counter under some labels is
the sum of the amounts that were added to it, a histogram counts the durations that were
observed. Labels are the same if one list is a permutation of the other, so that repeated names
are told apart from single ones.

Every count wraps at 64 bits. A histogram is therefore exact only as long as fewer than 2^64
durations were observed under its labels, each below 2^64 microseconds.
-/

namespace CallbackGateway.Metrics

/-! ## The order of labels -/

/-- Labels are ordered by name, then by value. -/
theorem labelInOrder_iff {left right : String × String} :
    labelInOrder left right = true ↔ toLex left ≤ toLex right := by
  rw [labelInOrder, Bool.or_eq_true, Bool.and_eq_true, decide_eq_true_iff, beq_iff_eq,
    Bool.not_eq_true', decide_eq_false_iff_not, not_lt, Prod.Lex.le_iff]
  rfl

/-- Arranged labels are in order. -/
theorem arrange_pairwise (labels : Labels) :
    (arrange labels).Pairwise fun left right => toLex left ≤ toLex right := by
  have hsorted := @List.pairwise_mergeSort _ labelInOrder
    (fun a b c hab hbc => labelInOrder_iff.mpr
      ((labelInOrder_iff.mp hab).trans (labelInOrder_iff.mp hbc)))
    (fun a b => by
      rw [Bool.or_eq_true, labelInOrder_iff, labelInOrder_iff]
      exact le_total _ _)
    labels
  exact hsorted.imp labelInOrder_iff.mp

/-- Labels share a series just if they are the same up to their order. -/
theorem arrange_eq_iff {labels others : Labels} :
    arrange labels = arrange others ↔ labels.Perm others := by
  constructor
  · intro h
    exact (arrange_perm labels).symm.trans (h ▸ arrange_perm others)
  · intro h
    exact List.Perm.eq_of_pairwise (fun _ _ _ _ hab hba => toLex.injective (le_antisymm hab hba))
      (arrange_pairwise labels) (arrange_pairwise others)
      ((arrange_perm labels).trans (h.trans (arrange_perm others).symm))

/-! ## Steps -/

/-- One step of measuring. -/
inductive Measurement
  | add (counter : Counter) (labels : Labels) (amount : UInt64)
  | increment (counter : Counter) (labels : Labels)
  /-- A duration, in nanoseconds. -/
  | observe (labels : Labels) (nanos : Nat)
  | drain
  deriving DecidableEq, Repr

/-- The metrics after one step more. -/
def measure (metrics : Metrics) : Measurement → Metrics
  | .add counter labels amount => metrics.add counter labels amount
  | .increment counter labels => metrics.increment counter labels
  | .observe labels nanos => metrics.observe labels nanos
  | .drain => metrics.drain

/-- Fresh metrics after some steps. -/
def after (steps : List Measurement) : Metrics := steps.foldl measure {}

/-- The last step comes last. -/
theorem after_concat (steps : List Measurement) (step : Measurement) :
    after (steps ++ [step]) = (after steps).measure step := by
  rw [after, List.foldl_append]
  rfl

/-! ## Counters -/

variable (counter : Counter) (labels : Labels) (metrics : Metrics)

/-- The amount that a step adds to a counter under some labels. -/
def Measurement.amount? (counter : Counter) (labels : Labels) : Measurement → Option Nat
  | .add changed given amount =>
    if counter = changed ∧ labels.Perm given then some amount.toNat else none
  | .increment changed given => if counter = changed ∧ labels.Perm given then some 1 else none
  | .observe _ _ | .drain => none

/-- The amounts that steps add to a counter under some labels. -/
def amounts (counter : Counter) (labels : Labels) (steps : List Measurement) : List Nat :=
  steps.filterMap (Measurement.amount? counter labels)

/-- Draining changes no value of a counter. -/
theorem get_drain : metrics.drain.get counter labels = metrics.get counter labels := by
  cases counter <;> rfl

/-- A step adds its amount. -/
theorem get_measure (step : Measurement) :
    (metrics.measure step).get counter labels =
      metrics.get counter labels + UInt64.ofNat ((step.amount? counter labels).getD 0) := by
  cases step with
  | add changed given amount =>
    simp only [measure, get_add, Measurement.amount?, arrange_eq_iff]
    split
    · rw [Option.getD_some, UInt64.ofNat_toNat]
    · rfl
  | increment changed given =>
    simp only [measure, get_increment, Measurement.amount?, arrange_eq_iff]
    split <;> rfl
  | observe given nanos =>
    rw [measure, get_observe]
    exact (UInt64.add_zero _).symm
  | drain =>
    rw [measure, get_drain]
    exact (UInt64.add_zero _).symm

/-- A counter is the sum of its amounts. -/
theorem get_after (steps : List Measurement) :
    (after steps).get counter labels = UInt64.ofNat (amounts counter labels steps).sum := by
  induction steps using List.reverseRecOn with
  | nil => cases counter <;> rfl
  | append_singleton steps step ih =>
    have hsum : (amounts counter labels (steps ++ [step])).sum =
        (amounts counter labels steps).sum + (step.amount? counter labels).getD 0 := by
      rw [amounts, amounts, List.filterMap_append, List.sum_append]
      cases hamount : step.amount? counter labels <;> simp [hamount]
    rw [after_concat, get_measure, ih, hsum, UInt64.ofNat_add]

/-! ## Durations -/

/-- The whole microseconds that a step observes under some labels. -/
def Measurement.micros? (labels : Labels) : Measurement → Option Nat
  | .observe given nanos => if labels.Perm given then some (nanos / 1000) else none
  | .add _ _ _ | .increment _ _ | .drain => none

/-- The durations that steps observe under some labels, in whole microseconds. -/
def observed (labels : Labels) (steps : List Measurement) : List Nat :=
  steps.filterMap (Measurement.micros? labels)

/-- The histogram of some durations, with counts that wrap. -/
def Histogram.ofDurations (durations : List Nat) : Histogram where
  count := UInt64.ofNat durations.length
  sum := UInt64.ofNat durations.sum
  buckets := bounds.map fun bound => UInt64.ofNat (durations.countP (· ≤ bound.toNat))

/-- A duration below 2^64 is counted in the buckets whose bounds it does not exceed. -/
theorem Histogram.observe_ofDurations (durations : List Nat) {duration : Nat}
    (hduration : duration < 2 ^ 64) :
    (ofDurations durations).observe (UInt64.ofNat duration) =
      ofDurations (durations ++ [duration]) := by
  have hbucket (bound : UInt64) :
      (if UInt64.ofNat duration ≤ bound then
          UInt64.ofNat (durations.countP (· ≤ bound.toNat)) + 1
        else UInt64.ofNat (durations.countP (· ≤ bound.toNat))) =
      UInt64.ofNat ((durations ++ [duration]).countP (· ≤ bound.toNat)) := by
    have hle : UInt64.ofNat duration ≤ bound ↔ duration ≤ bound.toNat := by
      rw [UInt64.le_iff_toNat_le, UInt64.toNat_ofNat_of_lt' hduration]
    rw [List.countP_append, List.countP_singleton, UInt64.ofNat_add]
    by_cases h : duration ≤ bound.toNat
    · rw [if_pos (hle.mpr h), if_pos (decide_eq_true h)]
      rfl
    · rw [if_neg (mt hle.mp h), if_neg (by simpa using h)]
      exact (UInt64.add_zero _).symm
  rw [observe, ofDurations, ofDurations, List.length_append, List.sum_append, List.sum_singleton,
    UInt64.ofNat_add, UInt64.ofNat_add, List.zipWith_map_right, List.zipWith_self]
  simp only [hbucket]
  rfl

/-- A step counts the duration that it observes. -/
theorem get?_measure (step : Measurement) :
    (metrics.measure step).pipelineDuration.get? labels =
      match step.micros? labels with
      | some duration => some (((metrics.pipelineDuration.get? labels).getD .empty).observe
          (UInt64.ofNat duration))
      | none => metrics.pipelineDuration.get? labels := by
  cases step with
  | add changed => cases changed <;> rfl
  | increment changed => cases changed <;> rfl
  | observe given nanos =>
    simp only [measure, Metrics.observe, Family.get?_update, Measurement.micros?, arrange_eq_iff]
    split <;> rfl
  | drain => rfl

/-- The histogram under some labels is that of the durations observed under them. -/
theorem get?_after (steps : List Measurement)
    (hsmall : ∀ duration ∈ observed labels steps, duration < 2 ^ 64) :
    (after steps).pipelineDuration.get? labels =
      if observed labels steps = [] then none
      else some (Histogram.ofDurations (observed labels steps)) := by
  induction steps using List.reverseRecOn with
  | nil => rfl
  | append_singleton steps step ih =>
    have hobserved : observed labels (steps ++ [step]) =
        observed labels steps ++ (step.micros? labels).toList := by
      rw [observed, observed, List.filterMap_append]
      cases hmicros : step.micros? labels <;> simp [hmicros]
    rw [hobserved] at hsmall ⊢
    rw [after_concat, get?_measure, ih fun duration h => hsmall duration (List.mem_append_left _ h)]
    cases hmicros : step.micros? labels with
    | none => rw [Option.toList_none, List.append_nil]
    | some duration =>
      have hduration : duration < 2 ^ 64 := hsmall duration (by simp [hmicros])
      have hfound : ((if observed labels steps = [] then none
          else some (Histogram.ofDurations (observed labels steps))).getD .empty) =
          Histogram.ofDurations (observed labels steps) := by
        split
        · rename_i hnone
          rw [hnone]
          rfl
        · rfl
      rw [Option.toList_some, if_neg (List.append_ne_nil_of_right_ne_nil _ (by simp)),
        ← Histogram.observe_ofDurations _ hduration]
      exact congrArg (fun found => some (found.observe (UInt64.ofNat duration))) hfound

/-- A histogram holds the number, the sum and the distribution of some durations. -/
structure Histogram.Counts (histogram : Histogram) (durations : List Nat) : Prop where
  count : histogram.count.toNat = durations.length
  sum : histogram.sum.toNat = durations.sum % 2 ^ 64
  buckets : histogram.buckets.map UInt64.toNat =
    bounds.map fun bound => durations.countP (· ≤ bound.toNat)

/-- A histogram counts the durations that were observed. -/
theorem Histogram.counts_ofDurations {durations : List Nat} (h : durations.length < 2 ^ 64) :
    (ofDurations durations).Counts durations where
  count := UInt64.toNat_ofNat_of_lt' h
  sum := UInt64.toNat_ofNat'
  buckets := by
    rw [ofDurations, List.map_map]
    refine List.map_congr_left fun bound _ => ?_
    exact UInt64.toNat_ofNat_of_lt' (List.countP_le_length.trans_lt h)

/-! ## Buckets on the page -/

/-- The buckets of a histogram with their bounds, as they are written. -/
def Histogram.bucketValues (histogram : Histogram) : List (List Char × UInt64) :=
  (bounds.map writeCount).zip histogram.buckets ++ [("+Inf".toList, histogram.count)]

/-- The line of a bucket. -/
def bucketLine (name : String) (labels : Labels) (bucket : List Char × UInt64) : List Char :=
  writeSample (name.toList ++ "_bucket".toList) (bucketLabels labels bucket.1) bucket.2

/-- A histogram is written as its buckets, its sum and its count. -/
theorem histogramLines_eq (name : String) (histogram : Histogram) :
    histogramLines name labels histogram =
      histogram.bucketValues.map (bucketLine name labels) ++
        [writeSample (name.toList ++ "_sum".toList) (writeLabels labels) histogram.sum,
          writeSample (name.toList ++ "_count".toList) (writeLabels labels) histogram.count] := by
  rw [histogramLines, Histogram.bucketValues, List.map_append, List.append_assoc, List.zip,
    List.map_zipWith, List.zipWith_map_left]
  rfl

/-- The bounds grow, and so do the counts of what does not exceed them. -/
theorem Histogram.Counts.bucketValues_pairwise {histogram : Histogram} {durations : List Nat}
    (h : histogram.Counts durations) :
    (histogram.bucketValues.map Prod.snd).Pairwise (· ≤ ·) := by
  have hlength : histogram.buckets.length = bounds.length := by
    simpa using congrArg List.length h.buckets
  have hvalues : histogram.bucketValues.map Prod.snd = histogram.buckets ++ [histogram.count] := by
    rw [bucketValues, List.map_append, List.map_snd_zip (by simp [hlength])]
    rfl
  have hbounds : bounds.Pairwise (· ≤ ·) := by decide
  have hcounts : histogram.buckets.Pairwise fun low high => low.toNat ≤ high.toNat := by
    rw [← List.pairwise_map, h.buckets, List.pairwise_map]
    refine hbounds.imp fun {low high} hle => List.countP_mono_left fun duration _ hd => ?_
    exact decide_eq_true ((of_decide_eq_true hd).trans (UInt64.le_iff_toNat_le.mp hle))
  have hlast : ∀ found ∈ histogram.buckets.map UInt64.toNat, found ≤ durations.length := by
    rw [h.buckets]
    intro found hfound
    obtain ⟨bound, -, rfl⟩ := List.mem_map.mp hfound
    exact List.countP_le_length
  rw [hvalues, List.pairwise_append]
  refine ⟨hcounts, List.pairwise_singleton _ _, fun found hfound last hmem => ?_⟩
  rw [List.mem_singleton.mp hmem, UInt64.le_iff_toNat_le, h.count]
  exact hlast _ (List.mem_map_of_mem hfound)

/-- What was measured is on the page. -/
theorem histogramLines_infix_lines {histogram : Histogram}
    (h : metrics.pipelineDuration.get? labels = some histogram) :
    histogramLines "mpportal_pipeline_duration_micros" (arrange labels) histogram <:+:
      metrics.lines := by
  obtain ⟨before, later, hseries, -⟩ := List.lookup_eq_some_iff.mp h
  refine List.IsInfix.trans ?_ (List.infix_append _ _ _)
  refine List.IsInfix.trans ?_ (List.suffix_cons _ _).isInfix
  rw [hseries, List.flatMap_append, List.flatMap_cons, ← List.append_assoc]
  exact List.infix_append _ _ _

/-! ## Exactness -/

/-- After any steps, a counter is the sum of the amounts added to it under the same labels,
modulo 2^64. A histogram holds exactly the durations observed under the same labels: it shows
how many there were, their sum modulo 2^64 and for each bound how many do not exceed it, in
buckets that never decrease and end with the number of all of them. -/
theorem measured_values_are_exact (steps : List Measurement) :
    (∀ counter, ((after steps).get counter labels).toNat =
      (amounts counter labels steps).sum % 2 ^ 64) ∧
    ((∀ duration ∈ observed labels steps, duration < 2 ^ 64) →
      (observed labels steps).length < 2 ^ 64 →
      if observed labels steps = [] then (after steps).pipelineDuration.get? labels = none
      else ∃ histogram : Histogram,
        (after steps).pipelineDuration.get? labels = some histogram ∧
        histogram.Counts (observed labels steps) ∧
        (histogram.bucketValues.map
            (bucketLine "mpportal_pipeline_duration_micros" (arrange labels)) ++
          [writeSample "mpportal_pipeline_duration_micros_sum".toList
              (writeLabels (arrange labels)) histogram.sum,
            writeSample "mpportal_pipeline_duration_micros_count".toList
              (writeLabels (arrange labels)) histogram.count]) <:+: (after steps).lines ∧
        (histogram.bucketValues.map Prod.snd).Pairwise (· ≤ ·) ∧
        histogram.bucketValues.getLast? = some ("+Inf".toList, histogram.count)) := by
  refine ⟨fun counter => ?_, fun hsmall hmany => ?_⟩
  · rw [get_after]
    exact UInt64.toNat_ofNat'
  · have hget := get?_after labels steps hsmall
    split
    · rename_i hnone
      rw [hget, if_pos hnone]
    · rename_i hsome
      rw [if_neg hsome] at hget
      have hcounts := Histogram.counts_ofDurations hmany
      refine ⟨_, hget, hcounts, ?_, hcounts.bucketValues_pairwise, List.getLast?_concat⟩
      have hlines := histogramLines_infix_lines labels _ hget
      rw [histogramLines_eq] at hlines
      exact hlines

/-- Two pushes that were accounted for with their labels in two orders. -/
def twoPushes : List Measurement :=
  [.increment .requests [("kind", "push"), ("outcome", "ack")],
    .observe [("msg_type", "text")] 700000,
    .increment .requests [("outcome", "ack"), ("kind", "push")],
    .observe [("msg_type", "text")] 90999]

/-- Two pushes are counted and timed. -/
theorem measured_values_are_exact_twoPushes :
    ((after twoPushes).get .requests [("outcome", "ack"), ("kind", "push")]).toNat = 2 ∧
      (∀ duration ∈ observed [("msg_type", "text")] twoPushes, duration < 2 ^ 64) ∧
      (observed [("msg_type", "text")] twoPushes).length < 2 ^ 64 ∧
      ∃ histogram : Histogram,
        (after twoPushes).pipelineDuration.get? [("msg_type", "text")] = some histogram ∧
        histogram.Counts [700, 90] ∧
        (histogram.bucketValues.map Prod.snd).Pairwise (· ≤ ·) := by
  have hcount := (measured_values_are_exact [("outcome", "ack"), ("kind", "push")] twoPushes).1
  have hobserved : observed [("msg_type", "text")] twoPushes = [700, 90] := by decide
  have hdurations := (measured_values_are_exact [("msg_type", "text")] twoPushes).2
  rw [hobserved] at hdurations ⊢
  have hsmall : ∀ duration ∈ [700, 90], duration < 2 ^ 64 := by decide
  have hmany : [700, 90].length < 2 ^ 64 := by decide
  obtain ⟨histogram, hget, hcounts, -, hpairwise, -⟩ := hdurations hsmall hmany
  exact ⟨(hcount .requests).trans (by decide), hsmall, hmany, histogram, hget, hcounts, hpairwise⟩

end CallbackGateway.Metrics
