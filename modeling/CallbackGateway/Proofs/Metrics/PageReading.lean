import CallbackGateway.Proofs.Metrics.Exposition
import CallbackGateway.Proofs.Metrics.Run
import Mathlib.Data.List.Forall2
import Mathlib.Data.List.Nodup

/-!
# Reading the page

The page of any metrics that can come about, cut at its line breaks and read line by line, says
what the metrics hold and nothing else. No value of a label can add a line, take one away or
change what another one says, so metrics that differ never have the same lines.

The names of labels are those that the format allows. The series of a family stand in no
particular order on the page, and so metrics are compared up to that order.
-/

namespace CallbackGateway.Metrics

open Exposition

/-! ## What the page should say -/

/-- The name of a family of counters. -/
def Counter.name : Counter → String
  | .requests => "mpportal_requests_total"
  | .verifyFailures => "mpportal_verify_failures_total"
  | .decodeErrors => "mpportal_decode_errors_total"

/-- The families of counters, in the order of the page. -/
def Counter.all : List Counter := [.requests, .verifyFailures, .decodeErrors]

/-- What is said of a family of counters: its type, and one sample for each series. -/
def counterEntries (name : String) (family : Family UInt64) : List Line :=
  .type name "counter" ::
    family.series.map fun (labels, value) => .sample { name, labels, value := value.toNat }

/-- What is said of a histogram: a sample for each bound, with the bound as a label, one for all
durations, and their sum and number. -/
def histogramEntries (name : String) (labels : Labels) (histogram : Histogram) : List Line :=
  histogram.bucketValues.map (fun (bound, found) => .sample {
    name := name ++ "_bucket", labels := labels ++ [("le", String.ofList bound)],
    value := found.toNat }) ++
  [.sample { name := name ++ "_sum", labels, value := histogram.sum.toNat },
    .sample { name := name ++ "_count", labels, value := histogram.count.toNat }]

/-- What is said of metrics. -/
def entries (metrics : Metrics) : List Line :=
  Counter.all.flatMap (fun counter => counterEntries counter.name (metrics.counters counter)) ++
  .type "mpportal_pipeline_duration_micros" "histogram" ::
    metrics.pipelineDuration.series.flatMap (fun (labels, histogram) =>
      histogramEntries "mpportal_pipeline_duration_micros" labels histogram) ++
  [.type "mpportal_draining" "gauge",
    .sample { name := "mpportal_draining", labels := [],
              value := if metrics.draining then 1 else 0 }]

/-! ## Metrics that can come about -/

/-- A family in which every series has labels of its own, with names. -/
structure Family.Sound {α : Type} (valid : α → Prop) (family : Family α) : Prop where
  distinct : (family.series.map Prod.fst).Nodup
  named : ∀ entry ∈ family.series, Named entry.1
  valid : ∀ entry ∈ family.series, valid entry.2

section Update

variable {α : Type} {valid : α → Prop} {first : α} {change : α → α} {labels : Labels}

/-- An update changes one entry or adds one. -/
theorem Family.mem_updateIn {series : List (Labels × α)} {entry : Labels × α}
    (h : entry ∈ updateIn first change labels series) :
    entry ∈ series ∨ entry = (labels, change first) ∨
      ∃ value, (labels, value) ∈ series ∧ entry = (labels, change value) := by
  induction series with
  | nil => exact .inr (.inl (List.mem_singleton.mp h))
  | cons held rest ih =>
    obtain ⟨key, value⟩ := held
    rw [updateIn] at h
    split at h
    · rename_i hkey
      subst hkey
      rcases List.mem_cons.mp h with rfl | hrest
      · exact .inr (.inr ⟨value, List.mem_cons_self, rfl⟩)
      · exact .inl (List.mem_cons_of_mem _ hrest)
    · rcases List.mem_cons.mp h with rfl | hrest
      · exact .inl List.mem_cons_self
      · rcases ih hrest with hold | hnew | ⟨value, hmem, hchanged⟩
        · exact .inl (List.mem_cons_of_mem _ hold)
        · exact .inr (.inl hnew)
        · exact .inr (.inr ⟨value, List.mem_cons_of_mem _ hmem, hchanged⟩)

/-- An update adds its labels if they are not there yet. -/
theorem Family.map_fst_updateIn (series : List (Labels × α)) :
    (updateIn first change labels series).map Prod.fst =
      if labels ∈ series.map Prod.fst then series.map Prod.fst
      else series.map Prod.fst ++ [labels] := by
  induction series with
  | nil => rfl
  | cons held rest ih =>
    obtain ⟨key, value⟩ := held
    rw [updateIn]
    by_cases hkey : key = labels
    · simp [hkey]
    · rw [if_neg hkey, List.map_cons, ih]
      by_cases hrest : labels ∈ rest.map Prod.fst
      · have hold : labels ∈ ((key, value) :: rest).map Prod.fst := List.mem_cons_of_mem _ hrest
        rw [if_pos hrest, if_pos hold, List.map_cons]
      · have hnew : labels ∉ ((key, value) :: rest).map Prod.fst := by
          rw [List.map_cons, List.mem_cons, not_or]
          exact ⟨Ne.symm hkey, hrest⟩
        rw [if_neg hrest, if_neg hnew, List.map_cons, List.cons_append]

/-- An update keeps a family sound. -/
theorem Family.Sound.update {family : Family α} (h : family.Sound valid) (hlabels : Named labels)
    (hfirst : valid first) (hchange : ∀ value, valid value → valid (change value)) :
    (family.update first change labels).Sound valid where
  distinct := by
    rw [Family.update, map_fst_updateIn]
    split
    · exact h.distinct
    · rename_i hnew
      rw [List.nodup_append]
      refine ⟨h.distinct, List.pairwise_singleton _ _, fun key hkey other hother hsame => hnew ?_⟩
      rw [← List.mem_singleton.mp hother, ← hsame]
      exact hkey
  named := by
    intro entry hentry
    have harranged : Named (arrange labels) := fun label hlabel =>
      hlabels label ((arrange_perm labels).mem_iff.mp hlabel)
    rcases mem_updateIn hentry with hold | rfl | ⟨value, -, rfl⟩
    · exact h.named entry hold
    · exact harranged
    · exact harranged
  valid := by
    intro entry hentry
    rcases mem_updateIn hentry with hold | rfl | ⟨value, hmem, rfl⟩
    · exact h.valid entry hold
    · exact hchange first hfirst
    · exact hchange value (h.valid _ hmem)

end Update

/-- Metrics whose families are sound, with one bucket for each bound. -/
structure Sound (metrics : Metrics) : Prop where
  counters : ∀ counter, (metrics.counters counter).Sound fun _ => True
  durations : metrics.pipelineDuration.Sound fun histogram =>
    histogram.buckets.length = bounds.length

/-- The labels under which a step measures. -/
def Measurement.labels : Measurement → Labels
  | .add _ labels _ | .increment _ labels | .observe labels _ => labels
  | .drain => []

/-- Adding under named labels keeps metrics sound. -/
theorem Sound.add {metrics : Metrics} (h : metrics.Sound) (counter : Counter) {labels : Labels}
    (hlabels : Named labels) (amount : UInt64) : (metrics.add counter labels amount).Sound where
  counters other := by
    rw [counters_add]
    split
    · exact (h.counters other).update hlabels trivial fun _ _ => trivial
    · exact h.counters other
  durations := by
    cases counter <;> exact h.durations

/-- Observing a duration changes no counter. -/
theorem counters_observe (counter : Counter) (labels : Labels) (nanos : Nat) (metrics : Metrics) :
    (metrics.observe labels nanos).counters counter = metrics.counters counter := by
  cases counter <;> rfl

/-- Draining changes no counter. -/
theorem counters_drain (counter : Counter) (metrics : Metrics) :
    metrics.drain.counters counter = metrics.counters counter := by
  cases counter <;> rfl

/-- A measurement under named labels keeps metrics sound. -/
theorem Sound.measure {metrics : Metrics} (h : metrics.Sound) {step : Measurement}
    (hstep : Named step.labels) : (metrics.measure step).Sound := by
  cases step with
  | add counter labels amount => exact h.add counter hstep amount
  | increment counter labels => exact h.add counter hstep 1
  | observe labels nanos =>
    refine ⟨fun counter => ?_, ?_⟩
    · rw [Metrics.measure, counters_observe]
      exact h.counters counter
    refine h.durations.update hstep rfl fun histogram hlength => ?_
    rw [Histogram.observe, List.length_zipWith, hlength, Nat.min_self]
  | drain =>
    refine ⟨fun counter => ?_, h.durations⟩
    rw [Metrics.measure, counters_drain]
    exact h.counters counter

/-- Metrics are sound after any steps under labels with names. -/
theorem sound_after {steps : List Measurement} (h : ∀ step ∈ steps, Named step.labels) :
    (after steps).Sound := by
  induction steps using List.reverseRecOn with
  | nil =>
    have hempty {α : Type} (valid : α → Prop) : (Family.empty : Family α).Sound valid :=
      ⟨List.nodup_nil, by simp [Family.empty], by simp [Family.empty]⟩
    exact ⟨fun counter => by cases counter <;> exact hempty _, hempty _⟩
  | append_singleton steps step ih =>
    rw [after_concat]
    exact (ih fun earlier hmem => h earlier (List.mem_append_left _ hmem)).measure
      (h step (List.mem_append_right _ (List.mem_singleton_self step)))

/-! ## Lines -/

/-- Whether a text is one line that says something. -/
def Says (line : List Char) (said : Line) : Prop := '\n' ∉ line ∧ Line.read? line = some said

/-- A name holds no line break. -/
theorem newline_not_mem_name {starts : Char → Bool} {name : List Char}
    (h : isName starts name = true) (hstarts : starts '\n' = false) : '\n' ∉ name := by
  intro hmem
  have hcontinues := continues_of_isName h hmem
  rw [continues, hstarts] at hcontinues
  exact absurd hcontinues (by decide)

/-- Written labels hold no line break. -/
theorem newline_not_mem_writeLabels {labels : Labels} (h : Named labels) :
    '\n' ∉ writeLabels labels := by
  have hlabel {label : String × String} (hname : isName startsLabel label.1.toList = true) :
      '\n' ∉ writeLabel label := by
    have hn := newline_not_mem_name hname (by decide)
    have hv := newline_not_mem_escape label.2
    simp [writeLabel, hn, hv]
  induction labels with
  | nil => simp [writeLabels]
  | cons label more ih =>
    obtain ⟨hfirst, hmore⟩ := List.forall_mem_cons.mp h
    cases more with
    | nil => exact hlabel hfirst
    | cons next more =>
      have hrest := ih hmore
      rw [writeLabels]
      · simp [hlabel hfirst, hrest]
      · simp

/-- A written number holds no line break. -/
theorem newline_not_mem_writeCount (n : UInt64) : '\n' ∉ writeCount n := by
  intro hmem
  have hdigit : '\n'.isDigit = true := Nat.isDigit_of_mem_toDigits (by decide) (by decide) hmem
  exact absurd hdigit (by decide)

/-- A written sample says what was sampled. -/
theorem says_writeSample {name : String} {labels : Labels}
    (hname : isName startsMetric name.toList = true) (hlabels : Named labels) (value : UInt64) :
    Says (writeSample name.toList (writeLabels labels) value)
      (.sample { name, labels, value := value.toNat }) := by
  refine ⟨?_, read?_writeSample hname hlabels value⟩
  have hn := newline_not_mem_name hname (by decide)
  have hl := newline_not_mem_writeLabels hlabels
  have hv := newline_not_mem_writeCount value
  simp [writeSample, hn, hl, hv]

/-- A type line says the type. -/
theorem says_typeLine {name kind : String} (hname : isName startsMetric name.toList = true)
    (hkind : kind ∈ kinds) : Says (typeLine name kind) (.type name kind) := by
  refine ⟨?_, read?_typeLine hname hkind⟩
  have hwritten : typeLine name kind =
      "# TYPE ".toList ++ name.toList ++ ' ' :: kind.toList := rfl
  have hn := newline_not_mem_name hname (by decide)
  have hkinds : ∀ kind ∈ kinds, '\n' ∉ kind.toList := by decide
  have hk := hkinds kind hkind
  rw [hwritten]
  simp [hn, hk]

/-- The lines of a counter say its entries. -/
theorem says_counterLines {name : String} (hname : isName startsMetric name.toList = true)
    {family : Family UInt64} (h : family.Sound fun _ => True) :
    List.Forall₂ Says (counterLines name family) (counterEntries name family) := by
  refine .cons (says_typeLine hname (by decide)) ?_
  rw [List.forall₂_map_left_iff, List.forall₂_map_right_iff, List.forall₂_same]
  exact fun entry hentry => says_writeSample hname (h.named entry hentry) entry.2

/-! ## Buckets -/

/-- A last label is written behind a comma. -/
theorem writeLabels_concat {labels : Labels} (h : labels ≠ []) (last : String × String) :
    writeLabels (labels ++ [last]) = writeLabels labels ++ ',' :: writeLabel last := by
  induction labels with
  | nil => exact absurd rfl h
  | cons label more ih =>
    cases more with
    | nil => rfl
    | cons next more =>
      have hwritten (rest : Labels) : writeLabels (label :: next :: rest) =
          writeLabel label ++ ',' :: writeLabels (next :: rest) := rfl
      have hrest := ih (by simp)
      rw [List.cons_append] at hrest
      rw [List.cons_append, List.cons_append, hwritten, hwritten, hrest, List.append_assoc,
        List.cons_append]

/-- The bound of a bucket is one more label. -/
theorem bucketLabels_eq {bound : List Char} (h : bound.flatMap escapeChar = bound)
    (labels : Labels) :
    bucketLabels labels bound = writeLabels (labels ++ [("le", String.ofList bound)]) := by
  have hlast : writeLabel ("le", String.ofList bound) = "le=\"".toList ++ bound ++ ['"'] := by
    have hescape : escape (String.ofList bound) = bound := by
      rw [escape, String.toList_ofList, h]
    simp [writeLabel, hescape]
  by_cases hlabels : labels = []
  · subst hlabels
    rw [bucketLabels, if_pos rfl, List.nil_append, List.nil_append]
    exact hlast.symm
  · rw [bucketLabels, if_neg hlabels, writeLabels_concat hlabels, hlast]
    simp

/-- A bound is written as it is. -/
theorem escape_bound {histogram : Histogram} {bound : List Char × UInt64}
    (h : bound ∈ histogram.bucketValues) : bound.1.flatMap escapeChar = bound.1 := by
  have hbounds : ∀ text ∈ bounds.map writeCount ++ ["+Inf".toList],
      text.flatMap escapeChar = text := by decide
  refine hbounds bound.1 ?_
  rw [Histogram.bucketValues, List.mem_append, List.mem_singleton] at h
  rcases h with hzip | rfl
  · exact List.mem_append_left _ (List.of_mem_zip hzip).1
  · exact List.mem_append_right _ (List.mem_singleton_self _)

/-- The lines of a histogram say its entries. -/
theorem says_histogramLines {labels : Labels} (hlabels : Named labels) (histogram : Histogram) :
    List.Forall₂ Says (histogramLines "mpportal_pipeline_duration_micros" labels histogram)
      (histogramEntries "mpportal_pipeline_duration_micros" labels histogram) := by
  rw [histogramLines_eq]
  refine List.rel_append ?_ (.cons ?_ (.cons ?_ .nil))
  · rw [List.forall₂_map_left_iff, List.forall₂_map_right_iff, List.forall₂_same]
    intro bucket hbucket
    have hle : Named (labels ++ [("le", String.ofList bucket.1)]) := by
      intro label hmem
      rcases List.mem_append.mp hmem with hold | hnew
      · exact hlabels label hold
      · rw [List.mem_singleton.mp hnew]
        exact (by decide : isName startsLabel "le".toList = true)
    rw [bucketLine, bucketLabels_eq (escape_bound hbucket), ← String.toList_append]
    exact says_writeSample (by decide) hle bucket.2
  · rw [← String.toList_append]
    exact says_writeSample (by decide) hlabels histogram.sum
  · rw [← String.toList_append]
    exact says_writeSample (by decide) hlabels histogram.count

/-! ## The page -/

/-- Every line of the page says what it should. -/
theorem says_lines {metrics : Metrics} (h : metrics.Sound) :
    List.Forall₂ Says metrics.lines metrics.entries := by
  have hcounters : List.Forall₂ Says
      (Counter.all.flatMap fun counter => counterLines counter.name (metrics.counters counter))
      (Counter.all.flatMap fun counter =>
        counterEntries counter.name (metrics.counters counter)) := by
    have hsame : List.Forall₂ Eq Counter.all Counter.all := List.forall₂_refl _
    refine List.rel_flatMap hsame ?_
    rintro counter _ rfl
    exact says_counterLines (by cases counter <;> decide) (h.counters counter)
  have hdurations : List.Forall₂ Says
      (metrics.pipelineDuration.series.flatMap fun (labels, histogram) =>
        histogramLines "mpportal_pipeline_duration_micros" labels histogram)
      (metrics.pipelineDuration.series.flatMap fun (labels, histogram) =>
        histogramEntries "mpportal_pipeline_duration_micros" labels histogram) := by
    have hnamed : List.Forall₂ (fun entry other => entry = other ∧ Named entry.1)
        metrics.pipelineDuration.series metrics.pipelineDuration.series :=
      List.forall₂_same.mpr fun entry hentry => ⟨rfl, h.durations.named entry hentry⟩
    refine List.rel_flatMap hnamed ?_
    rintro entry _ ⟨rfl, hnamed⟩
    exact says_histogramLines hnamed entry.2
  have hdraining : Says
      ("mpportal_draining ".toList ++ [if metrics.draining then '1' else '0'])
      (.sample { name := "mpportal_draining", labels := [],
                 value := if metrics.draining then 1 else 0 }) := by
    cases metrics.draining <;> exact ⟨by decide, by decide⟩
  have hlines : metrics.lines =
      (Counter.all.flatMap fun counter => counterLines counter.name (metrics.counters counter)) ++
      typeLine "mpportal_pipeline_duration_micros" "histogram" ::
        metrics.pipelineDuration.series.flatMap (fun (labels, histogram) =>
          histogramLines "mpportal_pipeline_duration_micros" labels histogram) ++
      [typeLine "mpportal_draining" "gauge",
        "mpportal_draining ".toList ++ [if metrics.draining then '1' else '0']] := by
    simp only [lines, Counter.all, List.flatMap_cons, List.flatMap_nil, List.append_nil,
      List.append_assoc]
    rfl
  rw [hlines, entries]
  refine List.rel_append (List.rel_append hcounters (.cons ?_ hdurations))
    (.cons ?_ (.cons hdraining .nil))
  · exact says_typeLine (by decide) (by decide)
  · exact says_typeLine (by decide) (by decide)

/-- The page is cut at its line breaks into its lines, and nothing after the last one. -/
theorem splitOn_page {metrics : Metrics} (h : metrics.Sound) :
    metrics.page.splitOn '\n' = metrics.lines ++ [[]] := by
  obtain ⟨hlines, -⟩ := (List.forall₂_and_left _ _).mp (says_lines h)
  rw [page]
  generalize metrics.lines = lines at hlines
  induction lines with
  | nil => rfl
  | cons line rest ih =>
    obtain ⟨hline, hrest⟩ := List.forall_mem_cons.mp hlines
    have hchars : ∀ c ∈ line, (c == '\n') = false := fun c hc =>
      beq_false_of_ne fun hn => hline (hn ▸ hc)
    rw [List.flatMap_cons, List.append_assoc, List.singleton_append, List.splitOn,
      List.splitOnP_append_cons_of_forall_mem hchars _ rfl, ← List.splitOn, ih hrest]
    rfl

/-- How many lines a page has. -/
theorem length_entries {metrics : Metrics} (h : metrics.Sound) :
    metrics.entries.length =
      6 + (Counter.all.map fun counter => (metrics.counters counter).series.length).sum +
        13 * metrics.pipelineDuration.series.length := by
  have hhistogram : metrics.pipelineDuration.series.map (fun entry =>
      (histogramEntries "mpportal_pipeline_duration_micros" entry.1 entry.2).length) =
      metrics.pipelineDuration.series.map fun _ => 13 := by
    refine List.map_congr_left fun entry hentry => ?_
    have hbuckets : entry.2.buckets.length = 10 := h.durations.valid entry hentry
    simp [histogramEntries, Histogram.bucketValues, hbuckets, bounds]
  have hdurations : (metrics.pipelineDuration.series.flatMap fun (labels, histogram) =>
      histogramEntries "mpportal_pipeline_duration_micros" labels histogram).length =
      13 * metrics.pipelineDuration.series.length := by
    rw [List.length_flatMap, hhistogram, List.map_const', List.sum_replicate_nat, Nat.mul_comm]
  simp only [entries, List.length_append, List.length_cons, List.length_nil, hdurations,
    Counter.all, counterEntries, List.flatMap_cons, List.flatMap_nil, List.length_map,
    List.map_cons, List.map_nil, List.sum_cons, List.sum_nil]
  omega

/-- Metrics that are alike, up to the order of the series in their families. -/
structure Same (left right : Metrics) : Prop where
  counters : ∀ counter, (left.counters counter).series.Perm (right.counters counter).series
  durations : left.pipelineDuration.series.Perm right.pipelineDuration.series
  draining : left.draining = right.draining

/-! ## Reading the metrics back -/

section ReadBack

variable {metrics : Metrics} {labels : Labels} {value : Nat}

/-- What a page says of a counter is what the counter holds. -/
theorem sample_counter_mem_entries (counter : Counter) :
    .sample { name := counter.name, labels, value } ∈ metrics.entries ↔
      ∃ found, (labels, found) ∈ (metrics.counters counter).series ∧ found.toNat = value := by
  cases counter <;>
    simp [entries, Counter.all, Counter.name, counterEntries, histogramEntries, counters]

/-- What a page says of a sum is what a histogram holds. -/
theorem sample_sum_mem_entries :
    .sample { name := "mpportal_pipeline_duration_micros_sum", labels, value } ∈ metrics.entries ↔
      ∃ histogram, (labels, histogram) ∈ metrics.pipelineDuration.series ∧
        value = histogram.sum.toNat := by
  simp [entries, Counter.all, Counter.name, counterEntries, histogramEntries]

/-- What a page says of a count is what a histogram holds. -/
theorem sample_count_mem_entries :
    .sample { name := "mpportal_pipeline_duration_micros_count", labels, value } ∈
        metrics.entries ↔
      ∃ histogram, (labels, histogram) ∈ metrics.pipelineDuration.series ∧
        value = histogram.count.toNat := by
  simp [entries, Counter.all, Counter.name, counterEntries, histogramEntries]

/-- What a page says of a bucket is what a histogram holds. -/
theorem sample_bucket_mem_entries {bound : List Char} {found : UInt64} :
    .sample { name := "mpportal_pipeline_duration_micros_bucket",
              labels := labels ++ [("le", String.ofList bound)],
              value := found.toNat } ∈ metrics.entries ↔
      ∃ histogram, (labels, histogram) ∈ metrics.pipelineDuration.series ∧
        (bound, found) ∈ histogram.bucketValues := by
  simp [entries, Counter.all, Counter.name, counterEntries, histogramEntries, UInt64.toNat_inj,
    String.ofList_inj]

/-- What a page says of draining is the mark that is set. -/
theorem sample_draining_mem_entries :
    .sample { name := "mpportal_draining", labels := [], value } ∈ metrics.entries ↔
      value = if metrics.draining then 1 else 0 := by
  simp [entries, Counter.all, Counter.name, counterEntries, histogramEntries]

/-- No line between the entries is blank. -/
theorem blank_notMem_entries : Line.blank ∉ metrics.entries := by
  simp [entries, Counter.all, counterEntries, histogramEntries]

end ReadBack

/-- A family has one measurement for each of its labels. -/
theorem Family.Sound.unique {α : Type} {valid : α → Prop} {family : Family α}
    (h : family.Sound valid) {labels : Labels} {value other : α}
    (hvalue : (labels, value) ∈ family.series) (hother : (labels, other) ∈ family.series) :
    value = other :=
  congrArg Prod.snd (List.inj_on_of_nodup_map h.distinct hvalue hother rfl)

/-- Values under distinct keys are known by their pairs. -/
theorem eq_of_zip_subset {α β : Type} {keys : List α} {values others : List β}
    (hkeys : keys.Nodup) (hvalues : values.length = keys.length)
    (hothers : others.length = keys.length) (h : keys.zip values ⊆ keys.zip others) :
    values = others := by
  refine List.ext_getElem (hvalues.trans hothers.symm) fun i hi hi' => ?_
  have hkey : i < keys.length := hvalues ▸ hi
  have hmem : (keys[i], values[i]) ∈ keys.zip values :=
    List.mem_iff_getElem.mpr ⟨i, by simp [hkey, hi], List.getElem_zip⟩
  obtain ⟨j, hj, hpair⟩ := List.mem_iff_getElem.mp (h hmem)
  rw [List.getElem_zip, Prod.mk.injEq, hkeys.getElem_inj_iff] at hpair
  obtain ⟨rfl, hvalue⟩ := hpair
  exact hvalue.symm

/-- A histogram is known by its buckets and its sum. -/
theorem Histogram.eq_of_bucketValues {histogram other : Histogram}
    (hlength : histogram.buckets.length = bounds.length)
    (hother : other.buckets.length = bounds.length) (hcount : histogram.count = other.count)
    (hsum : histogram.sum = other.sum)
    (hbuckets : ∀ bucket ∈ histogram.bucketValues, bucket ∈ other.bucketValues) :
    histogram = other := by
  have hkeys : (bounds.map writeCount).Nodup := by decide
  have hinfinity : "+Inf".toList ∉ bounds.map writeCount := by decide
  have hzip : (bounds.map writeCount).zip histogram.buckets ⊆
      (bounds.map writeCount).zip other.buckets := by
    intro bucket hbucket
    rcases List.mem_append.mp (hbuckets bucket (List.mem_append_left _ hbucket)) with hz | hlast
    · exact hz
    · rw [List.mem_singleton.mp hlast] at hbucket
      exact absurd (List.of_mem_zip hbucket).1 hinfinity
  have hsame := eq_of_zip_subset hkeys (by simpa using hlength) (by simpa using hother) hzip
  cases histogram
  cases other
  simp_all

/-- What is said of one metrics and of others, the others hold. -/
theorem durations_subset {left right : Metrics} (hleft : left.Sound) (hright : right.Sound)
    (h : ∀ said ∈ left.entries, said ∈ right.entries) :
    left.pipelineDuration.series ⊆ right.pipelineDuration.series := by
  rintro ⟨labels, histogram⟩ hmem
  obtain ⟨other, hother, hcount⟩ :=
    sample_count_mem_entries.mp (h _ (sample_count_mem_entries.mpr ⟨histogram, hmem, rfl⟩))
  obtain ⟨summed, hsummed, hsum⟩ :=
    sample_sum_mem_entries.mp (h _ (sample_sum_mem_entries.mpr ⟨histogram, hmem, rfl⟩))
  obtain rfl := hright.durations.unique hother hsummed
  have hbuckets : ∀ bucket ∈ histogram.bucketValues, bucket ∈ other.bucketValues := by
    intro bucket hbucket
    obtain ⟨held, hheld, hfound⟩ := sample_bucket_mem_entries.mp
      (h _ (sample_bucket_mem_entries.mpr ⟨histogram, hmem, hbucket⟩))
    rwa [hright.durations.unique hother hheld]
  obtain rfl := Histogram.eq_of_bucketValues (hleft.durations.valid _ hmem)
    (hright.durations.valid _ hother) (UInt64.toNat_inj.mp hcount) (UInt64.toNat_inj.mp hsum)
    hbuckets
  exact hother

/-- Where all entries of one page are on another, so are all series of a counter. -/
theorem counters_subset {left right : Metrics}
    (h : ∀ said ∈ left.entries, said ∈ right.entries) (counter : Counter) :
    (left.counters counter).series ⊆ (right.counters counter).series := by
  rintro ⟨labels, value⟩ hmem
  obtain ⟨found, hfound, hvalue⟩ := (sample_counter_mem_entries counter).mp
    (h _ ((sample_counter_mem_entries counter).mpr ⟨value, hmem, rfl⟩))
  rwa [← UInt64.toNat_inj.mp hvalue]

/-- Metrics of which the same is said are the same. -/
theorem same_of_entries {left right : Metrics} (hleft : left.Sound) (hright : right.Sound)
    (h : ∀ said, said ∈ left.entries ↔ said ∈ right.entries) : Same left right where
  counters counter :=
    (List.perm_ext_iff_of_nodup (.of_map _ (hleft.counters counter).distinct)
      (.of_map _ (hright.counters counter).distinct)).mpr fun entry =>
        ⟨fun hmem => counters_subset (fun said => (h said).mp) counter hmem,
          fun hmem => counters_subset (fun said => (h said).mpr) counter hmem⟩
  durations :=
    (List.perm_ext_iff_of_nodup (.of_map _ hleft.durations.distinct)
      (.of_map _ hright.durations.distinct)).mpr fun entry =>
        ⟨fun hmem => durations_subset hleft hright (fun said => (h said).mp) hmem,
          fun hmem => durations_subset hright hleft (fun said => (h said).mpr) hmem⟩
  draining := by
    have hsaid := sample_draining_mem_entries.mp
      ((h _).mp (sample_draining_mem_entries.mpr rfl))
    revert hsaid
    cases left.draining <;> cases right.draining <;> decide

/-- Each line is read as its entry. -/
theorem map_read?_lines {metrics : Metrics} (h : metrics.Sound) :
    metrics.lines.map Line.read? = metrics.entries.map some := by
  rw [← List.forall₂_eq_eq_eq, List.forall₂_map_left_iff, List.forall₂_map_right_iff]
  exact (says_lines h).imp fun _ _ hsays => hsays.2

/-- What is said of metrics is what the lines of their page say. -/
theorem mem_entries_iff {metrics : Metrics} (h : metrics.Sound) {said : Line} :
    said ∈ metrics.entries ↔
      said ≠ .blank ∧ ∃ line ∈ metrics.page.splitOn '\n', Line.read? line = some said := by
  have hlines : said ∈ metrics.entries ↔ ∃ line ∈ metrics.lines, Line.read? line = some said := by
    rw [← List.mem_map, map_read?_lines h, List.mem_map_of_injective fun _ _ => Option.some.inj]
  rw [splitOn_page h]
  constructor
  · intro hsaid
    obtain ⟨line, hline, hsays⟩ := hlines.mp hsaid
    exact ⟨fun hblank => blank_notMem_entries (hblank ▸ hsaid), line,
      List.mem_append_left _ hline, hsays⟩
  · rintro ⟨hblank, line, hline, hsays⟩
    rcases List.mem_append.mp hline with hmem | hlast
    · exact hlines.mpr ⟨line, hmem, hsays⟩
    · rw [List.mem_singleton.mp hlast] at hsays
      exact absurd (Option.some.inj hsays).symm hblank

/-- The page of metrics after any steps, cut at its line breaks, is read line by line as exactly
what was measured: six lines for types and draining, one for each series of a counter and
thirteen for each histogram. Metrics whose pages have the same lines are the same. -/
theorem page_reads_back (steps others : List Measurement)
    (hsteps : ∀ step ∈ steps, Named step.labels) (hothers : ∀ step ∈ others, Named step.labels) :
    (∃ written, (after steps).page.splitOn '\n' = written ++ [[]] ∧
      written.map Line.read? = (after steps).entries.map some ∧
      written.length = 6 +
        (Counter.all.map fun counter => ((after steps).counters counter).series.length).sum +
        13 * (after steps).pipelineDuration.series.length) ∧
    ((∀ line, line ∈ (after steps).page.splitOn '\n' ↔
        line ∈ (after others).page.splitOn '\n') →
      Same (after steps) (after others)) := by
  have hsound := sound_after hsteps
  have hother := sound_after hothers
  refine ⟨⟨(after steps).lines, splitOn_page hsound, map_read?_lines hsound, ?_⟩, fun hlines => ?_⟩
  · rw [(says_lines hsound).length_eq, length_entries hsound]
  · refine same_of_entries hsound hother fun said => ?_
    rw [mem_entries_iff hsound, mem_entries_iff hother]
    simp only [hlines]

/-- A push whose type holds the marks of the page. -/
def markedPush : List Measurement :=
  [.increment .requests [("kind", "push")], .increment .requests [("kind", "handshake")],
    .observe [("msg_type", "a\"\x7d 1\n# \\,b=\"")] 700000]

/-- The page of a push with marks in its labels is read back, in any order of its steps. -/
theorem page_reads_back_markedPush :
    (∀ step ∈ markedPush, Named step.labels) ∧
      (∃ written, (after markedPush).page.splitOn '\n' = written ++ [[]] ∧
        written.map Line.read? = (after markedPush).entries.map some ∧ written.length = 21) ∧
      (∀ line, line ∈ (after markedPush).page.splitOn '\n' ↔
          line ∈ (after markedPush.reverse).page.splitOn '\n') ∧
        Same (after markedPush) (after markedPush.reverse) := by
  have hnamed : ∀ step ∈ markedPush, Named step.labels := by decide
  have hreverse : ∀ step ∈ markedPush.reverse, Named step.labels := by decide
  have hlines : ((after markedPush).page.splitOn '\n').Perm
      ((after markedPush.reverse).page.splitOn '\n') := by decide +kernel
  obtain ⟨⟨written, hsplit, hread, hlength⟩, hsame⟩ :=
    page_reads_back markedPush markedPush.reverse hnamed hreverse
  exact ⟨hnamed, ⟨written, hsplit, hread, hlength.trans (by decide +kernel)⟩,
    fun _ => hlines.mem_iff, hsame fun _ => hlines.mem_iff⟩

end CallbackGateway.Metrics
