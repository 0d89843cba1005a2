import CallbackGateway.Metrics.Registry

/-!
# The metrics page

The page is a list of lines, each ended by a line break. A histogram takes thirteen lines: one
for each bound, one for all durations, their sum and their count.
-/

namespace CallbackGateway.Metrics

/-- The decimal text of a count. -/
def writeCount (n : UInt64) : List Char := Nat.toDigits 10 n.toNat

/-- The line of a measurement. -/
def writeSample (name labels : List Char) (value : UInt64) : List Char :=
  name ++ '\x7b' :: labels ++ ['\x7d', ' '] ++ writeCount value

/-- The line that names the type of a family. -/
def typeLine (name kind : String) : List Char :=
  "# TYPE ".toList ++ name.toList ++ ' ' :: kind.toList

/-- The lines of a family of counters. -/
def counterLines (name : String) (family : Family UInt64) : List (List Char) :=
  typeLine name "counter" ::
    family.series.map fun (labels, value) => writeSample name.toList (writeLabels labels) value

/-- The labels of a bucket: those of the series and the bound. -/
def bucketLabels (labels : Labels) (bound : List Char) : List Char :=
  (if labels = [] then [] else writeLabels labels ++ [',']) ++
    "le=\"".toList ++ bound ++ ['"']

/-- The lines of a histogram. -/
def histogramLines (name : String) (labels : Labels) (histogram : Histogram) :
    List (List Char) :=
  let bucket := name.toList ++ "_bucket".toList
  List.zipWith (fun bound found =>
      writeSample bucket (bucketLabels labels (writeCount bound)) found)
    bounds histogram.buckets ++
  [writeSample bucket (bucketLabels labels "+Inf".toList) histogram.count,
    writeSample (name.toList ++ "_sum".toList) (writeLabels labels) histogram.sum,
    writeSample (name.toList ++ "_count".toList) (writeLabels labels) histogram.count]

/-- The lines of the page. -/
def lines (metrics : Metrics) : List (List Char) :=
  counterLines "mpportal_requests_total" metrics.requests ++
  counterLines "mpportal_verify_failures_total" metrics.verifyFailures ++
  counterLines "mpportal_decode_errors_total" metrics.decodeErrors ++
  typeLine "mpportal_pipeline_duration_micros" "histogram" ::
    metrics.pipelineDuration.series.flatMap (fun (labels, histogram) =>
      histogramLines "mpportal_pipeline_duration_micros" labels histogram) ++
  [typeLine "mpportal_draining" "gauge",
    "mpportal_draining ".toList ++ [if metrics.draining then '1' else '0']]

/-- The page. -/
def page (metrics : Metrics) : List Char := metrics.lines.flatMap (· ++ ['\n'])

end CallbackGateway.Metrics
