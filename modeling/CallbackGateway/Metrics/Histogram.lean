/-!
# Histograms

Durations are counted in whole microseconds: how many there were, their sum, and for each bound
how many did not exceed it. All counts wrap at 64 bits.
-/

namespace CallbackGateway.Metrics

/-- The bounds of the buckets, in microseconds. -/
def bounds : List UInt64 :=
  [100, 500, 1000, 5000, 10000, 50000, 100000, 500000, 1000000, 5000000]

/-- The durations of one series. -/
structure Histogram where
  count : UInt64
  sum : UInt64
  /-- For each bound, the number of durations that do not exceed it. -/
  buckets : List UInt64
  deriving DecidableEq, Repr

/-- No durations. -/
def Histogram.empty : Histogram := ⟨0, 0, bounds.map fun _ => 0⟩

/-- The whole microseconds of a duration in nanoseconds. -/
def micros (nanos : Nat) : UInt64 := UInt64.ofNat (nanos / 1000)

/-- Count a duration. -/
def Histogram.observe (duration : UInt64) (histogram : Histogram) : Histogram where
  count := histogram.count + 1
  sum := histogram.sum + duration
  buckets := List.zipWith (fun bound found => if duration ≤ bound then found + 1 else found)
    bounds histogram.buckets

end CallbackGateway.Metrics
