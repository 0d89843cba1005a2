import CallbackGateway.Metrics.Histogram
import CallbackGateway.Metrics.Series

/-!
# The metrics of a gateway

Three families of counters, one of histograms, and whether the gateway is draining. The page
shows each family as its type line and the lines of its series.
-/

namespace CallbackGateway

/-- What a gateway has measured. -/
structure Metrics where
  requests : Metrics.Family UInt64 := .empty
  verifyFailures : Metrics.Family UInt64 := .empty
  decodeErrors : Metrics.Family UInt64 := .empty
  pipelineDuration : Metrics.Family Metrics.Histogram := .empty
  draining : Bool := false
  deriving DecidableEq, Repr

namespace Metrics

/-- The families of counters. -/
inductive Counter
  | requests
  | verifyFailures
  | decodeErrors
  deriving DecidableEq, Repr

/-- The series of a counter. -/
def counters (metrics : Metrics) : Counter → Family UInt64
  | .requests => metrics.requests
  | .verifyFailures => metrics.verifyFailures
  | .decodeErrors => metrics.decodeErrors

/-- Add an amount to a counter. -/
def add (counter : Counter) (labels : Labels) (amount : UInt64) (metrics : Metrics) : Metrics :=
  let change := Family.update 0 (· + amount) labels
  match counter with
  | .requests => { metrics with requests := change metrics.requests }
  | .verifyFailures => { metrics with verifyFailures := change metrics.verifyFailures }
  | .decodeErrors => { metrics with decodeErrors := change metrics.decodeErrors }

/-- Add one to a counter. -/
def increment (counter : Counter) (labels : Labels) (metrics : Metrics) : Metrics :=
  metrics.add counter labels 1

/-- The value of a counter, zero if it was never touched. -/
def get (counter : Counter) (labels : Labels) (metrics : Metrics) : UInt64 :=
  ((metrics.counters counter).get? labels).getD 0

/-- Count a duration in nanoseconds. -/
def observe (labels : Labels) (nanos : Nat) (metrics : Metrics) : Metrics :=
  { metrics with
    pipelineDuration :=
      Family.update .empty (Histogram.observe (micros nanos)) labels metrics.pipelineDuration }

/-- Mark the gateway as draining. -/
def drain (metrics : Metrics) : Metrics := { metrics with draining := true }

/-- Adding to one counter changes no other counter. -/
theorem counters_add (counter other : Counter) (labels : Labels) (amount : UInt64)
    (metrics : Metrics) :
    (metrics.add counter labels amount).counters other =
      if other = counter then (metrics.counters other).update 0 (· + amount) labels
      else metrics.counters other := by
  cases counter <;> cases other <;> rfl

end Metrics

end CallbackGateway
