import CallbackGateway.GatewayError

/-!
# Deadlines

Work that ends before the deadline decides the response itself; work that does not is
abandoned, whatever it would have returned. Times are in milliseconds.
-/

namespace CallbackGateway

/-- How a piece of work ends. -/
inductive Ending
  /-- With a body, if it has one. -/
  | returned (body : Option Bytes)
  | failed (error : GatewayError)
  /-- Without a result. -/
  | crashed
  deriving DecidableEq, Repr

/-- A piece of work: how long it takes and how it ends. -/
structure Work where
  delay : Nat
  ending : Ending
  deriving DecidableEq, Repr

/-- What a piece of work came to. -/
inductive Completion
  | reply (body : Bytes)
  | noReply
  | timedOut
  | failed (reason : String)
  deriving DecidableEq, Repr

/-- What work that ended in time came to; an empty body is none. -/
def Ending.completion : Ending → Completion
  | .returned none | .returned (some []) => .noReply
  | .returned (some body) => .reply body
  | .failed error => .failed error.message
  | .crashed => .failed "reply task panicked"

/-- Run a piece of work under a deadline. -/
def Work.run (deadline : Nat) (work : Work) : Completion :=
  if work.delay < deadline then work.ending.completion else .timedOut

/-- Late work comes to the same whatever its ending is. -/
theorem Work.run_late {deadline : Nat} {work : Work} (h : deadline ≤ work.delay) :
    work.run deadline = .timedOut := by
  simp [Work.run, Nat.not_lt.mpr h]

end CallbackGateway
