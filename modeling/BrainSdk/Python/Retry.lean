import BrainSdk.Cbor.Double
import BrainSdk.Errors

/-!
# The retry combinator of Python

`retry.py`: `RetryPolicy`, `_jittered`, `sleep_before_retry` and `with_retry`. Delays are floats, attempts and hints are integers without
a bound, and an integer becomes a float where the two meet, which it can be too large for. `time.sleep` refuses some of the delays.
-/

namespace BrainSdk.Python.Retry

open Library Cbor

/-- What a call of the operation, or the handler around it, can raise. -/
inductive Raised where
  | sdk (e : Exc)
  /-- an exception of no class of the SDK, by the name of its class -/
  | other (name message : String)
  deriving DecidableEq, Repr

/-- `is_retryable`. -/
def Raised.isRetryable : Raised → Bool
  | .sdk e => Python.isRetryable e
  | .other _ _ => false

/-- The `OverflowError` of an integer that no float holds. -/
def overflowError : Raised := .other "OverflowError" "int too large to convert to float"

/-- `_jittered`, with `random.uniform`. -/
def jittered (uniform : Double → Double → Double) (delay floor : Double) : Double :=
  let floor := pyMin floor delay
  if delay.le floor then floor else uniform floor delay

/-- `RetryPolicy`. -/
structure RetryPolicy where
  maxAttempts : Int
  baseDelay : Double
  maxDelay : Double

namespace RetryPolicy

/-- `RetryPolicy.backoff`. From the 1025th attempt on `2 ** (attempt - 1)` is too large for a float. -/
def backoff (policy : RetryPolicy) (attempt : Nat) (serverRetryAfter : Option Double) : Except Raised (Option Double) := do
  if let some ra := serverRetryAfter then return some (pyMin ra policy.maxDelay)
  if policy.baseDelay.le 0 then return none
  if attempt - 1 < 1024 then return some (pyMin (policy.baseDelay.scale (attempt - 1)) policy.maxDelay)
  throw overflowError

end RetryPolicy

/-- The hint of a server error, in milliseconds. -/
def Raised.retryAfterMs : Raised → Option Int
  | .sdk (.serverError response) => response.retryAfterMs
  | _ => none

/-- `ms / 1000.0`, which makes a float of the integer first. -/
def divThousand (ms : Int) : Except Raised Double := (Double.ofInt? ms).elim (.error overflowError) (fun x => .ok (x.over 1000))

/-- `_server_retry_after_seconds`. -/
def serverRetryAfterSeconds (exc : Raised) : Except Raised (Option Double) :=
  match exc.retryAfterMs with
  | some ms => (divThousand ms).map some
  | none => .ok none

/-- `sleep_before_retry`. -/
def sleepBeforeRetry (uniform : Double → Double → Double) (policy : RetryPolicy) (attempt : Nat) (exc : Raised) :
    Except Raised (Option Double) := do
  let serverFloor ← serverRetryAfterSeconds exc
  match ← policy.backoff attempt serverFloor with
  | none => return none
  | some delay =>
    if delay.abs = 0 then return none
    let floor := serverFloor.elim 0 (fun s => pyMin s policy.maxDelay)
    return some (jittered uniform delay floor)

/-- `time.sleep(delay)`, if there is a delay. -/
def pause (sleep : Double → Except Raised Unit) : Option Double → Except Raised Unit
  | none => .ok ()
  | some delay => if delay.abs = 0 then .ok () else sleep delay

/-- What a run of `with_retry` did: the calls of the operation, the delays between them, and what it came to. -/
structure RetryRun (T : Type) where
  calls : Nat
  sleeps : List (Option Double)
  result : Except Raised T

/-- The loop of `with_retry`, where `outcomes` and `uniform` are what the coming calls and draws come to. -/
def withRetry.loop {T : Type} (sleep : Double → Except Raised Unit) (policy : RetryPolicy) (attempt : Nat)
    (outcomes : Nat → Except Raised T) (uniform : Nat → Double → Double → Double) : RetryRun T :=
  match outcomes 0 with
  | .ok value => ⟨1, [], .ok value⟩
  | .error exc =>
    if (attempt : Int) < policy.maxAttempts ∧ exc.isRetryable = true then
      match sleepBeforeRetry (uniform 0) policy attempt exc with
      | .error e => ⟨1, [], .error e⟩
      | .ok delay =>
        match pause sleep delay with
        | .error e => ⟨1, [], .error e⟩
        | .ok () =>
          let run := withRetry.loop sleep policy (attempt + 1) (fun i => outcomes (i + 1)) (fun i => uniform (i + 1))
          ⟨run.calls + 1, delay :: run.sleeps, run.result⟩
    else ⟨1, [], .error exc⟩
  termination_by (policy.maxAttempts - attempt).toNat

/-- `with_retry`. -/
def withRetry {T : Type} (sleep : Double → Except Raised Unit) (policy : RetryPolicy) (outcomes : Nat → Except Raised T)
    (uniform : Nat → Double → Double → Double) : RetryRun T :=
  withRetry.loop sleep policy 1 outcomes uniform

end BrainSdk.Python.Retry
