import BrainSdk.Cbor.Double
import BrainSdk.Http.Errors
import BrainSdk.Python.Builtins
import BrainSdk.Rust.Retry

/-!
# Retry policies of the HTTP tier

`HttpRetryPolicy` of `http/retry.rs`, `http/retry.py` and `http/client.ts`: which failures are retried, how often, and how long the
Rust and the Python client wait. A Python delay is a float, so a delay may fail to be computed.
-/

namespace BrainSdk.Rust

open Library Http

/-- `HttpRetryPolicy`. -/
structure HttpRetryPolicy where
  maxAttempts : UInt32
  baseDelay : Duration
  maxDelay : Duration

namespace HttpRetryPolicy

/-- `is_retryable_status`. -/
def isRetryableStatus (status : Nat) : Bool := status = 0 || status = 429 || status = 503

/-- `should_retry`. -/
def shouldRetry (policy : HttpRetryPolicy) (attempt : Nat) (err : BrainHttpError) : Bool :=
  attempt < policy.maxAttempts.toNat && isRetryableStatus err.status

/-- `backoff`. -/
def backoff (policy : HttpRetryPolicy) (attempt : UInt32) (retryAfter : Option Duration) : Except Panic Duration := do
  if let some ra := retryAfter then return ra.min policy.maxDelay
  if policy.baseDelay = Duration.zero then return Duration.zero
  let shift := UInt32.ofNat (Nat.min (attempt.toNat - 1) 31)
  let mult ← shl 1 shift
  return ((policy.baseDelay.checkedMul mult).getD policy.maxDelay).min policy.maxDelay

end HttpRetryPolicy

/-- `str::parse::<u64>`. -/
def parseU64 (s : List Char) : Option UInt64 :=
  let digits := match s with
    | '+' :: rest => rest
    | s => s
  if digits ≠ [] ∧ digits.all Char.isDigit then
    let n := ofDigits (digits.map digitValue)
    if n < 2 ^ 64 then some (UInt64.ofNat n) else none
  else none

/-- `parse_retry_after`, from the bytes of the header. Only visible ASCII and tabs read as a string. -/
def parseRetryAfter (header : Option Bytes) : Option Duration := do
  let value ← header
  if value.all (fun b => b = 9 || (32 ≤ b && b < 127)) then
    let seconds ← parseU64 (strip (fun c => c = ' ' || c = '\t') (value.map (fun b => Char.ofNat b.toNat)))
    return .fromSecs seconds
  else none

end BrainSdk.Rust

namespace BrainSdk.Python

open Library Cbor Http

/-- An exception of another class than `BrainHttpError`. -/
structure Exception where
  cls : String
  message : String
  deriving DecidableEq, Repr

/-- `HttpRetryPolicy`. -/
structure HttpRetryPolicy where
  maxAttempts : Int
  baseDelay : Double
  maxDelay : Double

namespace HttpRetryPolicy

/-- `is_retryable_status`. -/
def isRetryableStatus (status : Nat) : Bool := status = 0 || status = 429 || status = 503

/-- `should_retry`. -/
def shouldRetry (policy : HttpRetryPolicy) (attempt : Nat) (err : BrainHttpError Double) : Bool :=
  attempt < policy.maxAttempts && isRetryableStatus err.status

/-- `backoff`. From the 1025th attempt on `2 ** (attempt - 1)` is too large for a float. -/
def backoff (policy : HttpRetryPolicy) (attempt : Nat) (retryAfter : Option Double) : Except Exception Double :=
  match retryAfter with
  | some ra => .ok (pyMin ra policy.maxDelay)
  | none =>
    if policy.baseDelay.le 0 then .ok 0
    else if attempt - 1 < 1024 then .ok (pyMin (policy.baseDelay.scale (attempt - 1)) policy.maxDelay)
    else .error ⟨"OverflowError", "int too large to convert to float"⟩

end HttpRetryPolicy

/-- `_parse_retry_after`. A header is decoded as Latin-1. A `ValueError` is caught, the `OverflowError` of `float` is not. -/
def parseRetryAfter (header : Option String) : Except Exception (Option Double) :=
  match header.bind (fun raw => parseInt (strip isSpace raw.toList)) with
  | none => .ok none
  | some n =>
    match Double.ofInt? n with
    | some x => .ok (some x)
    | none => .error ⟨"OverflowError", "int too large to convert to float"⟩

end BrainSdk.Python

namespace BrainSdk.TypeScript

open Cbor

/-- `HttpRetryPolicy`, as far as it decides whether to retry. -/
structure HttpRetryPolicy where
  maxAttempts : Double

/-- `shouldRetry`. -/
def HttpRetryPolicy.shouldRetry (policy : HttpRetryPolicy) (attempt : Nat) (err : BrainHttpError) : Bool :=
  Double.natLt attempt policy.maxAttempts && (err.status = 0 || err.status = 503 || err.status = 429)

end BrainSdk.TypeScript
