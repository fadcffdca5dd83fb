import BrainSdk.TypeScript.Frame
import Mathlib.Data.Rat.Defs

/-!
# The error taxonomies of the three SDKs, and what each retries

`errors.py`, `error.rs` and `errors.ts`, with the retryability test of each and the part of each `with_retry` that decides whether
an operation is run again. The three taxonomies differ: what is an `OSError` in Python is `Io` in Rust and `TransportError` in
TypeScript, and a TypeScript promise may also be rejected with an error of the runtime that is in no taxonomy.
-/

namespace BrainSdk

open Library Wire

/-- The optional context of an ERROR frame. -/
structure ErrorDetails where
  field : Option String
  expected : Option String
  actual : Option String
  deriving DecidableEq, Repr

/-- The payload of an ERROR frame. The category is its discriminant on the wire. -/
structure ErrorResponse where
  code : Nat
  category : Nat
  message : String
  details : Option ErrorDetails
  retryAfterMs : Option Int
  deriving DecidableEq, Repr

/-- `ResourceExhausted`, a discriminant of `ErrorCategory`. -/
def categoryResourceExhausted : Nat := 6
/-- `Unavailable`, a discriminant of `ErrorCategory`. -/
def categoryUnavailable : Nat := 8

/-- `{n:#06x}`, in Python and in Rust. -/
def hex (n : Nat) : String :=
  let digits := Nat.toDigits 16 n
  "0x" ++ String.ofList (List.replicate (4 - digits.length) '0' ++ digits)

namespace Python

/-- The exceptions a call on a Python connection can raise. `payloadError` stands for whatever `decode_payload` raises, and
`encodeError` for what `encode_frame` raises besides its own `FrameError`. -/
inductive Exc where
  | connectionClosed (message : String)
  | osError (message : String)
  | brainTimeout (timeout : ℚ)
  | protocolError (message : String)
  | versionMismatch (chosen : Nat) (supported : List Nat)
  | serverError (response : ErrorResponse)
  | frameError (e : FrameError)
  | encodeError (e : EncodeError)
  | payloadError (message : String)
  deriving DecidableEq, Repr

/-- `is_retryable` of `errors.py`. -/
def isRetryable : Exc → Bool
  | .connectionClosed _ | .brainTimeout _ | .osError _ => true
  | .serverError r => r.category = categoryResourceExhausted || r.category = categoryUnavailable
  | _ => false

/-- The test of `with_retry` in `retry.py`: attempts remain and the exception is retryable. -/
def willRetry (maxAttempts : Int) (attempt : Nat) (e : Exc) : Bool := attempt < maxAttempts && isRetryable e

end Python

namespace Rust

/-- `BrainError` of `error.rs`. A duration is its number of nanoseconds. -/
inductive BrainError where
  | io (message : String)
  | frame (e : FrameError)
  | cbor (message : String)
  | protocol (message : String)
  | server (response : ErrorResponse)
  | versionMismatch (chosen : Nat) (supported : List Nat)
  | closed
  | timeout (nanos : Nat)
  deriving DecidableEq, Repr

/-- `BrainError::is_retryable`. -/
def BrainError.isRetryable : BrainError → Bool
  | .io _ | .closed | .timeout _ => true
  | .server r => r.category = categoryResourceExhausted || r.category = categoryUnavailable
  | _ => false

/-- The test of `RetryPolicy::step`: attempts remain and the error is retryable. -/
def willRetry (maxAttempts attempt : Nat) (e : BrainError) : Bool := attempt < maxAttempts && e.isRetryable

/-- The `Display` text of a `FrameError` in Rust. -/
def frameErrorDisplay : FrameError → String
  | .badMagic => "bad frame magic"
  | .badVersion got => s!"unsupported wire version: got {got}, expected {wireVersion}"
  | .badHeaderCrc => "header CRC mismatch"
  | .badPayloadCrc => "payload CRC mismatch"
  | .oversizePayload len => s!"payload length {len} exceeds maximum {maxPayloadBytes}"
  | .reservedNonZero _ => "reserved field or flag bit was non-zero"
  | .truncatedFrame h n => s!"truncated frame: have {h} bytes, need {n}"

end Rust

namespace TypeScript

/-- What a promise of the TypeScript mux is rejected with. `nodeError` is an `Error` of the runtime, such as the one `socket.write`
hands its callback; it is no `BrainError`. -/
inductive Thrown where
  | connectionClosed (message : String)
  | transportError (message : String)
  | brainTimeout (timeoutMs : ℚ)
  | protocolError (message : String)
  | versionMismatch (chosen : Nat) (supported : List Nat)
  | serverError (response : ErrorResponse)
  | frameError (e : FrameError)
  | cborError (message : String)
  | nodeError (message : String)
  deriving DecidableEq, Repr

/-- `isRetryable` of `errors.ts`. -/
def isRetryable : Thrown → Bool
  | .connectionClosed _ | .brainTimeout _ | .transportError _ => true
  | .serverError r => r.category = categoryResourceExhausted || r.category = categoryUnavailable
  | _ => false

/-- The test of `withRetry` in `retry.ts`: attempts remain and the error is retryable. -/
def willRetry (maxAttempts : ℚ) (attempt : Nat) (e : Thrown) : Bool := attempt < maxAttempts && isRetryable e

end TypeScript

end BrainSdk
