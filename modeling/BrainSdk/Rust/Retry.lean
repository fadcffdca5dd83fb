import BrainSdk.Errors

/-!
# The retry combinator

`retry.rs`: `RetryPolicy`, `jittered` and `with_retry`, over the operations of `std::time::Duration` that they use. An operation of the
language that would panic gives an error here.
-/

namespace BrainSdk.Rust

/-- What Rust arithmetic panics with. -/
inductive Panic where
  | addOverflow
  | shlOverflow
  | remByZero
  | durationOverflow
  deriving DecidableEq, Repr

/-- A `Duration`: less than `2^64` seconds, in nanoseconds. -/
@[ext] structure Duration where
  nanos : Nat
  nanos_lt : nanos < 2 ^ 64 * 10 ^ 9
  deriving DecidableEq, Repr

namespace Duration

/-- `Duration::ZERO`. -/
def zero : Duration := ⟨0, by decide⟩

/-- `Ord::min`. -/
def min (d e : Duration) : Duration := if d.nanos ≤ e.nanos then d else e

/-- `Duration::saturating_sub`. -/
def saturatingSub (d e : Duration) : Duration := ⟨d.nanos - e.nanos, Nat.lt_of_le_of_lt (Nat.sub_le _ _) d.nanos_lt⟩

/-- `Duration::checked_mul`. -/
def checkedMul (d : Duration) (k : UInt32) : Option Duration :=
  if h : d.nanos * k.toNat < 2 ^ 64 * 10 ^ 9 then some ⟨d.nanos * k.toNat, h⟩ else none

/-- `Duration::from_nanos`. -/
def fromNanos (n : UInt64) : Duration := ⟨n.toNat, Nat.lt_of_lt_of_le n.toNat_lt (Nat.le_mul_of_pos_right _ (by decide))⟩

/-- `Duration::from_secs`. -/
def fromSecs (n : UInt64) : Duration := ⟨n.toNat * 10 ^ 9, Nat.mul_lt_mul_of_pos_right n.toNat_lt (by decide)⟩

/-- `Duration::from_millis`, of a `u32`. -/
def fromMillis (ms : UInt32) : Duration :=
  ⟨ms.toNat * 10 ^ 6, Nat.lt_of_lt_of_le (Nat.mul_lt_mul_of_pos_right ms.toNat_lt (by decide)) (by decide)⟩

/-- `u64::try_from(d.as_nanos()).unwrap_or(u64::MAX)`. -/
def nanosOrMax (d : Duration) : UInt64 := if d.nanos < 2 ^ 64 then UInt64.ofNat d.nanos else UInt64.ofNat (2 ^ 64 - 1)

/-- `Duration + Duration`. -/
def add (d e : Duration) : Except Panic Duration :=
  if h : d.nanos + e.nanos < 2 ^ 64 * 10 ^ 9 then .ok ⟨d.nanos + e.nanos, h⟩ else .error .durationOverflow

end Duration

/-- `x << k` on a `u32`. -/
def shl (x : UInt32) (k : UInt32) : Except Panic UInt32 := if k.toNat < 32 then .ok (x <<< k) else .error .shlOverflow

/-- The multiplier of a backoff is the power of two that the shift names. -/
theorem shl_one (k : Nat) (hk : k < 32) : ∃ m, shl 1 (UInt32.ofNat k) = .ok m ∧ m.toNat = 2 ^ k := by
  have hsmall : k < 2 ^ 32 := Nat.lt_trans hk (by decide)
  have hshift : (UInt32.ofNat k).toNat = k := UInt32.toNat_ofNat_of_lt hsmall
  have hpow : 2 ^ k < 2 ^ 32 := Nat.pow_lt_pow_right (by decide) hk
  refine ⟨1 <<< UInt32.ofNat k, if_pos (by rw [hshift]; exact hk), ?_⟩
  rw [UInt32.toNat_shiftLeft, hshift, Nat.mod_eq_of_lt hk, Nat.shiftLeft_eq, UInt32.toNat_one, Nat.one_mul, Nat.mod_eq_of_lt hpow]

/-- `x % y` on a `u64`. -/
def rem (x y : UInt64) : Except Panic UInt64 := if y = 0 then .error .remByZero else .ok (x % y)

/-- `x + 1` on a `u32`. -/
def inc (x : UInt32) : Except Panic UInt32 := if x.toNat + 1 < 2 ^ 32 then .ok (x + 1) else .error .addOverflow

/-- The seed of the jitter, from the time since the epoch if the clock is not before it. -/
def jitterSeed (now : Option Duration) : UInt64 :=
  match now with
  | none => 0x9E3779B97F4A7C15
  | some d => UInt64.ofNat (d.nanos % 2 ^ 64)

/-- The mix of SplitMix64. -/
def splitMix64 (seed : UInt64) : UInt64 :=
  let z := seed + 0x9E3779B97F4A7C15
  let z := (z ^^^ (z >>> 30)) * 0xBF58476D1CE4E5B9
  let z := (z ^^^ (z >>> 27)) * 0x94D049BB133111EB
  z ^^^ (z >>> 31)

/-- `jittered`, at a time of the clock. -/
def jittered (now : Option Duration) (delay floor : Duration) : Except Panic Duration := do
  let floor := floor.min delay
  let span := delay.saturatingSub floor
  if span.nanosOrMax = 0 then return floor
  let extra ← rem (splitMix64 (jitterSeed now)) span.nanosOrMax
  floor.add (Duration.fromNanos extra)

/-- `BrainError::retry_after`. The hint of an ERROR frame is a `u32`. -/
def BrainError.retryAfter : BrainError → Option Duration
  | .server response => response.retryAfterMs.map (fun ms => Duration.fromMillis (UInt32.ofInt ms))
  | _ => none

/-- `RetryStep`. -/
inductive RetryStep where
  | retry (delay : Option Duration)
  | giveUp
  deriving DecidableEq, Repr

/-- `RetryPolicy`. -/
structure RetryPolicy where
  maxAttempts : UInt32
  baseDelay : Duration
  maxDelay : Duration

namespace RetryPolicy

/-- `RetryPolicy::backoff`. -/
def backoff (policy : RetryPolicy) (attempt : UInt32) (serverRetryAfter : Option Duration) : Except Panic (Option Duration) := do
  if let some ra := serverRetryAfter then return some (ra.min policy.maxDelay)
  if policy.baseDelay = Duration.zero then return none
  let shift := UInt32.ofNat (Nat.min (attempt.toNat - 1) 31)
  let mult ← shl 1 shift
  let delay := ((policy.baseDelay.checkedMul mult).getD policy.maxDelay).min policy.maxDelay
  return some delay

/-- `RetryPolicy::step`, at a time of the clock. -/
def step (policy : RetryPolicy) (now : Option Duration) (attempt : UInt32) (err : BrainError) : Except Panic RetryStep := do
  if willRetry policy.maxAttempts.toNat attempt.toNat err then
    let serverFloor := err.retryAfter
    match ← policy.backoff attempt serverFloor with
    | none => return .retry none
    | some delay =>
      let delay ← jittered now delay ((serverFloor.getD Duration.zero).min policy.maxDelay)
      return .retry (some delay)
  else return .giveUp

/-- Only an attempt before the last is followed by another. -/
theorem lt_of_step_retry {policy : RetryPolicy} {now : Option Duration} {attempt : UInt32} {err : BrainError} {delay : Option Duration}
    (h : policy.step now attempt err = .ok (.retry delay)) : attempt.toNat < policy.maxAttempts.toNat ∧ err.isRetryable = true := by
  unfold step at h
  by_cases hw : willRetry policy.maxAttempts.toNat attempt.toNat err = true
  · unfold willRetry at hw
    rw [Bool.and_eq_true] at hw
    exact ⟨of_decide_eq_true hw.1, hw.2⟩
  · rw [if_neg hw] at h
    nomatch h

end RetryPolicy

/-- What a run of `with_retry` did: the calls of the operation, what it slept between them, and what it returned. -/
structure RetryRun (T : Type) where
  calls : Nat
  sleeps : List (Option Duration)
  result : Except BrainError T

/-- The loop of `with_retry`, where `outcomes` and `clock` are what the coming calls come to and the times after them. -/
def withRetry.loop {T : Type} (policy : RetryPolicy) (attempt : UInt32) (outcomes : Nat → Except BrainError T)
    (clock : Nat → Option Duration) : Except Panic (RetryRun T) :=
  match outcomes 0 with
  | .ok value => .ok ⟨1, [], .ok value⟩
  | .error err =>
    match _h : policy.step (clock 0) attempt err with
    | .error panic => .error panic
    | .ok .giveUp => .ok ⟨1, [], .error err⟩
    | .ok (.retry delay) =>
      match _hs : inc attempt with
      | .error panic => .error panic
      | .ok next =>
        match withRetry.loop policy next (fun i => outcomes (i + 1)) (fun i => clock (i + 1)) with
        | .error panic => .error panic
        | .ok run => .ok ⟨run.calls + 1, delay :: run.sleeps, run.result⟩
  termination_by policy.maxAttempts.toNat - attempt.toNat
  decreasing_by
    have hlt := (RetryPolicy.lt_of_step_retry _h).1
    have hnext : next.toNat = attempt.toNat + 1 := by
      unfold inc at _hs
      split at _hs
      · rename_i hno
        cases _hs
        rw [UInt32.toNat_add]
        exact Nat.mod_eq_of_lt hno
      · nomatch _hs
    omega

/-- `with_retry`. -/
def withRetry {T : Type} (policy : RetryPolicy) (outcomes : Nat → Except BrainError T) (clock : Nat → Option Duration) :
    Except Panic (RetryRun T) :=
  withRetry.loop policy 1 outcomes clock

end BrainSdk.Rust
