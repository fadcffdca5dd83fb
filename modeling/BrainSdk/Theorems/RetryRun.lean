import BrainSdk.Rust.Retry
import Mathlib.Order.Bounds.Basic

/-!
# Runs of `with_retry`

A run calls the operation until its outcome is final or the attempts are used up, and sleeps between the server's hint and the backoff.
Nothing in it overflows.
-/

namespace BrainSdk.Rust

/-! ### Durations -/

@[simp] theorem Duration.nanos_min (d e : Duration) : (d.min e).nanos = Nat.min d.nanos e.nanos := by
  unfold Duration.min
  split
  · rename_i h
    exact (Nat.min_eq_left h).symm
  · rename_i h
    exact (Nat.min_eq_right (Nat.le_of_not_le h)).symm

/-- A sum that stays below a duration does not overflow. -/
theorem Duration.add_of_le {d e f : Duration} (h : d.nanos + e.nanos ≤ f.nanos) :
    ∃ s, d.add e = .ok s ∧ s.nanos = d.nanos + e.nanos := by
  unfold Duration.add
  have hlt := Nat.lt_of_le_of_lt h f.nanos_lt
  rw [dif_pos hlt]
  exact ⟨_, rfl, rfl⟩

theorem inc_of_lt {x y : UInt32} (h : x.toNat < y.toNat) : ∃ z, inc x = .ok z ∧ z.toNat = x.toNat + 1 := by
  have hno : x.toNat + 1 < 2 ^ 32 := Nat.lt_of_le_of_lt h y.toNat_lt
  unfold inc
  rw [if_pos hno]
  refine ⟨_, rfl, ?_⟩
  rw [UInt32.toNat_add]
  exact Nat.mod_eq_of_lt hno

theorem Duration.nanosOrMax_le (d : Duration) : d.nanosOrMax.toNat ≤ d.nanos := by
  unfold Duration.nanosOrMax
  split
  · exact Nat.mod_le _ _
  · rename_i h
    exact Nat.le_trans (by decide) (Nat.le_of_not_lt h)

theorem rem_of_ne_zero {x y : UInt64} (h : y ≠ 0) : ∃ r, rem x y = .ok r ∧ r.toNat < y.toNat := by
  have hpos : 0 < y.toNat := Nat.pos_of_ne_zero (fun h0 => h (UInt64.toNat_inj.1 h0))
  refine ⟨x % y, if_neg h, ?_⟩
  rw [UInt64.toNat_mod]
  exact Nat.mod_lt _ hpos

/-! ### Jitter and backoff -/

/-- The jittered delay exists and lies between the floor, cut at the delay, and the delay. -/
theorem jittered_spec (now : Option Duration) (delay floor : Duration) :
    ∃ d, jittered now delay floor = .ok d ∧ Nat.min floor.nanos delay.nanos ≤ d.nanos ∧ d.nanos ≤ delay.nanos := by
  have hfloor : (floor.min delay).nanos ≤ delay.nanos := by
    rw [Duration.nanos_min]
    exact Nat.min_le_right _ _
  have hspan : (delay.saturatingSub (floor.min delay)).nanosOrMax.toNat ≤ delay.nanos - (floor.min delay).nanos :=
    Duration.nanosOrMax_le _
  rw [← Duration.nanos_min]
  unfold jittered
  by_cases hzero : (delay.saturatingSub (floor.min delay)).nanosOrMax = 0
  · refine ⟨floor.min delay, ?_, Nat.le_refl _, hfloor⟩
    simp only [hzero, if_true]
    rfl
  · obtain ⟨extra, hextra, hlt⟩ := rem_of_ne_zero (x := splitMix64 (jitterSeed now)) hzero
    have hfit : (floor.min delay).nanos + (Duration.fromNanos extra).nanos ≤ delay.nanos := by
      have : (Duration.fromNanos extra).nanos = extra.toNat := rfl
      omega
    obtain ⟨d, hd, hnanos⟩ := Duration.add_of_le hfit
    refine ⟨d, ?_, ?_, ?_⟩
    · simp only [hzero, if_false, hextra]
      exact hd
    · rw [hnanos]
      exact Nat.le_add_right _ _
    · rw [hnanos]
      exact hfit

namespace RetryPolicy

/-- The backoff exists, is the hint cut at the longest delay when there is one, and is never longer than that. -/
theorem backoff_spec (policy : RetryPolicy) (attempt : UInt32) (hint : Option Duration) :
    ∃ r, policy.backoff attempt hint = .ok r ∧ (∀ ra, hint = some ra → r = some (ra.min policy.maxDelay)) ∧
      ∀ d, r = some d → d.nanos ≤ policy.maxDelay.nanos := by
  have hcut : ∀ d : Duration, (d.min policy.maxDelay).nanos ≤ policy.maxDelay.nanos := by
    intro d
    rw [Duration.nanos_min]
    exact Nat.min_le_right _ _
  unfold backoff
  cases hint with
  | some ra =>
    refine ⟨some (ra.min policy.maxDelay), rfl, ?_, ?_⟩
    · rintro _ ⟨⟩
      rfl
    · rintro _ ⟨⟩
      exact hcut ra
  | none =>
    by_cases hzero : policy.baseDelay = Duration.zero
    · refine ⟨none, ?_, nofun, nofun⟩
      simp only [hzero, if_true]
      rfl
    · have hshift : (UInt32.ofNat (Nat.min (attempt.toNat - 1) 31)).toNat < 32 :=
        Nat.lt_of_le_of_lt (Nat.mod_le _ _) (Nat.lt_succ_of_le (Nat.min_le_right _ _))
      have hshl : shl 1 (UInt32.ofNat (Nat.min (attempt.toNat - 1) 31)) = .ok (1 <<< UInt32.ofNat (Nat.min (attempt.toNat - 1) 31)) :=
        if_pos hshift
      refine ⟨some (((policy.baseDelay.checkedMul (1 <<< UInt32.ofNat (Nat.min (attempt.toNat - 1) 31))).getD policy.maxDelay).min
        policy.maxDelay), ?_, nofun, ?_⟩
      · simp only [hzero, if_false, hshl]
        rfl
      · rintro _ ⟨⟩
        exact hcut _

/-- Only attempts before the last that fail with a retryable error are followed by another, after a sleep between the hint and the
backoff. -/
theorem step_spec (policy : RetryPolicy) (now : Option Duration) (attempt : UInt32) (err : BrainError) :
    (willRetry policy.maxAttempts.toNat attempt.toNat err = false ∧ policy.step now attempt err = .ok .giveUp) ∨
    (willRetry policy.maxAttempts.toNat attempt.toNat err = true ∧ ∃ delay, policy.step now attempt err = .ok (.retry delay) ∧
      ∀ d, delay = some d → ∃ b, policy.backoff attempt err.retryAfter = .ok (some b) ∧
        Nat.min (err.retryAfter.getD Duration.zero).nanos policy.maxDelay.nanos ≤ d.nanos ∧ d.nanos ≤ b.nanos ∧
        d.nanos ≤ policy.maxDelay.nanos) := by
  unfold step
  cases hw : willRetry policy.maxAttempts.toNat attempt.toNat err with
  | false => exact .inl ⟨rfl, rfl⟩
  | true =>
    refine .inr ⟨rfl, ?_⟩
    obtain ⟨r, hr, hhint, hcap⟩ := policy.backoff_spec attempt err.retryAfter
    rw [if_pos rfl]
    simp only [hr]
    cases r with
    | none => exact ⟨none, rfl, nofun⟩
    | some b =>
      obtain ⟨d, hd, hlow, hhigh⟩ := jittered_spec now b ((err.retryAfter.getD Duration.zero).min policy.maxDelay)
      refine ⟨some d, ?_, ?_⟩
      · show (jittered now b _ >>= fun delay => pure (RetryStep.retry (some delay))) = _
        rw [hd]
        rfl
      · rintro _ ⟨⟩
        refine ⟨b, rfl, Nat.le_trans ?_ hlow, hhigh, Nat.le_trans hhigh (hcap b rfl)⟩
        -- the floor is not above the backoff: it is the backoff, or there is no hint
        rw [Duration.nanos_min]
        cases hra : err.retryAfter with
        | none => exact Nat.le_trans (Nat.min_le_left _ _) (Nat.zero_le _)
        | some ra =>
          cases hhint ra hra
          rw [Duration.nanos_min, Option.getD_some]
          exact Nat.le_min.2 ⟨Nat.le_refl _, Nat.le_refl _⟩

end RetryPolicy

/-! ### The loop -/

section

variable {T : Type}

/-- An outcome that is not tried again: a value, or an error that is not retryable. -/
def IsFinal : Except BrainError T → Prop
  | .ok _ => True
  | .error err => err.isRetryable = false

/-- The loop returns what the attempt with this number came to. -/
def Ends (policy : RetryPolicy) (attempt : Nat) : Except BrainError T → Prop
  | .ok _ => True
  | .error err => willRetry policy.maxAttempts.toNat attempt err = false

/-- What the sleep after attempt `attempt`, which came to `outcome`, lies between. -/
def SleepWithin (policy : RetryPolicy) (attempt : UInt32) (outcome : Except BrainError T) (d : Duration) : Prop :=
  ∃ err b, outcome = .error err ∧ policy.backoff attempt err.retryAfter = .ok (some b) ∧
    Nat.min (err.retryAfter.getD Duration.zero).nanos policy.maxDelay.nanos ≤ d.nanos ∧ d.nanos ≤ b.nanos ∧
    d.nanos ≤ policy.maxDelay.nanos

/-- What the loop does from the attempt with number `attempt` on. -/
structure LoopRuns (policy : RetryPolicy) (attempt : UInt32) (outcomes : Nat → Except BrainError T) (run : RetryRun T) (n : Nat) : Prop where
  calls : run.calls = n + 1
  ends : Ends policy (attempt.toNat + n) (outcomes n)
  goes_on : ∀ i < n, ¬Ends policy (attempt.toNat + i) (outcomes i)
  result : run.result = outcomes n
  sleeps_length : run.sleeps.length = n
  sleeps : ∀ i d, run.sleeps[i]? = some (some d) → SleepWithin policy (UInt32.ofNat (attempt.toNat + i)) (outcomes i) d

theorem loop_spec (policy : RetryPolicy) (attempt : UInt32) (outcomes : Nat → Except BrainError T) (clock : Nat → Option Duration) :
    ∃ run n, withRetry.loop policy attempt outcomes clock = .ok run ∧ LoopRuns policy attempt outcomes run n := by
  fun_induction withRetry.loop policy attempt outcomes clock with
  | case1 attempt outcomes clock value hvalue =>
    refine ⟨_, 0, rfl, rfl, ?_, by simp, hvalue.symm, rfl, by simp⟩
    rw [hvalue]
    trivial
  | case2 attempt outcomes clock err herr panic hpanic =>
    rcases policy.step_spec (clock 0) attempt err with ⟨-, h⟩ | ⟨-, _, h, -⟩ <;> cases hpanic.symm.trans h
  | case3 attempt outcomes clock err herr hstep =>
    rcases policy.step_spec (clock 0) attempt err with ⟨hw, -⟩ | ⟨-, _, h, -⟩
    · refine ⟨_, 0, rfl, rfl, ?_, by simp, herr.symm, rfl, by simp⟩
      rw [herr]
      exact hw
    · cases hstep.symm.trans h
  | case4 attempt outcomes clock err herr delay hstep panic hpanic =>
    obtain ⟨next, hnext, -⟩ := inc_of_lt (RetryPolicy.lt_of_step_retry hstep).1
    cases hpanic.symm.trans hnext
  | case5 attempt outcomes clock err herr delay hstep next hnext panic hpanic ih =>
    obtain ⟨run, n, hrun, -⟩ := ih
    cases hpanic.symm.trans hrun
  | case6 attempt outcomes clock err herr delay hstep next hnext run hrun ih =>
    obtain ⟨run', n, hrun', h⟩ := ih
    cases hrun.symm.trans hrun'
    obtain ⟨next', hnext', hsucc⟩ := inc_of_lt (RetryPolicy.lt_of_step_retry hstep).1
    cases hnext.symm.trans hnext'
    have hnumber : ∀ i, next.toNat + i = attempt.toNat + (i + 1) := fun i => by omega
    rcases policy.step_spec (clock 0) attempt err with ⟨-, h'⟩ | ⟨hw, delay', hstep', hdelay⟩
    · cases hstep.symm.trans h'
    · cases hstep.symm.trans hstep'
      refine ⟨_, n + 1, rfl, by rw [h.calls], hnumber n ▸ h.ends, ?_, h.result, by rw [List.length_cons, h.sleeps_length], ?_⟩
      · rintro (- | i) hi
        · rw [herr]
          intro hends
          cases hw.symm.trans hends
        · rw [← hnumber]
          exact h.goes_on i (Nat.lt_of_succ_lt_succ hi)
      · rintro (- | i) d hd
        · obtain ⟨b, hb⟩ := hdelay d (Option.some.inj hd)
          refine ⟨err, b, herr, ?_, hb.2⟩
          rw [Nat.add_zero, UInt32.ofNat_toNat]
          exact hb.1
        · rw [← hnumber]
          exact h.sleeps i d hd

theorem not_ends_iff {policy : RetryPolicy} {attempt : Nat} {o : Except BrainError T} :
    ¬Ends policy attempt o ↔ ¬IsFinal o ∧ attempt < policy.maxAttempts.toNat := by
  cases o with
  | ok v => exact ⟨fun h => absurd trivial h, fun h => absurd trivial h.1⟩
  | error err =>
    unfold Ends IsFinal willRetry
    rw [Bool.not_eq_false, Bool.not_eq_false, Bool.and_eq_true, decide_eq_true_iff]
    exact And.comm

/-- The loop stops at the first final outcome or when the attempts are used up. -/
theorem LoopRuns.isLeast {policy : RetryPolicy} {outcomes : Nat → Except BrainError T} {run : RetryRun T} {n : Nat}
    (h : LoopRuns policy 1 outcomes run n) :
    IsLeast ({k | 0 < k ∧ IsFinal (outcomes (k - 1))} ∪ {max 1 policy.maxAttempts.toNat}) run.calls := by
  have hgoes : ∀ i < n, ¬IsFinal (outcomes i) ∧ 1 + i < policy.maxAttempts.toNat := fun i hi => not_ends_iff.1 (h.goes_on i hi)
  rw [h.calls]
  constructor
  · by_cases hfinal : IsFinal (outcomes n)
    · exact .inl ⟨Nat.succ_pos n, hfinal⟩
    · have hlast : ¬1 + n < policy.maxAttempts.toNat := fun hlt => not_ends_iff.2 ⟨hfinal, hlt⟩ h.ends
      refine .inr (show n + 1 = max 1 _ from ?_)
      cases n with
      | zero => omega
      | succ n =>
        have := (hgoes n (Nat.lt_succ_self n)).2
        omega
  · rintro k (⟨hpos, hfinal⟩ | hk)
    · by_contra hlt
      exact (hgoes (k - 1) (by omega)).1 hfinal
    · by_contra hlt
      cases (show k = max 1 _ from hk)
      have := (hgoes (max 1 policy.maxAttempts.toNat - 1) (by omega)).2
      omega

/-- For every policy, all outcomes and all times of the clock: the operation is called as often as the first final outcome or the number of
attempts says, the last outcome is returned, every sleep is between the hint, cut at the longest delay, and the backoff, and there is no
overflow and no panic. -/
theorem with_retry_run_law (policy : RetryPolicy) (outcomes : Nat → Except BrainError T) (clock : Nat → Option Duration) :
    (∃ run, withRetry policy outcomes clock = .ok run ∧
      IsLeast ({k | 0 < k ∧ IsFinal (outcomes (k - 1))} ∪ {max 1 policy.maxAttempts.toNat}) run.calls ∧
      run.result = outcomes (run.calls - 1) ∧ run.sleeps.length = run.calls - 1 ∧
      ∀ i d, run.sleeps[i]? = some (some d) → SleepWithin policy (UInt32.ofNat (i + 1)) (outcomes i) d) ∧
    (∀ now attempt err, ∃ s, policy.step now attempt err = .ok s) ∧
    (∀ attempt hint, ∃ b, policy.backoff attempt hint = .ok b) ∧
    ∀ now delay floor, ∃ d, jittered now delay floor = .ok d := by
  refine ⟨?_, fun now attempt err => ?_, fun attempt hint => ?_, fun now delay floor => ?_⟩
  · obtain ⟨run, n, hrun, h⟩ := loop_spec policy 1 outcomes clock
    refine ⟨run, hrun, h.isLeast, ?_, ?_, fun i d hd => ?_⟩
    · rw [h.result, h.calls, Nat.add_sub_cancel]
    · rw [h.sleeps_length, h.calls, Nat.add_sub_cancel]
    · rw [Nat.add_comm]
      exact h.sleeps i d hd
  · rcases policy.step_spec now attempt err with ⟨-, h⟩ | ⟨-, delay, h, -⟩ <;> exact ⟨_, h⟩
  · obtain ⟨b, hb, -⟩ := policy.backoff_spec attempt hint
    exact ⟨b, hb⟩
  · obtain ⟨d, hd, -⟩ := jittered_spec now delay floor
    exact ⟨d, hd⟩

end

end BrainSdk.Rust
