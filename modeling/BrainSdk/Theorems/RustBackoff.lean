import BrainSdk.Http.Retry
import BrainSdk.Theorems.RetryRun

/-!
# The exponential schedule of the Rust policies

Both policies promise `base * 2^(attempt-1)` cut at the longest delay. The shift stops at 31, so the schedule stops growing at the
thirty-second attempt, and where it has not come to the longest delay by then it never does.
-/

namespace BrainSdk.Rust

/-- A product that does not fit is longer than any delay, so the cut at the longest delay hides the overflow. -/
theorem checkedMul_min (base max : Duration) {m : UInt32} {k : Nat} (hm : m.toNat = 2 ^ k) :
    (((base.checkedMul m).getD max).min max).nanos = Nat.min (base.nanos * 2 ^ k) max.nanos := by
  unfold Duration.checkedMul
  rw [hm]
  split
  · exact Duration.nanos_min _ _
  · rename_i hover
    have hlong : max.nanos ≤ base.nanos * 2 ^ k := Nat.le_trans (Nat.le_of_lt max.nanos_lt) (Nat.le_of_not_lt hover)
    rw [Option.getD_none, Duration.nanos_min]
    exact (Nat.min_self _).trans (Nat.min_eq_right hlong).symm

/-- The schedule of both policies: doubled from the base for every attempt up to the thirty-second, and cut at the longest delay. -/
theorem httpBackoff_none_spec {policy : HttpRetryPolicy} (attempt : UInt32) (hbase : policy.baseDelay ≠ Duration.zero) :
    ∃ d, policy.backoff attempt none = .ok d ∧
      d.nanos = Nat.min (policy.baseDelay.nanos * 2 ^ Nat.min (attempt.toNat - 1) 31) policy.maxDelay.nanos := by
  have hk : Nat.min (attempt.toNat - 1) 31 < 32 := Nat.lt_succ_of_le (Nat.min_le_right _ _)
  obtain ⟨m, hshl, hm⟩ := shl_one _ hk
  refine ⟨((policy.baseDelay.checkedMul m).getD policy.maxDelay).min policy.maxDelay, ?_, checkedMul_min _ _ hm⟩
  simp only [HttpRetryPolicy.backoff, hbase, if_false, hshl]
  rfl

theorem backoff_none_spec {policy : RetryPolicy} (attempt : UInt32) (hbase : policy.baseDelay ≠ Duration.zero) :
    ∃ d, policy.backoff attempt none = .ok (some d) ∧
      d.nanos = Nat.min (policy.baseDelay.nanos * 2 ^ Nat.min (attempt.toNat - 1) 31) policy.maxDelay.nanos := by
  have hk : Nat.min (attempt.toNat - 1) 31 < 32 := Nat.lt_succ_of_le (Nat.min_le_right _ _)
  obtain ⟨m, hshl, hm⟩ := shl_one _ hk
  refine ⟨((policy.baseDelay.checkedMul m).getD policy.maxDelay).min policy.maxDelay, ?_, checkedMul_min _ _ hm⟩
  simp only [RetryPolicy.backoff, hbase, if_false, hshl]
  rfl

/-- `base * 2^(attempt-1)`, saturating at `max`, in nanoseconds. -/
def schedule (base max : Duration) (attempt : UInt32) : Nat := Nat.min (base.nanos * 2 ^ (attempt.toNat - 1)) max.nanos

/-- The backoff of `RetryPolicy` comes to a delay of this many nanoseconds. -/
def Waits (maxAttempts : UInt32) (base max : Duration) (attempt : UInt32) (nanos : Nat) : Prop :=
  ∃ d, RetryPolicy.backoff ⟨maxAttempts, base, max⟩ attempt none = .ok (some d) ∧ d.nanos = nanos

/-- The backoff of `HttpRetryPolicy` does. -/
def HttpWaits (maxAttempts : UInt32) (base max : Duration) (attempt : UInt32) (nanos : Nat) : Prop :=
  ∃ d, HttpRetryPolicy.backoff ⟨maxAttempts, base, max⟩ attempt none = .ok d ∧ d.nanos = nanos

/-- What both wait. -/
def clamped (base max : Duration) (attempt : UInt32) : Nat := Nat.min (base.nanos * 2 ^ Nat.min (attempt.toNat - 1) 31) max.nanos

theorem waits_iff {maxAttempts : UInt32} {base max : Duration} {attempt : UInt32} {nanos : Nat} (hbase : base ≠ Duration.zero) :
    Waits maxAttempts base max attempt nanos ↔ clamped base max attempt = nanos := by
  obtain ⟨d, hd, hnanos⟩ := @backoff_none_spec ⟨maxAttempts, base, max⟩ attempt hbase
  constructor
  · rintro ⟨e, he, rfl⟩
    rw [hd] at he
    cases he
    exact hnanos.symm
  · rintro rfl
    exact ⟨d, hd, hnanos⟩

theorem httpWaits_iff {maxAttempts : UInt32} {base max : Duration} {attempt : UInt32} {nanos : Nat} (hbase : base ≠ Duration.zero) :
    HttpWaits maxAttempts base max attempt nanos ↔ clamped base max attempt = nanos := by
  obtain ⟨d, hd, hnanos⟩ := @httpBackoff_none_spec ⟨maxAttempts, base, max⟩ attempt hbase
  constructor
  · rintro ⟨e, he, rfl⟩
    rw [hd] at he
    cases he
    exact hnanos.symm
  · rintro rfl
    exact ⟨d, hd, hnanos⟩

/-- The clamped schedule is the exact one up to the thirty-second attempt, and after it where the longest delay has been reached. -/
theorem clamped_eq_schedule_iff {base max : Duration} {attempt : UInt32} (hbase : base ≠ Duration.zero) :
    clamped base max attempt = schedule base max attempt ↔ attempt.toNat ≤ 32 ∨ max.nanos ≤ base.nanos * 2 ^ 31 := by
  have hpos : 0 < base.nanos := Nat.pos_of_ne_zero fun h => hbase (Duration.ext h)
  unfold clamped schedule
  rcases Nat.lt_or_ge 32 attempt.toNat with hlate | hearly
  · have hclamp : Nat.min (attempt.toNat - 1) 31 = 31 := Nat.min_eq_right (by omega)
    have hgrow : base.nanos * 2 ^ 31 < base.nanos * 2 ^ (attempt.toNat - 1) :=
      Nat.mul_lt_mul_of_pos_left (Nat.pow_lt_pow_right (by decide) (by omega)) hpos
    have hlate' : ¬attempt.toNat ≤ 32 := Nat.not_le_of_lt hlate
    simp only [hclamp, hlate', false_or]
    generalize base.nanos * 2 ^ (attempt.toNat - 1) = b at hgrow
    grind
  · have hclamp : Nat.min (attempt.toNat - 1) 31 = attempt.toNat - 1 := Nat.min_eq_left (by omega)
    rw [hclamp]
    exact iff_of_true rfl (Or.inl hearly)

/-- The clamped schedule comes to the longest delay, and stays there, exactly where the thirty-second attempt has come to it. -/
theorem clamped_reaches_iff {base max : Duration} :
    (∃ first : UInt32, 1 ≤ first.toNat ∧ ∀ attempt : UInt32, first.toNat ≤ attempt.toNat → clamped base max attempt = max.nanos) ↔
      max.nanos ≤ base.nanos * 2 ^ 31 := by
  have hclamped : ∀ attempt : UInt32, 32 ≤ attempt.toNat → clamped base max attempt = Nat.min (base.nanos * 2 ^ 31) max.nanos := by
    intro attempt hle
    have hclamp : Nat.min (attempt.toNat - 1) 31 = 31 := Nat.min_eq_right (by omega)
    rw [clamped, hclamp]
  constructor
  · rintro ⟨first, -, hreach⟩
    have hlast : (UInt32.ofNat (2 ^ 32 - 1)).toNat = 2 ^ 32 - 1 := by decide
    have hend := hreach (UInt32.ofNat (2 ^ 32 - 1)) (by rw [hlast]; have := first.toNat_lt; omega)
    rw [hclamped _ (by rw [hlast]; decide)] at hend
    exact hend ▸ Nat.min_le_left _ _
  · intro hle
    refine ⟨32, by decide, ?_⟩
    intro attempt hattempt
    rw [hclamped attempt hattempt]
    exact Nat.min_eq_right hle

/-- A policy of one nanosecond and a longest delay of ten seconds waits about two seconds before its thirty-fourth attempt and not the
four of the schedule, and waits no longer however often it fails. -/
theorem schedule_stops_short :
    ¬∀ (maxAttempts : UInt32) (base max : Duration) (attempt : UInt32), base ≠ Duration.zero → 1 ≤ attempt.toNat →
      Waits maxAttempts base max attempt (schedule base max attempt) ∧
        HttpWaits maxAttempts base max attempt (schedule base max attempt) := by
  intro h
  have hbase : (⟨1, by decide⟩ : Duration) ≠ Duration.zero := by decide
  have hwaits := (h 40 ⟨1, by decide⟩ ⟨10 * 10 ^ 9, by decide⟩ 33 hbase (by decide)).1
  rw [waits_iff hbase, clamped_eq_schedule_iff hbase] at hwaits
  revert hwaits
  decide

/-- Both backoffs always come to a delay, the one of the exact schedule exactly for the first thirty-two attempts and where `base * 2^31`
is no shorter than the longest delay; only there does the schedule come to the longest delay at all. -/
theorem backoff_exact_iff (maxAttempts : UInt32) (base max : Duration) (hbase : base ≠ Duration.zero) :
    (∀ attempt : UInt32, 1 ≤ attempt.toNat →
      (∃ nanos, Waits maxAttempts base max attempt nanos ∧ HttpWaits maxAttempts base max attempt nanos) ∧
      (Waits maxAttempts base max attempt (schedule base max attempt) ↔ attempt.toNat ≤ 32 ∨ max.nanos ≤ base.nanos * 2 ^ 31) ∧
      (HttpWaits maxAttempts base max attempt (schedule base max attempt) ↔ attempt.toNat ≤ 32 ∨ max.nanos ≤ base.nanos * 2 ^ 31)) ∧
    ((∃ first : UInt32, 1 ≤ first.toNat ∧ ∀ attempt : UInt32, first.toNat ≤ attempt.toNat →
        Waits maxAttempts base max attempt max.nanos) ↔ max.nanos ≤ base.nanos * 2 ^ 31) ∧
    ((∃ first : UInt32, 1 ≤ first.toNat ∧ ∀ attempt : UInt32, first.toNat ≤ attempt.toNat →
        HttpWaits maxAttempts base max attempt max.nanos) ↔ max.nanos ≤ base.nanos * 2 ^ 31) := by
  simp only [waits_iff hbase, httpWaits_iff hbase]
  refine ⟨?_, clamped_reaches_iff, clamped_reaches_iff⟩
  intro attempt _
  exact ⟨⟨_, rfl, rfl⟩, clamped_eq_schedule_iff hbase, clamped_eq_schedule_iff hbase⟩

/-- The first doubling of a policy of one nanosecond. -/
theorem backoff_exact_iff_nanosecond :
    (⟨1, by decide⟩ : Duration) ≠ Duration.zero ∧ Waits 5 ⟨1, by decide⟩ ⟨10, by decide⟩ 2 (schedule ⟨1, by decide⟩ ⟨10, by decide⟩ 2) :=
  ⟨by decide, ((backoff_exact_iff 5 ⟨1, by decide⟩ ⟨10, by decide⟩ (by decide)).1 2 (by decide)).2.1.2 (Or.inl (by decide))⟩

end BrainSdk.Rust
