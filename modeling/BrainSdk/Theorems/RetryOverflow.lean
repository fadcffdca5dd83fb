import BrainSdk.Python.Retry
import Mathlib.Order.Bounds.Basic

/-!
# Runs of the Python `with_retry`

The loop goes on while an outcome is to be tried again, its delay can be computed and `time.sleep` accepts it. Without a hint the delay is
a draw up to a float times a power of two that has no bound; a hint is an integer of either sign divided by a float. So either can be an
integer that no float holds, a hint can be negative, and a delay can be longer than what a clock counts.
-/

namespace BrainSdk.Python.Retry

open Library Cbor

/-! ### Delays -/

/-- There is nothing to wait for, or `time.sleep` accepts the delay. -/
def Accepts (sleep : Double → Except Raised Unit) (delay : Double) : Prop := delay.abs = 0 ∨ sleep delay = .ok ()

/-- A hint of so many milliseconds is waited out: a float holds it, and its seconds, cut at the longest delay, are accepted. -/
def HintAccepted (sleep : Double → Except Raised Unit) (policy : RetryPolicy) (ms : Int) : Prop :=
  ms.natAbs < floatLimit ∧ ∀ x ∈ Double.ofInt? ms, Accepts sleep (pyMin (x.over 1000) policy.maxDelay)

/-- The wait after an attempt is one that is waited out. Without a hint the attempt is at most the 1024th, and what is drawn is
accepted. -/
def Waits (sleep : Double → Except Raised Unit) (uniform : Double → Double → Double) (policy : RetryPolicy) (attempt : Nat)
    (exc : Raised) : Prop :=
  match exc.retryAfterMs with
  | some ms => HintAccepted sleep policy ms
  | none => attempt ≤ 1024 ∧ Accepts sleep (uniform 0 (pyMin (policy.baseDelay.scale (attempt - 1)) policy.maxDelay))

theorem pause_ok_iff {sleep : Double → Except Raised Unit} {delay : Double} : pause sleep (some delay) = .ok () ↔ Accepts sleep delay := by
  unfold pause Accepts
  dsimp only
  split
  · rename_i h
    exact iff_of_true rfl (.inl h)
  · rename_i h
    exact (or_iff_right h).symm

/-- With the delay as its floor nothing is drawn. -/
theorem jittered_self (uniform : Double → Double → Double) {delay : Double} (h : ¬delay.isNaN) : jittered uniform delay delay = delay := by
  have hmin : pyMin delay delay = delay := pyMin_of (p := fun x => x = delay) rfl rfl
  unfold jittered
  rw [hmin, if_pos (Double.le_iff.2 ⟨h, h, Int.le_refl _⟩)]

/-- With no floor a positive delay is drawn. -/
theorem jittered_zero (uniform : Double → Double → Double) {delay : Double} (h : Double.lt 0 delay = true) :
    jittered uniform delay 0 = uniform 0 delay := by
  obtain ⟨-, hkey⟩ := Double.zero_lt_iff.1 h
  have hmin : pyMin 0 delay = 0 := by
    unfold pyMin
    refine if_neg (fun hlt => ?_)
    obtain ⟨-, -, hlt⟩ := Double.lt_iff.1 hlt
    rw [Double.zero_facts.2] at hlt
    omega
  unfold jittered
  rw [hmin]
  refine if_neg (fun hle => ?_)
  obtain ⟨-, -, hle⟩ := Double.le_iff.1 hle
  rw [Double.zero_facts.2] at hle
  omega

theorem abs_ne_zero_of_pos {x : Double} (h : Double.lt 0 x = true) : x.abs ≠ 0 := by
  obtain ⟨-, hkey⟩ := Double.zero_lt_iff.1 h
  unfold Double.key at hkey
  split at hkey <;> omega

/-- The seconds of a hint that a float holds are no NaN. -/
theorem divThousand_cases (ms : Int) :
    (∃ x, Double.ofInt? ms = some x ∧ ms.natAbs < floatLimit ∧ divThousand ms = .ok (x.over 1000) ∧ ¬(x.over 1000).isNaN) ∨
      ¬ms.natAbs < floatLimit ∧ divThousand ms = .error overflowError := by
  unfold divThousand
  rcases Double.ofInt_cases ms with ⟨hfits, x, hx, hnan⟩ | ⟨hfits, hx⟩
  · rw [hx]
    exact .inl ⟨x, rfl, hfits, rfl, Double.over_not_nan hnan 1000⟩
  · rw [hx]
    exact .inr ⟨hfits, rfl⟩

theorem serverRetryAfterSeconds_of {exc : Raised} {ms : Int} (hms : exc.retryAfterMs = some ms) :
    serverRetryAfterSeconds exc = (divThousand ms).map some := by
  unfold serverRetryAfterSeconds
  rw [hms]

/-- After a hint the wait is what `min` leaves of it. -/
theorem hinted_iff {sleep : Double → Except Raised Unit} (uniform : Double → Double → Double) {policy : RetryPolicy}
    (hmax : Double.lt 0 policy.maxDelay = true) (attempt : Nat) {exc : Raised} {hint : Double}
    (hserver : serverRetryAfterSeconds exc = .ok (some hint)) (hnan : ¬hint.isNaN) :
    (∃ delay, sleepBeforeRetry uniform policy attempt exc = .ok delay ∧ pause sleep delay = .ok ()) ↔
      Accepts sleep (pyMin hint policy.maxDelay) := by
  have hdelay : ¬(pyMin hint policy.maxDelay).isNaN := pyMin_of (p := fun x => ¬x.isNaN) hnan (Double.zero_lt_iff.1 hmax).1
  unfold sleepBeforeRetry
  simp only [hserver, bind, Except.bind, RetryPolicy.backoff, pure, Except.pure]
  split
  · rename_i h
    exact iff_of_true ⟨none, rfl, rfl⟩ (.inl h)
  · simp only [Option.elim_some, jittered_self uniform hdelay, Except.ok.injEq, exists_eq_left']
    exact pause_ok_iff

/-- Without a hint it is what is drawn. -/
theorem unhinted_iff {sleep : Double → Except Raised Unit} (uniform : Double → Double → Double) {policy : RetryPolicy}
    (hbase : Double.lt 0 policy.baseDelay = true) (hmax : Double.lt 0 policy.maxDelay = true) {attempt : Nat} (hattempt : 1 ≤ attempt)
    {exc : Raised} (hms : exc.retryAfterMs = none) :
    (∃ delay, sleepBeforeRetry uniform policy attempt exc = .ok delay ∧ pause sleep delay = .ok ()) ↔
      attempt ≤ 1024 ∧ Accepts sleep (uniform 0 (pyMin (policy.baseDelay.scale (attempt - 1)) policy.maxDelay)) := by
  have hserver : serverRetryAfterSeconds exc = .ok none := by
    unfold serverRetryAfterSeconds
    rw [hms]
  have hpositive : ¬policy.baseDelay.le 0 = true := by
    intro hle
    obtain ⟨-, -, hle⟩ := Double.le_iff.1 hle
    obtain ⟨-, hkey⟩ := Double.zero_lt_iff.1 hbase
    rw [Double.zero_facts.2] at hle
    omega
  unfold sleepBeforeRetry
  rw [hserver]
  simp only [bind, Except.bind, RetryPolicy.backoff, hpositive, Bool.false_eq_true, if_false]
  by_cases hfits : attempt - 1 < 1024
  · have hle : attempt ≤ 1024 := by omega
    have hdelay : Double.lt 0 (pyMin (policy.baseDelay.scale (attempt - 1)) policy.maxDelay) = true :=
      pyMin_of (p := fun x => Double.lt 0 x = true) (Double.scale_pos hbase _) hmax
    simp only [hfits, if_true, pure, Except.pure, abs_ne_zero_of_pos hdelay, if_false, Option.elim_none,
      jittered_zero uniform hdelay, Except.ok.injEq, exists_eq_left', hle, true_and]
    exact pause_ok_iff
  · have hover : ¬attempt ≤ 1024 := by omega
    simp [hfits, hover, throw, throwThe, MonadExceptOf.throw]

/-- The delay is computed and waited out exactly when it is one to be waited out. -/
theorem pauses_iff {sleep : Double → Except Raised Unit} (uniform : Double → Double → Double) {policy : RetryPolicy}
    (hbase : Double.lt 0 policy.baseDelay = true) (hmax : Double.lt 0 policy.maxDelay = true) {attempt : Nat} (hattempt : 1 ≤ attempt)
    (exc : Raised) :
    (∃ delay, sleepBeforeRetry uniform policy attempt exc = .ok delay ∧ pause sleep delay = .ok ()) ↔
      Waits sleep uniform policy attempt exc := by
  rcases hms : exc.retryAfterMs with - | ms
  · simp only [Waits, hms]
    exact unhinted_iff uniform hbase hmax hattempt hms
  · simp only [Waits, hms]
    rcases divThousand_cases ms with ⟨x, hx, hfits, hseconds, hnan⟩ | ⟨hfits, hseconds⟩
    · have hserver : serverRetryAfterSeconds exc = .ok (some (x.over 1000)) := by
        rw [serverRetryAfterSeconds_of hms, hseconds]
        rfl
      rw [hinted_iff uniform hmax attempt hserver hnan, HintAccepted, hx]
      simp [hfits]
    · have hserver : serverRetryAfterSeconds exc = .error overflowError := by
        rw [serverRetryAfterSeconds_of hms, hseconds]
        rfl
      unfold sleepBeforeRetry HintAccepted
      simp [hserver, bind, Except.bind, hfits]

/-! ### The loop -/

variable {T : Type}

/-- An outcome that is not tried again: a value, or an exception that is not retryable. -/
def IsFinal : Except Raised T → Prop
  | .ok _ => True
  | .error exc => exc.isRetryable = false

/-- The outcome of the attempt with this number is to be tried again. -/
def Continues (policy : RetryPolicy) (attempt : Nat) (o : Except Raised T) : Prop := ¬IsFinal o ∧ (attempt : Int) < policy.maxAttempts

/-- The wait after the attempt, if it fails, is waited out. -/
def OutcomeWaits (sleep : Double → Except Raised Unit) (uniform : Double → Double → Double) (policy : RetryPolicy) (attempt : Nat) :
    Except Raised T → Prop
  | .ok _ => True
  | .error exc => Waits sleep uniform policy attempt exc

/-- What the loop does from the attempt with number `attempt` on: it goes on to the first outcome that is not to be tried again, or
whose wait is not waited out. -/
structure LoopRuns (sleep : Double → Except Raised Unit) (policy : RetryPolicy) (attempt : Nat) (outcomes : Nat → Except Raised T)
    (uniform : Nat → Double → Double → Double) (run : RetryRun T) (n : Nat) : Prop where
  calls : run.calls = n + 1
  goes_on : ∀ i < n, Continues policy (attempt + i) (outcomes i) ∧ OutcomeWaits sleep (uniform i) policy (attempt + i) (outcomes i)
  ends : ¬Continues policy (attempt + n) (outcomes n) ∧ run.result = outcomes n ∨
    Continues policy (attempt + n) (outcomes n) ∧ ¬OutcomeWaits sleep (uniform n) policy (attempt + n) (outcomes n)

theorem continues_iff {policy : RetryPolicy} {attempt : Nat} {exc : Raised} :
    Continues policy attempt (.error exc : Except Raised T) ↔ (attempt : Int) < policy.maxAttempts ∧ exc.isRetryable = true := by
  unfold Continues IsFinal
  rw [Bool.not_eq_false]
  exact And.comm

theorem loop_spec (sleep : Double → Except Raised Unit) {policy : RetryPolicy} (hbase : Double.lt 0 policy.baseDelay = true)
    (hmax : Double.lt 0 policy.maxDelay = true) {attempt : Nat} (hattempt : 1 ≤ attempt) (outcomes : Nat → Except Raised T)
    (uniform : Nat → Double → Double → Double) :
    ∃ n, LoopRuns sleep policy attempt outcomes uniform (withRetry.loop sleep policy attempt outcomes uniform) n := by
  -- an attempt whose delay is not computed or not accepted is the last
  have hstops : ∀ {attempt : Nat} {outcomes : Nat → Except Raised T} {uniform : Nat → Double → Double → Double} {exc e : Raised},
      1 ≤ attempt → outcomes 0 = .error exc → (attempt : Int) < policy.maxAttempts ∧ exc.isRetryable = true →
      (¬∃ delay, sleepBeforeRetry (uniform 0) policy attempt exc = .ok delay ∧ pause sleep delay = .ok ()) →
      ∃ n, LoopRuns sleep policy attempt outcomes uniform ⟨1, [], .error e⟩ n := by
    intro attempt outcomes uniform exc e hattempt hexc hagain hno
    refine ⟨0, rfl, by simp, .inr ?_⟩
    rw [hexc]
    exact ⟨continues_iff.2 hagain, fun h => hno ((pauses_iff (uniform 0) hbase hmax hattempt exc).2 h)⟩
  fun_induction withRetry.loop sleep policy attempt outcomes uniform with
  | case1 attempt outcomes uniform value hvalue =>
    refine ⟨0, rfl, by simp, .inl ⟨?_, hvalue.symm⟩⟩
    rw [hvalue]
    exact fun h => h.1 trivial
  | case2 attempt outcomes uniform exc hexc hagain e he =>
    refine hstops hattempt hexc hagain ?_
    rintro ⟨delay, hdelay, -⟩
    cases he.symm.trans hdelay
  | case3 attempt outcomes uniform exc hexc hagain delay hdelay e he =>
    refine hstops hattempt hexc hagain ?_
    rintro ⟨delay', hdelay', hpause⟩
    cases hdelay.symm.trans hdelay'
    cases he.symm.trans hpause
  | case4 attempt outcomes uniform exc hexc hagain delay hdelay hpause run ih =>
    obtain ⟨n, h⟩ := ih (Nat.le_succ_of_le hattempt)
    have hnumber : ∀ i, attempt + 1 + i = attempt + (i + 1) := fun i => by omega
    refine ⟨n + 1, ?_, ?_, ?_⟩
    · exact congrArg (· + 1) h.calls
    · rintro (- | i) hi
      · rw [hexc]
        exact ⟨continues_iff.2 hagain, (pauses_iff (uniform 0) hbase hmax hattempt exc).1 ⟨delay, hdelay, hpause⟩⟩
      · rw [← hnumber]
        exact h.goes_on i (Nat.lt_of_succ_lt_succ hi)
    · rw [← hnumber]
      exact h.ends
  | case5 attempt outcomes uniform exc hexc hlast =>
    refine ⟨0, rfl, by simp, .inl ?_⟩
    rw [hexc]
    exact ⟨fun h => hlast (continues_iff.1 h), rfl⟩

/-- The run law: the operation is called up to the first final outcome or as often as the policy says, and the last outcome is what the
combinator comes to. -/
def RunLaw (policy : RetryPolicy) (outcomes : Nat → Except Raised T) (run : RetryRun T) : Prop :=
  IsLeast ({k | 0 < k ∧ IsFinal (outcomes (k - 1))} ∪ {max 1 policy.maxAttempts.toNat}) run.calls ∧
    run.result = outcomes (run.calls - 1)

section

variable {sleep : Double → Except Raised Unit} {policy : RetryPolicy} {outcomes : Nat → Except Raised T}
  {uniform : Nat → Double → Double → Double} {run : RetryRun T} {n : Nat}

theorem LoopRuns.runLaw (h : LoopRuns sleep policy 1 outcomes uniform run n) (hends : ¬Continues policy (1 + n) (outcomes n))
    (hresult : run.result = outcomes n) : RunLaw policy outcomes run := by
  have hgoes : ∀ i < n, ¬IsFinal (outcomes i) ∧ ((1 + i : Nat) : Int) < policy.maxAttempts := fun i hi => (h.goes_on i hi).1
  unfold RunLaw
  rw [h.calls]
  refine ⟨⟨?_, ?_⟩, hresult⟩
  · by_cases hfinal : IsFinal (outcomes n)
    · exact .inl ⟨Nat.succ_pos n, hfinal⟩
    · have hlast : ¬((1 + n : Nat) : Int) < policy.maxAttempts := fun hlt => hends ⟨hfinal, hlt⟩
      refine .inr (show n + 1 = max 1 _ from ?_)
      cases n with
      | zero => omega
      | succ n =>
        have := (hgoes n (Nat.lt_succ_self n)).2
        omega
  · rintro k (⟨hpos, hfinal⟩ | hk)
    · by_contra hlt
      exact (hgoes (k - 1) (by omega)).1 hfinal
    · by_contra hlt
      cases (show k = max 1 _ from hk)
      have := (hgoes (max 1 policy.maxAttempts.toNat - 1) (by omega)).2
      omega

/-- Where the run law holds, the wait is waited out after every attempt that is to be tried again. -/
theorem LoopRuns.waits (h : LoopRuns sleep policy 1 outcomes uniform run n) (hlaw : RunLaw policy outcomes run) {i : Nat}
    (hi : ∀ k ≤ i, ¬IsFinal (outcomes k)) (hlt : ((1 + i : Nat) : Int) < policy.maxAttempts) :
    OutcomeWaits sleep (uniform i) policy (1 + i) (outcomes i) := by
  rcases h.ends with ⟨hends, -⟩ | ⟨hcontinues, -⟩
  · rcases Nat.lt_or_ge i n with hin | hni
    · exact (h.goes_on i hin).2
    · exact absurd ⟨hi n hni, by omega⟩ hends
  · -- the run ended where it was to go on, which the law does not allow
    obtain ⟨hmem, -⟩ := hlaw.1
    rw [h.calls] at hmem
    rcases hmem with ⟨-, hfinal⟩ | hlast
    · exact absurd hfinal hcontinues.1
    · have hlast : n + 1 = max 1 policy.maxAttempts.toNat := hlast
      have := hcontinues.2
      omega

end

/-- For every policy with positive delays, all outcomes, all draws and whatever `time.sleep` does: the run law holds exactly when the wait
is waited out after every attempt that is to be tried again. -/
theorem with_retry_run_law_iff (sleep : Double → Except Raised Unit) {policy : RetryPolicy} (hbase : Double.lt 0 policy.baseDelay = true)
    (hmax : Double.lt 0 policy.maxDelay = true) (outcomes : Nat → Except Raised T) (uniform : Nat → Double → Double → Double) :
    RunLaw policy outcomes (withRetry sleep policy outcomes uniform) ↔
      ∀ i, (∀ k ≤ i, ¬IsFinal (outcomes k)) → ((1 + i : Nat) : Int) < policy.maxAttempts →
        OutcomeWaits sleep (uniform i) policy (1 + i) (outcomes i) := by
  obtain ⟨n, h⟩ := loop_spec sleep hbase hmax (Nat.le_refl 1) outcomes uniform
  have hrun : LoopRuns sleep policy 1 outcomes uniform (withRetry sleep policy outcomes uniform) n := h
  constructor
  · exact fun hlaw i hi hlt => hrun.waits hlaw hi hlt
  · intro hwaits
    rcases hrun.ends with ⟨hends, hresult⟩ | ⟨hcontinues, hstuck⟩
    · exact hrun.runLaw hends hresult
    · refine absurd (hwaits n (fun k hk => ?_) hcontinues.2) hstuck
      rcases Nat.lt_or_eq_of_le hk with hlt | rfl
      · exact (hrun.goes_on k hlt).1.1
      · exact hcontinues.1

/-- A policy with the default delays, 0.1 and 5 seconds. -/
def policyOf (maxAttempts : Int) : RetryPolicy := ⟨maxAttempts, 0x3FB999999999999A, 0x4014000000000000⟩

/-- An operation that fails `n` times with an `OSError`, and then returns. -/
def failsThenReturns (n i : Nat) : Except Raised Nat := if i < n then .error (.sdk (.osError "[Errno 111] Connection refused")) else .ok i

/-- `time.sleep` over what takes no time: it refuses negative numbers, and what no clock counts in 63 bits of nanoseconds. -/
def sleepShort (delay : Double) : Except Raised Unit :=
  if Double.natLe 9223372037 delay then .error (.other "OverflowError" "timestamp too large to convert to C PyTime_t")
  else if Double.le 0 delay then .ok ()
  else .error (.other "ValueError" "sleep length must be non-negative")

theorem policyOf_positive (maxAttempts : Int) :
    Double.lt 0 (policyOf maxAttempts).baseDelay = true ∧ Double.lt 0 (policyOf maxAttempts).maxDelay = true := by
  have hbase : Double.lt 0 (0x3FB999999999999A : Double) = true := by decide
  have hmax : Double.lt 0 (0x4014000000000000 : Double) = true := by decide
  exact ⟨hbase, hmax⟩

/-- Two failures, then a value. -/
theorem with_retry_run_law_iff_thrice :
    RunLaw (policyOf 3) (failsThenReturns 2) (withRetry sleepShort (policyOf 3) (failsThenReturns 2) (fun _ _ delay => delay)) := by
  obtain ⟨hbase, hmax⟩ := policyOf_positive 3
  refine (with_retry_run_law_iff sleepShort hbase hmax (failsThenReturns 2) (fun _ _ delay => delay)).2 ?_
  intro i _ hlt
  have hi : i < 2 := by
    have : ((1 + i : Nat) : Int) < 3 := hlt
    omega
  unfold failsThenReturns
  rw [if_pos hi]
  refine ⟨by omega, .inr ?_⟩
  rcases i with - | - | i
  · decide +kernel
  · decide +kernel
  · omega

/-- With 2000 attempts and an operation that always fails, the 1025th failure is not tried again: its delay overflows. -/
theorem with_retry_overflows :
    ¬RunLaw (policyOf 2000) (failsThenReturns 3000)
      (withRetry sleepShort (policyOf 2000) (failsThenReturns 3000) (fun _ _ delay => delay)) := by
  obtain ⟨hbase, hmax⟩ := policyOf_positive 2000
  obtain ⟨n, h⟩ := loop_spec sleepShort hbase hmax (Nat.le_refl 1) (failsThenReturns 3000) (fun _ _ delay => delay)
  have hrun : LoopRuns sleepShort (policyOf 2000) 1 (failsThenReturns 3000) (fun _ _ delay => delay)
    (withRetry sleepShort (policyOf 2000) (failsThenReturns 3000) (fun _ _ delay => delay)) n := h
  have hfails : ∀ i < 3000, failsThenReturns 3000 i = .error (.sdk (.osError "[Errno 111] Connection refused")) := fun i hi => if_pos hi
  intro hlaw
  have hwaits := hrun.waits hlaw (i := 1024) (fun k hk => ?_) (show ((1 + 1024 : Nat) : Int) < 2000 by omega)
  · rw [hfails 1024 (by omega)] at hwaits
    exact absurd (show 1 + 1024 ≤ 1024 from hwaits.1) (by omega)
  · rw [hfails k (by omega)]
    exact fun h => nomatch h

end BrainSdk.Python.Retry
