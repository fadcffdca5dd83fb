import BrainSdk.Http.Client

/-!
# When the HTTP clients go on

What an attempt has to come to for the loop of an idempotent verb to send another: the exchange is a transient failure or a success that
the client cannot decode, attempts are left, and in Python the wait is one that `time.sleep` accepts.
-/

namespace BrainSdk.Rust

open Library Http

/-- The request or the reading of the body fails, or the status says to try again. -/
def Exchange.Transient : Exchange → Prop
  | .failed _ => True
  | .response _ _ (.error _) => True
  | .response status _ (.ok _) => isSuccess status = false ∧ HttpRetryPolicy.isRetryableStatus status = true

/-- A success whose body is not a JSON text of the result type. -/
def Exchange.Undecodable {R : Type} (libs : HttpLibraries R) : Exchange → Prop
  | .response status _ (.ok body) => isSuccess status = true ∧ ∃ e, libs.decode (libs.text body) = .error e
  | _ => False

variable {R : Type} (libs : HttpLibraries R) (url : String) (policy : HttpRetryPolicy)

theorem status_fromBody (status : Nat) (body : String) (parsed : Option Json) :
    (BrainHttpError.fromBody status body parsed).status = status := by
  unfold BrainHttpError.fromBody
  dsimp only
  split
  · split
    · rfl
    · split <;> rfl
  · rfl

/-- The shift of a backoff is less than 32, so it comes to a delay. -/
theorem backoff_ok (policy : HttpRetryPolicy) (attempt : UInt32) (hint : Option Duration) :
    ∃ wait, policy.backoff attempt hint = .ok wait := by
  cases hint with
  | some ra => exact ⟨_, rfl⟩
  | none =>
    by_cases hbase : policy.baseDelay = Duration.zero
    · refine ⟨Duration.zero, ?_⟩
      simp only [HttpRetryPolicy.backoff, hbase, if_true]
      rfl
    · obtain ⟨m, hshl, -⟩ := shl_one (Nat.min (attempt.toNat - 1) 31) (Nat.lt_succ_of_le (Nat.min_le_right _ _))
      refine ⟨((policy.baseDelay.checkedMul m).getD policy.maxDelay).min policy.maxDelay, ?_⟩
      simp only [HttpRetryPolicy.backoff, hbase, if_false, hshl]
      rfl

/-- The loop goes on after an error exactly when the error's status is retryable and attempts are left. -/
theorem next_error_again {attempt : Nat} {err : BrainHttpError} {hint : Option Duration} :
    (∃ wait, sendWithQuery.next (R := R) policy true attempt (.error (err, hint)) = .again wait) ↔
      attempt < policy.maxAttempts.toNat ∧ HttpRetryPolicy.isRetryableStatus err.status = true := by
  unfold sendWithQuery.next HttpRetryPolicy.shouldRetry
  dsimp only
  rw [Bool.true_and]
  split
  · rename_i h
    rw [Bool.and_eq_true, decide_eq_true_eq] at h
    obtain ⟨wait, hwait⟩ := backoff_ok policy (UInt32.ofNat attempt) hint
    rw [hwait]
    exact iff_of_true ⟨_, rfl⟩ h
  · rename_i h
    rw [Bool.and_eq_true, decide_eq_true_eq] at h
    exact iff_of_false (fun ⟨_, hw⟩ => nomatch hw) h

/-- When the loop of an idempotent verb goes on. -/
theorem sendWithQuery_again (attempt : Nat) (x : Exchange) :
    (sendWithQuery libs url policy true).Again attempt x ↔
      attempt < policy.maxAttempts.toNat ∧ x.Transient ∨ attempt < policy.maxAttempts.toNat ∧ x.Undecodable libs := by
  unfold Loop.Again sendWithQuery sendOnce
  cases x with
  | failed e =>
    simp [Exchange.Transient, Exchange.Undecodable, next_error_again, BrainHttpError.transport, HttpRetryPolicy.isRetryableStatus]
  | response status retryAfter body =>
    cases body with
    | error e =>
      simp [Exchange.Transient, Exchange.Undecodable, next_error_again, BrainHttpError.transport, HttpRetryPolicy.isRetryableStatus]
    | ok body =>
      by_cases hs : isSuccess status = true
      · cases hd : libs.decode (libs.text body) with
        | ok v => simp [Exchange.Transient, Exchange.Undecodable, sendOnce.success, hs, hd, Except.mapError, sendWithQuery.next]
        | error e =>
          simp [Exchange.Transient, Exchange.Undecodable, sendOnce.success, hs, hd, Except.mapError, next_error_again,
            BrainHttpError.transport, HttpRetryPolicy.isRetryableStatus]
      · simp [Exchange.Transient, Exchange.Undecodable, hs, next_error_again, status_fromBody]

end BrainSdk.Rust

namespace BrainSdk.Python

open Library Cbor Http

/-- A failure that an `except` arm turns into a transport error. -/
def Failure.IsCaught : Failure → Prop
  | .httpException _ => False
  | _ => True

/-- The request or the reading of the body of a success fails, or the status says to try again. -/
def Exchange.Transient : Exchange → Prop
  | .failed e => e.IsCaught
  | .response status _ body =>
    if isSuccess status then ∃ e, body = .error e ∧ e.IsCaught else HttpRetryPolicy.isRetryableStatus status = true

/-- A success whose body is not UTF-8. -/
def Exchange.Undecodable : Exchange → Prop
  | .response status _ (.ok body) => isSuccess status = true ∧ decode body = none
  | _ => False

/-- The `Retry-After` hint of a response, where one is read. -/
def Exchange.hint : Exchange → Except Exception (Option Double)
  | .failed _ => .ok none
  | .response status retryAfter _ => if isSuccess status then .ok none else parseRetryAfter retryAfter

variable (libs : HttpLibraries) (url : String) (policy : HttpRetryPolicy)

/-- The wait after attempt `n` can be computed, and `time.sleep` accepts it. -/
def Waits (n : Nat) (x : Exchange) : Prop :=
  ∃ hint delay, x.hint = .ok hint ∧ policy.backoff n hint = .ok delay ∧ libs.sleep delay = .ok ()

theorem errorFromBody_fields (status : Nat) (payload : Option Json) (hint : Option Double) :
    (errorFromBody status payload hint).status = status ∧ (errorFromBody status payload hint).retryAfter = hint := by
  unfold errorFromBody
  dsimp only
  split
  · exact ⟨rfl, rfl⟩
  · split
    · exact ⟨rfl, rfl⟩
    · split <;> exact ⟨rfl, rfl⟩

theorem pause_again {delay : Except Exception Double} :
    (∃ wait, request.pause libs delay = .again wait) ↔ ∃ d, delay = .ok d ∧ libs.sleep d = .ok () := by
  unfold request.pause
  cases delay with
  | error e => simp
  | ok d =>
    cases hs : libs.sleep d with
    | error e => simp [hs]
    | ok u => simp [hs]

/-- The loop goes on after a `BrainHttpError` exactly when its status is retryable, attempts are left and the wait is accepted. -/
theorem next_error_again {attempt : Nat} {err : BrainHttpError Double} :
    (∃ wait, request.next libs policy true attempt (.error (.brainHttpError err)) = .again wait) ↔
      attempt < policy.maxAttempts ∧ HttpRetryPolicy.isRetryableStatus err.status = true ∧
        ∃ d, policy.backoff attempt err.retryAfter = .ok d ∧ libs.sleep d = .ok () := by
  unfold request.next HttpRetryPolicy.shouldRetry
  dsimp only
  rw [Bool.true_and]
  split
  · rename_i h
    rw [Bool.and_eq_true, decide_eq_true_eq] at h
    rw [pause_again]
    simp only [h, true_and]
  · rename_i h
    rw [Bool.and_eq_true, decide_eq_true_eq] at h
    exact iff_of_false (fun ⟨_, hw⟩ => nomatch hw) (fun hr => h ⟨hr.1, hr.2.1⟩)

/-- A failure is followed by another attempt exactly when an arm catches it, attempts are left and the wait is accepted. -/
theorem next_caught_again {attempt : Nat} {e : Failure} :
    (∃ wait, request.next libs policy true attempt (.error (caught url e)) = .again wait) ↔
      attempt < policy.maxAttempts ∧ e.IsCaught ∧ ∃ d, policy.backoff attempt none = .ok d ∧ libs.sleep d = .ok () := by
  have htransport : ∀ message : String, (∃ wait, request.next libs policy true attempt (.error (.brainHttpError (.transport message))) =
      .again wait) ↔ attempt < policy.maxAttempts ∧ ∃ d, policy.backoff attempt none = .ok d ∧ libs.sleep d = .ok () := by
    intro message
    have hstatus : HttpRetryPolicy.isRetryableStatus (BrainHttpError.transport (α := Double) message).status = true := rfl
    have hhint : (BrainHttpError.transport (α := Double) message).retryAfter = none := rfl
    rw [next_error_again, hhint]
    simp only [hstatus, true_and]
  unfold caught Failure.IsCaught
  cases e with
  | httpException message => exact iff_of_false (fun ⟨_, hw⟩ => nomatch hw) (fun h => h.2.1)
  | urlError reason => simp only [htransport, true_and]
  | osError message => simp only [htransport, true_and]
  | valueError message => simp only [htransport, true_and]

/-- A success with a whole body is followed by another attempt exactly when the body is not decoded, attempts are left and the wait is
accepted. -/
theorem success_again {attempt : Nat} (body : Bytes) (decoded : Option String) :
    (∃ wait, request.next libs policy true attempt (requestOnce.success libs url body decoded) = .again wait) ↔
      attempt < policy.maxAttempts ∧ decoded = none ∧ ∃ d, policy.backoff attempt none = .ok d ∧ libs.sleep d = .ok () := by
  cases decoded with
  | none => simp [requestOnce.success, next_caught_again, Failure.IsCaught]
  | some text =>
    refine iff_of_false ?_ (fun h => nomatch h.2.1)
    unfold requestOnce.success
    dsimp only
    by_cases ht : text = ""
    · rw [if_pos ht]
      exact fun ⟨_, hw⟩ => nomatch hw
    · rw [if_neg ht]
      cases libs.loads text with
      | ok v => exact fun ⟨_, hw⟩ => nomatch hw
      | error e => exact fun ⟨_, hw⟩ => nomatch hw

/-- When the loop of an idempotent verb goes on. -/
theorem request_again (attempt : Nat) (x : Exchange) :
    (request libs url policy true).Again attempt x ↔
      (attempt < policy.maxAttempts ∧ x.Transient ∧ Waits libs policy attempt x) ∨
      (attempt < policy.maxAttempts ∧ x.Undecodable ∧ Waits libs policy attempt x) := by
  have hnone : ∀ x : Exchange, x.hint = .ok none →
      (Waits libs policy attempt x ↔ ∃ d, policy.backoff attempt none = .ok d ∧ libs.sleep d = .ok ()) := by
    intro x hx
    unfold Waits
    simp only [hx, Except.ok.injEq, exists_and_left, exists_eq_left']
  unfold Loop.Again request requestOnce
  cases x with
  | failed e =>
    rw [hnone _ rfl]
    simp only [Exchange.Transient, Exchange.Undecodable, next_caught_again, false_and, and_false, or_false]
  | response status retryAfter body =>
    by_cases hs : isSuccess status = true
    · have hhint : Exchange.hint (.response status retryAfter body) = .ok none := if_pos hs
      rw [hnone _ hhint]
      simp only [hs, if_true, Exchange.Transient, Exchange.Undecodable]
      cases body with
      | error e => simp [next_caught_again]
      | ok bytes => simp [success_again, hs]
    · have hundec : ¬Exchange.Undecodable (.response status retryAfter body) := by
        cases body with
        | error e => exact fun h => h
        | ok bytes => exact fun h => hs h.1
      have hhint : Exchange.hint (.response status retryAfter body) = parseRetryAfter retryAfter := if_neg hs
      simp only [hundec, false_and, and_false, or_false]
      simp only [hs, Bool.false_eq_true, if_false, Exchange.Transient, Waits, hhint, errorFrom]
      cases hp : parseRetryAfter retryAfter with
      | error e => simp [request.next]
      | ok hint =>
        simp only [next_error_again, errorFromBody_fields, Except.ok.injEq, exists_and_left, exists_eq_left']

end BrainSdk.Python
