import BrainSdk.Http.ClientLemmas

/-!
# No resend after a success

A call that has been answered with a success and a whole body is over: sending it again would repeat the write. The retry loops look at
the status of the error, and give status 0 to a success whose body they cannot decode as well: Rust to one that `serde_json` does not
take, Python to one that is not UTF-8. These, and no others, are sent again.
-/

namespace BrainSdk.Http

open Library Cbor

/-- No attempt is sent after one that was answered with a success and a whole body. -/
def NoResend {Outcome Wait Result : Type} (L : Loop Outcome Wait Result) (complete : Outcome → Prop) (outcomes : Nat → Outcome) : Prop :=
  ∀ i j, i < j → complete (outcomes i) → ¬L.Sends outcomes j

end BrainSdk.Http

namespace BrainSdk.Rust

open Library Http

/-- A success status and a fully received body. -/
def Exchange.Complete : Exchange → Prop
  | .response status _ (.ok _) => isSuccess status = true
  | _ => False

/-- Exactly when the Rust loop sends nothing after a success: no success comes that it cannot decode, with attempts left and with every
attempt before it a transient failure. -/
theorem send_no_resend_iff {R : Type} (libs : HttpLibraries R) (url : String) (policy : HttpRetryPolicy) (outcomes : Nat → Exchange) :
    NoResend (sendWithQuery libs url policy true) Exchange.Complete outcomes ↔
      ¬∃ i, i + 1 < policy.maxAttempts.toNat ∧ (∀ k < i, (outcomes k).Transient) ∧ (outcomes i).Undecodable libs := by
  have hT : ∀ (n : Nat) (x : Exchange), n < policy.maxAttempts.toNat ∧ x.Transient → ¬x.Complete := by
    rintro n (e | ⟨status, ra, e | body⟩) ⟨-, ht⟩ hc
    · exact hc
    · exact hc
    · exact Bool.false_ne_true (ht.1.symm.trans hc)
  have hU : ∀ (n : Nat) (x : Exchange), n < policy.maxAttempts.toNat ∧ x.Undecodable libs → x.Complete := by
    rintro n (e | ⟨status, ra, e | body⟩) ⟨-, hu⟩
    · exact hu
    · exact hu
    · exact hu.1
  refine (Loop.none_after_iff (sendWithQuery_again libs url policy) hT hU).trans (not_congr ⟨?_, ?_⟩)
  · rintro ⟨i, hbefore, hlt, hi⟩
    exact ⟨i, hlt, fun k hk => (hbefore k hk).2, hi⟩
  · rintro ⟨i, hlt, hbefore, hi⟩
    exact ⟨i, fun k hk => ⟨by omega, hbefore k hk⟩, hlt, hi⟩

end BrainSdk.Rust

namespace BrainSdk.Python

open Library Cbor Http

/-- A success status and a fully received body. -/
def Exchange.Complete : Exchange → Prop
  | .response status _ (.ok _) => isSuccess status = true
  | _ => False

/-- Exactly when the Python loop sends nothing after a success: no success comes whose body is not UTF-8, with attempts left, with every
attempt before it a transient failure, and with waits that `time.sleep` accepts. -/
theorem request_no_resend_iff (libs : HttpLibraries) (url : String) (policy : HttpRetryPolicy) (outcomes : Nat → Exchange) :
    NoResend (request libs url policy true) Exchange.Complete outcomes ↔
      ¬∃ i : Nat, ((i + 1 : Nat) : Int) < policy.maxAttempts ∧
        (∀ k < i, (outcomes k).Transient ∧ Waits libs policy (k + 1) (outcomes k)) ∧
        (outcomes i).Undecodable ∧ Waits libs policy (i + 1) (outcomes i) := by
  have hT : ∀ (n : Nat) (x : Exchange), n < policy.maxAttempts ∧ x.Transient ∧ Waits libs policy n x → ¬x.Complete := by
    rintro n (e | ⟨status, ra, e | body⟩) ⟨-, ht, -⟩ hc
    · exact hc
    · exact hc
    · have hs : isSuccess status = true := hc
      simp only [Exchange.Transient, hs, if_true] at ht
      obtain ⟨e, he, -⟩ := ht
      cases he
  have hU : ∀ (n : Nat) (x : Exchange), n < policy.maxAttempts ∧ x.Undecodable ∧ Waits libs policy n x → x.Complete := by
    rintro n (e | ⟨status, ra, e | body⟩) ⟨-, hu, -⟩
    · exact hu
    · exact hu
    · exact hu.1
  refine (Loop.none_after_iff (request_again libs url policy) hT hU).trans (not_congr ⟨?_, ?_⟩)
  · rintro ⟨i, hbefore, hlt, hi⟩
    exact ⟨i, hlt, fun k hk => (hbefore k hk).2, hi⟩
  · rintro ⟨i, hlt, hbefore, hi⟩
    exact ⟨i, fun k hk => ⟨by omega, hbefore k hk⟩, hlt, hi⟩

end BrainSdk.Python

namespace BrainSdk.Http

open Library

/-- Neither loop sends anything after a success with a whole body, exactly when no success comes that the client cannot decode, with
attempts left and after transient failures only. -/
theorem no_resend_iff {R : Type} (rustLibs : Rust.HttpLibraries R) (rustPolicy : Rust.HttpRetryPolicy) (x : Nat → Rust.Exchange)
    (pyLibs : Python.HttpLibraries) (pyPolicy : Python.HttpRetryPolicy) (y : Nat → Python.Exchange) (url : String) :
    (NoResend (Rust.sendWithQuery rustLibs url rustPolicy true) Rust.Exchange.Complete x ↔
      ¬∃ i, i + 1 < rustPolicy.maxAttempts.toNat ∧ (∀ k < i, (x k).Transient) ∧ (x i).Undecodable rustLibs) ∧
    (NoResend (Python.request pyLibs url pyPolicy true) Python.Exchange.Complete y ↔
      ¬∃ i : Nat, ((i + 1 : Nat) : Int) < pyPolicy.maxAttempts ∧
        (∀ k < i, (y k).Transient ∧ Python.Waits pyLibs pyPolicy (k + 1) (y k)) ∧
        (y i).Undecodable ∧ Python.Waits pyLibs pyPolicy (i + 1) (y i)) :=
  ⟨Rust.send_no_resend_iff rustLibs url rustPolicy x, Python.request_no_resend_iff pyLibs url pyPolicy y⟩

/-- The default policies, and an edge that answers 200 to every attempt: in Rust with the body `<`, which is no JSON, in Python with the
byte `FF`, which is no UTF-8. Both calls are sent a second time. -/
theorem undecodable_success_resent :
    ¬NoResend
      (Rust.sendWithQuery (R := Unit)
        ⟨fun b => (Python.decode b).getD "", fun _ => none, fun _ => .error "expected value at line 1 column 1"⟩
        "http://127.0.0.1:8080/v1/memories" ⟨3, .fromMillis 100, .fromSecs 2⟩ true)
      Rust.Exchange.Complete (fun _ => .response 200 none (.ok [0x3C])) ∧
    ¬NoResend
      (Python.request
        ⟨fun _ => .ok .null, fun _ => "'utf-8' codec can't decode byte 0xff in position 0: invalid start byte", fun _ => .ok ()⟩
        "http://127.0.0.1:8080/v1/memories" ⟨3, 0x3FB999999999999A#64, 0x4000000000000000#64⟩ true)
      Python.Exchange.Complete (fun _ => .response 200 none (.ok [0xFF])) := by
  refine ⟨fun h => ?_, fun h => ?_⟩
  · refine h 0 1 Nat.one_pos rfl (Loop.sends_succ.2 ⟨Loop.sends_zero, ?_⟩)
    rw [Rust.sendWithQuery_again]
    exact .inr ⟨by decide, by decide, _, rfl⟩
  · refine h 0 1 Nat.one_pos rfl (Loop.sends_succ.2 ⟨Loop.sends_zero, ?_⟩)
    rw [Python.request_again]
    refine .inr ⟨by decide, ⟨by decide, by decide +kernel⟩, none, 0x3FB999999999999A#64, rfl, ?_, rfl⟩
    decide +kernel

end BrainSdk.Http
