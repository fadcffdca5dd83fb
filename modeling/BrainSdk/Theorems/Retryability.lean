import BrainSdk.Python.Consumed
import BrainSdk.Rust.Invariant
import BrainSdk.TypeScript.Invariant

/-!
# Whether a transport drop is retryable

A request fails because the transport failed in one of three ways: its own write failed, it was waiting when the reader failed, or it
was issued afterwards. Python gives every such request an exception that `is_retryable` accepts. Rust keeps only the text of the
reader's error, and gives it back as a protocol error, which is not retryable. TypeScript rejects a failed write with the error of
the runtime as it is, which is none of its own classes.
-/

namespace BrainSdk

open Library Wire

namespace Python

variable {ε : Type}

/-- The exception a call raises. -/
def Call.Surfaces (call : Call ε) (e : Exc) : Prop := call.pc = .leaving (.raised e) ∨ call.pc = .done (.raised e)

/-- The steps in which request `c` fails because the transport failed. -/
inductive TransportFailure (c : Nat) (s : State ε) : Action → Prop
  /-- the socket refuses its frame -/
  | ownWrite {call : Call ε} {frame : Frame} {message : String} (hc : s.calls[c]? = some call)
      (hw : tryWrite s.maxPayloadSize call.args.opcode call.streamId call.args.payload none = .ok frame) :
      TransportFailure c s (.write c (some message))
  /-- it takes the sentinel that the reader left in its queue -/
  | inFlight {call : Call ε} {e : Exc} (hc : s.calls[c]? = some call) (hpc : call.pc = .collecting) :
      TransportFailure c s (.dequeue c (.closed e))
  /-- it comes to `_register` after the reader has failed -/
  | afterwards {e : Exc} (he : s.closedError = some e) : TransportFailure c s (.register c)

/-- An exception that `with_retry` retries while attempts remain. -/
def Retried (e : Exc) : Prop :=
  isRetryable e = true ∧ ∀ (maxAttempts : Int) (attempt : Nat), attempt < maxAttempts → willRetry maxAttempts attempt e = true

/-- Every request of the run that failed because the transport failed raises an exception that is retried. -/
def DropsRetried (Γ : Ctx ε) (m : Nat) (tr : List Action) (s : State ε) : Prop :=
  ∀ c, (mux Γ m).Took (TransportFailure c) tr → ∃ call e, s.calls[c]? = some call ∧ call.Surfaces e ∧ Retried e

theorem retried_of_isRetryable {e : Exc} (h : isRetryable e = true) : Retried e :=
  ⟨h, fun maxAttempts attempt hlt => by simp [willRetry, hlt, h]⟩

theorem retried_of_isTransport {e : Exc} (h : e.isTransport = true) : Retried e := by
  refine retried_of_isRetryable ?_
  cases e <;> first | rfl | cases h

/-- A frame that would have been written raises the `OSError` of the socket instead. -/
theorem tryWrite_refused {m opcode sid : Nat} {payload : Bytes} {frame : Frame}
    (h : tryWrite m opcode sid payload none = .ok frame) (message : String) :
    tryWrite m opcode sid payload (some message) = .error (.osError message) := by
  unfold tryWrite at h ⊢
  split at h
  · cases h
  · rename_i hlen
    rw [if_neg hlen]
    split at h
    · cases h
    · cases h
    · rfl

theorem afterWrite_error {call call' : Call ε} {e : Exc} (h : call.afterWrite (.error e) = some call') :
    call'.pc = .leaving (.raised e) := by
  unfold Call.afterWrite at h
  split at h
  · rename_i heq
    cases heq
    cases h
    rfl
  · rename_i heq
    cases heq
  · cases h

theorem afterDequeue_closed {Γ : Ctx ε} {call call' : Call ε} {e : Exc} (hpc : call.pc = .collecting)
    (h : call.afterDequeue Γ (.closed e) = some call') : .closed e ∈ call.queue ∧ call'.pc = .leaving (.raised e) := by
  unfold Call.afterDequeue at h
  rw [hpc] at h
  split at h
  · rename_i i rest _ hq
    split at h
    · rename_i hi
      subst hi
      cases h
      rw [hq]
      exact ⟨List.mem_cons_self, rfl⟩
    · cases h
  · rename_i hx _
    cases hx
  · cases h

theorem afterRegister_failed {call call' : Call ε} {e : Exc} (h : call.afterRegister (some e) = some call') :
    call'.pc = .done (.raised e) := by
  unfold Call.afterRegister at h
  split at h
  · rename_i heq
    cases heq
    cases h
    rfl
  · rename_i heq
    cases heq
  · cases h

/-- A step in which a request fails because the transport failed gives it an exception that is retried. -/
theorem TransportFailure.surfaces {Γ : Ctx ε} {s s' : State ε} {c : Nat} {a : Action} (hS : Sentinels s)
    (h : TransportFailure c s a) (hst : step Γ s a = some s') :
    ∃ call e, s'.calls[c]? = some call ∧ call.Surfaces e ∧ Retried e := by
  cases h with
  | @ownWrite call frame message hc hw =>
    rw [step] at hst
    obtain ⟨call₁, call', hc₁, hcall, rfl⟩ := onCall_eq_some hst
    obtain rfl := Option.some.inj (hc.symm.trans hc₁)
    rw [tryWrite_refused hw] at hcall
    refine ⟨call', .osError message, ?_, .inl (afterWrite_error hcall), retried_of_isTransport rfl⟩
    exact getElem?_set_self_of_some hc _
  | @inFlight call e hc hpc =>
    rw [step] at hst
    obtain ⟨call₁, call', hc₁, hcall, rfl⟩ := onCall_eq_some hst
    obtain rfl := Option.some.inj (hc.symm.trans hc₁)
    obtain ⟨hq, hpc'⟩ := afterDequeue_closed hpc hcall
    refine ⟨call', e, ?_, .inl hpc', retried_of_isTransport (hS.queued c call e hc hq)⟩
    exact getElem?_set_self_of_some hc _
  | @afterwards e he =>
    rw [step, he] at hst
    obtain ⟨call, call', hc, hcall, rfl⟩ := onCall_eq_some hst
    refine ⟨call', e, ?_, .inr (afterRegister_failed hcall), retried_of_isTransport (hS.stored e he)⟩
    exact getElem?_set_self_of_some hc _

/-- A call keeps the exception it raises. -/
theorem Change.surfaces {Γ : Ctx ε} {s : State ε} {d : Nat} {a : Action} {call call' : Call ε} (h : Change Γ s d a call call')
    {e : Exc} (he : call.Surfaces e) : call'.Surfaces e := by
  rcases he with he | he
  · exact h.of_leaving he
  · exact .inr (h.of_done he)

theorem dropsRetried_runs {Γ : Ctx ε} {m : Nat} {tr : List Action} {s : State ε} (hr : (mux Γ m).Runs tr s) :
    DropsRetried Γ m tr s := by
  intro c htook
  refine Machine.Runs.of_took (C := fun _ _ => True)
    (Q := fun s : State ε => ∃ call e, s.calls[c]? = some call ∧ call.Surfaces e ∧ Retried e) ?_ ?_ hr
    (Machine.meets_of_mem (fun _ _ _ => trivial)) htook
  · intro tr s a s' hrun _ hfail hst
    exact hfail.surfaces (sentinels_runs hrun) hst
  · rintro tr s a s' hrun ⟨call, e, hc, hsurf, hret⟩ hst
    obtain ⟨call', hc', hch⟩ := (step_effect hst).call_after (inv_runs hrun) hc
    exact ⟨call', e, hc', hch.surfaces hsurf, hret⟩

end Python

namespace Rust

variable {ε υ : Type}

/-- The error a call fails with. -/
def Task.Surfaces (task : Task ε υ) (e : BrainError) : Prop := task.pc = .leaving (.failed e) ∨ task.pc = .done (.failed e)

/-- The failures of `read_frame` that are the transport's: the socket's error, or the peer's close. -/
def ReadFailure.isTransport : ReadFailure → Bool
  | .io _ | .closed => true
  | .frame _ => false

/-- The reader has failed because the transport did. -/
def ReaderDropped (s : State ε υ) : Prop := ∃ e : ReadFailure, e.isTransport = true ∧ s.closed = some e.display

/-- The steps in which request `c` fails because the transport failed. -/
inductive TransportFailure (c : Nat) (s : State ε υ) : Action → Prop
  /-- the socket refuses its frame -/
  | ownWrite {message : String} : TransportFailure c s (.writeError c message)
  /-- its channel closed, and it asks `closed_error` why -/
  | inFlight (hd : ReaderDropped s) : TransportFailure c s (.closedError c)
  /-- it comes to `register` after the reader has failed -/
  | afterwards (hd : ReaderDropped s) : TransportFailure c s (.register c)

/-- An error that `with_retry` retries while attempts remain. -/
def Retried (e : BrainError) : Prop :=
  e.isRetryable = true ∧ ∀ maxAttempts attempt : Nat, attempt < maxAttempts → willRetry maxAttempts attempt e = true

/-- Every request of the run that failed because the transport failed returns an error that is retried. -/
def DropsRetried (Γ : Ctx ε υ) (m : Nat) (tr : List Action) (s : State ε υ) : Prop :=
  ∀ c, (mux Γ m).Took (TransportFailure c) tr → ∃ task e, s.tasks[c]? = some task ∧ task.Surfaces e ∧ Retried e

/-- No request comes to `register`, or to `closed_error`, once the reader has failed because the transport did. -/
def OwnWritesOnly (s : State ε υ) (a : Action) : Prop := ReaderDropped s → ∀ c, a ≠ .register c ∧ a ≠ .closedError c

/-- A call keeps the error it fails with. -/
theorem Change.surfaces {Γ : Ctx ε υ} {s : State ε υ} {d : Nat} {a : Action} {task task' : Task ε υ}
    (h : Change Γ s d task a task') {e : BrainError} (he : task.Surfaces e) : task'.Surfaces e := by
  have hno : ∀ pc : Pc υ, (∀ o, pc ≠ .leaving o) → (∀ o, pc ≠ .done o) → task.pc ≠ pc := by
    intro pc h1 h2 hpc
    rcases he with he | he
    · exact h1 _ (hpc.symm.trans he)
    · exact h2 _ (hpc.symm.trans he)
  cases h with
  | same _ => exact he
  | deliver _ =>
    unfold Task.Surfaces
    rw [(deliver_fields _ task).2.2.2]
    exact he
  | deregister hpc =>
    rcases he with he | he
    · cases hpc.symm.trans he
      exact .inr rfl
    · exact nomatch hpc.symm.trans he
  | move hm =>
    cases hm with
    | refuse hpc _ | tooLarge hpc | checked hpc | encodeFailed hpc | collect hpc _ | channelClosed hpc _ _ | advance hpc _
    | nextNone hpc _ _ | timeout hpc _ _ | closedError hpc | nextEnded hpc _ | next hpc _ =>
      exact absurd hpc (hno _ (fun _ h => by cases h) (fun _ h => by cases h))
  | cancel hx =>
    cases hx with
    | await hpc =>
      rcases hpc with hpc | hpc
      · exact absurd hpc (hno _ (fun _ h => by cases h) (fun _ h => by cases h))
      · exact absurd hpc (hno _ (fun _ h => by cases h) (fun _ h => by cases h))
    | write hpc | next hpc => exact absurd hpc (hno _ (fun _ h => by cases h) (fun _ h => by cases h))
  | alloc hpc | register hpc _ | acquire hpc _ _ | write hpc _ _ | writeAll hpc | writeError hpc | drop hpc =>
    exact absurd hpc (hno _ (fun _ h => by cases h) (fun _ h => by cases h))

/-- A request whose own write failed returns the I/O error, which is retried. -/
theorem writeError_surfaces {Γ : Ctx ε υ} {s s' : State ε υ} {c : Nat} {message : String}
    (hst : step Γ s (.writeError c message) = some s') :
    ∃ task e, s'.tasks[c]? = some task ∧ task.Surfaces e ∧ Retried e := by
  have h := step_effect hst
  cases h with
  | writeError hc hpc =>
    refine ⟨_, .io message, getElem?_set_self_of_some hc _, .inl rfl, rfl, ?_⟩
    intro maxAttempts attempt hlt
    simp [willRetry, hlt, BrainError.isRetryable]
  | move _ hm => cases hm

/-- A request that the reader's failure reaches returns a protocol error with the reader's text. -/
theorem closed_surfaces {Γ : Ctx ε υ} {s s' : State ε υ} {c : Nat} {a : Action} (ha : a = .register c ∨ a = .closedError c)
    {reason : String} (hcl : s.closed = some reason) (hst : step Γ s a = some s') :
    ∃ task text, s'.tasks[c]? = some task ∧ task.pc = .done (.failed (.protocol text)) := by
  have h := step_effect hst
  rcases ha with rfl | rfl
  · cases h with
    | register _ _ hopen => exact nomatch hopen.symm.trans hcl
    | move hc hm =>
      cases hm with
      | refuse hpc _ => exact ⟨_, _, getElem?_set_self_of_some hc _, rfl⟩
  · cases h with
    | move hc hm =>
      cases hm with
      | closedError hpc =>
        refine ⟨_, s!"connection closed: {reason}", getElem?_set_self_of_some hc _, ?_⟩
        dsimp only
        rw [hcl]
        rfl

theorem dropsRetried_iff {Γ : Ctx ε υ} {m : Nat} {tr : List Action} {s : State ε υ} (hr : (mux Γ m).Runs tr s) :
    (mux Γ m).Throughout (DropsRetried Γ m) tr ↔ (mux Γ m).Meets OwnWritesOnly tr := by
  refine Machine.throughout_iff_meets (B := fun _ => True) (fun _ _ _ _ h => h) ?_ ?_ hr trivial
  · intro tr s hrun _ hm c htook
    refine Machine.Runs.of_took (C := OwnWritesOnly)
      (Q := fun s : State ε υ => ∃ task e, s.tasks[c]? = some task ∧ task.Surfaces e ∧ Retried e) ?_ ?_ hrun hm htook
    · intro tr s a s' hrun hown hfail hst
      cases hfail with
      | ownWrite => exact writeError_surfaces (Γ := Γ) hst
      | inFlight hd => exact absurd rfl (hown hd c).2
      | afterwards hd => exact absurd rfl (hown hd c).1
    · rintro tr s a s' hrun ⟨task, e, hc, hsurf, hret⟩ hst
      obtain ⟨task', hc', hch⟩ := (step_effect hst).task_after hc
      exact ⟨task', e, hc', hch.surfaces hsurf, hret⟩
  · intro tr s a s' hrun _ hst _ hown hP
    unfold OwnWritesOnly at hown
    push Not at hown
    obtain ⟨hd, c, hca⟩ := hown
    obtain ⟨r, -, hcl⟩ := id hd
    have ha : a = .register c ∨ a = .closedError c := by
      by_cases h : a = .register c
      · exact .inl h
      · exact .inr (hca h)
    have hfail : TransportFailure c s a := by
      rcases ha with rfl | rfl
      · exact .afterwards hd
      · exact .inFlight hd
    obtain ⟨task, text, hc, hpc⟩ := closed_surfaces ha hcl hst
    obtain ⟨task', e, hc', hsurf, hret⟩ := hP c ((Machine.took_snoc hrun).2 (.inr hfail))
    obtain rfl := Option.some.inj (hc.symm.trans hc')
    rcases hsurf with hsurf | hsurf
    · exact nomatch hpc.symm.trans hsurf
    · cases hpc.symm.trans hsurf
      cases hret.1

/-- The table is open as long as `read_frame` has not failed. -/
theorem closed_eq_none {Γ : Ctx ε υ} {m : Nat} {tr : List Action} {s : State ε υ} (hr : (mux Γ m).Runs tr s)
    (htr : ∀ e, .readError e ∉ tr) : s.closed = none := by
  refine Machine.Runs.rec_on (P := fun tr s => (∀ e, .readError e ∉ tr) → s.closed = none) (fun _ => rfl) ?_ hr htr
  intro tr s a s' hrun ih hst hno
  have hopen := ih (fun e he => hno e (List.mem_append_left _ he))
  rcases (step_effect hst).lifecycle with ⟨hcl, -⟩ | ⟨e, rfl, -⟩ | ⟨-, -, -, rfl⟩ | ⟨-, -, -, rfl⟩
  · rw [hcl, hopen]
  · exact absurd (List.mem_append_right _ (List.mem_singleton.2 rfl)) (hno e)
  · exact hopen
  · exact hopen

end Rust

namespace TypeScript

variable {ε υ : Type}

/-- An error of the socket, or its close. -/
def Thrown.isTransport : Thrown → Bool
  | .connectionClosed _ | .transportError _ => true
  | _ => false

/-- The steps in which request `c` fails because the transport failed. -/
inductive TransportFailure (c : Nat) (s : State ε υ) : Action → Prop
  /-- the callback of its write is given an error -/
  | ownWrite {message : String} : TransportFailure c s (.writeFailed c message)
  /-- it waits when the socket fails or closes -/
  | inFlight {call : Call ε υ} {a : Action} (hc : s.calls[c]? = some call) (hv : call.args.verb.sends = true)
      (hpc : call.pc = .awaiting) (hr : c ∈ s.routes.tasks) (ha : (∃ message, a = .socketError message) ∨ a = .socketClose) :
      TransportFailure c s a
  /-- it comes to wait on a sink that the failure has reached -/
  | thenWaits {call : Call ε υ} {e : Thrown} (hc : s.calls[c]? = some call) (hv : call.args.verb.sends = true)
      (hgo : (call.pc = .written ∧ call.args.verb ≠ .subscribe) ∨
        ∃ f, call.pc = .got f ∧ f.opcode ≠ opError ∧ f.isEos = false)
      (hq : call.sink.frames = []) (hf : call.sink.failure = some e) (he : e.isTransport = true) :
      TransportFailure c s (.resume c)
  /-- it is made after the failure -/
  | afterwards {args : Args} {e : Thrown} (hv : args.verb.sends = true) (hc : c = s.calls.length)
      (hf : s.closedError = some e) (he : e.isTransport = true) : TransportFailure c s (.call args)

/-- An error that `withRetry` retries while attempts remain. -/
def Retried (e : Thrown) : Prop :=
  isRetryable e = true ∧ ∀ (maxAttempts : ℚ) (attempt : Nat), attempt < maxAttempts → willRetry maxAttempts attempt e = true

/-- Every request of the run that failed because the transport failed is rejected with an error that is retried. -/
def DropsRetried (Γ : Ctx ε υ) (m : Nat) (tr : List Action) (s : State ε υ) : Prop :=
  ∀ c, (mux Γ m).Took (TransportFailure c) tr → ∃ call e, s.calls[c]? = some call ∧ call.Surfaces e ∧ Retried e

/-- The callback of no write is given an error. -/
def NoWriteError (_ : State ε υ) (a : Action) : Prop := ∀ c message, a ≠ .writeFailed c message

theorem retried_of_isTransport {e : Thrown} (h : e.isTransport = true) : Retried e := by
  have hret : isRetryable e = true := by
    cases e <;> first | rfl | cases h
  exact ⟨hret, fun maxAttempts attempt hlt => by simp [willRetry, hlt, hret]⟩

/-- A request that comes to wait on a sink that has failed, with no frame left, is given the failure. -/
theorem awaitOwn_failed {s : State ε υ} {c : Nat} {call call₀ : Call ε υ} {e : Thrown} (hc : s.calls[c]? = some call₀)
    (hq : call.sink.frames = []) (hf : call.sink.failure = some e) :
    ∃ call', (s.awaitOwn c call).calls[c]? = some call' ∧ call'.Surfaces e := by
  refine ⟨_, by rw [State.awaitOwn, State.setCall, getElem?_set_of_some hc, if_pos rfl], .inl ?_⟩
  simp [StreamSink.next, hq, hf, pcAfterNext]

/-- A request goes on to wait for its first frame. -/
theorem resume_written (Γ : Ctx ε υ) {s : State ε υ} {c : Nat} {call : Call ε υ} (hpc : call.pc = .written)
    (hv : call.args.verb ≠ .subscribe) : s.resume Γ c call = some (s.awaitOwn c call) := by
  cases hverb : call.args.verb with
  | subscribe => exact absurd hverb hv
  | _ => simp [State.resume, hpc, hverb]

/-- A request goes on with a frame. -/
theorem resume_got (Γ : Ctx ε υ) {s : State ε υ} {c : Nat} {call : Call ε υ} {f : Frame} (hpc : call.pc = .got f)
    (hv : call.args.verb.sends = true) : s.resume Γ c call = some (s.collect Γ c call f) := by
  cases hverb : call.args.verb with
  | nextEvent target =>
    rw [hverb] at hv
    cases hv
  | _ => simp [State.resume, hpc, hverb]

theorem resume_failed {Γ : Ctx ε υ} {s s' : State ε υ} {c : Nat} {call : Call ε υ} {e : Thrown} (hc : s.calls[c]? = some call)
    (hv : call.args.verb.sends = true)
    (hgo : (call.pc = .written ∧ call.args.verb ≠ .subscribe) ∨ ∃ f, call.pc = .got f ∧ f.opcode ≠ opError ∧ f.isEos = false)
    (hq : call.sink.frames = []) (hf : call.sink.failure = some e) (hst : s.resume Γ c call = some s') :
    ∃ call', s'.calls[c]? = some call' ∧ call'.Surfaces e := by
  rcases hgo with ⟨hpc, hne⟩ | ⟨f, hpc, herr, heos⟩
  · rw [resume_written Γ hpc hne] at hst
    cases hst
    exact awaitOwn_failed hc hq hf
  · have hwait : s.collect Γ c call f = s.awaitOwn c { call with frames := call.frames ++ [f] } := by
      simp [State.collect, herr, heos]
    rw [resume_got Γ hpc hv, hwait] at hst
    cases hst
    exact awaitOwn_failed hc hq hf

/-- A call that sends is refused on a connection that has failed. -/
theorem send_refused {s : State ε υ} {e : Thrown} (hf : s.closedError = some e) (args : Args) :
    s.send args = { s with calls := s.calls ++ [Call.begin args handshakeStreamId s.taken (.done (.rejected e))] } := by
  unfold State.send
  split
  · rename_i e' he'
    cases he'.symm.trans hf
    rfl
  · rename_i hopen
    cases hopen.symm.trans hf

/-- A request that fails because the transport failed, other than in its own write, is given an error that is retried. -/
theorem TransportFailure.surfaces {Γ : Ctx ε υ} {s s' : State ε υ} {c : Nat} {a : Action} (hs : Inv s)
    (h : TransportFailure c s a) (hown : NoWriteError s a) (hst : step Γ s a = some s') :
    ∃ call e, s'.calls[c]? = some call ∧ call.args.verb.sends = true ∧ call.Surfaces e ∧ Retried e := by
  have hlater := step_later hst
  have hsends : ∀ {call call' : Call ε υ}, s.calls[c]? = some call → call.args.verb.sends = true →
      s'.calls[c]? = some call' → call'.args.verb.sends = true := by
    intro call call' hc hv hc'
    obtain ⟨x, hx, hl⟩ := hlater c call hc
    obtain rfl := Option.some.inj (hx.symm.trans hc')
    rw [hl.args]
    exact hv
  rcases h with _ | ⟨hc, hv, hpc, hr, ha⟩ | ⟨hc, hv, hgo, hq, hf, he⟩ | @⟨args, e, hv, hc, hf, he⟩
  · exact absurd rfl (hown _ _)
  · rcases ha with ⟨message, rfl⟩ | rfl <;> simp only [step] at hst <;> split at hst
    · cases hst
    · cases hst
      obtain ⟨call', hc', hsurf⟩ := failSinks_waiting (e := .transportError message) s.routes.tasks hs.waits hc hv (.inl ⟨hpc, hr⟩)
      exact ⟨call', _, hc', hsends hc hv hc', hsurf, retried_of_isTransport rfl⟩
    · cases hst
    · cases hst
      obtain ⟨call', hc', hsurf⟩ := failSinks_waiting (e := .connectionClosed "connection closed by peer") s.routes.tasks
        hs.waits hc hv (.inl ⟨hpc, hr⟩)
      exact ⟨call', _, hc', hsends hc hv hc', hsurf, retried_of_isTransport rfl⟩
  · rw [step, hc, Option.bind_some] at hst
    obtain ⟨call', hc', hsurf⟩ := resume_failed hc hv hgo hq hf hst
    exact ⟨call', _, hc', hsends hc hv hc', hsurf, retried_of_isTransport he⟩
  · obtain ⟨args', hv', rfl⟩ := step_call_sends hst hv
    refine ⟨_, e, by rw [send_refused hf, getElem?_concat, if_pos hc], ?_, .inr rfl, retried_of_isTransport he⟩
    rw [← hv'] at hv
    exact hv

theorem dropsRetried_iff {Γ : Ctx ε υ} {m : Nat} {tr : List Action} {s : State ε υ} (hr : (mux Γ m).Runs tr s) :
    (mux Γ m).Throughout (DropsRetried Γ m) tr ↔ (mux Γ m).Meets NoWriteError tr := by
  refine Machine.throughout_iff_meets (B := fun _ => True) (fun _ _ _ _ h => h) ?_ ?_ hr trivial
  · intro tr s hrun _ hm c htook
    obtain ⟨call, e, hc, -, hsurf, hret⟩ := Machine.Runs.of_took (C := NoWriteError)
      (Q := fun s : State ε υ => ∃ call e, s.calls[c]? = some call ∧ call.args.verb.sends = true ∧ call.Surfaces e ∧ Retried e)
      (fun tr s a s' hrun hown hfail hst => TransportFailure.surfaces (Γ := Γ) (inv_runs hrun) hfail hown hst)
      (by
        rintro tr s a s' hrun ⟨call, e, hc, hv, hsurf, hret⟩ hst
        obtain ⟨call', hc', hl⟩ := step_later (Γ := Γ) hst c call hc
        exact ⟨call', e, hc', by rw [hl.args]; exact hv, hl.surfaces hv e hsurf, hret⟩)
      hrun hm htook
    exact ⟨call, e, hc, hsurf, hret⟩
  · intro tr s a s' hrun _ hst _ hown hP
    unfold NoWriteError at hown
    push Not at hown
    obtain ⟨c, message, rfl⟩ := hown
    obtain ⟨call', e, hc', hsurf, hret⟩ := hP c ((Machine.took_snoc hrun).2 (.inr .ownWrite))
    have hstep : step Γ s (.writeFailed c message) = some s' := hst
    rw [step] at hstep
    obtain ⟨call, hc, hcall⟩ := Option.bind_eq_some_iff.1 hstep
    split at hcall
    · cases hcall
      rw [State.setCall, getElem?_set_of_some hc, if_pos rfl] at hc'
      obtain rfl := Option.some.inj hc'
      rcases hsurf with hsurf | hsurf
      · cases hsurf
        cases hret.1
      · cases hsurf
    · cases hcall

end TypeScript

/-- In every run of each SDK's connection, where a request fails because the transport failed: in Python it always raises an
exception that is retried; in Rust it does so in every state exactly when the run has no request that comes to `register` or to
`closed_error` after the reader has failed, that is when only failed writes of their own make requests fail; in TypeScript exactly
when the run has no write whose callback is given an error. -/
theorem transport_drop_retried_iff {ε υ : Type} (m : Nat) :
    (∀ (Γ : Python.Ctx ε) (tr : List Python.Action) (s : Python.State ε),
      (Python.mux Γ m).Runs tr s → (Python.mux Γ m).Throughout (Python.DropsRetried Γ m) tr) ∧
    (∀ (Γ : Rust.Ctx ε υ) (tr : List Rust.Action) (s : Rust.State ε υ), (Rust.mux Γ m).Runs tr s →
      ((Rust.mux Γ m).Throughout (Rust.DropsRetried Γ m) tr ↔ (Rust.mux Γ m).Meets Rust.OwnWritesOnly tr)) ∧
    (∀ (Γ : TypeScript.Ctx ε υ) (tr : List TypeScript.Action) (s : TypeScript.State ε υ),
      (TypeScript.mux Γ m).Runs tr s →
      ((TypeScript.mux Γ m).Throughout (TypeScript.DropsRetried Γ m) tr ↔
        (TypeScript.mux Γ m).Meets TypeScript.NoWriteError tr)) := by
  refine ⟨?_, ?_, ?_⟩
  · intro Γ tr s _ tr' s' _ hr'
    exact Python.dropsRetried_runs hr'
  · intro Γ tr s hr
    exact Rust.dropsRetried_iff hr
  · intro Γ tr s hr
    exact TypeScript.dropsRetried_iff hr

/-- A Python request that waits when the peer closes the connection. -/
def Python.closedInFlight : List Python.Action :=
  [.start ⟨.request, 0x21, [], none⟩, .takeStreamId 0, .register 0, .write 0 none, .readError (.closed "connection closed by peer"),
   .failAll, .dequeue 0 (.closed (.connectionClosed "connection closed by peer"))]

/-- A Rust request up to its write. -/
def Rust.requestWriting : List Rust.Action :=
  [.start ⟨.request, 0x21, [], none⟩, .allocStreamId 0, .register 0, .check 0, .acquire 0]

/-- A TypeScript request that waits when the socket closes. -/
def TypeScript.closedInFlight : List TypeScript.Action :=
  [.call ⟨.request, 0x21, [], none⟩, .writeDone 0, .resume 0, .socketClose]

/-- A close while a request waits, in Python and in TypeScript, and a failed write, in Rust, are retried. -/
theorem drops_retried :
    (Python.mux Python.Ctx.refusing maxPayloadBytes).Throughout (Python.DropsRetried Python.Ctx.refusing maxPayloadBytes)
      Python.closedInFlight ∧
    (Rust.mux Rust.Ctx.refusing maxPayloadBytes).Throughout (Rust.DropsRetried Rust.Ctx.refusing maxPayloadBytes)
      (Rust.requestWriting ++ [.writeError 0 "Broken pipe"]) ∧
    (TypeScript.mux TypeScript.Ctx.refusing maxPayloadBytes).Throughout
      (TypeScript.DropsRetried TypeScript.Ctx.refusing maxPayloadBytes) TypeScript.closedInFlight := by
  have h := transport_drop_retried_iff (ε := Unit) (υ := Unit) maxPayloadBytes
  refine ⟨?_, ?_, ?_⟩
  · have hrun : ∃ s, (Python.mux Python.Ctx.refusing maxPayloadBytes).Runs Python.closedInFlight s := ⟨_, rfl⟩
    obtain ⟨s, hr⟩ := hrun
    exact h.1 Python.Ctx.refusing Python.closedInFlight s hr
  · have hrun : ∃ s, (Rust.mux Rust.Ctx.refusing maxPayloadBytes).Runs
        (Rust.requestWriting ++ [.writeError 0 "Broken pipe"]) s := ⟨_, rfl⟩
    obtain ⟨s, hr⟩ := hrun
    refine (h.2.1 Rust.Ctx.refusing _ s hr).2 ?_
    rintro tr' a t hp ht ⟨e, -, hcl⟩
    have hopen : t.closed = none := by
      refine Rust.closed_eq_none ht (fun e he => ?_)
      have hmem := hp.subset (List.mem_append_left _ he)
      simp [Rust.requestWriting] at hmem
    exact nomatch hopen.symm.trans hcl
  · have hrun : ∃ s, (TypeScript.mux TypeScript.Ctx.refusing maxPayloadBytes).Runs TypeScript.closedInFlight s := ⟨_, rfl⟩
    obtain ⟨s, hr⟩ := hrun
    refine (h.2.2 TypeScript.Ctx.refusing _ s hr).2 (Machine.meets_of_mem ?_)
    rintro a ha t c message rfl
    simp [TypeScript.closedInFlight] at ha

/-- A Rust request that waits when the peer closes the connection, and a TypeScript one whose write fails, are not retried. -/
theorem drops_not_retried :
    (¬∀ (tr : List Rust.Action) (s : Rust.State Unit Unit), (Rust.mux Rust.Ctx.refusing maxPayloadBytes).Runs tr s →
      Rust.DropsRetried Rust.Ctx.refusing maxPayloadBytes tr s) ∧
    (¬∀ (tr : List TypeScript.Action) (s : TypeScript.State Unit Unit),
      (TypeScript.mux TypeScript.Ctx.refusing maxPayloadBytes).Runs tr s →
      TypeScript.DropsRetried TypeScript.Ctx.refusing maxPayloadBytes tr s) := by
  constructor
  · intro h
    have hrun : ∃ (s s' : Rust.State Unit Unit) (task : Rust.Task Unit Unit),
        (Rust.mux Rust.Ctx.refusing maxPayloadBytes).Runs
          (Rust.requestWriting ++ [.write 0 32, .readError .closed, .recv 0 none]) s ∧
        (Rust.mux Rust.Ctx.refusing maxPayloadBytes).step s (.closedError 0) = some s' ∧
        s.closed = some Rust.ReadFailure.closed.display ∧ s'.tasks[0]? = some task ∧
        task.pc = .done (.failed (.protocol "connection closed: connection closed by peer")) := ⟨_, _, _, rfl, rfl, rfl, rfl, rfl⟩
    obtain ⟨s, s', task, hr, hst, hcl, hc, hpc⟩ := hrun
    have htook := (Machine.took_snoc (R := Rust.TransportFailure 0) hr).2 (.inr (.inFlight ⟨.closed, rfl, hcl⟩))
    obtain ⟨task', e, hc', hsurf, hret⟩ := h _ s' (hr.snoc hst) 0 htook
    obtain rfl := Option.some.inj (hc.symm.trans hc')
    rcases hsurf with hsurf | hsurf
    · exact nomatch hpc.symm.trans hsurf
    · cases hpc.symm.trans hsurf
      cases hret.1
  · intro h
    have hrun : ∃ (s s' : TypeScript.State Unit Unit) (call : TypeScript.Call Unit Unit),
        (TypeScript.mux TypeScript.Ctx.refusing maxPayloadBytes).Runs [.call ⟨.request, 0x21, [], none⟩] s ∧
        (TypeScript.mux TypeScript.Ctx.refusing maxPayloadBytes).step s (.writeFailed 0 "write EPIPE") = some s' ∧
        s'.calls[0]? = some call ∧ call.pc = .threw (.nodeError "write EPIPE") := ⟨_, _, _, rfl, rfl, rfl, rfl⟩
    obtain ⟨s, s', call, hr, hst, hc, hpc⟩ := hrun
    have hfail : TypeScript.TransportFailure 0 s (.writeFailed 0 "write EPIPE") := .ownWrite
    have htook := (Machine.took_snoc (R := TypeScript.TransportFailure 0) hr).2 (.inr hfail)
    obtain ⟨call', e, hc', hsurf, hret⟩ := h _ s' (hr.snoc hst) 0 htook
    obtain rfl := Option.some.inj (hc.symm.trans hc')
    rcases hsurf with hsurf | hsurf
    · cases hpc.symm.trans hsurf
      cases hret.1
    · exact nomatch hpc.symm.trans hsurf

end BrainSdk
