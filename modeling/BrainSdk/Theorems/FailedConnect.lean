import BrainSdk.Python.AioConnect
import BrainSdk.Theorems.ReaderRelease
import BrainSdk.TypeScript.Handshake

/-!
# What a connect that fails leaves of its socket

The two Python connects pass every exception of the handshake through a close. The one of TypeScript has none, and leaves the socket open
unless the socket itself has ended the handshake.
-/

namespace BrainSdk

open Library Wire

/-! ### The asyncio connect -/

namespace Python.Aio

variable {ω α : Type}

/-- The socket is closed once the connect has raised. -/
def Closes (s : State ω α) : Prop := ∀ o, s.pc = .raised o → s.transport = .closed

/-- The connect is not cancelled while it waits for the socket to be closed. -/
def NotCancelledInClose (s : State ω α) (a : Action) : Prop := a = .cancel → ∀ o, s.pc = .awaitingClosed o → s.transport = .closed

/-- The transport is being closed, at the least, from `writer.close()` on. -/
def Shut (s : State ω α) : Prop :=
  match s.pc with
  | .awaitingClosed _ | .raised _ => s.transport ≠ .opened
  | _ => True

theorem shut_closeWriter (s : State ω α) (o : Handshake.Outcome ω α) : Shut (s.closeWriter o) := by
  show (if s.transport = .closed then Transport.closed else .closing) ≠ .opened
  split <;> exact nofun

theorem write_pc (s : State ω α) (opcode : Nat) (payload : Bytes) (failure : Option String) (next : Pc ω α) :
    (s.write opcode payload failure next).pc = next ∨ ∃ o, (s.write opcode payload failure next).pc = .awaitingReader o := by
  unfold State.write
  split
  · exact .inr ⟨_, rfl⟩
  · exact .inl rfl

/-- What a step does to the connect: it stays before its close, or goes on in it. -/
theorem step_pc {Γ : Handshake.Ctx ω α} {s s' : State ω α} {a : Action} (hs : step Γ s a = some s') :
    (s'.pc = s.pc ∧ (s'.transport = s.transport ∨ s'.transport = .closed)) ∨
    ((∀ o, s'.pc ≠ .awaitingClosed o) ∧ ∀ o, s'.pc ≠ .raised o) ∨
    (∃ o, s' = s.closeWriter o) ∨
    (a = .cancel ∧ (∃ o, s.pc = .awaitingClosed o) ∧ s' = { s with pc := .raised .interrupted }) ∨
    ∃ o, s.transport = .closed ∧ s' = { s with pc := .raised o } := by
  cases a with
  | write failure =>
    refine .inr (.inl ?_)
    simp only [step] at hs
    split at hs
    · cases hs
      rcases write_pc s opHello Γ.hello failure .awaitingWelcome with h | ⟨o, h⟩ <;>
        (rw [h]; exact ⟨fun _ h => (by cases h), fun _ h => (by cases h)⟩)
    · rename_i w _
      cases hs
      rcases write_pc s opAuth Γ.auth failure (.awaitingAuthOk w) with h | ⟨o, h⟩ <;>
        (rw [h]; exact ⟨fun _ h => (by cases h), fun _ h => (by cases h)⟩)
    · cases hs
  | dequeue =>
    refine .inr (.inl ?_)
    simp only [step] at hs
    split at hs
    · simp only [State.take] at hs
      split at hs
      · split at hs <;> cases hs <;> exact ⟨fun _ h => (by cases h), fun _ h => (by cases h)⟩
      · split at hs <;> cases hs <;> exact ⟨fun _ h => (by cases h), fun _ h => (by cases h)⟩
      · cases hs
    · cases hs
  | timeout =>
    refine .inr (.inl ?_)
    simp only [step] at hs
    split at hs <;> cases hs <;> exact ⟨fun _ h => (by cases h), fun _ h => (by cases h)⟩
  | cancel =>
    simp only [step] at hs
    split at hs
    · cases hs
      exact .inr (.inl ⟨fun _ h => (by cases h), fun _ h => (by cases h)⟩)
    · cases hs
      exact .inr (.inl ⟨fun _ h => (by cases h), fun _ h => (by cases h)⟩)
    · cases hs
      exact .inr (.inl ⟨fun _ h => (by cases h), fun _ h => (by cases h)⟩)
    · cases hs
      exact .inr (.inl ⟨fun _ h => (by cases h), fun _ h => (by cases h)⟩)
    · cases hs
      exact .inr (.inr (.inl ⟨_, rfl⟩))
    · rename_i o hpc
      cases hs
      exact .inr (.inr (.inr (.inl ⟨rfl, ⟨o, hpc⟩, rfl⟩)))
    · cases hs
  | reap =>
    simp only [step] at hs
    split at hs
    · cases hs
      exact .inr (.inr (.inl ⟨_, rfl⟩))
    · cases hs
  | waitClosed =>
    simp only [step] at hs
    split at hs
    · rename_i ht
      cases hs
      exact .inr (.inr (.inr (.inr ⟨_, ht, rfl⟩)))
    · cases hs
  | readFrame f =>
    obtain ⟨-, hs⟩ := Option.ite_none_right_eq_some.1 hs
    cases hs
    unfold State.route
    split
    · exact .inl ⟨rfl, .inl rfl⟩
    · split <;> exact .inl ⟨rfl, .inl rfl⟩
  | readError e =>
    obtain ⟨-, hs⟩ := Option.ite_none_right_eq_some.1 hs
    cases hs
    exact .inl ⟨rfl, .inl rfl⟩
  | pong now failure =>
    simp only [step] at hs
    split at hs
    · split at hs
      · cases hs
      · cases hs
        exact .inl ⟨rfl, .inl rfl⟩
    · cases hs
  | readerCancelled =>
    obtain ⟨-, hs⟩ := Option.ite_none_right_eq_some.1 hs
    cases hs
    exact .inl ⟨rfl, .inl rfl⟩
  | connectionLost =>
    cases hs
    exact .inl ⟨rfl, .inr rfl⟩

theorem shut_runs {Γ : Handshake.Ctx ω α} {tr : List Action} {s : State ω α} (hr : (machine Γ).Runs tr s) : Shut s := by
  refine Machine.Runs.invariant (M := machine Γ) (P := Shut) trivial ?_ hr
  intro s a s' h hs
  rcases step_pc hs with ⟨hpc, ht⟩ | ⟨h1, h2⟩ | ⟨o, rfl⟩ | ⟨-, ⟨o, hpc⟩, rfl⟩ | ⟨o, ht, rfl⟩
  · unfold Shut at h ⊢
    rw [hpc]
    rcases ht with ht | ht
    · rw [ht]
      exact h
    · rw [ht]
      split <;> trivial
  · unfold Shut
    split
    · rename_i o hpc
      exact absurd hpc (h1 o)
    · rename_i o hpc
      exact absurd hpc (h2 o)
    · trivial
  · exact shut_closeWriter s o
  · unfold Shut at h ⊢
    rw [hpc] at h
    exact h
  · show s.transport ≠ .opened
    rw [ht]
    exact nofun

theorem closes_of_meets {Γ : Handshake.Ctx ω α} {tr : List Action} {s : State ω α} (hr : (machine Γ).Runs tr s)
    (hm : (machine Γ).Meets NotCancelledInClose tr) : Closes s := by
  refine Machine.Runs.rec_on_meets (M := machine Γ) (C := NotCancelledInClose) (P := fun _ s => Closes s) nofun ?_ hr hm
  intro tr s a s' hrun ih hc hs
  rcases step_pc hs with ⟨hpc, ht⟩ | ⟨-, h2⟩ | ⟨o, rfl⟩ | ⟨ha, ⟨o, hpc⟩, rfl⟩ | ⟨o, ht, rfl⟩
  · intro o hraised
    rcases ht with ht | ht
    · rw [ht]
      exact ih o (hpc.symm.trans hraised)
    · exact ht
  · exact fun o h => absurd h (h2 o)
  · exact nofun
  · exact fun _ _ => hc ha o hpc
  · exact fun _ _ => ht

theorem not_closes {Γ : Handshake.Ctx ω α} {s s' : State ω α} {a : Action} (hs : step Γ s a = some s')
    (hc : ¬NotCancelledInClose s a) : ¬Closes s' := by
  intro h
  simp only [NotCancelledInClose, Classical.not_imp, not_forall] at hc
  obtain ⟨rfl, o, hpc, ht⟩ := hc
  simp only [step, hpc] at hs
  cases hs
  exact ht (h .interrupted rfl)

end Python.Aio

/-! ### The TypeScript connect -/

namespace TypeScript.Handshake

variable {ω α : Type}

/-- The socket is destroyed once the connect has rejected. -/
def Destroys (s : State ω α) : Prop := ∀ e, s.pc = .rejected e → s.destroyed = true

/-- What the handshake goes on with is neither a rejection nor a frame that is not acceptable. -/
def Acceptable (Γ : Ctx ω α) : Pc ω α → Prop
  | .threw _ => False
  | .got .welcome f => (welcomeOf Γ f).isOk = true
  | .got (.authOk _) f => (authOkOf Γ f).isOk = true
  | _ => True

/-- The handshake goes on with what is acceptable, or the socket has been destroyed. -/
def EndsWithSocket (Γ : Ctx ω α) (s : State ω α) (a : Action) : Prop := a = .resume → s.destroyed = true ∨ Acceptable Γ s.pc

/-- What the socket itself rejects a promise with: its `error` or `close`, or the error of a write. -/
def ofSocket : Thrown → Bool
  | .transportError _ | .connectionClosed _ | .nodeError _ => true
  | _ => false

/-- The handlers of the socket neither destroy it nor end the connect. -/
structure Handles (s s' : State ω α) : Prop where
  destroyed : s'.destroyed = s.destroyed
  rejected : ∀ e, s'.pc = .rejected e → s.pc = .rejected e

theorem Handles.refl (s : State ω α) : Handles s s := ⟨rfl, fun _ h => h⟩

theorem Handles.trans {s s' s'' : State ω α} (h : Handles s s') (h' : Handles s' s'') : Handles s s'' :=
  ⟨h'.destroyed.trans h.destroyed, fun e he => h.rejected e (h'.rejected e he)⟩

theorem handles_settle (s : State ω α) (waiter : Option Nat) (r : Except Thrown Frame) : Handles s (s.settle waiter r) := by
  unfold State.settle
  split
  · split
    · exact ⟨rfl, fun _ h => by cases h⟩
    · exact .refl s
  · split
    · exact ⟨rfl, fun _ h => by cases h⟩
    · exact .refl s
  · exact .refl s

theorem handles_dispatch (s : State ω α) (f : Frame) : Handles s (s.dispatch f) := by
  unfold State.dispatch
  split
  · have hsink : Handles s { s with sink := (s.sink.push f).1 } := ⟨rfl, fun _ h => h⟩
    exact hsink.trans (handles_settle _ _ _)
  · exact .refl s

theorem handles_failAll (s : State ω α) (e : Thrown) : Handles s (s.failAll e) := by
  have hsettle := handles_settle { s with closedError := s.closedError.or (some e), sink := (s.sink.fail e).1 } (s.sink.fail e).2 (.error e)
  unfold State.failAll
  dsimp only
  split
  · exact ⟨hsettle.destroyed, hsettle.rejected⟩
  · exact ⟨rfl, fun _ h => h⟩

/-- What handling a frame changes: what is written, or what a dispatch does. -/
theorem handle_ok {Γ : Ctx ω α} {now : Nat} {s s' : State ω α} {f : Frame} (h : s.handle Γ now f = .ok s') :
    (∃ out, s' = { s with out := out }) ∨ s' = s.dispatch f := by
  unfold State.handle State.answerServerPing at h
  split at h
  · split at h
    · cases h
      exact .inl ⟨_, rfl⟩
    · cases h
      exact .inl ⟨s.out, rfl⟩
    · cases h
  · exact .inr (Except.ok.inj h).symm

theorem handles_handle {Γ : Ctx ω α} {now : Nat} {s s' : State ω α} {f : Frame} (h : s.handle Γ now f = .ok s') : Handles s s' := by
  rcases handle_ok h with ⟨out, rfl⟩ | rfl
  · exact ⟨rfl, fun _ h => h⟩
  · exact handles_dispatch s f

theorem handles_drain (Γ : Ctx ω α) (now fuel : Nat) (offset : Nat) (s : State ω α) : Handles s (State.drain Γ now fuel offset s) := by
  induction fuel generalizing offset s with
  | zero => exact .refl s
  | succ fuel ih =>
    unfold State.drain
    split
    · split
      · exact ⟨rfl, fun _ h => h⟩
      · exact handles_failAll s _
    · dsimp only
      split
      · exact .refl s
      · rename_i h
        exact (handles_handle h).trans (ih _ _)

theorem handles_onData (Γ : Ctx ω α) (s : State ω α) (chunk : Bytes) (now : Nat) : Handles s (s.onData Γ chunk now) := by
  have hbuf : Handles s { s with buf := s.buf ++ chunk } := ⟨rfl, fun _ h => h⟩
  exact hbuf.trans (handles_drain Γ now _ 0 _)

theorem send_pc (s : State ω α) (opcode : Nat) (payload : Bytes) (k : Wait ω) :
    (s.send opcode payload k).destroyed = s.destroyed ∧ ∀ e, (s.send opcode payload k).pc ≠ .rejected e := by
  unfold State.send
  split <;> exact ⟨rfl, fun _ h => by cases h⟩

theorem await_pc (s : State ω α) (k : Wait ω) : (s.await k).destroyed = s.destroyed ∧ ∀ e, (s.await k).pc ≠ .rejected e := by
  refine ⟨rfl, fun e he => ?_⟩
  dsimp only [State.await] at he
  split at he <;> cases he

/-- A continuation rejects the connect exactly when what it goes on with is not acceptable. -/
theorem resume_rejected {Γ : Ctx ω α} {s s' : State ω α} (hs : s.resume Γ = some s') :
    s'.destroyed = s.destroyed ∧ ((∃ e, s'.pc = .rejected e) ↔ ¬Acceptable Γ s.pc) := by
  unfold State.resume at hs
  cases hpc : s.pc with
  | waiting k =>
    rw [hpc] at hs
    cases hs
  | wrote k =>
    rw [hpc] at hs
    cases k with
    | helloWritten =>
      cases hs
      exact ⟨(await_pc s _).1, iff_of_false (fun ⟨e, he⟩ => (await_pc s _).2 e he) (not_not.2 trivial)⟩
    | authWritten w =>
      cases hs
      exact ⟨(await_pc s _).1, iff_of_false (fun ⟨e, he⟩ => (await_pc s _).2 e he) (not_not.2 trivial)⟩
    | welcome => cases hs
    | authOk w => cases hs
  | got k f =>
    rw [hpc] at hs
    cases k with
    | helloWritten => cases hs
    | authWritten w => cases hs
    | welcome =>
      dsimp only at hs
      cases hw : welcomeOf Γ f with
      | error e =>
        rw [hw] at hs
        cases hs
        exact ⟨rfl, iff_of_true ⟨e, rfl⟩ (by simp [Acceptable, hw, Except.isOk, Except.toBool])⟩
      | ok w =>
        rw [hw] at hs
        cases hs
        exact ⟨(send_pc s _ _ _).1, iff_of_false (fun ⟨e, he⟩ => (send_pc s _ _ _).2 e he)
          (not_not.2 (by simp [Acceptable, hw, Except.isOk, Except.toBool]))⟩
    | authOk w =>
      dsimp only at hs
      cases ha : authOkOf Γ f with
      | error e =>
        rw [ha] at hs
        cases hs
        exact ⟨rfl, iff_of_true ⟨e, rfl⟩ (by simp [Acceptable, ha, Except.isOk, Except.toBool])⟩
      | ok a =>
        rw [ha] at hs
        cases hs
        exact ⟨rfl, iff_of_false (fun ⟨e, he⟩ => nomatch he) (not_not.2 (by simp [Acceptable, ha, Except.isOk, Except.toBool]))⟩
  | threw e =>
    rw [hpc] at hs
    cases hs
    exact ⟨rfl, iff_of_true ⟨e, rfl⟩ id⟩
  | resolved w a =>
    rw [hpc] at hs
    cases hs
  | rejected e =>
    rw [hpc] at hs
    cases hs

/-- An event neither ends the connect nor brings the socket back. -/
theorem event_keeps {Γ : Ctx ω α} {s s' : State ω α} {a : Action} (ha : a ≠ .resume) (hs : step Γ s a = some s') :
    (s.destroyed = true → s'.destroyed = true) ∧ ∀ e, s'.pc = .rejected e → s.pc = .rejected e := by
  cases a with
  | resume => exact absurd rfl ha
  | writeDone =>
    simp only [step] at hs
    split at hs
    · obtain ⟨-, hs⟩ := Option.ite_none_left_eq_some.1 hs
      cases hs
      exact ⟨id, fun _ h => by cases h⟩
    · cases hs
  | writeFailed message =>
    simp only [step] at hs
    split at hs
    · obtain ⟨-, hs⟩ := Option.ite_none_left_eq_some.1 hs
      cases hs
      exact ⟨fun _ => rfl, fun _ h => by cases h⟩
    · cases hs
  | timeout =>
    simp only [step] at hs
    split at hs
    · obtain ⟨-, hs⟩ := Option.ite_none_right_eq_some.1 hs
      cases hs
      exact ⟨id, fun _ h => by cases h⟩
    · cases hs
  | data chunk now =>
    obtain ⟨-, hs⟩ := Option.ite_none_left_eq_some.1 hs
    obtain ⟨-, hs⟩ := Option.ite_none_left_eq_some.1 hs
    cases hs
    have h := handles_onData Γ s chunk now
    exact ⟨fun hd => h.destroyed.trans hd, h.rejected⟩
  | socketError message =>
    obtain ⟨-, hs⟩ := Option.ite_none_left_eq_some.1 hs
    cases hs
    exact ⟨fun _ => rfl, (handles_failAll s _).rejected⟩
  | socketClose =>
    obtain ⟨-, hs⟩ := Option.ite_none_left_eq_some.1 hs
    cases hs
    exact ⟨fun _ => rfl, (handles_failAll s _).rejected⟩

theorem destroys_of_meets {Γ : Ctx ω α} {tr : List Action} {s : State ω α} (hr : (machine Γ).Runs tr s)
    (hm : (machine Γ).Meets (EndsWithSocket Γ) tr) : Destroys s := by
  refine Machine.Runs.rec_on_meets (M := machine Γ) (C := EndsWithSocket Γ) (P := fun _ s => Destroys s) ?_ ?_ hr hm
  · exact fun e he => absurd he ((send_pc _ _ _ _).2 e)
  · intro tr s a s' _ ih hc hs
    by_cases ha : a = .resume
    · subst ha
      obtain ⟨hd, hrej⟩ := resume_rejected hs
      intro e he
      rw [hd]
      exact (hc rfl).resolve_right (hrej.1 ⟨e, he⟩)
    · obtain ⟨hd, hrej⟩ := event_keeps ha hs
      exact fun e he => hd (ih e (hrej e he))

theorem not_destroys {Γ : Ctx ω α} {s s' : State ω α} {a : Action} (hs : step Γ s a = some s') (hc : ¬EndsWithSocket Γ s a) :
    ¬Destroys s' := by
  intro h
  simp only [EndsWithSocket, Classical.not_imp, not_or] at hc
  obtain ⟨rfl, hd, ha⟩ := hc
  obtain ⟨hd', hrej⟩ := resume_rejected hs
  obtain ⟨e, he⟩ := hrej.2 ha
  rw [← hd'] at hd
  exact hd (h e he)

/-! What the socket has not rejected, it is not to blame for. -/

/-- What the handshake goes to its end with, or has ended with. -/
def Pc.failure : Pc ω α → Option Thrown
  | .threw e | .rejected e => some e
  | _ => none

/-- Nothing that the socket rejects a promise with has come up. -/
structure Blameless (s : State ω α) : Prop where
  pc : ∀ e, s.pc.failure = some e → ofSocket e = false
  failure : ∀ e, s.sink.failure = some e → ofSocket e = false

theorem errorOf_blameless (Γ : TypeScript.Ctx Unit Unit) (payload : Bytes) : ofSocket (errorOf Γ payload) = false := by
  unfold errorOf
  split <;> rfl

theorem expectReply_blameless {Γ : Ctx ω α} {expected : Nat} {f : Frame} {e : Thrown} (h : expectReply Γ expected f = .error e) :
    ofSocket e = false := by
  unfold expectReply at h
  split at h
  · cases h
    exact errorOf_blameless Γ.toCtx f.payload
  · split at h <;> cases h
    rfl

theorem welcomeOf_blameless {Γ : Ctx ω α} {f : Frame} {e : Thrown} (h : welcomeOf Γ f = .error e) : ofSocket e = false := by
  unfold welcomeOf at h
  split at h
  · rename_i e' he
    cases h
    exact expectReply_blameless he
  · split at h
    · cases h
      rfl
    · split at h <;> cases h
      rfl

theorem authOkOf_blameless {Γ : Ctx ω α} {f : Frame} {e : Thrown} (h : authOkOf Γ f = .error e) : ofSocket e = false := by
  unfold authOkOf at h
  split at h
  · rename_i e' he
    cases h
    exact expectReply_blameless he
  · split at h <;> cases h
    rfl

theorem writeFrame_blameless {m opcode streamId : Nat} {payload : Bytes} {e : Thrown}
    (h : writeFrame m opcode streamId payload = .error e) : ofSocket e = false := by
  unfold writeFrame at h
  split at h
  · cases h
    rfl
  · split at h <;> cases h
    rfl

theorem blameless_send {s : State ω α} (h : Blameless s) (opcode : Nat) (payload : Bytes) (k : Wait ω) :
    Blameless (s.send opcode payload k) := by
  unfold State.send
  split
  · rename_i e he
    refine ⟨fun e' he' => ?_, h.failure⟩
    cases he'
    exact writeFrame_blameless he
  · exact ⟨fun _ h => (by cases h), h.failure⟩

theorem blameless_await {s : State ω α} (h : Blameless s) (k : Wait ω) : Blameless (s.await k) := by
  unfold State.await StreamSink.next
  split
  · exact ⟨fun _ h => (by cases h), h.failure⟩
  · rename_i e _ hf
    refine ⟨fun e' he => ?_, h.failure⟩
    cases he
    exact h.failure e hf
  · exact ⟨fun _ h => (by cases h), h.failure⟩

theorem blameless_finish {s : State ω α} (h : Blameless s) {e : Thrown} (he : ofSocket e = false) : Blameless (s.finish (.rejected e)) := by
  refine ⟨fun e' he' => ?_, h.failure⟩
  cases he'
  exact he

theorem blameless_resume {Γ : Ctx ω α} {s s' : State ω α} (h : Blameless s) (hs : s.resume Γ = some s') : Blameless s' := by
  unfold State.resume at hs
  split at hs
  · cases hs
    exact blameless_await h _
  · split at hs
    · rename_i e he
      cases hs
      exact blameless_finish h (welcomeOf_blameless he)
    · cases hs
      exact blameless_send h _ _ _
  · cases hs
    exact blameless_await h _
  · split at hs
    · rename_i e he
      cases hs
      exact blameless_finish h (authOkOf_blameless he)
    · cases hs
      exact ⟨fun _ h => (by cases h), h.failure⟩
  · rename_i e hpc
    cases hs
    exact blameless_finish h (h.pc e (by rw [hpc]; rfl))
  · cases hs

theorem blameless_settle {s : State ω α} (h : Blameless s) (waiter : Option Nat) {r : Except Thrown Frame}
    (hr : ∀ e, r = .error e → ofSocket e = false) : Blameless (s.settle waiter r) := by
  unfold State.settle
  split
  · split
    · exact ⟨fun _ h => (by cases h), h.failure⟩
    · exact h
  · split
    · refine ⟨fun e' he => ?_, h.failure⟩
      cases he
      exact hr _ rfl
    · exact h
  · exact h

theorem blameless_dispatch {s : State ω α} (h : Blameless s) (f : Frame) : Blameless (s.dispatch f) := by
  have hpush : (s.sink.push f).1.failure = s.sink.failure := by
    unfold StreamSink.push
    split <;> rfl
  unfold State.dispatch
  split
  · exact blameless_settle (s := { s with sink := (s.sink.push f).1 }) ⟨h.pc, fun e he => h.failure e (hpush.symm.trans he)⟩ _ nofun
  · exact h

theorem blameless_failAll {s : State ω α} (h : Blameless s) {e : Thrown} (he : ofSocket e = false) : Blameless (s.failAll e) := by
  have hfail : ∀ e', (s.sink.fail e).1.failure = some e' → ofSocket e' = false := by
    intro e' hf
    rcases Option.or_eq_some_iff.1 hf with hf | ⟨-, hf⟩
    · exact h.failure e' hf
    · cases hf
      exact he
  have hsettle := blameless_settle (s := { s with closedError := s.closedError.or (some e), sink := (s.sink.fail e).1 }) ⟨h.pc, hfail⟩
    (s.sink.fail e).2 (r := .error e) (fun e' h' => by cases h'; exact he)
  unfold State.failAll
  dsimp only
  split
  · exact ⟨hsettle.pc, hsettle.failure⟩
  · exact ⟨h.pc, h.failure⟩

theorem blameless_drain {Γ : Ctx ω α} {now fuel : Nat} {s : State ω α} (h : Blameless s) (offset : Nat) :
    Blameless (State.drain Γ now fuel offset s) := by
  induction fuel generalizing offset s with
  | zero => exact h
  | succ fuel ih =>
    unfold State.drain
    split
    · split
      · exact ⟨h.pc, h.failure⟩
      · exact blameless_failAll h rfl
    · dsimp only
      split
      · exact h
      · rename_i hhandle
        refine ih ?_ _
        rcases handle_ok hhandle with ⟨out, rfl⟩ | rfl
        · exact ⟨h.pc, h.failure⟩
        · exact blameless_dispatch h _

/-- While the socket is alive, it has rejected nothing. -/
theorem blameless_runs {Γ : Ctx ω α} {tr : List Action} {s : State ω α} (hr : (machine Γ).Runs tr s) :
    s.destroyed = true ∨ Blameless s := by
  refine Machine.Runs.invariant (M := machine Γ) (P := fun s => s.destroyed = true ∨ Blameless s) ?_ ?_ hr
  · refine .inr (blameless_send ⟨fun e he => ?_, fun e he => ?_⟩ _ _ _)
    · cases he
    · cases he
  · intro s a s' h hs
    have hs : step Γ s a = some s' := hs
    rcases h with h | h
    · by_cases ha : a = .resume
      · subst ha
        exact .inl ((resume_rejected hs).1.trans h)
      · exact .inl ((event_keeps ha hs).1 h)
    · cases a with
      | resume => exact .inr (blameless_resume h hs)
      | writeDone =>
        simp only [step] at hs
        split at hs
        · obtain ⟨-, hs⟩ := Option.ite_none_left_eq_some.1 hs
          cases hs
          exact .inr ⟨fun _ h => (by cases h), h.failure⟩
        · cases hs
      | writeFailed message =>
        simp only [step] at hs
        split at hs
        · obtain ⟨-, hs⟩ := Option.ite_none_left_eq_some.1 hs
          cases hs
          exact .inl rfl
        · cases hs
      | timeout =>
        simp only [step] at hs
        split at hs
        · obtain ⟨-, hs⟩ := Option.ite_none_right_eq_some.1 hs
          cases hs
          refine .inr ⟨fun e he => ?_, h.failure⟩
          cases he
          rfl
        · cases hs
      | data chunk now =>
        obtain ⟨-, hs⟩ := Option.ite_none_left_eq_some.1 hs
        obtain ⟨-, hs⟩ := Option.ite_none_left_eq_some.1 hs
        cases hs
        exact .inr (blameless_drain (s := { s with buf := s.buf ++ chunk }) ⟨h.pc, h.failure⟩ 0)
      | socketError message =>
        obtain ⟨-, hs⟩ := Option.ite_none_left_eq_some.1 hs
        cases hs
        exact .inl rfl
      | socketClose =>
        obtain ⟨-, hs⟩ := Option.ite_none_left_eq_some.1 hs
        cases hs
        exact .inl rfl

/-- A connect that rejects with an error of the socket leaves it destroyed. -/
theorem destroyed_of_ofSocket {Γ : Ctx ω α} {tr : List Action} {s : State ω α} (hr : (machine Γ).Runs tr s) {e : Thrown}
    (he : s.pc = .rejected e) (h : ofSocket e = true) : s.destroyed = true := by
  rcases blameless_runs hr with hd | hb
  · exact hd
  · rw [hb.pc e (by rw [he]; rfl)] at h
    cases h

end TypeScript.Handshake

/-- A connect that fails has closed the socket: the synchronous one always, the asyncio one in exactly the runs in which its wait for the
close is not cancelled, and the one of TypeScript in exactly those in which its handshake does not end with the socket alive. An error
of the socket never ends it so. -/
theorem failed_connect_closes {ω α : Type} (Γ : Python.Handshake.Ctx ω α) (Γ' : TypeScript.Handshake.Ctx ω α) :
    (∀ tr s, (Python.Connect.machine Γ).Runs tr s → ∀ o, s.pc = .raised o → s.conn.closed = true) ∧
    (∀ tr s, (Python.Aio.machine Γ).Runs tr s → Python.Aio.Shut s ∧
      ((Python.Aio.machine Γ).Throughout (fun _ s => Python.Aio.Closes s) tr ↔
        (Python.Aio.machine Γ).Meets Python.Aio.NotCancelledInClose tr)) ∧
    ∀ tr s, (TypeScript.Handshake.machine Γ').Runs tr s →
      ((TypeScript.Handshake.machine Γ').Throughout (fun _ s => TypeScript.Handshake.Destroys s) tr ↔
        (TypeScript.Handshake.machine Γ').Meets (TypeScript.Handshake.EndsWithSocket Γ') tr) ∧
      ∀ e, s.pc = .rejected e → TypeScript.Handshake.ofSocket e = true → s.destroyed = true := by
  refine ⟨fun tr s hr o ho => (Python.Connect.inv_runs hr).closed.2 ⟨o, ho⟩, fun tr s hr => ⟨Python.Aio.shut_runs hr, ?_⟩,
    fun tr s hr => ⟨?_, fun e => TypeScript.Handshake.destroyed_of_ofSocket hr⟩⟩
  · exact Machine.throughout_iff_meets (M := Python.Aio.machine Γ) (B := fun _ => True) (fun _ _ _ _ h => h)
      (fun _ _ hr _ hm => Python.Aio.closes_of_meets hr hm) (fun _ _ _ _ _ _ hs _ hc => Python.Aio.not_closes hs hc) hr trivial
  · exact Machine.throughout_iff_meets (M := TypeScript.Handshake.machine Γ') (B := fun _ => True) (fun _ _ _ _ h => h)
      (fun _ _ hr _ hm => TypeScript.Handshake.destroys_of_meets hr hm)
      (fun _ _ _ _ _ _ hs _ hc => TypeScript.Handshake.not_destroys hs hc) hr trivial

/-- The context of the concrete connects, with a deadline for each reply. -/
def TypeScript.Handshake.Γ₀ : TypeScript.Handshake.Ctx Unit Unit where
  toCtx := { TypeScript.Ctx.refusing with requestTimeoutMs := some 30000 }
  hello := []
  offered := [1]
  auth := []
  decodeWelcome := fun _ => .error "invalid payload"
  decodeAuthOk := fun _ => .error "invalid payload"
  chosenVersion := fun _ => 1
  maxPayloadSize := fun _ => 0

/-- The peer does not answer the HELLO. -/
def TypeScript.Handshake.unanswered : List TypeScript.Handshake.Action := [.writeDone, .resume, .timeout, .resume]

/-- The peer closes the connection before it answers the HELLO. -/
def TypeScript.Handshake.hungUp : List TypeScript.Handshake.Action := [.writeDone, .resume, .socketClose, .resume]

/-- A connect whose peer hangs up leaves no socket, and neither do those of Python whose peers do not answer. -/
theorem failed_connect_closes_hungUp :
    (∃ s o, (Python.Connect.machine Python.Connect.Γ₀).Runs (Python.Connect.unanswered ++ [.close]) s ∧ s.pc = .raised o ∧
      s.conn.closed = true) ∧
    (∃ s o, (Python.Aio.machine Python.Connect.Γ₀).Runs [.write none, .timeout, .readerCancelled, .reap, .connectionLost, .waitClosed] s ∧
      s.pc = .raised o ∧ s.transport = .closed) ∧
    ∃ s e, (TypeScript.Handshake.machine TypeScript.Handshake.Γ₀).Runs TypeScript.Handshake.hungUp s ∧ s.pc = .rejected e ∧
      s.destroyed = true := by
  obtain ⟨hsync, haio, hts⟩ := failed_connect_closes Python.Connect.Γ₀ TypeScript.Handshake.Γ₀
  refine ⟨?_, ?_, ?_⟩
  · have hr : ∃ s o, (Python.Connect.machine Python.Connect.Γ₀).Runs (Python.Connect.unanswered ++ [.close]) s ∧ s.pc = .raised o :=
      ⟨_, _, rfl, rfl⟩
    obtain ⟨s, o, hr, ho⟩ := hr
    exact ⟨s, o, hr, ho, hsync _ s hr o ho⟩
  · have hm : (Python.Aio.machine Python.Connect.Γ₀).Meets Python.Aio.NotCancelledInClose
        [.write none, .timeout, .readerCancelled, .reap, .connectionLost, .waitClosed] :=
      Machine.meets_of_mem (by simp [Python.Aio.NotCancelledInClose])
    have hr : ∃ s o, (Python.Aio.machine Python.Connect.Γ₀).Runs
        [.write none, .timeout, .readerCancelled, .reap, .connectionLost, .waitClosed] s ∧ s.pc = .raised o := ⟨_, _, rfl, rfl⟩
    obtain ⟨s, o, hr, ho⟩ := hr
    exact ⟨s, o, hr, ho, (haio _ s hr).2.2 hm _ s (List.prefix_refl _) hr o ho⟩
  · have hr : ∃ s e, (TypeScript.Handshake.machine TypeScript.Handshake.Γ₀).Runs TypeScript.Handshake.hungUp s ∧ s.pc = .rejected e ∧
        TypeScript.Handshake.ofSocket e = true := ⟨_, _, rfl, rfl, rfl⟩
    obtain ⟨s, e, hr, he, ho⟩ := hr
    exact ⟨s, e, hr, he, (hts _ s hr).2 e he ho⟩

/-- The connect whose peer does not answer the HELLO rejects after its deadline, and leaves its socket open. -/
theorem failed_connect_leaks :
    ∃ s, (TypeScript.Handshake.machine TypeScript.Handshake.Γ₀).Runs TypeScript.Handshake.unanswered s ∧
      s.pc = .rejected (.brainTimeout 30000) ∧ s.destroyed = false :=
  ⟨_, rfl, rfl, rfl⟩

end BrainSdk
