import BrainSdk.Python.Consumed

/-!
# Each response of the Python mux reaches the call that asked for it

What an op call is given is what the reader processed on its stream while it was registered (`Accounted.given`), what it takes is
what it was given, in order (`Accounted.queued`), and how it ends says what it took (`Call.Consumed`).
-/

namespace BrainSdk.Python

open Library Wire

variable {ε : Type}

/-- The frame the reader has read and not yet looked up. -/
def Reader.inHand : Reader → List Frame
  | .routing f => [f]
  | _ => []

/-- The reader processes every frame the socket gives it but the heartbeats, in order. -/
theorem inbound_processed {Γ : Ctx ε} {m : Nat} {tr : List Action} {s : State ε} (hr : (mux Γ m).Runs tr s) :
    (inbound tr).filter (fun f => f.opcode ≠ opServerPing) = processed tr ++ s.reader.inHand := by
  refine Machine.Runs.rec_on (P := fun tr s => (inbound tr).filter (fun f => f.opcode ≠ opServerPing) =
    processed tr ++ s.reader.inHand) rfl ?_ hr
  intro tr s a s' _ ih hst
  rw [inbound, processed, filterMap_snoc, filterMap_snoc, List.filter_append]
  rw [show tr.filterMap Action.reads = inbound tr from rfl, ih]
  cases step_effect hst with
  | @readFrame f hr =>
    simp only [Action.reads, Action.processes, Reader.afterRead, hr, Reader.inHand]
    by_cases hp : f.opcode = opServerPing
    · simp [hp, processed]
    · simp [hp, processed]
  | miss hr _ | hit hr _ => simp [Action.reads, Action.processes, hr, Reader.inHand, processed]
  | readError hr | pong _ hr | put hr | failAll hr => simp [Action.reads, Action.processes, hr, Reader.inHand, processed]
  | move _ _ hm => cases hm <;> simp [Action.reads, Action.processes, State.setCall, processed]
  | _ => simp [Action.reads, Action.processes, State.setCall, processed]

/-- The frames a call took are, in order, the first frames processed on its stream since it registered. -/
theorem taken_prefix {Γ : Ctx ε} {m : Nat} {tr : List Action} {s : State ε} (hr : (mux Γ m).Runs tr s) (hn : s.taken < 2 ^ 31)
    {c : Nat} {call : Call ε} (hc : s.calls[c]? = some call) (hv : call.args.verb.isOp = true) {fs : List Frame}
    {q : List Item} (hfs : dequeued c tr = fs.map Item.frame ++ q) :
    fs <+: onStream call.streamId (processed (since (Action.isRegister c) tr)) := by
  have hA := accounted_runs hr hn
  have hqueued := hA.queued c call hc hv
  rw [hfs, List.append_assoc] at hqueued
  have h1 : fs <+: delivered c tr := frames_prefix hqueued (frame_notMem_sentinel c tr _)
  have h2 : delivered c tr <+: onStream call.streamId (processed (window c tr)) := by
    rw [← hA.given c call hc hv]
    exact List.prefix_append _ _
  have h3 : processed (window c tr) <+: processed (since (Action.isRegister c) tr) :=
    (before_isPre _ _).filterMap _
  exact h1.trans (h2.trans (h3.filter _))

/-- In every run that takes fewer than `2 ^ 31` stream ids: the reader processes the inbound frames but the heartbeats in order; a
request that returns returns the frames processed on its stream since it registered, up to the first with the EOS flag, none of
them an ERROR frame; a request that raises a server error raises it for the first ERROR frame of its stream, no frame before it
having the EOS flag; and what each op call was given, with the frame the reader is about to give it, is exactly what was processed
on its stream while it was registered, so that no frame goes to a call of another stream, is lost while its route is live, or is
given twice. -/
theorem responses_demultiplexed (Γ : Ctx ε) (m : Nat) {tr : List Action} {s : State ε} (hr : (mux Γ m).Runs tr s)
    (hn : s.taken < 2 ^ 31) :
    (inbound tr).filter (fun f => f.opcode ≠ opServerPing) = processed tr ++ s.reader.inHand ∧
    ∀ (c : Nat) (call : Call ε), s.calls[c]? = some call → call.args.verb.isOp = true →
      (∀ fs, call.args.verb = .request → call.pc = .done (.returned fs) →
        IsResponse fs ∧ fs <+: onStream call.streamId (processed (since (Action.isRegister c) tr))) ∧
      (∀ r, call.args.verb = .request → call.pc = .done (.raised (.serverError r)) →
        ∃ pre f, Unfinished pre ∧ f.opcode = opError ∧ Γ.decodeErrorResponse f.payload = .ok r ∧
          pre ++ [f] <+: onStream call.streamId (processed (since (Action.isRegister c) tr))) ∧
      delivered c tr ++ pending c s.reader = onStream call.streamId (processed (window c tr)) ∧
      ∀ f ∈ delivered c tr, f.streamId = call.streamId := by
  refine ⟨inbound_processed hr, ?_⟩
  intro c call hc hv
  have hC := consumed_runs hr hn hc
  have hgiven := (accounted_runs hr hn).given c call hc hv
  refine ⟨?_, ?_, hgiven, ?_⟩
  · intro fs _ hpc
    simp only [Call.Consumed, hpc] at hC
    obtain ⟨hitems, hresp⟩ := hC
    exact ⟨hresp, taken_prefix hr hn hc hv (q := []) (by rw [hitems, List.append_nil])⟩
  · intro r _ hpc
    simp only [Call.Consumed, hpc] at hC
    obtain ⟨pre, hun, ⟨-, hlocal⟩ | ⟨f, hitems, hop, he⟩ | ⟨-, htrans⟩⟩ := hC
    · cases hlocal
    · refine ⟨pre, f, hun, hop, ?_, taken_prefix hr hn hc hv (q := []) (by simpa using hitems)⟩
      unfold errorOf at he
      split at he
      · rename_i r' hdec
        cases he
        exact hdec
      · cases he
    · cases htrans
  · intro f hf
    have hmem : f ∈ onStream call.streamId (processed (window c tr)) := by
      rw [← hgiven]
      exact List.mem_append_left _ hf
    exact of_decide_eq_true (List.mem_filter.1 hmem).2

/-- The answer to a request on stream 1. -/
def answer : Frame := ⟨0x0090, flagEos, 1, []⟩

/-- A request, a heartbeat, and the answer. -/
def oneRequest : List Action :=
  [.start ⟨.request, opPing, [], none⟩, .takeStreamId 0, .register 0, .write 0 none, .readFrame ⟨opServerPing, flagEos, 0, []⟩,
    .pong 0 none, .readFrame answer, .lookup answer, .put answer 0, .dequeue 0 (.frame answer), .deregister 0]

/-- The request returns the answer, which is what was processed on its stream. -/
theorem oneRequest_demultiplexed :
    ∃ s : State Unit, (mux Ctx.refusing maxPayloadBytes).Runs oneRequest s ∧ s.taken < 2 ^ 31 ∧
      IsResponse [answer] ∧ [answer] <+: onStream 1 (processed (since (Action.isRegister 0) oneRequest)) := by
  have hrun : ∃ (s : State Unit) (call : Call Unit), (mux Ctx.refusing maxPayloadBytes).Runs oneRequest s ∧ s.taken < 2 ^ 31 ∧
      s.calls[0]? = some call ∧ call.args.verb = .request ∧ call.streamId = 1 ∧ call.pc = .done (.returned [answer]) :=
    ⟨_, _, rfl, by decide, rfl, rfl, rfl, rfl⟩
  obtain ⟨s, call, hr, hn, hc, hv, hid, hpc⟩ := hrun
  have h := ((responses_demultiplexed Ctx.refusing maxPayloadBytes hr hn).2 0 call hc (by rw [hv]; rfl)).1 [answer] hv hpc
  rw [hid] at h
  exact ⟨s, hr, hn, h⟩

end BrainSdk.Python
