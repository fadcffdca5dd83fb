import BrainSdk.Python.Consumed

/-!
# No call of the Python mux waits for a connection that has failed

The failure of the connection puts one sentinel on the queue of each registered op call, after the frames routed to it, and refuses
every later registration. So no call waits on an empty queue after it, and a response that was complete before it is still
returned.
-/

namespace BrainSdk.Python

open Library Wire

variable {ε : Type}

/-! ### A response that has been routed is returned -/

/-- The response `resp` is on its way to a request: collected in part with the rest at the head of the queue, or returned. -/
def Call.Assured (resp : List Frame) (call : Call ε) : Prop :=
  (call.pc = .collecting ∧
    ∃ rest more, resp = call.frames ++ rest ∧ rest ≠ [] ∧ call.queue = rest.map Item.frame ++ more) ∨
  call.pc = .leaving (.returned resp) ∨ call.pc = .done (.returned resp)

/-- Taking the next frame of a response on its way. -/
theorem collect_assured (Γ : Ctx ε) {resp : List Frame} (hresp : IsResponse resp) {call : Call ε} {r : Frame} {rs : List Frame}
    {more : List Item} (hpc : call.pc = .collecting) (heq : resp = call.frames ++ r :: rs) :
    ({ call with queue := rs.map Item.frame ++ more }.collect Γ (.frame r)).Assured resp := by
  obtain ⟨ho, heos⟩ := hresp.at heq
  simp only [Call.collect, if_neg ho]
  cases rs with
  | nil =>
    rw [if_pos (heos.2 rfl)]
    exact .inr (.inl (by rw [heq]))
  | cons r' rs =>
    rw [if_neg (by simp [heos])]
    exact .inl ⟨hpc, r' :: rs, more, by simp [heq], by simp, rfl⟩

/-- A response on its way stays so, whatever step is taken. -/
theorem Change.assured {Γ : Ctx ε} {s : State ε} {d : Nat} {a : Action} {call call' : Call ε} {resp : List Frame}
    (hresp : IsResponse resp) (h : Change Γ s d a call call') (hA : call.Assured resp) : call'.Assured resp := by
  rcases hA with ⟨hpc, rest, more, heq, hne, hq⟩ | hpc | hpc
  · obtain ⟨r, rs, rfl⟩ := List.exists_cons_of_ne_nil hne
    cases h with
    | same _ _ _ => exact .inl ⟨hpc, r :: rs, more, heq, hne, hq⟩
    | move hm =>
      cases hm with
      | @collect i tail _ hq' =>
        rw [hq] at hq'
        simp only [List.map_cons, List.cons_append, List.cons.injEq] at hq'
        obtain ⟨rfl, rfl⟩ := hq'
        exact collect_assured Γ hresp hpc heq
      | requestTimeout _ hq' =>
        rw [hq] at hq'
        cases hq'
      | writeFailed h _ | written h | advance h _ | nextTimeout h _ | nextEnded h _ | next h _ | close h =>
        rw [hpc] at h
        cases h
    | put _ | fail _ _ => exact .inl ⟨hpc, r :: rs, _, heq, hne, by simp [Call.push, hq]; rfl⟩
    | leave hl =>
      cases hl with
      | leaving h | ending h | closing h =>
        rw [hpc] at h
        cases h
    | take h | refuse h _ | register h _ =>
      rw [hpc] at h
      cases h
  · exact .inr (h.of_leaving hpc)
  · exact .inr (.inr (h.of_done hpc))

/-- A request with an item on its queue can take it. -/
theorem dequeue_enabled (Γ : Ctx ε) {s : State ε} {c : Nat} {call : Call ε} {i : Item} {rest : List Item}
    (hc : s.calls[c]? = some call) (hpc : call.pc = .collecting) (hq : call.queue = i :: rest) :
    step Γ s (.dequeue c i) = some (s.setCall c ({ call with queue := rest }.collect Γ i)) := by
  simp [step, State.onCall, hc, Call.afterDequeue, hpc, hq]

/-- A request that leaves can deregister. -/
theorem deregister_enabled (Γ : Ctx ε) {s : State ε} {c : Nat} {call : Call ε} {o : Outcome}
    (hc : s.calls[c]? = some call) (hpc : call.pc = .leaving o) :
    step Γ s (.deregister c) = some { s.setCall c { call with registered := false, pc := .done o } with
      routes := s.routes.erase call.streamId } := by
  simp [step, State.onCall, hc, Call.afterDeregister, hpc]

/-- From a state with the response on its way, steps of the request alone bring it to return the response. -/
theorem assured_returns (Γ : Ctx ε) (m : Nat) {resp : List Frame} (hresp : IsResponse resp) {s : State ε} {c : Nat} {call : Call ε}
    (hc : s.calls[c]? = some call) (hA : call.Assured resp) :
    ∃ own s' call', (∀ a ∈ own, a.caller = some c) ∧ (mux Γ m).exec s own = some s' ∧ s'.calls[c]? = some call' ∧
      call'.pc = .done (.returned resp) := by
  have hleave : ∀ (s : State ε) (call : Call ε), s.calls[c]? = some call → call.pc = .leaving (.returned resp) →
      ∃ own s' call', (∀ a ∈ own, a.caller = some c) ∧ (mux Γ m).exec s own = some s' ∧ s'.calls[c]? = some call' ∧
        call'.pc = .done (.returned resp) := by
    intro s call hc hpc
    have hstep : (mux Γ m).step s (.deregister c) = _ := deregister_enabled Γ hc hpc
    refine ⟨[.deregister c], _, { call with registered := false, pc := .done (.returned resp) }, ?_,
      (Machine.exec_singleton s _).trans hstep, (getElem?_set_of_some hc _ _).trans (if_pos rfl), rfl⟩
    intro a ha
    rw [List.mem_singleton.1 ha]
    rfl
  rcases hA with ⟨hpc, rest, more, heq, hne, hq⟩ | hpc | hpc
  · -- by induction on the frames still to be taken
    induction rest generalizing s call with
    | nil => exact absurd rfl hne
    | cons r rs ih =>
      have hstep := dequeue_enabled Γ hc hpc hq
      have hc' := (getElem?_set_of_some hc ({ call with queue := rs.map Item.frame ++ more }.collect Γ (.frame r)) c).trans
        (if_pos rfl)
      have hgoal : ∃ own s' call', (∀ a ∈ own, a.caller = some c) ∧
          (mux Γ m).exec (s.setCall c ({ call with queue := rs.map Item.frame ++ more }.collect Γ (.frame r))) own = some s' ∧
          s'.calls[c]? = some call' ∧ call'.pc = .done (.returned resp) := by
        obtain ⟨ho, heos⟩ := hresp.at heq
        cases rs with
        | nil =>
          refine hleave _ _ hc' ?_
          simp only [Call.collect, if_neg ho, if_pos (heos.2 rfl), heq]
        | cons r' rs' =>
          have hcol : { call with queue := (r' :: rs').map Item.frame ++ more }.collect Γ (.frame r) =
              { call with queue := (r' :: rs').map Item.frame ++ more, frames := call.frames ++ [r] } := by
            simp only [Call.collect, if_neg ho, if_neg (show ¬r.isEos = true by simp [heos])]
          rw [hcol] at hc' ⊢
          exact ih hc' hpc (by simp [heq]) (by simp) rfl
      obtain ⟨own, s', call', hown, hexec, hc'', hdone⟩ := hgoal
      refine ⟨.dequeue c (.frame r) :: own, s', call', ?_, ?_, hc'', hdone⟩
      · intro a ha
        rcases List.mem_cons.1 ha with rfl | ha
        · rfl
        · exact hown a ha
      · rw [Machine.exec, show (mux Γ m).step s (.dequeue c (.frame r)) = _ from hstep]
        exact hexec
  · exact hleave s call hc hpc
  · refine ⟨[], s, call, ?_, rfl, hc, hpc⟩
    intro a ha
    cases ha

/-- A waiting request whose response has been routed has it on its way. -/
theorem assured_of_delivered {Γ : Ctx ε} {m : Nat} {tr : List Action} {s : State ε} (hr : (mux Γ m).Runs tr s)
    (hn : s.taken < 2 ^ 31) {c : Nat} {call : Call ε} (hc : s.calls[c]? = some call) (hv : call.args.verb.isOp = true)
    (hpc : call.pc = .collecting) {resp rest : List Frame} (hdel : delivered c tr = resp ++ rest) (hresp : IsResponse resp) :
    call.Assured resp := by
  have hqueued := (accounted_runs hr hn).queued c call hc hv
  have hC := consumed_runs hr hn hc
  simp only [Call.Consumed, hpc] at hC
  obtain ⟨hitems, hun⟩ := hC
  rw [hitems, hdel] at hqueued
  have hpre : call.frames <+: resp ++ rest := frames_prefix hqueued (frame_notMem_sentinel c tr _)
  rcases List.prefix_or_prefix_of_prefix hpre (List.prefix_append resp rest) with ⟨left, hleft⟩ | ⟨extra, hextra⟩
  · refine .inl ⟨hpc, left, rest.map Item.frame ++ sentinel c tr s.closedError, hleft.symm, ?_, ?_⟩
    · rintro rfl
      rw [List.append_nil] at hleft
      obtain ⟨pre, last, hlast, -, -, he⟩ := hresp
      have := (hun last (by rw [hleft, hlast]; simp)).2
      rw [he] at this
      cases this
    · rw [← hleft] at hqueued
      simpa using hqueued
  · obtain ⟨pre, last, hlast, -, -, he⟩ := hresp
    have := (hun last (by rw [← hextra, hlast]; simp)).2
    rw [he] at this
    cases this

/-- After the failure an op call that was registered when it happened has been given the frames routed to it, and one sentinel. -/
theorem given_after_failure {Γ : Ctx ε} {m : Nat} {tr : List Action} {s : State ε} (hr : (mux Γ m).Runs tr s)
    (hn : s.taken < 2 ^ 31) {e : Exc} (he : s.closedError = some e) {c : Nat} {call : Call ε} (hc : s.calls[c]? = some call)
    (hv : call.args.verb.isOp = true) (hmem : .failAll ∈ window c tr) :
    dequeued c tr ++ call.queue = (onStream call.streamId (processed (window c tr))).map .frame ++ [.closed e] := by
  have hA := accounted_runs hr hn
  have hstopped : s.reader = .stopped := (inv_runs hr).stopped.1 (by rw [he]; exact nofun)
  have hpending : pending c s.reader = [] := by rw [hstopped]; rfl
  have hgiven := hA.given c call hc hv
  rw [hpending, List.append_nil] at hgiven
  rw [hA.queued c call hc hv, hgiven, sentinel, if_pos hmem, he]
  rfl

/-- A call that waits is registered. -/
theorem registered_of_waiting {s : State ε} (hs : Inv s) {c : Nat} {call : Call ε} (hc : s.calls[c]? = some call)
    (hpc : call.pc = .collecting ∨ call.pc = .inNext) : call.registered = true := by
  have hplaced := (hs.ok c call hc).placed
  rcases hpc with hpc | hpc <;> simp only [Call.Placed, hpc] at hplaced
  · exact hplaced.1
  · exact hplaced.2.1

/-- A request whose response is on its way keeps it there, whatever the others do. -/
theorem assured_exec {Γ : Ctx ε} {m c : Nat} {resp : List Frame} (hresp : IsResponse resp) {tr : List Action} {s s' : State ε}
    {call : Call ε} (hs : Inv s) (hc : s.calls[c]? = some call) (hassured : call.Assured resp)
    (hexec : (mux Γ m).exec s tr = some s') : ∃ call', s'.calls[c]? = some call' ∧ call'.Assured resp := by
  have hkeep : ∀ s a s', ((∃ call, s.calls[c]? = some call ∧ call.Assured resp) ∧ Inv s) → (mux Γ m).step s a = some s' →
      (∃ call, s'.calls[c]? = some call ∧ call.Assured resp) ∧ Inv s' := by
    rintro s a s' ⟨⟨call, hc, hassured⟩, hs⟩ hst
    obtain ⟨call', hc', hch⟩ := (step_effect hst).call_after hs hc
    exact ⟨⟨call', hc', hch.assured hresp hassured⟩, hs.step hst⟩
  exact (Machine.exec_invariant hkeep ⟨⟨call, hc, hassured⟩, hs⟩ hexec).1

/-- After the failure of the connection, in a run that takes fewer than `2 ^ 31` stream ids: a call that comes to register raises the
stored error; an op call that was registered when it failed has been given, and has taken or still has on its queue, exactly the
frames routed to it and then one sentinel; every call still registered, and so every call that waits, is one of these, so its
queue is empty only when it has taken the sentinel, and a request that waits never has an empty queue; and a request that waits
with its complete response routed can only return that response, and does so in steps of its own, from every state that follows. -/
theorem no_stranded_waiter (Γ : Ctx ε) (m : Nat) {tr : List Action} {s : State ε} (hr : (mux Γ m).Runs tr s)
    (hn : s.taken < 2 ^ 31) {e : Exc} (he : s.closedError = some e) :
    (∀ c call, s.calls[c]? = some call → call.pc = .registering →
      step Γ s (.register c) = some (s.setCall c { call with pc := .done (.raised e) })) ∧
    ∀ (c : Nat) (call : Call ε), s.calls[c]? = some call → call.args.verb.isOp = true →
      (.failAll ∈ window c tr →
        dequeued c tr ++ call.queue = (onStream call.streamId (processed (window c tr))).map .frame ++ [.closed e]) ∧
      (call.registered = true → .failAll ∈ window c tr ∧ (call.queue = [] → .closed e ∈ dequeued c tr)) ∧
      (call.pc = .collecting ∨ call.pc = .inNext → call.registered = true) ∧ (call.pc = .collecting → call.queue ≠ []) ∧
      ∀ resp, call.pc = .collecting → resp <+: delivered c tr → IsResponse resp →
        ∀ tr' s', (mux Γ m).exec s tr' = some s' →
          (∃ call', s'.calls[c]? = some call' ∧ (call'.pc = .collecting ∨ call'.pc = .leaving (.returned resp) ∨
            call'.pc = .done (.returned resp))) ∧
          ∃ own s'' call'', (∀ a ∈ own, a.caller = some c) ∧ (mux Γ m).exec s' own = some s'' ∧
            s''.calls[c]? = some call'' ∧ call''.pc = .done (.returned resp) := by
  have hs := inv_runs hr
  constructor
  · intro c call hc hpc
    simp [step, State.onCall, hc, Call.afterRegister, hpc, he]
  · intro c call hc hv
    have hfull := given_after_failure hr hn he hc hv
    have hlive : call.registered = true → .failAll ∈ window c tr := by
      intro hreg
      exact (accounted_runs hr hn).within c call hc hreg (by rw [he]; simp)
    refine ⟨hfull, ?_, registered_of_waiting hs hc, ?_, ?_⟩
    · intro hreg
      refine ⟨hlive hreg, ?_⟩
      intro hq
      have hitems := hfull (hlive hreg)
      rw [hq, List.append_nil] at hitems
      rw [hitems]
      exact List.mem_append_right _ (List.mem_singleton.2 rfl)
    · intro hpc hq
      have hitems := hfull (hlive (registered_of_waiting hs hc (.inl hpc)))
      have hC := consumed_runs hr hn hc
      simp only [Call.Consumed, hpc] at hC
      rw [hq, List.append_nil, hC.1] at hitems
      have hmem : Item.closed e ∈ call.frames.map Item.frame := by
        rw [hitems]
        exact List.mem_append_right _ (List.mem_singleton.2 rfl)
      obtain ⟨f, -, hf⟩ := List.mem_map.1 hmem
      cases hf
    · intro resp hpc hdel hresp tr' s' hexec
      obtain ⟨rest, hrest⟩ := hdel
      have hassured := assured_of_delivered hr hn hc hv hpc hrest.symm hresp
      obtain ⟨call', hc', hassured'⟩ := assured_exec hresp hs hc hassured hexec
      refine ⟨⟨call', hc', ?_⟩, assured_returns Γ m hresp hc' hassured'⟩
      rcases hassured' with ⟨hpc', -⟩ | hpc' | hpc'
      · exact .inl hpc'
      · exact .inr (.inl hpc')
      · exact .inr (.inr hpc')

/-- The last frame a connection delivers. -/
def lastAnswer : Frame := ⟨opPong, flagEos, 1, []⟩

/-- A request whose answer is routed just before the peer closes the connection. -/
def answeredThenClosed : List Action :=
  [.start ⟨.request, opPing, [], none⟩, .takeStreamId 0, .register 0, .write 0 none, .readFrame lastAnswer, .lookup lastAnswer,
    .put lastAnswer 0, .readError (.closed "connection closed by peer"), .failAll]

/-- The request still returns its answer. -/
theorem answeredThenClosed_returns :
    ∃ (own : List Action) (s s' : State Unit) (call : Call Unit),
      (mux Ctx.refusing maxPayloadBytes).Runs answeredThenClosed s ∧ s.taken < 2 ^ 31 ∧
      s.closedError = some (.connectionClosed "connection closed by peer") ∧ (∀ a ∈ own, a.caller = some 0) ∧
      (mux Ctx.refusing maxPayloadBytes).exec s own = some s' ∧ s'.calls[0]? = some call ∧
      call.pc = .done (.returned [lastAnswer]) := by
  have hrun : ∃ (s : State Unit) (call : Call Unit), (mux Ctx.refusing maxPayloadBytes).Runs answeredThenClosed s ∧
      s.taken < 2 ^ 31 ∧ s.closedError = some (.connectionClosed "connection closed by peer") ∧ s.calls[0]? = some call ∧
      call.args.verb.isOp = true ∧ call.pc = .collecting :=
    ⟨_, _, rfl, by decide, rfl, rfl, rfl, rfl⟩
  obtain ⟨s, call, hr, hn, he, hc, hv, hpc⟩ := hrun
  have hresp : IsResponse [lastAnswer] := ⟨[], lastAnswer, rfl, unfinished_nil, by decide, by decide⟩
  have hcall := (no_stranded_waiter Ctx.refusing maxPayloadBytes hr hn he).2 0 call hc hv
  obtain ⟨-, own, s', call', hown, hexec, hc', hdone⟩ := hcall.2.2.2.2 [lastAnswer] hpc (by decide) hresp [] s rfl
  exact ⟨own, s, s', call', hr, hn, he, hown, hexec, hc', hdone⟩

end BrainSdk.Python
