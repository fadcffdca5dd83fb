import BrainSdk.Theorems.Chunking
import BrainSdk.Theorems.Pump
import BrainSdk.Theorems.Retryability

/-!
# What a malformed frame makes of the requests

The reader of each SDK ends at the first malformed frame of its stream, and every request it then reaches fails with what became of the
codec error on the way: in Python a close with its text, which is retryable; in Rust a protocol error with its text, and in TypeScript the
codec error itself, which are not.
-/

namespace BrainSdk

open Library Wire Transport

/-- A byte stream with a malformed frame. -/
def Malformed (inbound : Bytes) : Prop := isTruncated (decodeStream inbound).2 = false

/-- No two answers differ. -/
def Alike (python rust typeScript : Set Bool) : Prop := ∀ a ∈ python ∪ rust ∪ typeScript, ∀ b ∈ python ∪ rust ∪ typeScript, a = b

namespace Python

variable {ε : Type}

/-- What the reader took from the socket along a run. -/
def reads (tr : List Action) : List (Except ReadFailure Frame) :=
  tr.filterMap fun a =>
    match a with
    | .readFrame f => some (.ok f)
    | .readError e => some (.error e)
    | _ => none

/-- The reader has read the frames of the stream and its malformed frame. -/
def Met (inbound : Bytes) (tr : List Action) : Prop :=
  reads tr = (decodeStream inbound).1.map .ok ++ [.error (.frame (decodeStream inbound).2)]

/-- The steps in which request `c` is told that the reader has failed: it takes the sentinel, or it registers afterwards. -/
inductive Notified (c : Nat) (s : State ε) : Action → Prop
  | inFlight {call : Call ε} {e : Exc} (hc : s.calls[c]? = some call) (hpc : call.pc = .collecting) : Notified c s (.dequeue c (.closed e))
  | afterwards {e : Exc} (he : s.closedError = some e) : Notified c s (.register c)

/-- What `is_retryable` says of the errors of the requests that are told, in the run or later on the same connection. -/
def answers (Γ : Ctx ε) (m : Nat) (tr : List Action) : Set Bool :=
  {b | ∃ tr' s c call e, tr <+: tr' ∧ (mux Γ m).Runs tr' s ∧ (mux Γ m).Took (Notified c) tr' ∧ s.calls[c]? = some call ∧ call.Surfaces e ∧
    b = isRetryable e}

theorem Notified.transportFailure {c : Nat} {s : State ε} {a : Action} (h : Notified c s a) : TransportFailure c s a := by
  cases h with
  | inFlight hc hpc => exact .inFlight hc hpc
  | afterwards he => exact .afterwards he

/-- A call surfaces one exception. -/
theorem Call.Surfaces.unique {call : Call ε} {e e' : Exc} (h : call.Surfaces e) (h' : call.Surfaces e') : e = e' := by
  rcases h with h | h <;> rcases h' with h' | h'
  · cases h.symm.trans h'
    rfl
  · exact nomatch h.symm.trans h'
  · exact nomatch h.symm.trans h'
  · cases h.symm.trans h'
    rfl

theorem answers_retryable {Γ : Ctx ε} {m : Nat} {tr : List Action} : ∀ b ∈ answers Γ m tr, b = true := by
  rintro b ⟨tr', s, c, call, e, -, hr, ⟨tr₀, a, t, hp, ht, hnotified⟩, hc, hsurf, rfl⟩
  obtain ⟨call', e', hc', hsurf', hret, -⟩ := dropsRetried_runs hr c ⟨tr₀, a, t, hp, ht, hnotified.transportFailure⟩
  obtain rfl := Option.some.inj (hc.symm.trans hc')
  rw [hsurf.unique hsurf']
  exact hret

/-- A reader that has raised is about to fail the connection, or has. -/
theorem failing_of_readError {Γ : Ctx ε} {m : Nat} {tr : List Action} {s : State ε} (hr : (mux Γ m).Runs tr s) :
    (∃ e, .readError e ∈ tr) → (∃ e, s.reader = .failing e) ∨ s.closedError ≠ none := by
  refine Machine.Runs.rec_on (P := fun tr s => (∃ e, .readError e ∈ tr) → (∃ e, s.reader = .failing e) ∨ s.closedError ≠ none)
    ?_ ?_ hr
  · rintro ⟨e, he⟩
    cases he
  · rintro tr s a s' hrun ih hst ⟨e, he⟩
    have hstep : step Γ s a = some s' := hst
    have h := step_effect hstep
    rcases List.mem_append.1 he with he | he
    · rcases ih ⟨e, he⟩ with ⟨r, hfail⟩ | hclosed
      · cases h with
        | readFrame hread | readError hread | pong _ hread | miss hread _ | hit hread _ | put hread => exact nomatch hfail.symm.trans hread
        | failAll _ =>
          refine .inr ?_
          dsimp only
          cases s.closedError <;> exact nofun
        | _ => exact .inl ⟨r, hfail⟩
      · refine .inr ?_
        by_cases ha : a = .failAll
        · subst ha
          cases h with
          | failAll _ =>
            dsimp only
            cases s.closedError <;> exact nofun
          | move _ _ hm => cases hm
        · rw [h.closedError_kept ha]
          exact hclosed
    · obtain rfl := List.mem_singleton.1 he
      cases h with
      | readError _ => exact .inl ⟨_, rfl⟩
      | move _ _ hm => cases hm

/-- `_register` on a connection that has failed. -/
theorem step_register_refused {Γ : Ctx ε} {s : State ε} {c : Nat} {call : Call ε} {e : Exc} (hc : s.calls[c]? = some call)
    (hpc : call.pc = .registering) (he : s.closedError = some e) :
    step Γ s (.register c) = some (s.setCall c { call with pc := .done (.raised e) }) := by
  simp only [step, State.onCall, hc, Option.bind_some, Call.afterRegister, hpc, he, Option.map_some]

/-- A call made once the connection has failed is told so. -/
theorem later_notified {Γ : Ctx ε} {m : Nat} {tr : List Action} {s : State ε} {e : Exc} (hr : (mux Γ m).Runs tr s)
    (he : s.closedError = some e) :
    ∃ tr' s' c call, tr <+: tr' ∧ (mux Γ m).Runs tr' s' ∧ (mux Γ m).Took (Notified c) tr' ∧ s'.calls[c]? = some call ∧ call.Surfaces e := by
  have hstart : ∃ t call, (mux Γ m).step s (.start ⟨.requestOnConnection, opPing, [], none⟩) = some t ∧
      t.calls[s.calls.length]? = some call ∧ call.pc = .registering ∧ t.closedError = some e := by
    refine ⟨_, Call.begin ⟨.requestOnConnection, opPing, [], none⟩, rfl, ?_, rfl, he⟩
    exact (getElem?_concat _ _ _).trans (if_pos rfl)
  obtain ⟨t, call, hst, hget, hpc, ht⟩ := hstart
  have hrun := hr.snoc hst
  have hregister : (mux Γ m).step t (.register s.calls.length) = _ := step_register_refused (Γ := Γ) hget hpc ht
  refine ⟨_, _, s.calls.length, _, ?_, hrun.snoc hregister, (Machine.took_snoc hrun).2 (.inr (.afterwards ht)),
    getElem?_set_self_of_some hget _, .inr rfl⟩
  rw [List.append_assoc]
  exact List.prefix_append _ _

/-- On a connection that has met a malformed frame a later request is told so. -/
theorem true_mem_answers {Γ : Ctx ε} {m : Nat} {inbound : Bytes} {tr : List Action} {s : State ε} (hr : (mux Γ m).Runs tr s)
    (hmet : Met inbound tr) : true ∈ answers Γ m tr := by
  have hread : ∃ e, .readError e ∈ tr := by
    have hmem : (.error (.frame (decodeStream inbound).2) : Except ReadFailure Frame) ∈ reads tr := by
      rw [hmet]
      exact List.mem_append_right _ (List.mem_singleton.2 rfl)
    obtain ⟨a, ha, heq⟩ := List.mem_filterMap.1 hmem
    cases a with
    | readError e => exact ⟨e, ha⟩
    | _ => cases heq
  have hfailed : ∃ tr' t, tr <+: tr' ∧ (mux Γ m).Runs tr' t ∧ t.closedError ≠ none := by
    rcases failing_of_readError hr hread with ⟨e, hfail⟩ | hclosed
    · have hstep : ∃ t, (mux Γ m).step s .failAll = some t ∧ t.closedError ≠ none := by
        refine ⟨{ s with
          closedError := s.closedError.or (some e.error)
          calls := updateAll (Call.push (.closed e.error)) s.routes.tasks s.calls
          routes := ∅
          reader := .stopped }, ?_, ?_⟩
        · simp only [mux, step, hfail]
        · cases s.closedError <;> simp
      obtain ⟨t, hst, hclosed⟩ := hstep
      exact ⟨tr ++ [.failAll], t, List.prefix_append _ _, hr.snoc hst, hclosed⟩
    · exact ⟨tr, s, List.prefix_refl _, hr, hclosed⟩
  obtain ⟨tr', t, hpre, ht, hclosed⟩ := hfailed
  obtain ⟨e, he⟩ := Option.ne_none_iff_exists'.1 hclosed
  obtain ⟨tr'', u, c, call, hpre', hu, htook, hc, hsurf⟩ := later_notified ht he
  have hmem : isRetryable e ∈ answers Γ m tr := ⟨tr'', u, c, call, e, hpre.trans hpre', hu, htook, hc, hsurf, rfl⟩
  rw [answers_retryable _ hmem] at hmem
  exact hmem

end Python

namespace Rust

variable {ε υ : Type}

/-- What the reader took from the socket along a run. -/
def reads (tr : List Action) : List (Except ReadFailure Frame) :=
  tr.filterMap fun a =>
    match a with
    | .readFrame f _ => some (.ok f)
    | .readError e => some (.error e)
    | _ => none

/-- The reader has read the frames of the stream and its malformed frame. -/
def Met (inbound : Bytes) (tr : List Action) : Prop :=
  reads tr = (decodeStream inbound).1.map .ok ++ [.error (.frame (decodeStream inbound).2)]

/-- The steps in which request `c` is told that the reader has failed: it asks `closed_error`, or it registers afterwards. -/
inductive Notified (c : Nat) (s : State ε υ) : Action → Prop
  | inFlight {reason : String} (hcl : s.closed = some reason) : Notified c s (.closedError c)
  | afterwards {reason : String} (hcl : s.closed = some reason) : Notified c s (.register c)

/-- What `is_retryable` says of the errors of the requests that are told, in the run or later on the same connection. -/
def answers (Γ : Ctx ε υ) (m : Nat) (tr : List Action) : Set Bool :=
  {b | ∃ tr' s c task e, tr <+: tr' ∧ (mux Γ m).Runs tr' s ∧ (mux Γ m).Took (Notified c) tr' ∧ s.tasks[c]? = some task ∧ task.Surfaces e ∧
    b = e.isRetryable}

/-- A call surfaces one error. -/
theorem Task.Surfaces.unique {task : Task ε υ} {e e' : BrainError} (h : task.Surfaces e) (h' : task.Surfaces e') : e = e' := by
  rcases h with h | h <;> rcases h' with h' | h'
  · cases h.symm.trans h'
    rfl
  · exact nomatch h.symm.trans h'
  · exact nomatch h.symm.trans h'
  · cases h.symm.trans h'
    rfl

/-- A request that is told returns a protocol error. -/
theorem notified_surfaces {Γ : Ctx ε υ} {m : Nat} {tr : List Action} {s : State ε υ} {c : Nat} (hr : (mux Γ m).Runs tr s)
    (htook : (mux Γ m).Took (Notified c) tr) : ∃ task text, s.tasks[c]? = some task ∧ task.Surfaces (.protocol text) := by
  refine Machine.Runs.of_took (C := fun _ _ => True)
    (Q := fun s : State ε υ => ∃ task text, s.tasks[c]? = some task ∧ task.Surfaces (.protocol text)) ?_ ?_ hr
    (Machine.meets_of_mem (fun _ _ _ => trivial)) htook
  · intro tr s a s' _ _ hnotified hst
    have hstep : step Γ s a = some s' := hst
    cases hnotified with
    | inFlight hcl =>
      obtain ⟨task, text, hc, hpc⟩ := closed_surfaces (.inr rfl) hcl hstep
      exact ⟨task, text, hc, .inr hpc⟩
    | afterwards hcl =>
      obtain ⟨task, text, hc, hpc⟩ := closed_surfaces (.inl rfl) hcl hstep
      exact ⟨task, text, hc, .inr hpc⟩
  · rintro tr s a s' hrun ⟨task, text, hc, hsurf⟩ hst
    obtain ⟨task', hc', hch⟩ := (step_effect hst).task_after hc
    exact ⟨task', text, hc', hch.surfaces hsurf⟩

theorem answers_not_retryable {Γ : Ctx ε υ} {m : Nat} {tr : List Action} : ∀ b ∈ answers Γ m tr, b = false := by
  rintro b ⟨tr', s, c, task, e, -, hr, htook, hc, hsurf, rfl⟩
  obtain ⟨task', text, hc', hsurf'⟩ := notified_surfaces hr htook
  obtain rfl := Option.some.inj (hc.symm.trans hc')
  rw [hsurf.unique hsurf']
  rfl

/-- A connection whose reader has read a malformed frame has failed. -/
theorem closed_of_readError {Γ : Ctx ε υ} {m : Nat} {tr : List Action} {s : State ε υ} (hr : (mux Γ m).Runs tr s) :
    (∃ e, .readError e ∈ tr) → s.closed ≠ none := by
  refine Machine.Runs.rec_on (P := fun tr s => (∃ e, .readError e ∈ tr) → s.closed ≠ none) (fun ⟨e, he⟩ => by cases he) ?_ hr
  rintro tr s a s' hrun ih hst ⟨e, he⟩ hopen
  have h := step_effect (show step Γ s a = some s' from hst)
  rcases List.mem_append.1 he with he | he
  · refine ih ⟨e, he⟩ ?_
    rcases h.lifecycle with ⟨hcl, -⟩ | ⟨e', -, -, rfl⟩ | ⟨-, -, -, rfl⟩ | ⟨-, -, -, rfl⟩
    · exact hcl.symm.trans hopen
    · cases hopen
    · exact hopen
    · exact hopen
  · obtain rfl := List.mem_singleton.1 he
    cases h with
    | readError _ => cases hopen
    | move _ hm => cases hm

/-- On an open handle whose connection has met a malformed frame a later request is told so. -/
theorem false_mem_answers {Γ : Ctx ε υ} {m : Nat} {inbound : Bytes} {tr : List Action} {s : State ε υ} (hr : (mux Γ m).Runs tr s)
    (hmet : Met inbound tr) (hcon : s.connected = true) : false ∈ answers Γ m tr := by
  have hread : ∃ e, .readError e ∈ tr := by
    have hmem : (.error (.frame (decodeStream inbound).2) : Except ReadFailure Frame) ∈ reads tr := by
      rw [hmet]
      exact List.mem_append_right _ (List.mem_singleton.2 rfl)
    obtain ⟨a, ha, heq⟩ := List.mem_filterMap.1 hmem
    cases a with
    | readError e => exact ⟨e, ha⟩
    | _ => cases heq
  obtain ⟨reason, hcl⟩ := Option.ne_none_iff_exists'.1 (closed_of_readError hr hread)
  have hstart : ∃ t task, (mux Γ m).step s (.start ⟨.requestOnConnection, UInt16.ofNat opPing, [], none⟩) = some t ∧
      t.tasks[s.tasks.length]? = some task ∧ task.pc = .registering ∧ t.closed = some reason := by
    refine ⟨_, Task.begin ⟨.requestOnConnection, UInt16.ofNat opPing, [], none⟩, if_pos ⟨hcon, rfl⟩, ?_, rfl, hcl⟩
    exact (getElem?_concat _ _ _).trans (if_pos rfl)
  obtain ⟨t, task, hst, hget, hpc, ht⟩ := hstart
  have hstep : (mux Γ m).step t (.register s.tasks.length) =
      some (t.setTask s.tasks.length { task with pc := .done (.failed (.protocol s!"connection closed: {reason}")) }) := by
    simp only [mux, step, State.onTask, hget, Option.bind_some, Task.afterRegister, hpc, ht, Option.map_some]
  obtain ⟨task', text, hc, hdone⟩ := closed_surfaces (.inl rfl) ht (show step Γ t _ = some _ from hstep)
  refine ⟨_, _, s.tasks.length, task', _, ?_, (hr.snoc hst).snoc hstep, (Machine.took_snoc (hr.snoc hst)).2 (.inr (.afterwards ht)),
    hc, .inr hdone, rfl⟩
  rw [List.append_assoc]
  exact List.prefix_append _ _

end Rust

namespace TypeScript

variable {ε υ : Type}

/-- The pump has received the stream, and nothing else has happened to the socket. -/
def Met (inbound : Bytes) (tr : List Action) : Prop :=
  received tr = inbound ∧ (∀ message, .socketError message ∉ tr) ∧ .socketClose ∉ tr

/-- The connection after the pump has handled the whole frames of what it has and a chunk, unless one makes it throw. -/
def State.handled (Γ : Ctx ε υ) (s : State ε υ) (chunk : Bytes) (now : Nat) : Except Thrown (State ε υ) :=
  (pumpDecoder.decodeAll (s.buf ++ chunk)).1.foldlM (State.handle Γ now) { s with buf := s.buf ++ chunk }

/-- The steps in which request `c` is told that the pump has met a malformed frame: it waits when the pump meets it, it comes to wait on
a sink that the failure has reached, or it is made afterwards. -/
inductive Notified (Γ : Ctx ε υ) (c : Nat) (s : State ε υ) : Action → Prop
  | inFlight {chunk : Bytes} {now : Nat} {k : FrameErrorKind} {s₁ : State ε υ} {call : Call ε υ}
      (hbad : (pumpDecoder.decodeAll (s.buf ++ chunk)).2 = some k) (hs₁ : s.handled Γ chunk now = .ok s₁) (hc : s₁.calls[c]? = some call)
      (hv : call.args.verb.sends = true) (hpc : call.pc = .awaiting) (hr : c ∈ s.routes.tasks) : Notified Γ c s (.data chunk now)
  | thenWaits {call : Call ε υ} {e : FrameError} (hc : s.calls[c]? = some call) (hv : call.args.verb.sends = true)
      (hgo : (call.pc = .written ∧ call.args.verb ≠ .subscribe) ∨ ∃ f, call.pc = .got f ∧ f.opcode ≠ opError ∧ f.isEos = false)
      (hq : call.sink.frames = []) (hf : call.sink.failure = some (.frameError e)) : Notified Γ c s (.resume c)
  | afterwards {args : Args} {e : FrameError} (hv : args.verb.sends = true) (hc : c = s.calls.length)
      (hf : s.closedError = some (.frameError e)) : Notified Γ c s (.call args)

/-- What `isRetryable` says of the errors of the requests that are told, in the run or later on the same connection. -/
def answers (Γ : Ctx ε υ) (m : Nat) (tr : List Action) : Set Bool :=
  {b | ∃ tr' s c call e, tr <+: tr' ∧ (mux Γ m).Runs tr' s ∧ (mux Γ m).Took (Notified Γ c) tr' ∧ s.calls[c]? = some call ∧ call.Surfaces e ∧
    b = isRetryable e}

/-- A call surfaces one error. -/
theorem Call.Surfaces.unique {call : Call ε υ} {e e' : Thrown} (h : call.Surfaces e) (h' : call.Surfaces e') : e = e' := by
  rcases h with h | h <;> rcases h' with h' | h'
  · cases h.symm.trans h'
    rfl
  · exact nomatch h.symm.trans h'
  · exact nomatch h.symm.trans h'
  · cases h.symm.trans h'
    rfl

theorem foldlM_handle_same {Γ : Ctx ε υ} {now : Nat} {fs : List Frame} {s s' : State ε υ} (h : fs.foldlM (State.handle Γ now) s = .ok s') :
    s'.routes = s.routes ∧ (Waits s.calls → Waits s'.calls) := by
  induction fs generalizing s with
  | nil =>
    cases h
    exact ⟨rfl, id⟩
  | cons f fs ih =>
    rw [List.foldlM_cons] at h
    rcases hh : s.handle Γ now f with e | s₁
    · rw [hh] at h
      cases h
    · rw [hh] at h
      obtain ⟨hroutes, hwaits⟩ := ih h
      exact ⟨hroutes.trans (unmoved_of_handle hh).routes, fun hw => hwaits ((kept_handle hh).waits hw)⟩

/-- A drain that meets a malformed frame handles the frames before it and fails the connection with the codec error. -/
theorem Drains.eq_failAll {Γ : Ctx ε υ} {now : Nat} {bytes : Bytes} {s s' s₁ : State ε υ} {log : List (Frame × Deed)}
    (h : Drains Γ now bytes s log s') {k : FrameErrorKind} (hend : (pumpDecoder.decodeAll bytes).2 = some k)
    (hs₁ : (pumpDecoder.decodeAll bytes).1.foldlM (State.handle Γ now) s = .ok s₁) : ∃ e, s' = s₁.failAll (.frameError e) := by
  induction h with
  | short hdecode =>
    rw [pumpDecoder.decodeAll_short hdecode] at hend
    cases hend
  | bad hdecode e =>
    rw [pumpDecoder.decodeAll_bad hdecode] at hs₁
    cases hs₁
    exact ⟨e, rfl⟩
  | threw hdecode hhandle =>
    rw [pumpDecoder.decodeAll_item hdecode, List.foldlM_cons, hhandle] at hs₁
    cases hs₁
  | item hdecode hhandle hrest ih =>
    rw [pumpDecoder.decodeAll_item hdecode] at hend
    rw [pumpDecoder.decodeAll_item hdecode, List.foldlM_cons, hhandle] at hs₁
    exact ih hend hs₁

/-- A step in which a request is told gives it the codec error. -/
theorem Notified.surfaces {Γ : Ctx ε υ} {s s' : State ε υ} {c : Nat} {a : Action} (hs : Inv s) (h : Notified Γ c s a)
    (hst : step Γ s a = some s') : ∃ call e, s'.calls[c]? = some call ∧ call.args.verb.sends = true ∧ call.Surfaces (.frameError e) := by
  have hlater := step_later hst
  have hsends : ∀ {call call' : Call ε υ}, s.calls[c]? = some call → call.args.verb.sends = true →
      s'.calls[c]? = some call' → call'.args.verb.sends = true := by
    intro call call' hc hv hc'
    obtain ⟨x, hx, hl⟩ := hlater c call hc
    obtain rfl := Option.some.inj (hx.symm.trans hc')
    rw [hl.args]
    exact hv
  rcases h with @⟨chunk, now, k, s₁, call, hbad, hs₁, hc, hv, hpc, hr⟩ | @⟨call, e, hc, hv, hgo, hq, hf⟩ | @⟨args, e, hv, hc, hf⟩
  · simp only [step] at hst
    split at hst
    · cases hst
    · cases hst
      obtain ⟨e, he⟩ := (drains_onData Γ s chunk now).eq_failAll hbad hs₁
      obtain ⟨hroutes, hwaits⟩ := foldlM_handle_same hs₁
      have hmem : c ∈ s₁.routes.tasks := by
        rw [hroutes]
        exact hr
      obtain ⟨call', hc', hsurf⟩ := failSinks_waiting (e := .frameError e) _ (hwaits hs.waits) hc hv (.inl ⟨hpc, hmem⟩)
      rw [he]
      refine ⟨call', e, hc', ?_, hsurf⟩
      obtain ⟨x, hx, hl⟩ := (kept_failAll s₁ (.frameError e)).calls c call hc
      obtain rfl := Option.some.inj (hx.symm.trans hc')
      rw [hl.args]
      exact hv
  · rw [step, hc, Option.bind_some] at hst
    obtain ⟨call', hc', hsurf⟩ := resume_failed hc hv hgo hq hf hst
    exact ⟨call', e, hc', hsends hc hv hc', hsurf⟩
  · obtain ⟨args', hv', rfl⟩ := step_call_sends hst hv
    refine ⟨_, e, by rw [send_refused hf, getElem?_concat, if_pos hc], ?_, .inr rfl⟩
    rw [← hv'] at hv
    exact hv

theorem answers_not_retryable {Γ : Ctx ε υ} {m : Nat} {tr : List Action} : ∀ b ∈ answers Γ m tr, b = false := by
  rintro b ⟨tr', s, c, call, e, -, hr, htook, hc, hsurf, rfl⟩
  obtain ⟨call', e', hc', -, hsurf'⟩ := Machine.Runs.of_took (C := fun _ _ => True)
    (Q := fun s : State ε υ => ∃ call e, s.calls[c]? = some call ∧ call.args.verb.sends = true ∧ call.Surfaces (.frameError e))
    (fun tr s a s' hrun _ hnotified hst => Notified.surfaces (Γ := Γ) (inv_runs hrun) hnotified hst)
    (by
      rintro tr s a s' hrun ⟨call, e, hc, hv, hsurf⟩ hst
      obtain ⟨call', hc', hl⟩ := step_later (Γ := Γ) hst c call hc
      exact ⟨call', e, hc', by rw [hl.args]; exact hv, hl.surfaces hv _ hsurf⟩)
    hr (Machine.meets_of_mem (fun _ _ _ => trivial)) htook
  obtain rfl := Option.some.inj (hc.symm.trans hc')
  rw [hsurf.unique hsurf']
  rfl

/-- What a drain that has not thrown makes of the stored error: it keeps one, and stores none but that of a malformed frame. -/
theorem Drains.closedError {Γ : Ctx ε υ} {now : Nat} {bytes : Bytes} {s s' : State ε υ} {log : List (Frame × Deed)}
    (h : Drains Γ now bytes s log s') (hno : ∀ d ∈ log, d.2 ≠ .threw) :
    (∀ e, s.closedError = some e → s'.closedError = some e) ∧
      (s.closedError = none → (pumpDecoder.decodeAll bytes).2 ≠ none → ∃ e, s'.closedError = some (.frameError e)) := by
  induction h with
  | short hdecode =>
    refine ⟨fun _ he => he, fun _ hend => ?_⟩
    rw [pumpDecoder.decodeAll_short hdecode] at hend
    exact absurd rfl hend
  | bad hdecode e =>
    refine ⟨fun e' he => ?_, fun hopen _ => ⟨e, ?_⟩⟩
    · simp only [State.failAll, he, Option.some_or]
    · simp only [State.failAll, hopen, Option.none_or]
  | threw hdecode hhandle => exact absurd (handle_error hhandle) (hno _ List.mem_cons_self)
  | item hdecode hhandle hrest ih =>
    obtain ⟨hkeep, hfail⟩ := ih (fun d hd => hno d (List.mem_cons_of_mem _ hd))
    rw [(unmoved_of_handle hhandle).closedError] at hkeep hfail
    rw [pumpDecoder.decodeAll_item hdecode]
    exact ⟨hkeep, hfail⟩

/-- Where nothing else happens to the socket and the pump does not throw, the connection is open and has what the whole frames left, or it
has failed with a codec error. -/
theorem open_or_frameError {Γ : Ctx ε υ} {m : Nat} {tr : List Action} {s : State ε υ} (hr : (mux Γ m).Runs tr s) :
    s.uncaught = none → (∀ message, .socketError message ∉ tr) → .socketClose ∉ tr →
      (s.closedError = none ∧ pumpDecoder.Splits (received tr) (framesReceived tr) s.buf ∧ pumpDecoder.decode s.buf = .short) ∨
      ∃ e, s.closedError = some (.frameError e) := by
  refine Machine.Runs.rec_on (P := fun tr s => s.uncaught = none → (∀ message, .socketError message ∉ tr) → .socketClose ∉ tr →
      (s.closedError = none ∧ pumpDecoder.Splits (received tr) (framesReceived tr) s.buf ∧ pumpDecoder.decode s.buf = .short) ∨
      ∃ e, s.closedError = some (.frameError e)) ?_ ?_ hr
  · intro _ _ _
    have hshort : pumpDecoder.decode [] = .short := rfl
    have hframes : framesReceived [] = [] := congrArg Prod.fst (pumpDecoder.decodeAll_short hshort)
    refine .inl ⟨rfl, ?_, hshort⟩
    rw [hframes]
    exact .nil
  · intro tr s a s' hrun ih hst huncaught herror hclose
    have hstep : step Γ s a = some s' := hst
    have hbefore := fun hu => ih hu (fun message hm => herror message (List.mem_append_left _ hm))
      (fun hm => hclose (List.mem_append_left _ hm))
    have hlast : a ∈ tr ++ [a] := List.mem_append_right _ (List.mem_singleton.2 rfl)
    cases hsocket : a.isSocket with
    | false =>
      have haside := step_aside hstep hsocket
      have hbytes : received (tr ++ [a]) = received tr := by
        rw [received_snoc]
        cases a with
        | data _ _ => cases hsocket
        | _ => exact List.append_nil _
      rw [framesReceived, hbytes, haside.buf, haside.closedError]
      exact hbefore (haside.uncaught.symm.trans huncaught)
    | true =>
      cases a with
      | socketError message => exact absurd hlast (herror message)
      | socketClose => exact absurd hlast hclose
      | data chunk now =>
        obtain rfl : s' = s.onData Γ chunk now := by
          simp only [step] at hstep
          split at hstep
          · cases hstep
          · exact (Option.some.inj hstep).symm
        have hdrains := drains_onData Γ s chunk now
        obtain ⟨hu, hno⟩ := hdrains.uncaught.1 huncaught
        obtain ⟨hkeep, hfail⟩ := hdrains.closedError hno
        rcases hbefore hu with ⟨hopen, hsplits, -⟩ | ⟨e, he⟩
        · rcases hend : (pumpDecoder.decodeAll (s.buf ++ chunk)).2 with - | k
          · obtain ⟨hrest, hshort, hclosed⟩ := hdrains.of_whole hno hend
            have hframes : framesReceived (tr ++ [.data chunk now]) =
                framesReceived tr ++ (pumpDecoder.decodeAll (s.buf ++ chunk)).1 := by
              rw [framesReceived, received_snoc]
              exact congrArg Prod.fst (hsplits.decodeAll_append chunk)
            refine .inl ⟨hclosed.trans hopen, ?_, hshort⟩
            rw [received_snoc, hframes]
            exact (hsplits.extend chunk).trans hrest
          · exact .inr (hfail hopen (by rw [hend]; exact Option.some_ne_none k))
        · exact .inr ⟨e, hkeep _ he⟩
      | _ => cases hsocket

/-- The pump finds a frame malformed where `decode_frame` does. -/
theorem decodeAll_of_malformed {inbound : Bytes} (h : Malformed inbound) : (pumpDecoder.decodeAll inbound).2 ≠ none := by
  have hall := decodeAll_eq_decodeStream inbound
  unfold Malformed at h
  rw [h] at hall
  suffices hsame : ∀ buf : Bytes, (frameDecoder.decodeAll buf).2 ≠ none → (pumpDecoder.decodeAll buf).2 ≠ none by
    refine hsame inbound ?_
    rw [hall]
    exact nofun
  intro buf
  induction hn : buf.length using Nat.strong_induction_on generalizing buf with
  | _ n ih =>
    intro hbad
    rcases hv : frameDecoder.decode buf with ⟨f, rest⟩ | - | e
    · have hlt := frameDecoder.shrinks hv
      rw [frameDecoder.decodeAll_item hv] at hbad
      rw [pumpDecoder.decodeAll_item (pumpVerdict_item.2 hv)]
      exact ih rest.length (hn ▸ hlt) rest rfl hbad
    · rw [frameDecoder.decodeAll_short hv] at hbad
      exact absurd rfl hbad
    · rw [pumpDecoder.decodeAll_bad (pumpVerdict_bad.2 ⟨e, hv, rfl⟩)]
      exact nofun

/-- A connection whose pump has come to a malformed frame has failed with a codec error. -/
theorem frameError_of_met {Γ : Ctx ε υ} {m : Nat} {inbound : Bytes} {tr : List Action} {s : State ε υ} (hbad : Malformed inbound)
    (hr : (mux Γ m).Runs tr s) (hmet : Met inbound tr) (huncaught : s.uncaught = none) :
    ∃ e, s.closedError = some (.frameError e) := by
  obtain ⟨rfl, herror, hclose⟩ := hmet
  rcases open_or_frameError hr huncaught herror hclose with ⟨-, hsplits, hshort⟩ | hfailed
  · have hdecode := hsplits.decodeAll_append []
    rw [List.append_nil, List.append_nil, pumpDecoder.decodeAll_short hshort] at hdecode
    exact absurd (congrArg Prod.snd hdecode) (decodeAll_of_malformed hbad)
  · exact hfailed

/-- On a connection that has met a malformed frame a later request is told so. -/
theorem false_mem_answers {Γ : Ctx ε υ} {m : Nat} {inbound : Bytes} {tr : List Action} {s : State ε υ} (hbad : Malformed inbound)
    (hr : (mux Γ m).Runs tr s) (hmet : Met inbound tr) (huncaught : s.uncaught = none) : false ∈ answers Γ m tr := by
  obtain ⟨e, he⟩ := frameError_of_met hbad hr hmet huncaught
  have hst : (mux Γ m).step s (.call ⟨.requestOnConnection, opPing, [], none⟩) =
      some (s.send ⟨.requestOnConnection, opPing, [], none⟩) := rfl
  have hcall : (s.send ⟨.requestOnConnection, opPing, [], none⟩).calls[s.calls.length]? =
      some (Call.begin ⟨.requestOnConnection, opPing, [], none⟩ handshakeStreamId s.taken (.done (.rejected (.frameError e)))) := by
    rw [send_refused he]
    exact (getElem?_concat _ _ _).trans (if_pos rfl)
  exact ⟨_, _, s.calls.length, _, .frameError e, List.prefix_append _ _, hr.snoc hst,
    (Machine.took_snoc hr).2 (.inr (.afterwards rfl rfl he)), hcall, .inr rfl, rfl⟩

end TypeScript

/-- Python answers that a request which a malformed frame ended is retryable, and one of the others that it is not. -/
theorem not_alike {ε υ : Type} {m : Nat} {python : Python.Ctx ε} {rust : Rust.Ctx ε υ} {typeScript : TypeScript.Ctx ε υ}
    {trP : List Python.Action} {trR : List Rust.Action} {trT : List TypeScript.Action} (hyes : true ∈ Python.answers python m trP)
    (hno : false ∈ Rust.answers rust m trR ∨ false ∈ TypeScript.answers typeScript m trT) :
    ¬Alike (Python.answers python m trP) (Rust.answers rust m trR) (TypeScript.answers typeScript m trT) := by
  intro h
  rcases hno with hno | hno
  · cases h true (.inl (.inl hyes)) false (.inl (.inr hno))
  · cases h true (.inl (.inl hyes)) false (.inr hno)

/-- A stream that begins with 32 zero bytes. -/
def zeros : Bytes := List.replicate 32 0

theorem decodeStream_zeros : decodeStream zeros = ([], .badMagic) := decodeStream_error (by decide)

theorem malformed_zeros : Malformed zeros := by
  unfold Malformed
  rw [decodeStream_zeros]
  rfl

theorem python_met_zeros : Python.Met zeros [.readError (.frame .badMagic)] := by
  unfold Python.Met
  rw [decodeStream_zeros]
  rfl

theorem rust_met_zeros : Rust.Met zeros [.readError (.frame .badMagic)] := by
  unfold Rust.Met
  rw [decodeStream_zeros]
  rfl

theorem typeScript_met_zeros : TypeScript.Met zeros [.data zeros 0] := ⟨rfl, by simp, by simp⟩

/-- The pump does not throw on 32 zero bytes. -/
theorem typeScript_runs_zeros :
    ∃ s, (TypeScript.mux TypeScript.Ctx.refusing maxPayloadBytes).Runs [.data zeros 0] s ∧ s.uncaught = none := ⟨_, rfl, rfl⟩

/-- 32 zero bytes end the three connections unalike. -/
theorem zeros_unalike :
    ¬∀ (inbound : Bytes) (trP : List Python.Action) (trR : List Rust.Action) (trT : List TypeScript.Action) (sP : Python.State Unit)
      (sR : Rust.State Unit Unit) (sT : TypeScript.State Unit Unit), Malformed inbound →
      (Python.mux Python.Ctx.refusing maxPayloadBytes).Runs trP sP → (Rust.mux Rust.Ctx.refusing maxPayloadBytes).Runs trR sR →
      (TypeScript.mux TypeScript.Ctx.refusing maxPayloadBytes).Runs trT sT →
      Python.Met inbound trP → Rust.Met inbound trR → TypeScript.Met inbound trT →
      Alike (Python.answers Python.Ctx.refusing maxPayloadBytes trP) (Rust.answers Rust.Ctx.refusing maxPayloadBytes trR)
        (TypeScript.answers TypeScript.Ctx.refusing maxPayloadBytes trT) := by
  intro h
  obtain ⟨sP, hP⟩ : ∃ s, (Python.mux Python.Ctx.refusing maxPayloadBytes).Runs [.readError (.frame .badMagic)] s := ⟨_, rfl⟩
  obtain ⟨sR, hR⟩ : ∃ s, (Rust.mux Rust.Ctx.refusing maxPayloadBytes).Runs [.readError (.frame .badMagic)] s := ⟨_, rfl⟩
  obtain ⟨sT, hT, huncaught⟩ := typeScript_runs_zeros
  exact not_alike (Python.true_mem_answers hP python_met_zeros)
    (.inr (TypeScript.false_mem_answers malformed_zeros hT typeScript_met_zeros huncaught))
    (h zeros _ _ _ _ _ _ malformed_zeros hP hR hT python_met_zeros rust_met_zeros typeScript_met_zeros)

/-- Whatever the stream, its malformed frame and the requests it finds pending: every request it ends, and every later one, is retryable
in Python and is not in Rust and in TypeScript. There always is one in Python, in Rust unless the connection has been dropped, and in
TypeScript unless the pump has thrown on its way to the malformed frame; so the answers are never alike. -/
theorem malformed_frame_never_alike {ε υ : Type} (m : Nat) (inbound : Bytes) (hbad : Malformed inbound) (python : Python.Ctx ε)
    (rust : Rust.Ctx ε υ) (typeScript : TypeScript.Ctx ε υ) (trP : List Python.Action) (trR : List Rust.Action)
    (trT : List TypeScript.Action) (sP : Python.State ε) (sR : Rust.State ε υ) (sT : TypeScript.State ε υ)
    (hP : (Python.mux python m).Runs trP sP) (hR : (Rust.mux rust m).Runs trR sR) (hT : (TypeScript.mux typeScript m).Runs trT sT)
    (metP : Python.Met inbound trP) (metR : Rust.Met inbound trR) (metT : TypeScript.Met inbound trT) :
    (∀ b ∈ Python.answers python m trP, b = true) ∧ (∀ b ∈ Rust.answers rust m trR, b = false) ∧
      (∀ b ∈ TypeScript.answers typeScript m trT, b = false) ∧ true ∈ Python.answers python m trP ∧
      (sR.connected = true → false ∈ Rust.answers rust m trR) ∧ (sT.uncaught = none → false ∈ TypeScript.answers typeScript m trT) ∧
      (sR.connected = true ∨ sT.uncaught = none →
        ¬Alike (Python.answers python m trP) (Rust.answers rust m trR) (TypeScript.answers typeScript m trT)) := by
  have hyes : true ∈ Python.answers python m trP := Python.true_mem_answers hP metP
  have hnoR : sR.connected = true → false ∈ Rust.answers rust m trR := Rust.false_mem_answers hR metR
  have hnoT : sT.uncaught = none → false ∈ TypeScript.answers typeScript m trT := TypeScript.false_mem_answers hbad hT metT
  refine ⟨Python.answers_retryable, Rust.answers_not_retryable, TypeScript.answers_not_retryable, hyes, hnoR, hnoT, fun hno => ?_⟩
  exact not_alike hyes (hno.imp hnoR hnoT)

/-- The runs in which the three readers meet 32 zero bytes. -/
theorem malformed_frame_never_alike_zeros :
    ¬Alike (Python.answers Python.Ctx.refusing maxPayloadBytes [.readError (.frame .badMagic)])
      (Rust.answers Rust.Ctx.refusing maxPayloadBytes [.readError (.frame .badMagic)])
      (TypeScript.answers TypeScript.Ctx.refusing maxPayloadBytes [.data zeros 0]) := by
  obtain ⟨sP, hP⟩ : ∃ s, (Python.mux Python.Ctx.refusing maxPayloadBytes).Runs [.readError (.frame .badMagic)] s := ⟨_, rfl⟩
  obtain ⟨sR, hR⟩ : ∃ s, (Rust.mux Rust.Ctx.refusing maxPayloadBytes).Runs [.readError (.frame .badMagic)] s := ⟨_, rfl⟩
  obtain ⟨sT, hT, huncaught⟩ := typeScript_runs_zeros
  obtain ⟨-, -, -, -, -, -, hnot⟩ := malformed_frame_never_alike maxPayloadBytes zeros malformed_zeros _ _ _ _ _ _ _ _ _ hP hR hT
    python_met_zeros rust_met_zeros typeScript_met_zeros
  exact hnot (.inr huncaught)

end BrainSdk
