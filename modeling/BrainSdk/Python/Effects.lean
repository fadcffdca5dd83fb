import BrainSdk.Python.Mux

/-!
# What a step of the Python mux can do

`step_effect` says once what each step needs and leaves, and the invariants and theorems about the mux go by the cases of `Effect`.
The five steps that change one call and no route (`write`, `dequeue`, `timeout`, `next`, `close`) are one case, with what they do
to the call in `Move`.
-/

namespace BrainSdk.Python

open Library Wire

variable {ε : Type}

/-- An exception no ERROR frame of the server gave: the errors of `_write`. -/
def Exc.isLocal : Exc → Bool
  | .serverError _ => false
  | _ => true

theorem tryWrite_error_isLocal {m opcode sid : Nat} {payload : Bytes} {failure : Option String} {e : Exc}
    (h : tryWrite m opcode sid payload failure = .error e) : e.isLocal = true := by
  unfold tryWrite at h
  split at h
  · cases h
    rfl
  · split at h
    · cases h
      rfl
    · cases h
      rfl
    · split at h
      · cases h
        rfl
      · cases h

/-- What a step that touches no route does to the call that takes it. -/
inductive Move (Γ : Ctx ε) (c : Nat) (call : Call ε) : Action → Call ε → Prop
  | writeFailed {failure : Option String} {e : Exc} (hpc : call.pc = .writing) (he : e.isLocal = true) :
      Move Γ c call (.write c failure) { call with pc := .leaving (.raised e) }
  | written {failure : Option String} (hpc : call.pc = .writing) :
      Move Γ c call (.write c failure) { call with pc := if call.args.verb = .subscribe then .opened else .collecting }
  | collect {i : Item} {rest : List Item} (hpc : call.pc = .collecting) (hq : call.queue = i :: rest) :
      Move Γ c call (.dequeue c i) ({ call with queue := rest }.collect Γ i)
  | advance {i : Item} {rest : List Item} (hpc : call.pc = .inNext) (hq : call.queue = i :: rest) :
      Move Γ c call (.dequeue c i) ({ call with queue := rest }.advance Γ i)
  | requestTimeout {d : ℚ} (hpc : call.pc = .collecting) (hq : call.queue = []) :
      Move Γ c call (.timeout c) { call with pc := .leaving (.raised (.brainTimeout d)) }
  | nextTimeout {d : ℚ} (hpc : call.pc = .inNext) (hq : call.queue = []) :
      Move Γ c call (.timeout c) { call with outs := call.outs ++ [.raised (.brainTimeout d)], pc := .opened }
  | nextEnded (hpc : call.pc = .opened) (he : call.ended = true) :
      Move Γ c call (.next c) { call with outs := call.outs ++ [.none] }
  | next (hpc : call.pc = .opened) (he : call.ended = false) : Move Γ c call (.next c) { call with pc := .inNext }
  | close (hpc : call.pc = .opened) : Move Γ c call (.close c) { call with ended := true, pc := .closing }

/-- What `_deregister` does to the call that runs it. -/
inductive Leave (call : Call ε) : Call ε → Prop
  | leaving {o : Outcome} (hpc : call.pc = .leaving o) : Leave call { call with registered := false, pc := .done o }
  | ending {o : NextOutcome ε} (hpc : call.pc = .ending o) :
      Leave call { call with registered := false, outs := call.outs ++ [o], pc := .opened }
  | closing (hpc : call.pc = .closing) : Leave call { call with registered := false, pc := .opened }

/-- What each action needs of the state, and the state it leaves. -/
inductive Effect (Γ : Ctx ε) (s : State ε) : Action → State ε → Prop
  | start (args : Args) : Effect Γ s (.start args) { s with calls := s.calls ++ [Call.begin args] }
  | take {c : Nat} {call : Call ε} (hc : s.calls[c]? = some call) (hpc : call.pc = .starting) :
      Effect Γ s (.takeStreamId c)
        { s.setCall c { call with streamId := s.nextStreamId, ordinal := s.taken, pc := .registering } with
          nextStreamId := nextStreamIdAfter s.nextStreamId, taken := s.taken + 1 }
  | refuse {c : Nat} {call : Call ε} {e : Exc} (hc : s.calls[c]? = some call) (hpc : call.pc = .registering)
      (he : s.closedError = some e) :
      Effect Γ s (.register c) (s.setCall c { call with pc := .done (.raised e) })
  | register {c : Nat} {call : Call ε} (hc : s.calls[c]? = some call) (hpc : call.pc = .registering)
      (he : s.closedError = none) :
      Effect Γ s (.register c)
        { s.setCall c { call with registered := true, pc := .writing } with routes := s.routes.insert call.streamId c }
  | move {a : Action} {c : Nat} {call call' : Call ε} (sent : List Frame) (hc : s.calls[c]? = some call)
      (hm : Move Γ c call a call') : Effect Γ s a { s.setCall c call' with sent := sent }
  | deregister {c : Nat} {call call' : Call ε} (hc : s.calls[c]? = some call) (hl : Leave call call') :
      Effect Γ s (.deregister c) { s.setCall c call' with routes := s.routes.erase call.streamId }
  | readFrame {f : Frame} (hr : s.reader = .reading) : Effect Γ s (.readFrame f) { s with reader := .afterRead f }
  | readError {e : ReadFailure} (hr : s.reader = .reading) : Effect Γ s (.readError e) { s with reader := .failing e }
  | pong {f : Frame} {now : Nat} {failure : Option String} (sent : List Frame) (hr : s.reader = .ponging f) :
      Effect Γ s (.pong now failure) { s with reader := .reading, sent := sent }
  | miss {f : Frame} (hr : s.reader = .routing f) (hl : s.routes.lookup f.streamId = none) :
      Effect Γ s (.lookup f) { s with reader := .reading }
  | hit {f : Frame} {c : Nat} (hr : s.reader = .routing f) (hl : s.routes.lookup f.streamId = some c) :
      Effect Γ s (.lookup f) { s with reader := .putting f c }
  | put {f : Frame} {c : Nat} (hr : s.reader = .putting f c) :
      Effect Γ s (.put f c) { s with reader := .reading, calls := s.calls.modify c (Call.push (.frame f)) }
  | failAll {e : ReadFailure} (hr : s.reader = .failing e) :
      Effect Γ s .failAll
        { s with
          closedError := s.closedError.or (some e.error)
          calls := updateAll (Call.push (.closed e.error)) s.routes.tasks s.calls
          routes := ∅
          reader := .stopped }

/-- A step of one call is its local part on a call that exists. -/
theorem onCall_eq_some {s s' : State ε} {c : Nat} {f : Call ε → Option (Call ε)} {g : Call ε → State ε → State ε}
    (h : s.onCall c f g = some s') :
    ∃ call call', s.calls[c]? = some call ∧ f call = some call' ∧ s' = g call (s.setCall c call') := by
  obtain ⟨call, hc, hmap⟩ := Option.bind_eq_some_iff.1 h
  obtain ⟨call', hf, rfl⟩ := Option.map_eq_some_iff.1 hmap
  exact ⟨call, call', hc, hf, rfl⟩

theorem afterTake_eq_some {call call' : Call ε} {id n : Nat} (h : call.afterTake id n = some call') :
    call.pc = .starting ∧ call' = { call with streamId := id, ordinal := n, pc := .registering } := by
  unfold Call.afterTake at h
  split at h
  · rename_i hpc
    cases h
    exact ⟨hpc, rfl⟩
  · cases h

theorem afterWrite_move {Γ : Ctx ε} {c : Nat} {call call' : Call ε} {m : Nat} {failure : Option String}
    (h : call.afterWrite (tryWrite m call.args.opcode call.streamId call.args.payload failure) = some call') :
    Move Γ c call (.write c failure) call' := by
  unfold Call.afterWrite at h
  split at h
  · rename_i hpc hw
    cases h
    exact .writeFailed hpc (tryWrite_error_isLocal hw)
  · rename_i hpc _
    cases h
    exact .written hpc
  · cases h

theorem afterDequeue_move {Γ : Ctx ε} {c : Nat} {call call' : Call ε} {item : Item}
    (h : call.afterDequeue Γ item = some call') : Move Γ c call (.dequeue c item) call' := by
  unfold Call.afterDequeue at h
  split at h
  · rename_i i rest hpc hq
    split at h
    · rename_i hi
      cases h
      subst hi
      exact .collect hpc hq
    · cases h
  · rename_i i rest hpc hq
    split at h
    · rename_i hi
      cases h
      subst hi
      exact .advance hpc hq
    · cases h
  · cases h

theorem afterTimeout_move {Γ : Ctx ε} {c : Nat} {call call' : Call ε} (h : call.afterTimeout Γ = some call') :
    Move Γ c call (.timeout c) call' := by
  unfold Call.afterTimeout at h
  split at h
  · rename_i hpc hq _
    cases h
    exact .requestTimeout hpc hq
  · rename_i hpc hq _
    cases h
    exact .nextTimeout hpc hq
  · cases h

theorem beginNext_move {Γ : Ctx ε} {c : Nat} {call call' : Call ε} (h : call.beginNext = some call') :
    Move Γ c call (.next c) call' := by
  unfold Call.beginNext at h
  split at h
  · rename_i hpc
    cases h
    split
    · rename_i he
      exact .nextEnded hpc he
    · rename_i he
      exact .next hpc (Bool.eq_false_iff.2 he)
  · cases h

theorem beginClose_move {Γ : Ctx ε} {c : Nat} {call call' : Call ε} (h : call.beginClose = some call') :
    Move Γ c call (.close c) call' := by
  unfold Call.beginClose at h
  split at h
  · rename_i hpc
    cases h
    exact .close hpc
  · cases h

theorem afterDeregister_leave {call call' : Call ε} (h : call.afterDeregister = some call') : Leave call call' := by
  unfold Call.afterDeregister at h
  split at h
  · rename_i hpc
    cases h
    exact .leaving hpc
  · rename_i hpc
    cases h
    exact .ending hpc
  · rename_i hpc
    cases h
    exact .closing hpc
  · cases h

/-- `_register`: refused with the stored error once the connection has failed, a route otherwise. -/
theorem register_effect {Γ : Ctx ε} {s s' : State ε} {c : Nat} (h : step Γ s (.register c) = some s') :
    Effect Γ s (.register c) s' := by
  rw [step] at h
  obtain ⟨call, call', hc, hf, rfl⟩ := onCall_eq_some h
  unfold Call.afterRegister at hf
  split at hf
  · rename_i e hpc he
    cases hf
    simp only [he]
    exact .refuse hc hpc he
  · rename_i hpc he
    cases hf
    simp only [he]
    exact .register hc hpc he
  · cases hf

/-- Every step does what `Effect` says. -/
theorem step_effect {Γ : Ctx ε} {s s' : State ε} {a : Action} (h : step Γ s a = some s') : Effect Γ s a s' := by
  cases a with
  | start args =>
    cases h
    exact .start args
  | takeStreamId c =>
    rw [step] at h
    obtain ⟨call, call', hc, hf, rfl⟩ := onCall_eq_some h
    obtain ⟨hpc, rfl⟩ := afterTake_eq_some hf
    exact .take hc hpc
  | register c => exact register_effect h
  | write c failure =>
    rw [step] at h
    obtain ⟨call, call', hc, hf, rfl⟩ := onCall_eq_some h
    exact .move _ hc (afterWrite_move hf)
  | dequeue c item =>
    rw [step] at h
    obtain ⟨call, call', hc, hf, rfl⟩ := onCall_eq_some h
    exact .move s.sent hc (afterDequeue_move hf)
  | timeout c =>
    rw [step] at h
    obtain ⟨call, call', hc, hf, rfl⟩ := onCall_eq_some h
    exact .move s.sent hc (afterTimeout_move hf)
  | deregister c =>
    rw [step] at h
    obtain ⟨call, call', hc, hf, rfl⟩ := onCall_eq_some h
    exact .deregister hc (afterDeregister_leave hf)
  | next c =>
    rw [step] at h
    obtain ⟨call, call', hc, hf, rfl⟩ := onCall_eq_some h
    exact .move s.sent hc (beginNext_move hf)
  | close c =>
    rw [step] at h
    obtain ⟨call, call', hc, hf, rfl⟩ := onCall_eq_some h
    exact .move s.sent hc (beginClose_move hf)
  | readFrame f =>
    obtain ⟨hr, rfl⟩ : s.reader = .reading ∧ { s with reader := .afterRead f } = s' := by simpa [step] using h
    exact .readFrame hr
  | readError e =>
    obtain ⟨hr, rfl⟩ : s.reader = .reading ∧ { s with reader := .failing e } = s' := by simpa [step] using h
    exact .readError hr
  | pong now failure =>
    simp only [step] at h
    split at h
    · rename_i f hr
      cases h
      exact .pong _ hr
    · cases h
  | lookup f =>
    simp only [step] at h
    split at h
    · rename_i hr
      split at h
      · rename_i c hl
        cases h
        exact .hit hr hl
      · rename_i hl
        cases h
        exact .miss hr hl
    · cases h
  | put f c =>
    simp only [step] at h
    split at h
    · rename_i hr
      cases h
      exact .put hr
    · cases h
  | failAll =>
    simp only [step] at h
    split at h
    · rename_i e hr
      cases h
      exact .failAll hr
    · cases h

/-! ### What a step does to one call -/

/-- The call an action is a step of; none for the reader's steps and for `start`. -/
def Action.caller : Action → Option Nat
  | .takeStreamId c | .register c | .write c _ | .dequeue c _ | .timeout c | .deregister c | .next c | .close c => some c
  | _ => none

/-- What a step of the mux does to call `d`. -/
inductive Change (Γ : Ctx ε) (s : State ε) (d : Nat) : Action → Call ε → Call ε → Prop
  | same {a : Action} {call : Call ε} (hcaller : a.caller ≠ some d) (hput : ∀ f, a ≠ .put f d)
      (hfail : a = .failAll → d ∉ s.routes.tasks) : Change Γ s d a call call
  | take {call : Call ε} (hpc : call.pc = .starting) :
      Change Γ s d (.takeStreamId d) call
        { call with streamId := s.nextStreamId, ordinal := s.taken, pc := .registering }
  | refuse {call : Call ε} {e : Exc} (hpc : call.pc = .registering) (he : s.closedError = some e) :
      Change Γ s d (.register d) call { call with pc := .done (.raised e) }
  | register {call : Call ε} (hpc : call.pc = .registering) (he : s.closedError = none) :
      Change Γ s d (.register d) call { call with registered := true, pc := .writing }
  | move {a : Action} {call call' : Call ε} (hm : Move Γ d call a call') : Change Γ s d a call call'
  | leave {call call' : Call ε} (hl : Leave call call') : Change Γ s d (.deregister d) call call'
  | put {f : Frame} {call : Call ε} (hr : s.reader = .putting f d) :
      Change Γ s d (.put f d) call (call.push (.frame f))
  | fail {e : ReadFailure} {call : Call ε} (hr : s.reader = .failing e) (hd : d ∈ s.routes.tasks) :
      Change Γ s d .failAll call (call.push (.closed e.error))

theorem Move.caller_eq {Γ : Ctx ε} {c : Nat} {call call' : Call ε} {a : Action} (h : Move Γ c call a call') :
    a.caller = some c := by
  cases h <;> rfl

/-- A step in which only call `c` changes changes it as its own step says, and no other call. -/
theorem setCall_change {Γ : Ctx ε} {s : State ε} {c : Nat} {a : Action} {call call' : Call ε}
    (hc : s.calls[c]? = some call) (ha : a.caller = some c) (hch : Change Γ s c a call call') (d : Nat) :
    (∃ x x', s.calls[d]? = some x ∧ (s.calls.set c call')[d]? = some x' ∧ Change Γ s d a x x') ∨
      (s.calls[d]? = none ∧ (s.calls.set c call')[d]? = none) := by
  rw [getElem?_set_of_some hc]
  by_cases hd : d = c
  · subst hd
    exact .inl ⟨call, call', hc, if_pos rfl, hch⟩
  · rw [if_neg hd]
    cases hx : s.calls[d]? with
    | none => exact .inr ⟨rfl, rfl⟩
    | some x =>
      refine .inl ⟨x, x, rfl, rfl, .same ?_ ?_ ?_⟩
      · rw [ha]
        exact fun h => hd (Option.some.inj h).symm
      · rintro f rfl
        cases ha
      · rintro rfl
        cases ha

/-- A step of the reader that touches no queue changes no call. -/
theorem keep_change {Γ : Ctx ε} {s : State ε} {a : Action} (ha : a.caller = none) (hput : ∀ f d, a ≠ .put f d)
    (hfail : a ≠ .failAll) (d : Nat) :
    (∃ x x', s.calls[d]? = some x ∧ s.calls[d]? = some x' ∧ Change Γ s d a x x') ∨
      (s.calls[d]? = none ∧ s.calls[d]? = none) := by
  cases hx : s.calls[d]? with
  | none => exact .inr ⟨rfl, rfl⟩
  | some x =>
    refine .inl ⟨x, x, rfl, rfl, .same ?_ (fun f => hput f d) (fun h => absurd h hfail)⟩
    rw [ha]
    exact Option.some_ne_none d ∘ Eq.symm

/-- What a step does to each call: a call that was there changes as `Change` says, and only `start` adds one. -/
theorem effect_calls {Γ : Ctx ε} {s s' : State ε} {a : Action} (h : Effect Γ s a s') (hn : s.routes.tasks.Nodup) (d : Nat) :
    (∃ call call', s.calls[d]? = some call ∧ s'.calls[d]? = some call' ∧ Change Γ s d a call call') ∨
      (s.calls[d]? = none ∧ s'.calls[d]? = none) ∨
      ∃ args, a = .start args ∧ s.calls[d]? = none ∧ s'.calls[d]? = some (Call.begin args) := by
  cases h with
  | start args =>
    simp only [getElem?_concat]
    by_cases hd : d = s.calls.length
    · subst hd
      exact .inr (.inr ⟨args, rfl, List.getElem?_eq_none (Nat.le_refl _), if_pos rfl⟩)
    · rw [if_neg hd]
      exact (keep_change rfl (by simp) (by simp) d).imp_right .inl
  | take hc hpc => exact (setCall_change hc rfl (.take hpc) d).imp_right .inl
  | refuse hc hpc he => exact (setCall_change hc rfl (.refuse hpc he) d).imp_right .inl
  | register hc hpc he => exact (setCall_change hc rfl (.register hpc he) d).imp_right .inl
  | move sent hc hm => exact (setCall_change hc hm.caller_eq (.move hm) d).imp_right .inl
  | deregister hc hl => exact (setCall_change hc rfl (.leave hl) d).imp_right .inl
  | readFrame _ | readError _ | pong _ _ | miss _ _ | hit _ _ =>
    exact (keep_change rfl (by simp) (by simp) d).imp_right .inl
  | @put f c hr =>
    simp only [List.getElem?_modify]
    cases hx : s.calls[d]? with
    | none => exact .inr (.inl ⟨rfl, by simp⟩)
    | some x =>
      by_cases hd : c = d
      · subst hd
        exact .inl ⟨x, _, rfl, by simp, .put hr⟩
      · refine .inl ⟨x, x, rfl, by simp [hd], .same (by simp [Action.caller]) ?_ (by simp)⟩
        rintro g hg
        cases hg
        exact hd rfl
  | @failAll e hr =>
    simp only [getElem?_updateAll _ hn]
    cases hx : s.calls[d]? with
    | none => exact .inr (.inl ⟨rfl, by simp⟩)
    | some x =>
      by_cases hd : d ∈ s.routes.tasks
      · exact .inl ⟨x, _, rfl, by simp [hd], .fail hr hd⟩
      · exact .inl ⟨x, x, rfl, by simp [hd], .same (by simp [Action.caller]) (by simp) (fun _ => hd)⟩

end BrainSdk.Python
