import BrainSdk.Library.Trace
import BrainSdk.Python.Ownership
import BrainSdk.Wire.Responses

/-!
# What a run of the Python mux says of its queues

The frames the reader processed, the frames it put on a queue and the items a call took off its queue are read off the trace.
`Accounted` ties them together for an op call: what it was given is what the reader processed on its stream while it was registered,
and what it has taken, followed by what is left on its queue, is what it was given, followed by the sentinel when the connection
failed while it was registered.
-/

namespace BrainSdk.Python

open Library Wire

variable {ε : Type}

def Action.isRegister (c : Nat) : Action → Bool
  | .register d => d = c
  | _ => false

def Action.isDeregister (c : Nat) : Action → Bool
  | .deregister d => d = c
  | _ => false

/-- The frame a `lookup` processes. -/
def Action.processes : Action → Option Frame
  | .lookup f => some f
  | _ => none

/-- The frame an action reads from the socket. -/
def Action.reads : Action → Option Frame
  | .readFrame f => some f
  | _ => none

/-- The frame an action puts on the queue of call `c`. -/
def Action.delivers (c : Nat) : Action → Option Frame
  | .put f d => if d = c then some f else none
  | _ => none

/-- The item an action takes off the queue of call `c`. -/
def Action.dequeues (c : Nat) : Action → Option Item
  | .dequeue d i => if d = c then some i else none
  | _ => none

/-- The frames the socket gave the reader. -/
def inbound (tr : List Action) : List Frame := tr.filterMap Action.reads

/-- The frames the reader looked up in the route table. -/
def processed (tr : List Action) : List Frame := tr.filterMap Action.processes

/-- The frames the reader put on the queue of call `c`. -/
def delivered (c : Nat) (tr : List Action) : List Frame := tr.filterMap (Action.delivers c)

/-- The items call `c` took off its queue. -/
def dequeued (c : Nat) (tr : List Action) : List Item := tr.filterMap (Action.dequeues c)

/-- The part of a run in which call `c` is registered. -/
def window (c : Nat) (tr : List Action) : List Action := before (Action.isDeregister c) (since (Action.isRegister c) tr)

/-- Call `c` has run `_register` and has not run `_deregister` since. -/
def inWindow (c : Nat) (tr : List Action) : Bool :=
  tr.any (Action.isRegister c) && !(since (Action.isRegister c) tr).any (Action.isDeregister c)

/-- The frame the reader has in hand for call `c`. -/
def pending (c : Nat) : Reader → List Frame
  | .putting f d => if d = c then [f] else []
  | _ => []

/-- The sentinel of call `c`: there when the connection failed while the call was registered. -/
def sentinel (c : Nat) (tr : List Action) (closedError : Option Exc) : List Item :=
  if .failAll ∈ window c tr then (closedError.map Item.closed).toList else []

/-! ### One more action -/

theorem before_singleton (p : Action → Bool) (a : Action) : before p [a] = if p a then [] else [a] := by
  unfold before
  cases h : p a <;> simp [h]

/-- The window grows by an action exactly while the call is registered, its own `_register` included. -/
theorem window_snoc_eq (c : Nat) (tr : List Action) (a : Action) :
    window c (tr ++ [a]) =
      if inWindow c tr then window c tr ++ (if a.isDeregister c then [] else [a])
      else if tr.any (Action.isRegister c) then window c tr else if a.isRegister c then [a] else [] := by
  unfold window inWindow
  rw [window_snoc, before_singleton]
  cases h1 : tr.any (Action.isRegister c)
  · cases a <;> simp [Action.isDeregister, Action.isRegister]
  · cases h2 : (since (Action.isRegister c) tr).any (Action.isDeregister c) <;> simp

/-- Before its `_register` a call has an empty window. -/
theorem window_of_not_any {c : Nat} {tr : List Action} (h : tr.any (Action.isRegister c) = false) : window c tr = [] := by
  have hs : since (Action.isRegister c) tr = [] := by
    have := since_append (Action.isRegister c) tr []
    rw [h] at this
    simpa [since] using this
  rw [window, hs]
  rfl

theorem inWindow_snoc (c : Nat) (tr : List Action) (a : Action) :
    inWindow c (tr ++ [a]) =
      if inWindow c tr then !a.isDeregister c else !tr.any (Action.isRegister c) && a.isRegister c := by
  unfold inWindow
  rw [since_append]
  cases h1 : tr.any (Action.isRegister c)
  · cases a <;> simp [Action.isDeregister, Action.isRegister, since, h1]
    rename_i d
    cases hd : decide (d = c) <;> simp [hd]
  · cases h2 : (since (Action.isRegister c) tr).any (Action.isDeregister c) <;> simp [h1, h2]

/-- The frames processed in the window of a call grow by those processed while it is registered. -/
theorem processed_window_snoc (c : Nat) (tr : List Action) (a : Action) :
    processed (window c (tr ++ [a])) =
      processed (window c tr) ++ (if inWindow c tr then a.processes.toList else []) := by
  rw [window_snoc_eq]
  cases h : inWindow c tr
  · cases h1 : tr.any (Action.isRegister c)
    · rw [window_of_not_any h1]
      cases a <;> simp [processed, Action.isRegister, Action.processes]
    · simp
  · cases a <;> simp [processed, Action.isDeregister, Action.processes]

/-- What happened while a call was registered happened. -/
theorem mem_of_mem_window {c : Nat} {tr : List Action} {a : Action} (h : a ∈ window c tr) : a ∈ tr := by
  have h1 : a ∈ since (Action.isRegister c) tr := (before_isPre _ _).subset h
  exact (List.dropWhile_suffix _).subset h1

theorem sentinel_eq_nil {c : Nat} {tr : List Action} (h : Action.failAll ∉ tr) (e : Option Exc) : sentinel c tr e = [] := by
  rw [sentinel, if_neg (fun hm => h (mem_of_mem_window hm))]

/-- Only the failure of the connection makes a sentinel. -/
theorem sentinel_snoc {c : Nat} {tr : List Action} {a : Action} (h : a ≠ .failAll) (e : Option Exc) :
    sentinel c (tr ++ [a]) e = sentinel c tr e := by
  have hmem : Action.failAll ∈ window c (tr ++ [a]) ↔ Action.failAll ∈ window c tr := by
    rw [window_snoc_eq]
    cases h1 : inWindow c tr
    · cases h2 : tr.any (Action.isRegister c)
      · rw [window_of_not_any h2]
        cases h3 : a.isRegister c <;> simp [Ne.symm h]
      · simp
    · cases h3 : a.isDeregister c <;> simp [Ne.symm h]
  simp only [sentinel, hmem]

/-! ### The accounts of a run -/

/-- No action of the run is about the route or the queue of call `c`. -/
def Untouched (c : Nat) (tr : List Action) : Prop :=
  tr.any (Action.isRegister c) = false ∧ delivered c tr = [] ∧ dequeued c tr = []

/-- What a run says of the calls of its last state. -/
structure Accounted (tr : List Action) (s : State ε) : Prop where
  failed : .failAll ∈ tr ↔ s.closedError ≠ none
  untouched : ∀ c, (∀ call, s.calls[c]? = some call → call.pc.entered = false) → Untouched c tr
  inside : ∀ (c : Nat) (call : Call ε), s.calls[c]? = some call → call.registered = true → inWindow c tr = true
  outside : ∀ (c : Nat) (call : Call ε), s.calls[c]? = some call → inWindow c tr = true →
    call.registered = true ∨ s.closedError ≠ none
  within : ∀ (c : Nat) (call : Call ε), s.calls[c]? = some call → call.registered = true → s.closedError ≠ none →
    .failAll ∈ window c tr
  given : ∀ (c : Nat) (call : Call ε), s.calls[c]? = some call → call.args.verb.isOp = true →
    delivered c tr ++ pending c s.reader = onStream call.streamId (processed (window c tr))
  queued : ∀ (c : Nat) (call : Call ε), s.calls[c]? = some call → call.args.verb.isOp = true →
    dequeued c tr ++ call.queue = (delivered c tr).map .frame ++ sentinel c tr s.closedError

/-- The queue the reader holds belongs to a call past `_register`. -/
theorem Inv.pending_eq_nil {s : State ε} (hs : Inv s) {c : Nat}
    (h : ∀ call, s.calls[c]? = some call → call.pc.entered = false) : pending c s.reader = [] := by
  unfold pending
  split
  · rename_i f d hr
    split
    · rename_i hd
      subst hd
      obtain ⟨call, hc, hent, -⟩ := hs.putting f d hr
      rw [h call hc] at hent
      cases hent
    · rfl
  · rfl

/-- A step on the route or the queue of a call leaves the call past `_register`. -/
theorem Effect.touched {Γ : Ctx ε} {s s' : State ε} {a : Action} (h : Effect Γ s a s') (hs : Inv s) {c : Nat}
    (ha : a.isRegister c = true ∨ a.delivers c ≠ none ∨ a.dequeues c ≠ none) :
    ∃ call', s'.calls[c]? = some call' ∧ call'.pc.entered = true := by
  have hold : ∀ call, s.calls[c]? = some call → call.pc.entered = true → ∃ call', s'.calls[c]? = some call' ∧
      call'.pc.entered = true := by
    intro call hc hent
    obtain ⟨call', hc', hch⟩ := h.call_after hs hc
    exact ⟨call', hc', hch.keeps.2.2 hent⟩
  cases a with
  | register d =>
    obtain rfl : d = c := by simpa [Action.isRegister, Action.delivers, Action.dequeues] using ha
    cases h with
    | refuse hc _ _ => exact ⟨_, (getElem?_set_of_some hc _ _).trans (if_pos rfl), rfl⟩
    | register hc _ _ => exact ⟨_, (getElem?_set_of_some hc _ _).trans (if_pos rfl), rfl⟩
    | move _ _ hm => cases hm
  | dequeue d i =>
    obtain rfl : d = c := by simpa [Action.isRegister, Action.delivers, Action.dequeues] using ha
    cases h with
    | move _ hc hm =>
      have hd := hm.caller_eq
      simp only [Action.caller, Option.some.injEq] at hd
      subst hd
      exact hold _ hc hm.keeps.2.2.2.2.1
  | put f d =>
    obtain rfl : d = c := by simpa [Action.isRegister, Action.delivers, Action.dequeues] using ha
    cases h with
    | put hr =>
      obtain ⟨call, hc, hent, -⟩ := hs.putting f d hr
      exact hold call hc hent
    | move _ _ hm => cases hm
  | _ => simp [Action.isRegister, Action.delivers, Action.dequeues] at ha

theorem Accounted.untouched_step {Γ : Ctx ε} {tr : List Action} {s s' : State ε} {a : Action} (hA : Accounted tr s) (hs : Inv s)
    (h : Effect Γ s a s') (c : Nat) (hc : ∀ call', s'.calls[c]? = some call' → call'.pc.entered = false) :
    Untouched c (tr ++ [a]) := by
  have hbefore : ∀ call, s.calls[c]? = some call → call.pc.entered = false := by
    intro call hcall
    obtain ⟨call', hc', hch⟩ := h.call_after hs hcall
    by_contra hent
    have := hch.keeps.2.2 (by simpa using hent)
    rw [hc call' hc'] at this
    cases this
  have hnot : ¬(a.isRegister c = true ∨ a.delivers c ≠ none ∨ a.dequeues c ≠ none) := by
    intro ha
    obtain ⟨call', hc', hent⟩ := h.touched hs ha
    rw [hc call' hc'] at hent
    cases hent
  push Not at hnot
  obtain ⟨h1, h2, h3⟩ := hnot
  obtain ⟨k1, k2, k3⟩ := hA.untouched c hbefore
  refine ⟨?_, ?_, ?_⟩
  · rw [List.any_append, k1]
    simpa using h1
  · rw [delivered, filterMap_snoc, h2, Option.toList_none, List.append_nil]
    exact k2
  · rw [dequeued, filterMap_snoc, h3, Option.toList_none, List.append_nil]
    exact k3

/-- Once the connection has failed it stays so. -/
theorem Effect.closedError_kept {Γ : Ctx ε} {s s' : State ε} {a : Action} (h : Effect Γ s a s') (ha : a ≠ .failAll) :
    s'.closedError = s.closedError := by
  cases h with
  | failAll _ => exact absurd rfl ha
  | _ => rfl

theorem Accounted.inside_step {Γ : Ctx ε} {tr : List Action} {s s' : State ε} {a : Action} (hA : Accounted tr s) (hs : Inv s)
    (h : Effect Γ s a s') (c : Nat) (call' : Call ε) (hc' : s'.calls[c]? = some call') (hreg' : call'.registered = true) :
    inWindow c (tr ++ [a]) = true := by
  rw [inWindow_snoc]
  rcases h.registered_before hs hc' hreg' with rfl | ⟨hd, call, hc, hreg, -, -⟩
  · have hfresh : tr.any (Action.isRegister c) = false := by
      refine (hA.untouched c ?_).1
      intro call hc
      obtain ⟨x, -, hch⟩ := h.call_after hs hc
      cases hch with
      | same hcaller _ _ => exact absurd rfl hcaller
      | refuse hpc _ | register hpc _ => rw [hpc]; rfl
      | move hm => cases hm
    have hout : inWindow c tr = false := by rw [inWindow, hfresh]; rfl
    simp [hout, hfresh, Action.isRegister]
  · rw [hA.inside c call hc hreg]
    cases a <;> simp [Action.isDeregister]
    rintro rfl
    exact hd rfl

theorem Accounted.outside_step {Γ : Ctx ε} {tr : List Action} {s s' : State ε} {a : Action} (hA : Accounted tr s) (hs : Inv s)
    (h : Effect Γ s a s') (c : Nat) (call' : Call ε) (hc' : s'.calls[c]? = some call')
    (hin : inWindow c (tr ++ [a]) = true) : call'.registered = true ∨ s'.closedError ≠ none := by
  rw [inWindow_snoc] at hin
  cases hw : inWindow c tr with
  | true =>
    simp only [hw, if_true, Bool.not_eq_true'] at hin
    have hentered : ∃ call, s.calls[c]? = some call ∧ call.pc.entered = true := by
      by_contra hno
      have hun := hA.untouched c (by
        intro call hc
        by_contra hent
        exact hno ⟨call, hc, by simpa using hent⟩)
      rw [inWindow, hun.1] at hw
      cases hw
    obtain ⟨call, hc, hent⟩ := hentered
    obtain ⟨x, hx, hch⟩ := h.call_after hs hc
    rw [hc'] at hx
    cases hx
    have hnreg : a ≠ .register c := by
      rintro rfl
      cases hch with
      | same hcaller _ _ => exact hcaller rfl
      | refuse hpc _ | register hpc _ =>
        rw [hpc] at hent
        cases hent
      | move hm => cases hm
    have hnder : a ≠ .deregister c := by
      rintro rfl
      simp [Action.isDeregister] at hin
    rcases hA.outside c call hc hw with hreg | hce
    · exact .inl ((hch.registered hnreg hnder).trans hreg)
    · refine .inr (fun hce' => hce (h.closedError_none hce').1)
  | false =>
    simp only [hw, Bool.false_eq_true, if_false, Bool.and_eq_true] at hin
    obtain ⟨-, hreg⟩ := hin
    obtain rfl : a = .register c := by
      cases a <;> simp [Action.isRegister] at hreg
      rw [hreg]
    cases h with
    | refuse _ _ he => exact .inr (by simp [State.setCall, he])
    | register hc _ _ =>
      simp only [State.setCall, getElem?_set_of_some hc, if_pos] at hc'
      cases hc'
      exact .inl rfl
    | move _ _ hm => cases hm

theorem Accounted.within_step {Γ : Ctx ε} {tr : List Action} {s s' : State ε} {a : Action} (hA : Accounted tr s) (hs : Inv s)
    (h : Effect Γ s a s') (c : Nat) (call' : Call ε) (hc' : s'.calls[c]? = some call') (hreg' : call'.registered = true)
    (hce' : s'.closedError ≠ none) : .failAll ∈ window c (tr ++ [a]) := by
  rcases h.registered_before hs hc' hreg' with rfl | ⟨hd, call, hc, hreg, -, -⟩
  · cases h with
    | refuse hc hpc _ =>
      simp only [State.setCall, getElem?_set_of_some hc, if_pos] at hc'
      cases hc'
      rw [hs.not_registered hc hpc] at hreg'
      cases hreg'
    | register _ _ he => exact absurd he hce'
    | move _ _ hm => cases hm
  · rw [window_snoc_eq, hA.inside c call hc hreg]
    by_cases ha : a = .failAll
    · subst ha
      simp [Action.isDeregister]
    · rw [h.closedError_kept ha] at hce'
      exact List.mem_append_left _ (hA.within c call hc hreg hce')

/-- A step that is no `lookup` and no `put` moves no frame between the reader and the queues. -/
theorem Effect.pending_kept {Γ : Ctx ε} {s s' : State ε} {a : Action} (h : Effect Γ s a s') (c : Nat)
    (hl : a.processes = none) (hp : ∀ f d, a ≠ .put f d) : pending c s'.reader = pending c s.reader := by
  cases h with
  | miss _ _ | hit _ _ => cases hl
  | put _ => exact absurd rfl (hp _ _)
  | readFrame hr =>
    simp only [Reader.afterRead, hr]
    split <;> rfl
  | readError hr | pong _ hr | failAll hr => simp only [hr, pending]
  | _ => rfl

/-- A call gets past `_register` by its own step. -/
theorem Change.enters {Γ : Ctx ε} {s : State ε} {d : Nat} {a : Action} {call call' : Call ε} (h : Change Γ s d a call call')
    (hent : call.pc.entered = false) (hent' : call'.pc.entered = true) : a = .register d := by
  have hno : ¬call.pc.entered = true := by simp [hent]
  cases h with
  | refuse _ _ | register _ _ => rfl
  | take _ => cases hent'
  | move hm => exact absurd hm.keeps.2.2.2.2.1 hno
  | leave hl => exact absurd hl.keeps.2.2.2.2.2.1 hno
  | same _ _ _ | put _ | fail _ _ => exact absurd hent' hno

/-- The live connection: the reader has not stopped. -/
theorem Inv.live {s : State ε} (hs : Inv s) (hr : s.reader ≠ .stopped) : s.closedError = none := by
  by_contra hce
  exact hr (hs.stopped.1 hce)

/-- A lookup on a live connection gives the frame to the registered op call with its stream id, and to no other. -/
theorem Accounted.lookup_step {Γ : Ctx ε} {tr : List Action} {s s' : State ε} {f : Frame} (hA : Accounted tr s) (hs : Inv s)
    (ho : s.closedError = none → OwnedOp s) (h : Effect Γ s (.lookup f) s') {c : Nat} {call : Call ε}
    (hc : s.calls[c]? = some call) (hv : call.args.verb.isOp = true) :
    pending c s.reader = [] ∧
    pending c s'.reader = onStream call.streamId (if inWindow c tr then [f] else []) := by
  have hlive : s.reader = .routing f → s.closedError = none := by
    intro hr
    exact hs.live (by rw [hr]; exact nofun)
  have howner : s.reader = .routing f → inWindow c tr = true → s.routes.lookup call.streamId = some c := by
    intro hr hw
    rcases hA.outside c call hc hw with hreg | hce
    · exact ho (hlive hr) c call hc hv hreg
    · exact absurd (hlive hr) hce
  cases h with
  | miss hr hl =>
    refine ⟨by simp only [hr, pending], ?_⟩
    cases hw : inWindow c tr with
    | false => rfl
    | true =>
      have hne : f.streamId ≠ call.streamId := by
        intro heq
        rw [heq, howner hr hw] at hl
        cases hl
      simp [onStream, pending, hne]
  | @hit _ d hr hl =>
    refine ⟨by simp only [hr, pending], ?_⟩
    by_cases hd : d = c
    · subst hd
      obtain ⟨x, hx, hreg, hid⟩ := hs.routed _ _ hl
      rw [hc] at hx
      cases hx
      rw [hA.inside d call hc hreg]
      simp [onStream, pending, hid]
    · cases hw : inWindow c tr with
      | false => simp [onStream, pending, hd]
      | true =>
        have hne : f.streamId ≠ call.streamId := by
          intro heq
          rw [heq, howner hr hw] at hl
          cases hl
          exact hd rfl
        simp [onStream, pending, hne, hd]
  | move _ _ hm => cases hm

theorem Accounted.given_step {Γ : Ctx ε} {tr : List Action} {s s' : State ε} {a : Action} (hA : Accounted tr s) (hs : Inv s)
    (hs' : Inv s') (ho : s.closedError = none → OwnedOp s) (h : Effect Γ s a s') (c : Nat) (call' : Call ε)
    (hc' : s'.calls[c]? = some call') (hv' : call'.args.verb.isOp = true) :
    delivered c (tr ++ [a]) ++ pending c s'.reader = onStream call'.streamId (processed (window c (tr ++ [a]))) := by
  cases hent' : call'.pc.entered with
  | false =>
    have hbefore : ∀ x, s'.calls[c]? = some x → x.pc.entered = false := by
      intro x hx
      rw [hc'] at hx
      cases hx
      exact hent'
    obtain ⟨hany, hdel, -⟩ := hA.untouched_step hs h c hbefore
    rw [hdel, hs'.pending_eq_nil hbefore, window_of_not_any hany]
    rfl
  | true =>
    obtain ⟨call, hc, hch⟩ : ∃ call, s.calls[c]? = some call ∧ Change Γ s c a call call' := by
      rcases h.call_before hs hc' with hold | ⟨args, -, -, rfl⟩
      · exact hold
      · simp only [Call.begin] at hent'
        split at hent' <;> cases hent'
    have hv : call.args.verb.isOp = true := by
      rw [← hch.keeps.1]
      exact hv'
    rw [processed_window_snoc, delivered, filterMap_snoc, onStream_append]
    have hgiven := hA.given c call hc hv
    by_cases hent : call.pc.entered = true
    · have hid : call'.streamId = call.streamId := (hch.keeps.2.1 (pc_ne_starting_of_entered hent)).1
      rw [hid, ← hgiven]
      cases a with
      | lookup f =>
        obtain ⟨hp, hp'⟩ := hA.lookup_step hs ho h hc hv
        rw [hp, hp']
        simp [Action.delivers, Action.processes, delivered]
      | put f d =>
        cases h with
        | put hr =>
          by_cases hd : d = c
          · simp [hr, pending, hd, Action.delivers, Action.processes, onStream, delivered]
          · simp [hr, pending, hd, Action.delivers, Action.processes, onStream, delivered]
        | move _ _ hm => cases hm
      | _ =>
        rw [h.pending_kept c rfl (by simp)]
        simp [Action.delivers, Action.processes, onStream, delivered]
    · -- the step is the call's own `_register`
      have hun := hA.untouched c (by
        intro x hx
        rw [hc] at hx
        cases hx
        simpa using hent)
      have hout : inWindow c tr = false := by rw [inWindow, hun.1]; rfl
      rw [window_of_not_any hun.1, hout]
      obtain rfl := hch.enters (by simpa using hent) hent'
      rw [h.pending_kept c rfl (by simp), hs.pending_eq_nil (by
        intro x hx
        rw [hc] at hx
        cases hx
        simpa using hent)]
      simp [Action.delivers, onStream, processed]
      exact List.filterMap_eq_nil_iff.1 hun.2.1

theorem Move.queue {Γ : Ctx ε} {c : Nat} {call call' : Call ε} {a : Action} (h : Move Γ c call a call') :
    call.queue = (a.dequeues c).toList ++ call'.queue := by
  cases h with
  | @collect i rest hpc hq =>
    rw [(collect_fields Γ { call with queue := rest } i).2.2.2.2.1, hq]
    simp [Action.dequeues]
  | @advance i rest hpc hq =>
    rw [(advance_fields Γ { call with queue := rest } i).2.2.2.2, hq]
    simp [Action.dequeues]
  | _ => simp [Action.dequeues]

/-- What a step does to the queue of a call: it is given what the step puts there, after it gave what the step takes. -/
theorem Change.queue {Γ : Ctx ε} {s : State ε} {d : Nat} {a : Action} {call call' : Call ε} (h : Change Γ s d a call call')
    (ha : a ≠ .failAll) :
    call.queue ++ ((a.delivers d).map Item.frame).toList = (a.dequeues d).toList ++ call'.queue := by
  cases h with
  | same hcaller hput _ =>
    cases a <;> simp_all [Action.delivers, Action.dequeues, Action.caller]
  | move hm =>
    rw [hm.queue]
    cases hm <;> simp [Action.delivers, Action.dequeues]
  | leave hl => rw [hl.keeps.2.2.2.2.1]; simp [Action.delivers, Action.dequeues]
  | fail _ _ => exact absurd rfl ha
  | _ => simp [Action.delivers, Action.dequeues, Call.push]

/-- A frame is put on a queue only while the connection is live. -/
theorem Accounted.delivers_live {Γ : Ctx ε} {tr : List Action} {s s' : State ε} {a : Action} (hA : Accounted tr s) (hs : Inv s)
    (h : Effect Γ s a s') (c : Nat) : a.delivers c = none ∨ Action.failAll ∉ tr := by
  by_cases hd : a.delivers c = none
  · exact .inl hd
  · right
    rw [hA.failed]
    cases h with
    | put hr => simp [hs.live (by rw [hr]; exact nofun)]
    | move _ _ hm => cases hm <;> exact absurd rfl hd
    | _ => exact absurd rfl hd

/-- The failure of the connection puts the sentinel on the queue of each registered op call, once. -/
theorem Accounted.queued_failAll {Γ : Ctx ε} {tr : List Action} {s s' : State ε} (hA : Accounted tr s) (hs : Inv s)
    (ho : s.closedError = none → OwnedOp s) (h : Effect Γ s .failAll s') {c : Nat} {call call' : Call ε}
    (hc : s.calls[c]? = some call) (hv : call.args.verb.isOp = true) (hch : Change Γ s c .failAll call call') :
    dequeued c (tr ++ [.failAll]) ++ call'.queue =
      (delivered c (tr ++ [.failAll])).map .frame ++ sentinel c (tr ++ [.failAll]) s'.closedError := by
  have hqueued := hA.queued c call hc hv
  cases h with
  | @failAll e hr =>
    have hlive : s.closedError = none := hs.live (by rw [hr]; exact nofun)
    have hno : Action.failAll ∉ tr := by simp [hA.failed, hlive]
    have hD : dequeued c (tr ++ [.failAll]) = dequeued c tr := by simp [dequeued, Action.dequeues]
    have hG : delivered c (tr ++ [.failAll]) = delivered c tr := by simp [delivered, Action.delivers]
    rw [sentinel_eq_nil hno, List.append_nil] at hqueued
    rw [hD, hG]
    cases hch with
    | same _ _ hfail =>
      have hnreg : inWindow c tr = false := by
        by_contra hw
        rcases hA.outside c call hc (by simpa using hw) with hreg | hce
        · exact hfail rfl (Routes.mem_tasks.2 ⟨_, ho hlive c call hc hv hreg⟩)
        · exact hce hlive
      have hmem : Action.failAll ∉ window c (tr ++ [.failAll]) := by
        rw [window_snoc_eq, hnreg]
        cases h2 : tr.any (Action.isRegister c)
        · simp [Action.isRegister]
        · simpa using fun hm => hno (mem_of_mem_window hm)
      rw [sentinel, if_neg hmem, hqueued, List.append_nil]
    | @fail e' _ hr' hd =>
      rw [hr] at hr'
      cases hr'
      obtain ⟨k, hk⟩ := Routes.mem_tasks.1 hd
      obtain ⟨x, hx, hreg, -⟩ := hs.routed k c hk
      rw [hc] at hx
      cases hx
      have hmem : Action.failAll ∈ window c (tr ++ [.failAll]) := by
        rw [window_snoc_eq, hA.inside c call hc hreg]
        simp [Action.isDeregister]
      rw [sentinel, if_pos hmem, hlive, Call.push, ← List.append_assoc, hqueued]
      rfl
    | move hm => cases hm
  | move _ _ hm => cases hm

theorem Accounted.queued_step {Γ : Ctx ε} {tr : List Action} {s s' : State ε} {a : Action} (hA : Accounted tr s) (hs : Inv s)
    (hs' : Inv s') (ho : s.closedError = none → OwnedOp s) (h : Effect Γ s a s') (c : Nat) (call' : Call ε)
    (hc' : s'.calls[c]? = some call') (hv' : call'.args.verb.isOp = true) :
    dequeued c (tr ++ [a]) ++ call'.queue = (delivered c (tr ++ [a])).map .frame ++ sentinel c (tr ++ [a]) s'.closedError := by
  cases hent' : call'.pc.entered with
  | false =>
    obtain ⟨hany, hdel, hdeq⟩ := hA.untouched_step hs h c (by
      intro x hx
      rw [hc'] at hx
      cases hx
      exact hent')
    have hq : call'.queue = [] := by
      have hplaced := (hs'.ok c call' hc').placed
      unfold Call.Placed at hplaced
      unfold Pc.entered at hent'
      split at hplaced <;> simp_all
    rw [hdel, hdeq, hq, sentinel, window_of_not_any hany]
    rfl
  | true =>
    obtain ⟨call, hc, hch⟩ : ∃ call, s.calls[c]? = some call ∧ Change Γ s c a call call' := by
      rcases h.call_before hs hc' with hold | ⟨args, -, -, rfl⟩
      · exact hold
      · simp only [Call.begin] at hent'
        split at hent' <;> cases hent'
    have hv : call.args.verb.isOp = true := by
      rw [← hch.keeps.1]
      exact hv'
    by_cases ha : a = .failAll
    · subst ha
      exact hA.queued_failAll hs ho h hc hv hch
    · have hqueued := hA.queued c call hc hv
      have hmove := hch.queue ha
      rw [h.closedError_kept ha, sentinel_snoc ha, dequeued, delivered, filterMap_snoc, filterMap_snoc, List.append_assoc,
        ← hmove, ← List.append_assoc]
      rw [show tr.filterMap (Action.dequeues c) = dequeued c tr from rfl, hqueued]
      rcases hA.delivers_live hs h c with hnone | hno
      · simp [hnone, delivered]
      · rw [sentinel_eq_nil hno]
        cases a.delivers c <;> simp [delivered]

/-- The accounts hold of every run that takes fewer than `2 ^ 31` ids. -/
theorem accounted_runs {Γ : Ctx ε} {m : Nat} {tr : List Action} {s : State ε} (hr : (mux Γ m).Runs tr s)
    (hn : s.taken < 2 ^ 31) : Accounted tr s := by
  refine Machine.Runs.rec_on (P := fun tr s => s.taken < 2 ^ 31 → Accounted tr s) ?_ ?_ hr hn
  · intro _
    refine ⟨by simp [mux, State.init], fun _ _ => ⟨rfl, rfl, rfl⟩, ?_, ?_, ?_, ?_, ?_⟩ <;>
    · intro c call hc
      simp [mux, State.init] at hc
  · intro tr s a s' hrun ih hst hn'
    have hs := inv_runs hrun
    have hs' := inv_runs (hrun.snoc hst)
    have h := step_effect hst
    have hle := h.taken_le
    have hA := ih (by omega)
    have ho : s.closedError = none → OwnedOp s := ownedOp_runs hrun (by omega)
    refine ⟨?_, hA.untouched_step hs h, hA.inside_step hs h, hA.outside_step hs h, hA.within_step hs h,
      hA.given_step hs hs' ho h, hA.queued_step hs hs' ho h⟩
    by_cases ha : a = .failAll
    · subst ha
      cases h with
      | failAll _ => cases hce : s.closedError <;> simp
      | move _ _ hm => cases hm
    · rw [h.closedError_kept ha, ← hA.failed]
      simp [Ne.symm ha]

end BrainSdk.Python
