import BrainSdk.TypeScript.Mux

/-!
# What the steps of the TypeScript mux keep

A call keeps its name and its id, and the error it has been given, from one step to the next (`Later`); only a call that sends takes
an id and sets a route. From these two the invariant of the ids and routes follows, and that a request that waits is the waiter of
its own sink.
-/

namespace BrainSdk.TypeScript

open Library Wire

variable {ε υ : Type}

/-- The error a call fails with: its awaited promise was rejected with it, or it has ended with it. -/
def Call.Surfaces (call : Call ε υ) (e : Thrown) : Prop := call.pc = .threw e ∨ call.pc = .done (.rejected e)

/-- What a call keeps: what it was called with, its id, and, when it sends a frame, the error it fails with. -/
structure Later (call call' : Call ε υ) : Prop where
  args : call'.args = call.args
  streamId : call'.streamId = call.streamId
  ordinal : call'.ordinal = call.ordinal
  surfaces : call.args.verb.sends = true → ∀ e, call.Surfaces e → call'.Surfaces e

theorem Later.refl (call : Call ε υ) : Later call call := ⟨rfl, rfl, rfl, fun _ _ h => h⟩

theorem Later.trans {call call' call'' : Call ε υ} (h : Later call call') (h' : Later call' call'') : Later call call'' where
  args := h'.args.trans h.args
  streamId := h'.streamId.trans h.streamId
  ordinal := h'.ordinal.trans h.ordinal
  surfaces := fun hv e he => h'.surfaces (by rw [h.args]; exact hv) e (h.surfaces hv e he)

/-- A call that has been given no error may go anywhere. -/
theorem Later.of_pc {call : Call ε υ} (hpc : ∀ e, ¬call.Surfaces e) (sink : StreamSink) (frames : List Frame) (pc : Pc ε υ) :
    Later call { call with sink := sink, frames := frames, pc := pc } :=
  ⟨rfl, rfl, rfl, fun _ e he => absurd he (hpc e)⟩

/-- Every call is still there, later. -/
def AllLater (calls calls' : List (Call ε υ)) : Prop :=
  ∀ (c : Nat) (call : Call ε υ), calls[c]? = some call → ∃ call', calls'[c]? = some call' ∧ Later call call'

theorem AllLater.refl (calls : List (Call ε υ)) : AllLater calls calls := fun _ call hc => ⟨call, hc, .refl call⟩

theorem AllLater.trans {l l' l'' : List (Call ε υ)} (h : AllLater l l') (h' : AllLater l' l'') : AllLater l l'' := by
  intro c call hc
  obtain ⟨call', hc', hl⟩ := h c call hc
  obtain ⟨call'', hc'', hl'⟩ := h' c call' hc'
  exact ⟨call'', hc'', hl.trans hl'⟩

theorem allLater_set {calls : List (Call ε υ)} {c : Nat} {call call' : Call ε υ} (hc : calls[c]? = some call)
    (hl : Later call call') : AllLater calls (calls.set c call') := by
  intro d x hd
  rw [getElem?_set_of_some hc]
  by_cases hdc : d = c
  · subst hdc
    obtain rfl := Option.some.inj (hc.symm.trans hd)
    exact ⟨call', if_pos rfl, hl⟩
  · exact ⟨x, by rw [if_neg hdc, hd], .refl x⟩

theorem allLater_concat (calls : List (Call ε υ)) (call : Call ε υ) : AllLater calls (calls ++ [call]) := by
  intro d x hd
  refine ⟨x, ?_, .refl x⟩
  rw [getElem?_concat, if_neg (Nat.ne_of_lt (List.getElem?_eq_some_iff.1 hd).1), hd]

theorem settle_later (r : Except Thrown Frame) (call : Call ε υ) : Later call (call.settle r) := by
  unfold Call.settle
  split
  · rename_i hpc
    exact .of_pc (by rintro e (h | h) <;> exact nomatch hpc.symm.trans h) call.sink call.frames _
  · rename_i hpc
    exact .of_pc (by rintro e (h | h) <;> exact nomatch hpc.symm.trans h) call.sink call.frames _
  · exact .refl call

theorem allLater_settleWaiter (calls : List (Call ε υ)) (waiter : Option Nat) (r : Except Thrown Frame) :
    AllLater calls (settleWaiter calls waiter r) := by
  rcases waiter with - | w
  · exact .refl calls
  · intro d x hd
    refine ⟨if w = d then x.settle r else x, ?_, ?_⟩
    · simp only [settleWaiter, List.getElem?_modify, hd, Option.map_eq_map, Option.map_some]
    · split
      · exact settle_later r x
      · exact .refl x

/-- A change of a sink is none of its call. -/
theorem sink_later (call : Call ε υ) (sink : StreamSink) : Later call { call with sink := sink } :=
  ⟨rfl, rfl, rfl, fun _ _ h => h⟩

/-- A request that waits is the waiter of its own sink. -/
def Waits (calls : List (Call ε υ)) : Prop :=
  ∀ (c : Nat) (call : Call ε υ), calls[c]? = some call → call.args.verb.sends = true → call.pc = .awaiting →
    call.sink.waiter = some c

theorem waits_set {calls : List (Call ε υ)} (h : Waits calls) {c : Nat} {call call' : Call ε υ} (hc : calls[c]? = some call)
    (hw : call'.args.verb.sends = true → call'.pc = .awaiting → call'.sink.waiter = some c) : Waits (calls.set c call') := by
  intro d x hd
  rw [getElem?_set_of_some hc] at hd
  by_cases hdc : d = c
  · rw [if_pos hdc] at hd
    obtain rfl := Option.some.inj hd
    rw [hdc]
    exact hw
  · rw [if_neg hdc] at hd
    exact h d x hd

theorem waits_concat {calls : List (Call ε υ)} (h : Waits calls) {call : Call ε υ}
    (hw : call.args.verb.sends = true → call.pc ≠ .awaiting) : Waits (calls ++ [call]) := by
  intro d x hd hv hpc
  rw [getElem?_concat] at hd
  by_cases hdc : d = calls.length
  · rw [if_pos hdc] at hd
    obtain rfl := Option.some.inj hd
    exact absurd hpc (hw hv)
  · rw [if_neg hdc] at hd
    exact h d x hd hv hpc

/-- What a frame or a failure does to a sink: the waiter is taken out and settled. -/
def feed (calls : List (Call ε υ)) (c : Nat) (call : Call ε υ) (sink : StreamSink) (r : Except Thrown Frame) :
    List (Call ε υ) :=
  settleWaiter (calls.set c { call with sink := sink }) call.sink.waiter r

theorem push_waiter (k : StreamSink) (f : Frame) : (k.push f).1.waiter = none ∧ (k.push f).2 = k.waiter := by
  unfold StreamSink.push
  split <;> rename_i h <;> simp [h]

theorem allLater_feed {calls : List (Call ε υ)} {c : Nat} {call : Call ε υ} (hc : calls[c]? = some call) (sink : StreamSink)
    (r : Except Thrown Frame) : AllLater calls (feed calls c call sink r) :=
  (allLater_set hc (sink_later call sink)).trans (allLater_settleWaiter _ _ r)

/-- A call after a sink was fed: its sink is its own, unless it is the call of that sink; and it goes on when it was the waiter. -/
theorem getElem?_feed {calls : List (Call ε υ)} {c : Nat} {call : Call ε υ} (hc : calls[c]? = some call) (sink : StreamSink)
    (r : Except Thrown Frame) (d : Nat) :
    (feed calls c call sink r)[d]? = (if d = c then some { call with sink := sink } else calls[d]?).map
      (fun x => if call.sink.waiter = some d then x.settle r else x) := by
  unfold feed
  rcases hw : call.sink.waiter with - | w
  · simp only [settleWaiter, getElem?_set_of_some hc, reduceCtorEq, if_false, Option.map_id']
  · simp only [settleWaiter, List.getElem?_modify, getElem?_set_of_some hc, Option.some.injEq, Option.map_eq_map]

theorem settle_not_awaiting (r : Except Thrown Frame) (call : Call ε υ) : (call.settle r).pc ≠ .awaiting := by
  rcases r with e | f <;> unfold Call.settle <;> split
  · exact nofun
  · exact nofun
  · rename_i h
    exact fun hpc => h e hpc rfl
  · exact nofun
  · exact nofun
  · rename_i h _
    exact fun hpc => h f hpc rfl

theorem waits_feed {calls : List (Call ε υ)} (h : Waits calls) {c : Nat} {call : Call ε υ} (hc : calls[c]? = some call)
    (sink : StreamSink) (r : Except Thrown Frame) : Waits (feed calls c call sink r) := by
  intro d x hd hv hpc
  rw [getElem?_feed hc] at hd
  obtain ⟨y, hy, rfl⟩ := Option.map_eq_some_iff.1 hd
  by_cases hw : call.sink.waiter = some d
  · rw [if_pos hw] at hpc
    exact absurd hpc (settle_not_awaiting r y)
  · rw [if_neg hw] at hv hpc ⊢
    by_cases hdc : d = c
    · subst hdc
      rw [if_pos rfl] at hy
      obtain rfl := Option.some.inj hy
      -- the call of this sink waits, so it is the waiter
      exact absurd (h d call hc hv hpc) hw
    · rw [if_neg hdc] at hy
      exact h d y hy hv hpc

/-! ### Steps that take no id -/

/-- A step that takes no id and sets no route. -/
structure Kept (s s' : State ε υ) : Prop where
  nextStreamId : s'.nextStreamId = s.nextStreamId
  taken : s'.taken = s.taken
  routes : ∀ (k c : Nat), s'.routes.lookup k = some c → s.routes.lookup k = some c
  calls : AllLater s.calls s'.calls
  waits : Waits s.calls → Waits s'.calls

theorem Kept.refl (s : State ε υ) : Kept s s := ⟨rfl, rfl, fun _ _ h => h, .refl _, id⟩

theorem Kept.trans {s s' s'' : State ε υ} (h : Kept s s') (h' : Kept s' s'') : Kept s s'' where
  nextStreamId := h'.nextStreamId.trans h.nextStreamId
  taken := h'.taken.trans h.taken
  routes := fun k c hk => h.routes k c (h'.routes k c hk)
  calls := h.calls.trans h'.calls
  waits := fun hw => h'.waits (h.waits hw)

/-- A call that goes on. -/
theorem kept_set {s : State ε υ} {c : Nat} {call call' : Call ε υ} (hc : s.calls[c]? = some call) (hl : Later call call')
    (hw : Waits s.calls → call'.args.verb.sends = true → call'.pc = .awaiting → call'.sink.waiter = some c) :
    Kept s (s.setCall c call') :=
  ⟨rfl, rfl, fun _ _ h => h, allLater_set hc hl, fun h => waits_set h hc (hw h)⟩

/-- A call that deletes a route. -/
theorem kept_erase {s s' : State ε υ} (h : Kept s s') (id : Nat) : Kept s { s' with routes := s'.routes.erase id } where
  nextStreamId := h.nextStreamId
  taken := h.taken
  routes := by
    intro k c hk
    rw [Routes.lookup_erase_eq] at hk
    split at hk
    · cases hk
    · exact h.routes k c hk
  calls := h.calls
  waits := h.waits

theorem kept_concat (s : State ε υ) {call : Call ε υ} (hw : call.args.verb.sends = true → call.pc ≠ .awaiting) :
    Kept s { s with calls := s.calls ++ [call] } :=
  ⟨rfl, rfl, fun _ _ h => h, allLater_concat s.calls call, fun h => waits_concat h hw⟩

theorem not_surfaces_of_pc {call : Call ε υ} {pc : Pc ε υ} (hpc : call.pc = pc) (h1 : ∀ e, pc ≠ .threw e)
    (h2 : ∀ e, pc ≠ .done (.rejected e)) (e : Thrown) : ¬call.Surfaces e := by
  rintro (h | h)
  · exact h1 e (hpc.symm.trans h)
  · exact h2 e (hpc.symm.trans h)

/-- A sink that `next` leaves without a settled promise has the call as its waiter. -/
theorem next_waiter {k : StreamSink} {w : Nat} (h : (pcAfterNext (k.next w).2 : Pc ε υ) = .awaiting) :
    (k.next w).1.waiter = some w := by
  unfold StreamSink.next at h ⊢
  split at h
  · cases h
  · cases h
  · rfl

theorem kept_awaitOwn {s : State ε υ} {c : Nat} {call call₀ : Call ε υ} (hc : s.calls[c]? = some call₀) (hl : Later call₀ call)
    (hpc : ∀ e, ¬call.Surfaces e) : Kept s (s.awaitOwn c call) := by
  refine kept_set hc (hl.trans (.of_pc hpc _ call.frames _)) ?_
  intro _ _ hawait
  exact next_waiter hawait

theorem kept_finish {s : State ε υ} {c : Nat} {call call₀ : Call ε υ} {o : Outcome ε υ} (hc : s.calls[c]? = some call₀)
    (hl : Later call₀ { call with pc := .done o }) : Kept s (s.finish c call o) :=
  kept_erase (kept_set hc hl (fun _ => nofun)) call.streamId

theorem kept_collect (Γ : Ctx ε υ) {s : State ε υ} {c : Nat} {call : Call ε υ} {f : Frame} (hc : s.calls[c]? = some call)
    (hpc : call.pc = .got f) : Kept s (s.collect Γ c call f) := by
  have hno : ∀ e, ¬call.Surfaces e := not_surfaces_of_pc hpc nofun nofun
  unfold State.collect
  split
  · exact kept_finish hc (.of_pc hno call.sink call.frames _)
  · dsimp only
    split
    · exact kept_finish hc (.of_pc hno call.sink (call.frames ++ [f]) _)
    · exact kept_awaitOwn hc (.of_pc hno call.sink (call.frames ++ [f]) call.pc) (not_surfaces_of_pc hpc nofun nofun)

/-- `ended` is no part of what a call fails with. -/
theorem ended_later (call : Call ε υ) (b : Bool) : Later call { call with ended := b } := ⟨rfl, rfl, rfl, fun _ _ h => h⟩

theorem kept_endNextEvent (Γ : Ctx ε υ) {s : State ε υ} {c target : Nat} {call : Call ε υ} (r : Except Thrown Frame)
    (hc : s.calls[c]? = some call) (hv : call.args.verb.sends = false) : Kept s (s.endNextEvent Γ c target call r) := by
  have hend : Kept s (s.setCall c { call with pc := .done (nextEventResult Γ r).2 }) := by
    refine kept_set hc ⟨rfl, rfl, rfl, fun h => ?_⟩ (fun _ => nofun)
    rw [hv] at h
    cases h
  unfold State.endNextEvent
  dsimp only
  split
  · rename_i sub _ hsub
    exact kept_erase (hend.trans (kept_set hsub (ended_later sub true) (fun hw => hw target sub hsub))) sub.streamId
  · exact hend

theorem kept_beginNextEvent {s : State ε υ} {args : Args} {target : Nat} {sub : Call ε υ} (hs : s.calls[target]? = some sub)
    (hpc : sub.pc = .opened) (hv : args.verb.sends = false) : Kept s (s.beginNextEvent args target sub) := by
  have hno : args.verb.sends = true → False := by
    rw [hv]
    exact nofun
  unfold State.beginNextEvent
  split
  · exact kept_concat s (fun h => (hno h).elim)
  · refine (kept_set hs (sink_later sub _) ?_).trans (kept_concat _ (fun h => (hno h).elim))
    intro _ _ hawait
    exact nomatch hpc.symm.trans hawait

theorem kept_feed {s : State ε υ} {c : Nat} {call : Call ε υ} (hc : s.calls[c]? = some call) (sink : StreamSink)
    (r : Except Thrown Frame) : Kept s { s with calls := feed s.calls c call sink r } :=
  ⟨rfl, rfl, fun _ _ h => h, allLater_feed hc sink r, fun h => waits_feed h hc sink r⟩

theorem kept_dispatch (s : State ε υ) (f : Frame) : Kept s (s.dispatch f) := by
  unfold State.dispatch
  split
  · exact .refl s
  · split
    · exact .refl s
    · rename_i call hc
      rw [(push_waiter call.sink f).2]
      exact kept_feed hc _ _

/-- `sink.fail` feeds the sink. -/
theorem failSink_eq {e : Thrown} {calls : List (Call ε υ)} {c : Nat} {call : Call ε υ} (hc : calls[c]? = some call) :
    failSink e calls c = feed calls c call (call.sink.fail e).1 (.error e) := by
  unfold failSink
  rw [hc]
  rfl

/-- What every `sink.fail` keeps, the loop of `failAll` keeps. -/
theorem failSinks_kept (e : Thrown) (ids : List Nat) (calls : List (Call ε υ)) :
    AllLater calls (ids.foldl (failSink e) calls) ∧ (Waits calls → Waits (ids.foldl (failSink e) calls)) := by
  induction ids generalizing calls with
  | nil => exact ⟨.refl calls, id⟩
  | cons c ids ih =>
    rw [List.foldl_cons]
    obtain ⟨hl, hw⟩ := ih (failSink e calls c)
    rcases hc : calls[c]? with - | call
    · have hsame : failSink e calls c = calls := by
        unfold failSink
        rw [hc]
      rw [hsame] at hl hw ⊢
      exact ⟨hl, hw⟩
    · rw [failSink_eq hc] at hl hw ⊢
      exact ⟨(allLater_feed hc _ _).trans hl, fun h => hw (waits_feed h hc _ _)⟩

theorem kept_failAll (s : State ε υ) (e : Thrown) : Kept s (s.failAll e) := by
  obtain ⟨hl, hw⟩ := failSinks_kept e s.routes.tasks s.calls
  refine ⟨rfl, rfl, ?_, hl, hw⟩
  intro k c hk
  simp only [State.failAll, Routes.lookup_empty] at hk
  cases hk

/-- What answering a SERVER_PING changes: no more than what is written. -/
theorem answerServerPing_ok {Γ : Ctx ε υ} {s s' : State ε υ} {f : Frame} {now : Nat} (h : s.answerServerPing Γ f now = .ok s') :
    ∃ out, s' = { s with out := out } := by
  unfold State.answerServerPing at h
  split at h
  · cases h
    exact ⟨_, rfl⟩
  · cases h
    exact ⟨s.out, rfl⟩
  · cases h

/-- What handling a frame changes: what is written, or what a dispatch does. -/
theorem handle_ok {Γ : Ctx ε υ} {now : Nat} {s s' : State ε υ} {f : Frame} (h : s.handle Γ now f = .ok s') :
    (f.opcode = opServerPing ∧ ∃ out, s' = { s with out := out }) ∨ f.opcode ≠ opServerPing ∧ s' = s.dispatch f := by
  unfold State.handle at h
  split at h
  · rename_i hping
    exact .inl ⟨hping, answerServerPing_ok h⟩
  · rename_i hping
    exact .inr ⟨hping, (Except.ok.inj h).symm⟩

theorem kept_handle {Γ : Ctx ε υ} {now : Nat} {s s' : State ε υ} {f : Frame} (h : s.handle Γ now f = .ok s') : Kept s s' := by
  rcases handle_ok h with ⟨-, out, rfl⟩ | ⟨-, rfl⟩
  · exact ⟨rfl, rfl, fun _ _ h => h, .refl _, id⟩
  · exact kept_dispatch s f

/-- Writes, the buffer and what `onData` throws are no part of what is kept. -/
theorem kept_drain (Γ : Ctx ε υ) (now fuel offset : Nat) (s : State ε υ) : Kept s (State.drain Γ now fuel offset s) := by
  induction fuel generalizing offset s with
  | zero => exact .refl s
  | succ fuel ih =>
    unfold State.drain
    split
    · split
      · exact ⟨rfl, rfl, fun _ _ h => h, .refl _, id⟩
      · exact kept_failAll s _
    · dsimp only
      split
      · exact ⟨rfl, rfl, fun _ _ h => h, .refl _, id⟩
      · rename_i h
        exact (kept_handle h).trans (ih _ _)

theorem kept_resume {Γ : Ctx ε υ} {s s' : State ε υ} {c : Nat} {call : Call ε υ} (hc : s.calls[c]? = some call)
    (h : s.resume Γ c call = some s') : Kept s s' := by
  unfold State.resume at h
  split at h
  · rename_i hpc _
    cases h
    exact kept_set hc (.of_pc (not_surfaces_of_pc hpc nofun nofun) call.sink call.frames _) (fun _ => nofun)
  · rename_i hpc _
    cases h
    exact kept_awaitOwn hc (.refl call) (not_surfaces_of_pc hpc nofun nofun)
  · rename_i hv
    cases h
    exact kept_endNextEvent Γ _ hc (by rw [hv]; rfl)
  · rename_i hv
    cases h
    exact kept_endNextEvent Γ _ hc (by rw [hv]; rfl)
  · rename_i hpc _
    cases h
    exact kept_collect Γ hc hpc
  · rename_i e hpc _
    cases h
    refine kept_finish hc ⟨rfl, rfl, rfl, fun _ e' he' => ?_⟩
    rcases he' with he' | he'
    · cases hpc.symm.trans he'
      exact .inr rfl
    · exact nomatch hpc.symm.trans he'
  · cases h

/-- A call that sends, on a connection that has failed, is refused. -/
theorem kept_send_of_failed {s : State ε υ} {e : Thrown} (he : s.closedError = some e) (args : Args) : Kept s (s.send args) := by
  unfold State.send
  split
  · exact kept_concat s (fun _ => nofun)
  · rename_i hopen
    cases hopen.symm.trans he

/-- A call that sends runs up to its first await; `unsubscribe` has its own opcode and payload. -/
theorem step_call_sends {Γ : Ctx ε υ} {s s' : State ε υ} {args : Args} (h : step Γ s (.call args) = some s')
    (hv : args.verb.sends = true) : ∃ args', args'.verb = args.verb ∧ s' = s.send args' := by
  simp only [step] at h
  split at h
  · rename_i target hne
    rw [hne] at hv
    cases hv
  · rename_i target hun
    obtain ⟨sub, hs, h⟩ := Option.bind_eq_some_iff.1 h
    split at h
    · cases h
      exact ⟨_, hun.symm, rfl⟩
    · cases h
  · cases h
    exact ⟨args, rfl, rfl⟩

/-- Every step but that of a call that takes up an open connection keeps the ids and routes. -/
theorem step_kept {Γ : Ctx ε υ} {s s' : State ε υ} {a : Action} (h : step Γ s a = some s') :
    Kept s s' ∨ ∃ args, args.verb.sends = true ∧ s.closedError = none ∧ s' = s.send args := by
  rcases a with args | c | ⟨c, message⟩ | c | c | c | ⟨chunk, now⟩ | message | -
  · by_cases hv : args.verb.sends = true
    · obtain ⟨args', hv', rfl⟩ := step_call_sends h hv
      rcases he : s.closedError with - | e
      · exact .inr ⟨args', by rw [hv']; exact hv, rfl, rfl⟩
      · exact .inl (kept_send_of_failed he args')
    · simp only [step] at h
      split at h
      · obtain ⟨sub, hs, h⟩ := Option.bind_eq_some_iff.1 h
        split at h
        · rename_i hpc
          cases h
          exact .inl (kept_beginNextEvent hs hpc (by simpa using hv))
        · cases h
      · rename_i target hun
        rw [hun] at hv
        exact absurd rfl hv
      · rename_i hne _
        refine absurd ?_ hv
        cases hverb : args.verb with
        | nextEvent target => exact absurd hverb (hne target)
        | _ => rfl
  all_goals simp only [step] at h
  · obtain ⟨call, hc, h⟩ := Option.bind_eq_some_iff.1 h
    split at h
    · rename_i hpc
      cases h
      exact .inl (kept_set hc (.of_pc (not_surfaces_of_pc hpc nofun nofun) call.sink call.frames _) (fun _ => nofun))
    · cases h
  · obtain ⟨call, hc, h⟩ := Option.bind_eq_some_iff.1 h
    split at h
    · rename_i hpc
      cases h
      exact .inl (kept_set hc (.of_pc (not_surfaces_of_pc hpc nofun nofun) call.sink call.frames _) (fun _ => nofun))
    · cases h
  · obtain ⟨call, hc, h⟩ := Option.bind_eq_some_iff.1 h
    exact .inl (kept_resume hc h)
  · obtain ⟨call, hc, h⟩ := Option.bind_eq_some_iff.1 h
    split at h
    · rename_i hpc _
      cases h
      exact .inl (kept_set hc (.of_pc (not_surfaces_of_pc hpc nofun nofun) call.sink call.frames _) (fun _ => nofun))
    · cases h
  · obtain ⟨sub, hc, h⟩ := Option.bind_eq_some_iff.1 h
    split at h
    · cases h
      exact .inl (kept_erase (kept_set hc (ended_later sub true) (fun hw => hw c sub hc)) sub.streamId)
    · cases h
  · split at h
    · cases h
    · cases h
      have hbuf : Kept s { s with buf := s.buf ++ chunk } := ⟨rfl, rfl, fun _ _ h => h, .refl _, id⟩
      exact .inl (hbuf.trans (kept_drain Γ now _ 0 _))
  · split at h
    · cases h
    · cases h
      exact .inl (kept_failAll s _)
  · split at h
    · cases h
    · cases h
      obtain ⟨h1, h2, h3, h4, h5⟩ := kept_failAll s (.connectionClosed "connection closed by peer")
      exact .inl ⟨h1, h2, h3, h4, h5⟩

/-! ### The invariant -/

/-- A call with a route has the id of its turn, or stream 0. -/
structure Call.Ok (taken : Nat) (call : Call ε υ) : Prop where
  sends : call.args.verb.sends = true
  op : call.args.verb.isOp = true → call.streamId = idAt call.ordinal ∧ call.ordinal < taken
  conn : call.args.verb.isOp = false → call.streamId = handshakeStreamId

/-- The invariant. -/
structure Inv (s : State ε υ) : Prop where
  counter : s.nextStreamId = idAt s.taken
  routed : ∀ (k c : Nat), s.routes.lookup k = some c →
    ∃ call : Call ε υ, s.calls[c]? = some call ∧ call.streamId = k ∧ call.Ok s.taken
  waits : Waits s.calls

theorem inv_init (maxPayloadSize : Nat) : Inv (State.init maxPayloadSize : State ε υ) where
  counter := rfl
  routed := by
    intro k c hk
    cases hk
  waits := by
    intro c call hc
    simp [State.init] at hc

theorem Later.ok {call call' : Call ε υ} (h : Later call call') {n m : Nat} (hok : call.Ok n) (hnm : n ≤ m) : call'.Ok m where
  sends := by
    rw [h.args]
    exact hok.sends
  op := by
    rw [h.args, h.streamId, h.ordinal]
    intro hv
    obtain ⟨hid, hlt⟩ := hok.op hv
    exact ⟨hid, by omega⟩
  conn := by
    rw [h.args, h.streamId]
    exact hok.conn

/-- A call that takes up an open connection: its new state. -/
theorem send_eq {s : State ε υ} (he : s.closedError = none) (args : Args) :
    ∃ (pc : Pc ε υ) (out : List Bytes), pc ≠ .awaiting ∧ s.send args =
      { s with
        nextStreamId := if args.verb.isOp then nextStreamIdAfter s.nextStreamId else s.nextStreamId
        taken := if args.verb.isOp then s.taken + 1 else s.taken
        routes := s.routes.insert (if args.verb.isOp then s.nextStreamId else handshakeStreamId) s.calls.length
        calls := s.calls ++
          [Call.begin args (if args.verb.isOp then s.nextStreamId else handshakeStreamId) s.taken pc]
        out := out } := by
  unfold State.send
  rw [he]
  refine ⟨_, _, ?_, rfl⟩
  split <;> exact nofun

theorem Inv.send {s : State ε υ} (hs : Inv s) (he : s.closedError = none) {args : Args} (hv : args.verb.sends = true) :
    Inv (s.send args) := by
  obtain ⟨pc, out, hpc, heq⟩ := send_eq he args
  rw [heq]
  constructor
  · dsimp only
    split
    · rw [hs.counter, nextStreamIdAfter_idAt]
    · exact hs.counter
  · intro k c hk
    simp only [Routes.lookup_insert_eq] at hk
    by_cases hkey : k = if args.verb.isOp then s.nextStreamId else handshakeStreamId
    · rw [if_pos hkey] at hk
      obtain rfl := Option.some.inj hk
      refine ⟨_, by rw [getElem?_concat, if_pos rfl], hkey.symm, hv, ?_, ?_⟩
      · intro hop
        have hop' : args.verb.isOp = true := hop
        simp only [Call.begin, hop', if_true]
        exact ⟨hs.counter, Nat.lt_succ_self _⟩
      · intro hop
        have hop' : args.verb.isOp = false := hop
        simp [Call.begin, hop']
    · rw [if_neg hkey] at hk
      obtain ⟨call, hc, hid, hok⟩ := hs.routed k c hk
      refine ⟨call, ?_, hid, (Later.refl call).ok hok ?_⟩
      · rw [getElem?_concat, if_neg (Nat.ne_of_lt (List.getElem?_eq_some_iff.1 hc).1), hc]
      · dsimp only
        split <;> omega
  · exact waits_concat hs.waits (fun _ => hpc)

/-- The invariant is kept by each step. -/
theorem Inv.step {Γ : Ctx ε υ} {s s' : State ε υ} {a : Action} (hs : Inv s) (hst : step Γ s a = some s') : Inv s' := by
  rcases step_kept hst with h | ⟨args, hv, he, rfl⟩
  · refine ⟨by rw [h.nextStreamId, h.taken, hs.counter], ?_, h.waits hs.waits⟩
    intro k c hk
    obtain ⟨call, hc, hid, hok⟩ := hs.routed k c (h.routes k c hk)
    obtain ⟨call', hc', hl⟩ := h.calls c call hc
    exact ⟨call', hc', hl.streamId.trans hid, hl.ok hok (Nat.le_of_eq h.taken.symm)⟩
  · exact hs.send he hv

/-- The invariant holds in every reachable state. -/
theorem inv_runs {Γ : Ctx ε υ} {m : Nat} {tr : List Action} {s : State ε υ} (hr : (mux Γ m).Runs tr s) : Inv s :=
  hr.invariant (inv_init m) (fun _ _ _ hs hst => hs.step hst)

/-- Every call is there after a step, later. -/
theorem step_later {Γ : Ctx ε υ} {s s' : State ε υ} {a : Action} (h : step Γ s a = some s') : AllLater s.calls s'.calls := by
  rcases step_kept h with hk | ⟨args, -, he, rfl⟩
  · exact hk.calls
  · obtain ⟨pc, out, -, heq⟩ := send_eq he args
    rw [heq]
    exact allLater_concat s.calls _

/-- `failAll` gives its error to every request that waits on a sink of the table. -/
theorem failSinks_waiting {e : Thrown} {c : Nat} {call : Call ε υ} (ids : List Nat) {calls : List (Call ε υ)}
    (hw : Waits calls) (hc : calls[c]? = some call) (hv : call.args.verb.sends = true)
    (hpc : call.pc = .awaiting ∧ c ∈ ids ∨ call.pc = .threw e) :
    ∃ call', (ids.foldl (failSink e) calls)[c]? = some call' ∧ call'.Surfaces e := by
  induction ids generalizing calls call with
  | nil =>
    rcases hpc with ⟨-, hmem⟩ | hpc
    · cases hmem
    · exact ⟨call, hc, .inl hpc⟩
  | cons d ids ih =>
    rw [List.foldl_cons]
    rcases hd : calls[d]? with - | other
    · have hsame : failSink e calls d = calls := by
        unfold failSink
        rw [hd]
      rw [hsame]
      refine ih hw hc hv ?_
      rcases hpc with ⟨hpc, hmem⟩ | hpc
      · refine .inl ⟨hpc, (List.mem_cons.1 hmem).resolve_left ?_⟩
        rintro rfl
        exact nomatch hc.symm.trans hd
      · exact .inr hpc
    · rw [failSink_eq hd]
      have hw' := waits_feed hw hd (other.sink.fail e).1 (.error e)
      have hget := getElem?_feed hd (other.sink.fail e).1 (.error e) c
      -- the request after this sink was failed: at the same place, or given the error
      have hnext : ∃ x : Call ε υ, (if c = d then some { other with sink := (other.sink.fail e).1 } else calls[c]?) = some x ∧
          x.args = call.args ∧ x.pc = call.pc ∧ (c = d → other = call) := by
        by_cases hcd : c = d
        · subst hcd
          obtain rfl := Option.some.inj (hd.symm.trans hc)
          exact ⟨_, if_pos rfl, rfl, rfl, fun _ => rfl⟩
        · exact ⟨call, by rw [if_neg hcd, hc], rfl, rfl, fun h => absurd h hcd⟩
      obtain ⟨x, hx, hargs, hxpc, hsame⟩ := hnext
      rw [hx, Option.map_some] at hget
      have hset : call.pc = .awaiting → (x.settle (.error e)).pc = .threw e := by
        intro h
        simp [Call.settle, hxpc, h]
      have hkeep : call.pc = .threw e → (x.settle (.error e)).pc = .threw e := by
        intro h
        simp [Call.settle, hxpc, h]
      by_cases hwaiter : other.sink.waiter = some c
      · rw [if_pos hwaiter] at hget
        refine ih hw' hget ?_ (.inr ?_)
        · rw [(settle_later _ x).args, hargs]
          exact hv
        · rcases hpc with ⟨hpc, -⟩ | hpc
          · exact hset hpc
          · exact hkeep hpc
      · rw [if_neg hwaiter] at hget
        refine ih hw' hget (by rw [hargs]; exact hv) ?_
        rcases hpc with ⟨hpc, hmem⟩ | hpc
        · refine .inl ⟨hxpc.trans hpc, (List.mem_cons.1 hmem).resolve_left ?_⟩
          rintro rfl
          obtain rfl := hsame rfl
          exact hwaiter (hw c other hc hv hpc)
        · exact .inr (hxpc.trans hpc)

end BrainSdk.TypeScript
