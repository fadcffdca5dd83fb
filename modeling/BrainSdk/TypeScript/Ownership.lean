import BrainSdk.TypeScript.Pump

/-!
# What a step of the TypeScript mux is made of

A step is a few changes, one after the other (`Changes`): a call goes on, a call is added, a route is deleted, a frame is dispatched, the
connection fails. Each keeps the calls tidy: up to `2 ^ 31` stream ids no two calls share one, only a call itself or a `nextEvent` waits on
its sink, and a sink that has failed has failed with the error of the connection.
-/

namespace BrainSdk.TypeScript

open Library Wire

variable {ε υ : Type}

/-- How a call goes on by itself, and whether it has left its `try`. -/
inductive Goes (Γ : Ctx ε υ) (c : Nat) (call : Call ε υ) : Call ε υ → Prop
  | written (hpc : call.pc = .writing) : Goes Γ c call { call with pc := .written }
  | writeFailed (hpc : call.pc = .writing) (message : String) : Goes Γ c call { call with pc := .threw (.nodeError message) }
  | subscribed (hpc : call.pc = .written) (hv : call.args.verb = .subscribe) : Goes Γ c call { call with pc := .opened }
  | await (hpc : call.pc = .written) (hv : call.args.verb ≠ .subscribe) :
      Goes Γ c call { call with sink := (call.sink.next c).1, pc := pcAfterNext (call.sink.next c).2 }
  | timeout (hpc : call.pc = .awaiting) (d : ℚ) : Goes Γ c call { call with pc := .threw (.brainTimeout d) }
  | rejected {e : Thrown} (hpc : call.pc = .threw e) : Goes Γ c call { call with pc := .done (.rejected e) }
  | error {f : Frame} (hpc : call.pc = .got f) (ho : f.opcode = opError) :
      Goes Γ c call { call with pc := .done (.rejected (errorOf Γ f.payload)) }
  | last {f : Frame} (hpc : call.pc = .got f) (ho : f.opcode ≠ opError) (he : f.isEos = true) :
      Goes Γ c call { call with frames := call.frames ++ [f], pc := .done (call.args.result Γ (call.frames ++ [f])) }
  | more {f : Frame} (hpc : call.pc = .got f) (ho : f.opcode ≠ opError) (he : f.isEos = false) :
      Goes Γ c call
        { call with frames := call.frames ++ [f], sink := (call.sink.next c).1, pc := pcAfterNext (call.sink.next c).2 }
  | event (hv : call.args.verb.sends = false) (hpc : call.pc ≠ .opened) (o : Outcome ε υ) :
      Goes Γ c call { call with pc := .done o }

/-- One change, with the frames that were looked up in the table while the connection was open. -/
inductive Change (Γ : Ctx ε υ) (s : State ε υ) : List Frame → State ε υ → Prop
  /-- The buffer, what is written, the end of the socket, or an error that `onData` throws. -/
  | aside (buf : Bytes) (out : List Bytes) (closed : Bool) (uncaught : Option Thrown) :
      Change Γ s [] { s with buf := buf, out := out, socketClosed := closed, uncaught := uncaught }
  | goes {c : Nat} {call call' : Call ε υ} (hc : s.calls[c]? = some call) (hg : Goes Γ c call call') :
      Change Γ s [] (s.setCall c call')
  /-- The sink of a `Subscription` that is asked for its next frame, or its end. -/
  | subscription {c : Nat} {sub : Call ε υ} (hc : s.calls[c]? = some sub) (hpc : sub.pc = .opened) (ended : Bool)
      (sink : StreamSink) (hf : sink.failure = sub.sink.failure) (hw : ∀ w, sink.waiter = some w → sub.sink.waiter = some w ∨
        ∃ call : Call ε υ, s.calls[w]? = some call ∧ call.args.verb.sends = false) :
      Change Γ s [] (s.setCall c { sub with ended := ended, sink := sink })
  | erase {c : Nat} {call : Call ε υ} (hc : s.calls[c]? = some call) (hpc : call.pc = .opened ∨ ∃ o, call.pc = .done o)
      {id : Nat} (hid : call.streamId = id) : Change Γ s [] { s with routes := s.routes.erase id }
  /-- A call that takes no id: `nextEvent`, or one that is refused. -/
  | added (args : Args) (pc : Pc ε υ) (hpc : args.verb.sends = true → pc ≠ .awaiting)
      (ht : ∀ target, args.verb = .nextEvent target → ∃ sub : Call ε υ, s.calls[target]? = some sub ∧ sub.pc = .opened) :
      Change Γ s [] { s with calls := s.calls ++ [Call.begin args handshakeStreamId s.taken pc] }
  | send (args : Args) (hv : args.verb.sends = true) (hopen : s.closedError = none) : Change Γ s [] (s.send args)
  | dispatch (f : Frame) : Change Γ s (if s.closedError = none then [f] else []) (s.dispatch f)
  | failAll (e : Thrown) (he : ∀ r, e ≠ .serverError r) : Change Γ s [] (s.failAll e)

/-- Changes, one after the other. -/
inductive Changes (Γ : Ctx ε υ) : State ε υ → List Frame → State ε υ → Prop
  | refl (s : State ε υ) : Changes Γ s [] s
  | cons {s s' s'' : State ε υ} {fs gs : List Frame} (h : Change Γ s fs s') (h' : Changes Γ s' gs s'') : Changes Γ s (fs ++ gs) s''

theorem Change.single {Γ : Ctx ε υ} {s s' : State ε υ} {fs : List Frame} (h : Change Γ s fs s') : Changes Γ s fs s' := by
  have hcons := Changes.cons h (.refl s')
  rwa [List.append_nil] at hcons

/-! ### The frames of a step -/

/-- The loop of `onData` looks a frame up in the table; heartbeats are answered before. -/
def looksUp (f : Frame) : Bool := f.opcode != opServerPing

/-- The frames that a step looks up in the table of an open connection. -/
def heard (Γ : Ctx ε υ) (s : State ε υ) (a : Action) : List Frame :=
  if s.closedError = none then ((record Γ s a).map Prod.fst).filter looksUp else []

/-- Only a chunk has frames. -/
theorem heard_of_ne_data {Γ : Ctx ε υ} {s : State ε υ} {a : Action} (ha : ∀ chunk now, a ≠ .data chunk now) : heard Γ s a = [] := by
  have hrec : record Γ s a = [] := by
    cases a with
    | data chunk now => exact absurd rfl (ha chunk now)
    | _ => rfl
  simp [heard, hrec]

theorem Drains.changes {Γ : Ctx ε υ} {now : Nat} {bytes : Bytes} {s s' : State ε υ} {log : List (Frame × Deed)}
    (h : Drains Γ now bytes s log s') :
    Changes Γ s (if s.closedError = none then (log.map Prod.fst).filter looksUp else []) s' := by
  induction h with
  | @short bytes s hdecode =>
    rw [List.map_nil, List.filter_nil, ite_self]
    exact Change.single (.aside bytes s.out s.socketClosed s.uncaught)
  | bad hdecode e =>
    rw [List.map_nil, List.filter_nil, ite_self]
    exact Change.single (.failAll _ (by simp))
  | @threw _ _ s f e hdecode hhandle =>
    have hping : looksUp f = false := by
      unfold State.handle at hhandle
      split at hhandle
      · rename_i hping
        simp [looksUp, hping]
      · cases hhandle
    rw [List.map_cons, List.filter_cons_of_neg (by rw [hping]; exact Bool.false_ne_true), List.map_nil, List.filter_nil, ite_self]
    exact Change.single (.aside s.buf s.out s.socketClosed _)
  | @item _ _ s _ _ f log hdecode hhandle hrest ih =>
    rw [(unmoved_of_handle hhandle).closedError] at ih
    rcases handle_ok hhandle with ⟨hping, out, rfl⟩ | ⟨hping, rfl⟩
    · have hno : looksUp f = false := by simp [looksUp, hping]
      rw [List.map_cons, List.filter_cons_of_neg (by rw [hno]; exact Bool.false_ne_true)]
      exact .cons (.aside s.buf out s.socketClosed s.uncaught) ih
    · have hyes : looksUp f = true := by simp [looksUp, hping]
      rw [List.map_cons, List.filter_cons_of_pos hyes]
      have hcons := Changes.cons (.dispatch f) ih
      split
      · rename_i hopen
        simpa only [hopen, if_true, List.singleton_append] using hcons
      · rename_i hopen
        simpa only [hopen, if_false, List.append_nil] using hcons

theorem changes_finish {Γ : Ctx ε υ} {s : State ε υ} {c : Nat} {call call' : Call ε υ} {o : Outcome ε υ} (hc : s.calls[c]? = some call)
    (hg : Goes Γ c call { call' with pc := .done o }) : Changes Γ s [] (s.finish c call' o) := by
  have hdone : (s.setCall c { call' with pc := .done o }).calls[c]? = some { call' with pc := .done o } :=
    getElem?_set_self_of_some hc _
  exact .cons (.goes hc hg) (Change.single (.erase hdone (.inr ⟨o, rfl⟩) rfl))

theorem changes_endNextEvent {Γ : Ctx ε υ} {s : State ε υ} {c target : Nat} {call : Call ε υ} (r : Except Thrown Frame)
    (hc : s.calls[c]? = some call) (hv : call.args.verb = .nextEvent target) (hpc : call.pc ≠ .opened)
    (ht : ∀ sub : Call ε υ, s.calls[target]? = some sub → sub.pc = .opened) :
    Changes Γ s [] (s.endNextEvent Γ c target call r) := by
  have hend : Change Γ s [] (s.setCall c { call with pc := .done (nextEventResult Γ r).2 }) :=
    .goes hc (.event (by rw [hv]; rfl) hpc _)
  unfold State.endNextEvent
  dsimp only
  split
  · rename_i sub _ hsub
    have hopened : sub.pc = .opened := by
      rw [State.setCall, getElem?_set_of_some hc] at hsub
      split at hsub
      · rename_i heq
        exact absurd (ht call (by rw [heq]; exact hc)) hpc
      · exact ht sub hsub
    have hended : ((s.setCall c { call with pc := .done (nextEventResult Γ r).2 }).setCall target
        { sub with ended := true }).calls[target]? = some { sub with ended := true } := getElem?_set_self_of_some hsub _
    refine .cons hend (.cons (.subscription hsub hopened true sub.sink rfl (fun w h => .inl h)) ?_)
    exact Change.single (.erase hended (.inl hopened) rfl)
  · exact Change.single hend

theorem next_failure (k : StreamSink) (w : Nat) : (k.next w).1.failure = k.failure := by
  unfold StreamSink.next
  split <;> rfl

/-- A call of `next` puts at most itself down as the waiter. -/
theorem waiter_of_next {k : StreamSink} {w d : Nat} (h : (k.next w).1.waiter = some d) : k.waiter = some d ∨ d = w := by
  unfold StreamSink.next at h
  split at h
  · exact .inl h
  · exact .inl h
  · exact .inr (Option.some.inj h).symm

theorem changes_beginNextEvent {Γ : Ctx ε υ} {s : State ε υ} {args : Args} {target : Nat} {sub : Call ε υ}
    (hs : s.calls[target]? = some sub) (hopened : sub.pc = .opened) (hv : args.verb = .nextEvent target) :
    Changes Γ s [] (s.beginNextEvent args target sub) := by
  have htarget : ∀ t, args.verb = .nextEvent t → ∃ sub : Call ε υ, s.calls[t]? = some sub ∧ sub.pc = .opened := by
    intro t ht
    rw [hv] at ht
    cases ht
    exact ⟨sub, hs, hopened⟩
  have hno : args.verb.sends = false := by
    rw [hv]
    rfl
  have hpc : ∀ {pc : Pc ε υ}, args.verb.sends = true → pc ≠ .awaiting := by
    intro pc h
    rw [hno] at h
    cases h
  have hlt : target < s.calls.length := (List.getElem?_eq_some_iff.1 hs).1
  unfold State.beginNextEvent
  split
  · exact Change.single (.added args _ hpc htarget)
  · refine .cons (.added args (pcAfterNext (sub.sink.next s.calls.length).2) hpc htarget) ?_
    dsimp only
    rw [← List.set_append_left _ _ hlt]
    have hs' : (s.calls ++ [Call.begin args handshakeStreamId s.taken (pcAfterNext (sub.sink.next s.calls.length).2)])[target]? =
        some sub := by
      rw [List.getElem?_append_left hlt, hs]
    refine Change.single (.subscription hs' hopened sub.ended _ (next_failure _ _) ?_)
    intro w hw
    rcases waiter_of_next hw with hw | rfl
    · exact .inl hw
    · exact .inr ⟨_, by rw [getElem?_concat, if_pos rfl], hno⟩

/-- A `nextEvent` is made on a `Subscription`. -/
def Subscribes (calls : List (Call ε υ)) : Prop :=
  ∀ (c t : Nat) (call : Call ε υ), calls[c]? = some call → call.args.verb = .nextEvent t →
    ∃ sub : Call ε υ, calls[t]? = some sub ∧ sub.pc = .opened

theorem changes_resume {Γ : Ctx ε υ} {s s' : State ε υ} {c : Nat} {call : Call ε υ} (hS : Subscribes s.calls)
    (hc : s.calls[c]? = some call) (h : s.resume Γ c call = some s') : Changes Γ s [] s' := by
  have htarget : ∀ {t}, call.args.verb = .nextEvent t → ∀ sub : Call ε υ, s.calls[t]? = some sub → sub.pc = .opened := by
    intro t ht sub hsub
    obtain ⟨sub', hsub', hopened⟩ := hS c t call hc ht
    obtain rfl := Option.some.inj (hsub.symm.trans hsub')
    exact hopened
  unfold State.resume at h
  split at h
  · rename_i hpc hv
    cases h
    exact Change.single (.goes hc (.subscribed hpc hv))
  · rename_i hpc hv
    cases h
    exact Change.single (.goes hc (.await hpc hv))
  · rename_i hpc hv
    cases h
    exact changes_endNextEvent _ hc hv (by rw [hpc]; simp) (htarget hv)
  · rename_i hpc hv
    cases h
    exact changes_endNextEvent _ hc hv (by rw [hpc]; simp) (htarget hv)
  · rename_i f hpc _
    cases h
    unfold State.collect
    by_cases ho : f.opcode = opError
    · rw [if_pos ho]
      exact changes_finish hc (.error hpc ho)
    · rw [if_neg ho]
      dsimp only
      cases he : f.isEos with
      | true => exact changes_finish hc (.last hpc ho he)
      | false => exact Change.single (.goes hc (.more hpc ho he))
  · rename_i e hpc _
    cases h
    exact changes_finish hc (.rejected hpc)
  · cases h

/-- A call on a connection that has failed is refused. -/
theorem send_of_failed {s : State ε υ} {e : Thrown} (he : s.closedError = some e) (args : Args) :
    s.send args = { s with calls := s.calls ++ [Call.begin args handshakeStreamId s.taken (.done (.rejected e))] } := by
  unfold State.send
  split
  · rename_i e' he'
    obtain rfl := Option.some.inj (he.symm.trans he')
    rfl
  · rename_i hopen
    cases hopen.symm.trans he

/-- What a step is made of. -/
theorem step_changes {Γ : Ctx ε υ} {s s' : State ε υ} {a : Action} (hS : Subscribes s.calls) (h : step Γ s a = some s') :
    Changes Γ s (heard Γ s a) s' := by
  have hsend : ∀ args : Args, args.verb.sends = true → Changes Γ s [] (s.send args) := by
    intro args hv
    rcases hcl : s.closedError with - | e
    · exact Change.single (.send args hv hcl)
    · rw [send_of_failed hcl]
      refine Change.single (.added args (.done (.rejected e)) (by simp) ?_)
      intro t ht
      rw [ht] at hv
      cases hv
  rcases a with args | c | ⟨c, message⟩ | c | c | c | ⟨chunk, now⟩ | message | -
  case data =>
    simp only [step] at h
    split at h
    · cases h
    · cases h
      exact .cons (.aside (s.buf ++ chunk) s.out s.socketClosed s.uncaught) (drains_onData Γ s chunk now).changes
  all_goals rw [heard_of_ne_data (by simp)]
  · by_cases hv : args.verb.sends = true
    · obtain ⟨args', hv', rfl⟩ := step_call_sends h hv
      exact hsend args' (by rw [hv']; exact hv)
    · simp only [step] at h
      split at h
      · rename_i hverb
        obtain ⟨sub, hs, h⟩ := Option.bind_eq_some_iff.1 h
        split at h
        · rename_i hpc
          cases h
          exact changes_beginNextEvent hs hpc hverb
        · cases h
      · rename_i target hun
        rw [hun] at hv
        exact absurd rfl hv
      · rename_i hne _
        refine absurd ?_ hv
        cases hverb : args.verb with
        | nextEvent target => exact absurd hverb (hne target)
        | _ => rfl
  all_goals simp only [step] at h
  · obtain ⟨call, hc, h⟩ := Option.bind_eq_some_iff.1 h
    split at h
    · rename_i hpc
      cases h
      exact Change.single (.goes hc (.written hpc))
    · cases h
  · obtain ⟨call, hc, h⟩ := Option.bind_eq_some_iff.1 h
    split at h
    · rename_i hpc
      cases h
      exact Change.single (.goes hc (.writeFailed hpc message))
    · cases h
  · obtain ⟨call, hc, h⟩ := Option.bind_eq_some_iff.1 h
    exact changes_resume hS hc h
  · obtain ⟨call, hc, h⟩ := Option.bind_eq_some_iff.1 h
    split at h
    · rename_i hpc _
      cases h
      exact Change.single (.goes hc (.timeout hpc _))
    · cases h
  · obtain ⟨sub, hc, h⟩ := Option.bind_eq_some_iff.1 h
    split at h
    · rename_i hpc
      cases h
      have hended : (s.setCall c { sub with ended := true }).calls[c]? = some { sub with ended := true } :=
        getElem?_set_self_of_some hc _
      exact .cons (.subscription hc hpc true sub.sink rfl (fun w h => .inl h)) (Change.single (.erase hended (.inl hpc) rfl))
    · cases h
  · split at h
    · cases h
    · cases h
      exact Change.single (.failAll _ (by simp))
  · split at h
    · cases h
    · cases h
      exact .cons (.failAll (.connectionClosed "connection closed by peer") (by simp)) (Change.single (.aside s.buf s.out true s.uncaught))

/-! ### Tidy calls -/

/-- The calls of a connection that has taken `taken` ids and whose stored error is `closed`. -/
structure Tidy (calls : List (Call ε υ)) (taken : Nat) (closed : Option Thrown) : Prop where
  subscribes : Subscribes calls
  ids : ∀ (c : Nat) (call : Call ε υ), calls[c]? = some call → call.streamId ≠ 0 →
    call.streamId = idAt call.ordinal ∧ call.ordinal < taken
  distinct : ∀ (c d : Nat) (x y : Call ε υ), calls[c]? = some x → calls[d]? = some y → x.streamId ≠ 0 → y.streamId ≠ 0 →
    x.ordinal = y.ordinal → c = d
  waiter : ∀ (c w : Nat) (call : Call ε υ), calls[c]? = some call → call.sink.waiter = some w →
    w = c ∨ ∃ other : Call ε υ, calls[w]? = some other ∧ other.args.verb.sends = false
  failure : ∀ (c : Nat) (call : Call ε υ) (e : Thrown), calls[c]? = some call → call.sink.failure = some e → closed = some e

/-- A connection with tidy calls. Once it has failed its table is empty, and no server sent the error it has failed with. -/
structure Orderly (s : State ε υ) : Prop where
  calls : Tidy s.calls s.taken s.closedError
  cleared : s.closedError ≠ none → ∀ k, s.routes.lookup k = none
  stored : ∀ r, s.closedError ≠ some (.serverError r)

theorem State.dispatch_closedError (s : State ε υ) (f : Frame) : (s.dispatch f).closedError = s.closedError := by
  unfold State.dispatch
  split
  · rfl
  · split <;> rfl

/-- What a call keeps of itself, with a sink that stays tidy. -/
structure Stays (calls : List (Call ε υ)) (c : Nat) (closed : Option Thrown) (call call' : Call ε υ) : Prop where
  args : call'.args = call.args
  streamId : call'.streamId = call.streamId
  ordinal : call'.ordinal = call.ordinal
  opened : call.pc = .opened → call'.pc = .opened
  waiter : ∀ w, call'.sink.waiter = some w → call.sink.waiter = some w ∨ w = c ∨
    ∃ other : Call ε υ, calls[w]? = some other ∧ other.args.verb.sends = false
  failure : ∀ e, call'.sink.failure = some e → call.sink.failure = some e ∨ closed = some e

/-- A call after the call at `c` was replaced. -/
theorem Stays.of_set {calls : List (Call ε υ)} {closed : Option Thrown} {c d : Nat} {call call' x : Call ε υ}
    (h : Stays calls c closed call call') (hc : calls[c]? = some call) (hd : calls[d]? = some x) :
    ∃ y, (calls.set c call')[d]? = some y ∧ y.args = x.args ∧ (x.pc = .opened → y.pc = .opened) := by
  rw [getElem?_set_of_some hc]
  by_cases hdc : d = c
  · subst hdc
    obtain rfl := Option.some.inj (hc.symm.trans hd)
    exact ⟨call', if_pos rfl, h.args, h.opened⟩
  · exact ⟨x, by rw [if_neg hdc, hd], rfl, id⟩

theorem Tidy.set {calls : List (Call ε υ)} {taken : Nat} {closed : Option Thrown} {c : Nat} {call call' : Call ε υ}
    (h : Tidy calls taken closed) (hc : calls[c]? = some call) (hst : Stays calls c closed call call') :
    Tidy (calls.set c call') taken closed := by
  -- a call of the new list is one of the old list, or the new one with the old one's name
  have hback : ∀ {d : Nat} {x : Call ε υ}, (calls.set c call')[d]? = some x →
      ∃ y, calls[d]? = some y ∧ y.args = x.args ∧ y.streamId = x.streamId ∧ y.ordinal = x.ordinal ∧
        (x = y ∨ d = c ∧ y = call ∧ x = call') := by
    intro d x hd
    rw [getElem?_set_of_some hc] at hd
    by_cases hdc : d = c
    · rw [if_pos hdc] at hd
      obtain rfl := Option.some.inj hd
      exact ⟨call, by rw [hdc, hc], hst.args.symm, hst.streamId.symm, hst.ordinal.symm, .inr ⟨hdc, rfl, rfl⟩⟩
    · rw [if_neg hdc] at hd
      exact ⟨x, hd, rfl, rfl, rfl, .inl rfl⟩
  constructor
  · intro d t x hd hv
    obtain ⟨y, hy, hargs, -⟩ := hback hd
    obtain ⟨sub, hsub, hopened⟩ := h.subscribes d t y hy (by rw [hargs]; exact hv)
    obtain ⟨sub', hsub', -, hstill⟩ := hst.of_set hc hsub
    exact ⟨sub', hsub', hstill hopened⟩
  · intro d x hd hne
    obtain ⟨y, hy, -, hid, hord, -⟩ := hback hd
    rw [← hid] at hne ⊢
    rw [← hord]
    exact h.ids d y hy hne
  · intro d e x y hx hy hnx hny hord
    obtain ⟨x', hx', -, hidx, hox, -⟩ := hback hx
    obtain ⟨y', hy', -, hidy, hoy, -⟩ := hback hy
    exact h.distinct d e x' y' hx' hy' (by rwa [hidx]) (by rwa [hidy]) (by rw [hox, hoy, hord])
  · intro d w x hd hw
    have hstill : (∃ other : Call ε υ, calls[w]? = some other ∧ other.args.verb.sends = false) →
        ∃ other : Call ε υ, (calls.set c call')[w]? = some other ∧ other.args.verb.sends = false := by
      rintro ⟨other, ho, hv⟩
      obtain ⟨other', ho', hargs', -⟩ := hst.of_set hc ho
      exact ⟨other', ho', by rw [hargs']; exact hv⟩
    obtain ⟨y, hy, -, -, -, rfl | ⟨rfl, rfl, rfl⟩⟩ := hback hd
    · exact (h.waiter d w x hy hw).imp id hstill
    · rcases hst.waiter w hw with hw | rfl | hother
      · exact (h.waiter d w y hy hw).imp id hstill
      · exact .inl rfl
      · exact .inr (hstill hother)
  · intro d x e hd he
    obtain ⟨y, hy, -, -, -, rfl | ⟨rfl, rfl, rfl⟩⟩ := hback hd
    · exact h.failure d x e hy he
    · exact (hst.failure e he).elim (h.failure d y e hy) id

/-- A call is added, with a new sink. -/
theorem Tidy.concat {calls : List (Call ε υ)} {taken taken' : Nat} {closed : Option Thrown} {call : Call ε υ}
    (h : Tidy calls taken closed) (hle : taken ≤ taken') (hsink : call.sink = .empty)
    (ht : ∀ target, call.args.verb = .nextEvent target → ∃ sub : Call ε υ, calls[target]? = some sub ∧ sub.pc = .opened)
    (hid : call.streamId ≠ 0 → call.streamId = idAt taken ∧ call.ordinal = taken ∧ taken < taken') :
    Tidy (calls ++ [call]) taken' closed := by
  have hold : ∀ {d : Nat} {x : Call ε υ}, calls[d]? = some x → (calls ++ [call])[d]? = some x := by
    intro d x hd
    rw [getElem?_concat, if_neg (Nat.ne_of_lt (List.getElem?_eq_some_iff.1 hd).1), hd]
  have hback : ∀ {d : Nat} {x : Call ε υ}, (calls ++ [call])[d]? = some x → calls[d]? = some x ∨ d = calls.length ∧ x = call := by
    intro d x hd
    rw [getElem?_concat] at hd
    split at hd
    · exact .inr ⟨‹_›, (Option.some.inj hd).symm⟩
    · exact .inl hd
  constructor
  · intro d t x hd hv
    have hsub : ∃ sub : Call ε υ, calls[t]? = some sub ∧ sub.pc = .opened := by
      rcases hback hd with hd | ⟨-, rfl⟩
      · exact h.subscribes d t x hd hv
      · exact ht t hv
    obtain ⟨sub, hs, hopened⟩ := hsub
    exact ⟨sub, hold hs, hopened⟩
  · intro d x hd hne
    rcases hback hd with hd | ⟨-, rfl⟩
    · obtain ⟨hx, hlt⟩ := h.ids d x hd hne
      exact ⟨hx, by omega⟩
    · obtain ⟨hx, hord, hlt⟩ := hid hne
      exact ⟨by rw [hord]; exact hx, by omega⟩
  · intro d e x y hx hy hnx hny hord
    rcases hback hx with hx' | ⟨hd, rfl⟩ <;> rcases hback hy with hy' | ⟨he, rfl⟩
    · exact h.distinct d e x y hx' hy' hnx hny hord
    · have hlt := (h.ids d x hx' hnx).2
      have hnew := (hid hny).2.1
      omega
    · have hlt := (h.ids e y hy' hny).2
      have hnew := (hid hnx).2.1
      omega
    · rw [hd, he]
  · intro d w x hd hw
    rcases hback hd with hd | ⟨-, rfl⟩
    · rcases h.waiter d w x hd hw with rfl | ⟨other, ho, hv⟩
      · exact .inl rfl
      · exact .inr ⟨other, hold ho, hv⟩
    · rw [hsink] at hw
      cases hw
  · intro d x e hd he
    rcases hback hd with hd | ⟨-, rfl⟩
    · exact h.failure d x e hd he
    · rw [hsink] at he
      cases he

/-- A waiter that is settled stays as it is, but for where it stands. -/
theorem Stays.settle {calls : List (Call ε υ)} {c : Nat} {closed : Option Thrown} (r : Except Thrown Frame) (call : Call ε υ) :
    Stays calls c closed call (call.settle r) := by
  have hsame : (call.settle r).args = call.args ∧ (call.settle r).streamId = call.streamId ∧
      (call.settle r).ordinal = call.ordinal ∧ (call.settle r).sink = call.sink ∧
      (call.pc = .opened → (call.settle r).pc = .opened) := by
    unfold Call.settle
    split <;> simp_all
  obtain ⟨hargs, hid, hord, hsink, hpc⟩ := hsame
  refine ⟨hargs, hid, hord, hpc, ?_, ?_⟩
  · intro w hw
    rw [hsink] at hw
    exact .inl hw
  · intro e he
    rw [hsink] at he
    exact .inl he

/-- A sink that is fed, and whose failure is that of the connection. -/
theorem Tidy.feed {calls : List (Call ε υ)} {taken : Nat} {closed : Option Thrown} {c : Nat} {call : Call ε υ} {k : StreamSink}
    (h : Tidy calls taken closed) (hc : calls[c]? = some call) (hw : k.waiter = none)
    (hf : ∀ e, k.failure = some e → call.sink.failure = some e ∨ closed = some e) (r : Except Thrown Frame) :
    Tidy (feed calls c call k r) taken closed := by
  have hset : Tidy (calls.set c { call with sink := k }) taken closed := by
    refine h.set hc ⟨rfl, rfl, rfl, id, ?_, hf⟩
    intro w hk
    rw [hw] at hk
    cases hk
  unfold BrainSdk.TypeScript.feed
  rcases call.sink.waiter with - | w
  · exact hset
  · simp only [settleWaiter]
    rcases hget : (calls.set c { call with sink := k })[w]? with - | x
    · rw [modify_of_none hget]
      exact hset
    · rw [modify_of_some hget]
      exact hset.set hget (.settle r x)

theorem fail_fields (k : StreamSink) (e : Thrown) : (k.fail e).1.waiter = none ∧ (k.fail e).1.failure = k.failure.or (some e) :=
  ⟨rfl, rfl⟩

theorem Tidy.failSinks {taken : Nat} {e : Thrown} (ids : List Nat) {calls : List (Call ε υ)} (h : Tidy calls taken (some e)) :
    Tidy (ids.foldl (failSink e) calls) taken (some e) := by
  induction ids generalizing calls with
  | nil => exact h
  | cons c ids ih =>
    rw [List.foldl_cons]
    refine ih ?_
    rcases hc : calls[c]? with - | call
    · unfold failSink
      rw [hc]
      exact h
    · rw [failSink_eq hc]
      refine h.feed hc (fail_fields call.sink e).1 ?_ _
      intro e' he'
      rw [(fail_fields call.sink e).2] at he'
      cases hf : call.sink.failure with
      | none =>
        rw [hf] at he'
        exact .inr he'
      | some e₀ =>
        rw [hf] at he'
        exact .inl he'

theorem tasks_of_cleared {r : Routes Nat} (h : ∀ k, r.lookup k = none) : r.tasks = [] := by
  rw [List.eq_nil_iff_forall_not_mem]
  intro c hc
  obtain ⟨k, hk⟩ := Routes.mem_tasks.1 hc
  rw [h k] at hk
  cases hk

theorem Goes.not_opened {Γ : Ctx ε υ} {c : Nat} {call call' : Call ε υ} (h : Goes Γ c call call') : call.pc ≠ .opened := by
  cases h with
  | event _ hpc _ => exact hpc
  | written hpc | writeFailed hpc _ | subscribed hpc _ | await hpc _ | timeout hpc _ | rejected hpc | error hpc _ | last hpc _ _
  | more hpc _ _ =>
    rw [hpc]
    simp

theorem Goes.stays {Γ : Ctx ε υ} {c : Nat} {call call' : Call ε υ} (h : Goes Γ c call call') (calls : List (Call ε υ))
    (closed : Option Thrown) : Stays calls c closed call call' := by
  have hpc := h.not_opened
  have hnext : ∀ {pc : Pc ε υ} {frames : List Frame},
      Stays calls c closed call { call with frames := frames, sink := (call.sink.next c).1, pc := pc } := by
    intro pc frames
    refine ⟨rfl, rfl, rfl, fun h => absurd h hpc, ?_, ?_⟩
    · intro w hw
      exact (waiter_of_next hw).imp id .inl
    · intro e he
      rw [next_failure] at he
      exact .inl he
  cases h with
  | await _ _ => exact hnext
  | more _ _ _ => exact hnext
  | subscribed _ _ | written _ | writeFailed _ _ | timeout _ _ | rejected _ | error _ _ | last _ _ _ | event _ _ _ =>
    exact ⟨rfl, rfl, rfl, fun h => absurd h hpc, fun w hw => .inl hw, fun e he => .inl he⟩

/-- Deleting a route leaves an empty table empty. -/
theorem cleared_erase {r : Routes Nat} (h : ∀ k, r.lookup k = none) (id k : Nat) : (r.erase id).lookup k = none := by
  rw [Routes.lookup_erase_eq]
  split
  · rfl
  · exact h k

/-- The stored error after `failAll`, and the calls: those of a connection that had failed stay. -/
theorem failAll_cases {s : State ε υ} (h : Orderly s) (e : Thrown) :
    (∃ e₀, s.closedError = some e₀ ∧ (s.failAll e).closedError = some e₀ ∧ (s.failAll e).calls = s.calls) ∨
    s.closedError = none ∧ (s.failAll e).closedError = some e ∧ (s.failAll e).calls = s.routes.tasks.foldl (failSink e) s.calls := by
  rcases hcl : s.closedError with - | e₀
  · refine .inr ⟨rfl, ?_, rfl⟩
    simp [State.failAll, hcl]
  · refine .inl ⟨e₀, rfl, ?_, ?_⟩
    · simp [State.failAll, hcl]
    · have htasks := tasks_of_cleared (h.cleared (by rw [hcl]; simp))
      simp [State.failAll, htasks]

/-- Each change keeps the connection orderly. -/
theorem Orderly.change {Γ : Ctx ε υ} {s s' : State ε υ} {fs : List Frame} (h : Orderly s) (hI : Inv s) (hc : Change Γ s fs s') :
    Orderly s' := by
  cases hc with
  | aside buf out closed uncaught => exact ⟨h.calls, h.cleared, h.stored⟩
  | goes hc hg => exact ⟨h.calls.set hc (hg.stays _ _), h.cleared, h.stored⟩
  | subscription hc hpc ended sink hf hw =>
    refine ⟨h.calls.set hc ⟨rfl, rfl, rfl, id, ?_, ?_⟩, h.cleared, h.stored⟩
    · intro w hk
      exact (hw w hk).imp id .inr
    · intro e he
      rw [← hf]
      exact .inl he
  | erase hc hpc hid => exact ⟨h.calls, fun hne k => cleared_erase (h.cleared hne) _ k, h.stored⟩
  | added args pc hpc ht =>
    refine ⟨h.calls.concat (Nat.le_refl _) rfl ht ?_, h.cleared, h.stored⟩
    intro hne
    exact absurd rfl hne
  | send args hv hopen =>
    obtain ⟨pc, out, -, heq⟩ := send_eq hopen args
    rw [heq]
    refine ⟨h.calls.concat ?_ rfl ?_ ?_, fun hne => absurd hopen hne, h.stored⟩
    · dsimp only
      split <;> omega
    · intro t ht
      have hverb : args.verb = .nextEvent t := ht
      rw [hverb] at hv
      cases hv
    · intro hne
      cases hop : args.verb.isOp with
      | false => simp [Call.begin, hop, handshakeStreamId] at hne
      | true => exact ⟨by simp [Call.begin, hI.counter], rfl, by simp⟩
  | dispatch f =>
    unfold State.dispatch
    split
    · exact h
    · split
      · exact h
      · rename_i call hc
        have hpush : ∀ e, (call.sink.push f).1.failure = some e → call.sink.failure = some e := by
          intro e he
          unfold StreamSink.push at he
          split at he <;> exact he
        rw [(push_waiter call.sink f).2]
        exact ⟨h.calls.feed hc (push_waiter call.sink f).1 (fun e he => .inl (hpush e he)) _, h.cleared, h.stored⟩
  | failAll e he =>
    rcases failAll_cases h e with ⟨e₀, hcl, hcl', hcalls⟩ | ⟨hcl, hcl', hcalls⟩
    · refine ⟨?_, fun _ k => rfl, ?_⟩
      · rw [hcl', hcalls, ← hcl]
        exact h.calls
      · rw [hcl', ← hcl]
        exact h.stored
    · refine ⟨?_, fun _ k => rfl, ?_⟩
      · rw [hcl', hcalls]
        refine Tidy.failSinks _ ?_
        have htidy := h.calls
        rw [hcl] at htidy
        exact ⟨htidy.subscribes, htidy.ids, htidy.distinct, htidy.waiter,
          fun c call e' hc' he' => by cases htidy.failure c call e' hc' he'⟩
      · rw [hcl']
        intro r heq
        exact he r (Option.some.inj heq)

/-! ### Every run -/

theorem Goes.later {Γ : Ctx ε υ} {c : Nat} {call call' : Call ε υ} (h : Goes Γ c call call') : Later call call' := by
  cases h with
  | rejected hpc =>
    refine ⟨rfl, rfl, rfl, fun _ e he => ?_⟩
    rcases he with he | he
    · cases hpc.symm.trans he
      exact .inr rfl
    · cases hpc.symm.trans he
  | event hv _ _ =>
    refine ⟨rfl, rfl, rfl, fun h => ?_⟩
    rw [hv] at h
    cases h
  | written hpc | writeFailed hpc _ | subscribed hpc _ | await hpc _ | timeout hpc _ | error hpc _ | last hpc _ _ | more hpc _ _ =>
    exact .of_pc (not_surfaces_of_pc hpc (by simp) (by simp)) _ _ _

/-- A call that waits after a step of its own is the waiter of its sink. -/
theorem Goes.waits {Γ : Ctx ε υ} {c : Nat} {call call' : Call ε υ} (h : Goes Γ c call call') (hpc' : call'.pc = .awaiting) :
    call'.sink.waiter = some c := by
  cases h with
  | await _ _ | more _ _ _ => exact next_waiter hpc'
  | _ => simp at hpc'

theorem Change.kept {Γ : Ctx ε υ} {s s' : State ε υ} {fs : List Frame} (h : Change Γ s fs s') :
    Kept s s' ∨ ∃ args, args.verb.sends = true ∧ s.closedError = none ∧ s' = s.send args := by
  cases h with
  | aside buf out closed uncaught => exact .inl ⟨rfl, rfl, fun _ _ h => h, .refl _, id⟩
  | goes hc hg => exact .inl (kept_set hc hg.later (fun _ _ => hg.waits))
  | subscription hc hpc ended sink hf hw =>
    refine .inl (kept_set hc ⟨rfl, rfl, rfl, fun _ _ h => h⟩ ?_)
    intro _ _ hawait
    cases hpc.symm.trans hawait
  | erase hc hpc hid => exact .inl (kept_erase (.refl s) _)
  | added args pc hpc ht => exact .inl (kept_concat s hpc)
  | send args hv hopen => exact .inr ⟨args, hv, hopen, rfl⟩
  | dispatch f => exact .inl (kept_dispatch s f)
  | failAll e he => exact .inl (kept_failAll s e)

/-- Each change keeps the invariant of the ids and routes. -/
theorem Inv.change {Γ : Ctx ε υ} {s s' : State ε υ} {fs : List Frame} (hs : Inv s) (h : Change Γ s fs s') : Inv s' := by
  rcases h.kept with h | ⟨args, hv, he, rfl⟩
  · refine ⟨by rw [h.nextStreamId, h.taken, hs.counter], ?_, h.waits hs.waits⟩
    intro k c hk
    obtain ⟨call, hc, hid, hok⟩ := hs.routed k c (h.routes k c hk)
    obtain ⟨call', hc', hl⟩ := h.calls c call hc
    exact ⟨call', hc', hl.streamId.trans hid, hl.ok hok (Nat.le_of_eq h.taken.symm)⟩
  · exact hs.send he hv

theorem Changes.kept {Γ : Ctx ε υ} {s s' : State ε υ} {fs : List Frame} (h : Changes Γ s fs s') (hs : Inv s ∧ Orderly s) :
    Inv s' ∧ Orderly s' := by
  induction h with
  | refl s => exact hs
  | cons hc _ ih => exact ih ⟨hs.1.change hc, hs.2.change hs.1 hc⟩

theorem orderly_init (m : Nat) : Orderly (State.init m : State ε υ) := by
  have hno : ∀ {c : Nat} {call : Call ε υ}, ((State.init m : State ε υ).calls)[c]? = some call → False := by
    intro c call hc
    cases hc
  refine ⟨⟨?_, ?_, ?_, ?_, ?_⟩, fun h => absurd rfl h, fun r h => by cases h⟩
  · intro c t call hc
    exact (hno hc).elim
  · intro c call hc
    exact (hno hc).elim
  · intro c d x y hx
    exact (hno hx).elim
  · intro c w call hc
    exact (hno hc).elim
  · intro c call e hc
    exact (hno hc).elim

/-- The connection is orderly in every reachable state. -/
theorem orderly_runs {Γ : Ctx ε υ} {m : Nat} {tr : List Action} {s : State ε υ} (hr : (mux Γ m).Runs tr s) : Inv s ∧ Orderly s := by
  refine hr.invariant (P := fun s => Inv s ∧ Orderly s) ⟨inv_init m, orderly_init m⟩ ?_
  intro s a s' hs hst
  exact (step_changes hs.2.calls.subscribes hst).kept hs

/-- The ids taken along a step only grow. -/
theorem Change.taken_le {Γ : Ctx ε υ} {s s' : State ε υ} {fs : List Frame} (h : Change Γ s fs s') : s.taken ≤ s'.taken := by
  rcases h.kept with h | ⟨args, -, he, rfl⟩
  · exact Nat.le_of_eq h.taken.symm
  · obtain ⟨pc, out, -, heq⟩ := send_eq he args
    rw [heq]
    dsimp only
    split <;> omega

theorem Changes.taken_le {Γ : Ctx ε υ} {s s' : State ε υ} {fs : List Frame} (h : Changes Γ s fs s') : s.taken ≤ s'.taken := by
  induction h with
  | refl s => exact Nat.le_refl _
  | cons hc _ ih => exact Nat.le_trans hc.taken_le ih

/-- A connection that is open after some changes was open before them. -/
theorem Changes.open_before {Γ : Ctx ε υ} {s s' : State ε υ} {fs : List Frame} (h : Changes Γ s fs s') (hopen : s'.closedError = none) :
    s.closedError = none := by
  induction h with
  | refl s => exact hopen
  | cons hc _ ih =>
    have hmid := ih hopen
    cases hc with
    | failAll e he =>
      simp only [State.failAll, Option.or_eq_none_iff] at hmid
      exact hmid.1
    | dispatch f => rwa [State.dispatch_closedError] at hmid
    | send args hv h => exact h
    | _ => exact hmid

/-- A call with the stream id of another is that call. -/
theorem Tidy.same_id {calls : List (Call ε υ)} {taken : Nat} {closed : Option Thrown} (h : Tidy calls taken closed)
    (hn : taken ≤ 2 ^ 31) {c d : Nat} {x y : Call ε υ} (hx : calls[c]? = some x) (hy : calls[d]? = some y) (hne : x.streamId ≠ 0)
    (hid : y.streamId = x.streamId) : d = c := by
  have hney : y.streamId ≠ 0 := by rwa [hid]
  obtain ⟨hidx, hltx⟩ := h.ids c x hx hne
  obtain ⟨hidy, hlty⟩ := h.ids d y hy hney
  have hord : y.ordinal = x.ordinal := idAt_inj (by omega) (by omega) (hidy.symm.trans (hid.trans hidx))
  exact h.distinct d c y x hy hx hney hne hord

end BrainSdk.TypeScript
