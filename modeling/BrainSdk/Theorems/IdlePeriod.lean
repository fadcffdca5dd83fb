import BrainSdk.TypeScript.Mux
import Mathlib.Data.List.TakeWhile

/-!
# A subscription that waits

The frames that come for a `Subscription` of `mux.ts`, and the calls of `nextEvent` on it, some of which time out. A call whose timer has
fired leaves its waiter in the sink, and once it goes on it ends the stream and drops the route, so that what comes later is lost. The
steps are those of the connection.
-/

namespace BrainSdk.TypeScript

open Library Wire

variable {ε υ : Type}

namespace Subscribed

/-- A connection with one `Subscription`, its first call. `arrived` are the frames that came for it, which no step reads. -/
structure Session (ε υ : Type) where
  conn : State ε υ
  arrived : List Frame

/-- What happens to it, on a connection that does not fail. -/
inductive Action where
  | frame (f : Frame)
  | nextEvent
  | timeout (c : Nat)
  | resume (c : Nat)
  deriving DecidableEq

/-- The first stream id of a connection. -/
def subscriptionId : Nat := 1

/-- The call that `subscribe` leaves. -/
def opened (payload : Bytes) : Call ε υ := Call.begin ⟨.subscribe, opSubscribeReq, payload, none⟩ subscriptionId 0 .opened

/-- A connection that was handed the bytes of a SUBSCRIBE request. -/
def init (m : Nat) (payload bytes : Bytes) : Session ε υ where
  conn :=
    { (State.init m : State ε υ) with
      routes := AList.insert subscriptionId 0 ∅
      nextStreamId := nextStreamIdAfter subscriptionId
      taken := 1
      calls := [opened payload]
      out := [bytes] }
  arrived := []

/-- One step: the connection's own. -/
def step (Γ : Ctx ε υ) (s : Session ε υ) : Action → Option (Session ε υ)
  | .frame f =>
    if f.streamId = subscriptionId then some { conn := s.conn.dispatch f, arrived := s.arrived ++ [f] } else none
  | .nextEvent => (TypeScript.step Γ s.conn (.call ⟨.nextEvent 0, 0, [], none⟩)).map ({ s with conn := · })
  | .timeout c => (TypeScript.step Γ s.conn (.timeout c)).map ({ s with conn := · })
  | .resume c => (TypeScript.step Γ s.conn (.resume c)).map ({ s with conn := · })

/-- The subscription as a machine, from the state that `subscribe` leaves. -/
def machine (Γ : Ctx ε υ) (m : Nat) (payload bytes : Bytes) : Machine (Session ε υ) Action where
  init := init m payload bytes
  step := step Γ

/-- `subscribe` on a new connection leaves the state the machine starts from. -/
theorem init_runs (Γ : Ctx ε υ) {m : Nat} {payload bytes : Bytes} (hw : writeFrame m opSubscribeReq subscriptionId payload = .ok bytes) :
    (mux Γ m).Runs [.call ⟨.subscribe, opSubscribeReq, payload, none⟩, .writeDone 0, .resume 0]
      (init m payload bytes : Session ε υ).conn := by
  have hsend : (State.init m : State ε υ).send ⟨.subscribe, opSubscribeReq, payload, none⟩ =
      { (init m payload bytes : Session ε υ).conn with calls := [{ (opened payload : Call ε υ) with pc := .writing }] } := by
    simp only [State.send, State.init, Verb.isOp, if_true]
    rw [show writeFrame m opSubscribeReq 1 payload = .ok bytes from hw]
    rfl
  unfold Machine.Runs
  simp only [Machine.exec, mux, TypeScript.step, Option.bind_some, hsend]
  rfl

/-! ### What calls returned -/

/-- The frame ends its stream. -/
def endsStream (f : Frame) : Bool := f.opcode = opError || f.isEos

/-- The event frames: those that came before a frame that ends the stream. -/
def eventFrames (arrived : List Frame) : List Frame := arrived.takeWhile (fun f => !endsStream f)

/-- A frame that ends the stream has come. -/
def Over (arrived : List Frame) : Prop := ∃ f ∈ arrived, endsStream f = true

/-- What `nextEvent` comes to with a frame. -/
def comesTo (Γ : Ctx ε υ) (f : Frame) : Outcome ε υ := (nextEventResult Γ (.ok f)).2

/-- What a call has made of a frame, returned already or about to be. -/
def given (Γ : Ctx ε υ) (call : Call ε υ) : Option (Outcome ε υ) :=
  match call.pc with
  | .got f => some (comesTo Γ f)
  | .done .null | .done (.rejected (.brainTimeout _)) => none
  | .done o => some o
  | _ => none

/-- The frames left for calls to come: none once the stream is marked as ended. -/
def Session.queue (s : Session ε υ) : List Frame :=
  match s.conn.calls.head? with
  | some sub => if sub.ended then [] else sub.sink.frames
  | none => []

theorem Session.queue_eq {s : Session ε υ} {sub : Call ε υ} (h : s.conn.calls[0]? = some sub) :
    s.queue = if sub.ended then [] else sub.sink.frames := by
  unfold Session.queue
  rw [List.head?_eq_getElem?, h]

/-- Every event frame that came has been given to one call, in order, or is left for the next ones. -/
def Kept (Γ : Ctx ε υ) (s : Session ε υ) : Prop :=
  (eventFrames s.arrived).map (comesTo Γ) <+: s.conn.calls.filterMap (given Γ) ++ s.queue.map (comesTo Γ)

/-- An event frame comes only while the stream is not marked as ended and the promise that waits, if one does, is that of a call that has
not timed out; and a call that timed out goes on only when every event frame that came is with a call. -/
def Calm (Γ : Ctx ε υ) (s : Session ε υ) : Action → Prop
  | .frame f =>
    endsStream f = true ∨ Over s.arrived ∨
      ∀ sub, s.conn.calls.head? = some sub → sub.ended = false ∧
        ∀ w, sub.sink.waiter = some w → ∃ call, s.conn.calls[w]? = some call ∧ call.pc = .awaiting
  | .resume c =>
    ∀ call e, s.conn.calls[c]? = some call → call.pc = .threw e →
      (eventFrames s.arrived).length ≤ (s.conn.calls.filterMap (given Γ)).length
  | _ => True

/-! ### The frames and the calls that have them -/

/-- What a call shows of the frame it was given, if it was given one. -/
inductive Holds (Γ : Ctx ε υ) (call : Call ε υ) : Option Frame → Prop where
  | got {f : Frame} (h : call.pc = .got f) : Holds Γ call (some f)
  | returned {f : Frame} (h : call.pc = .done (comesTo Γ f)) : Holds Γ call (some f)
  | opened (h : call.pc = .opened) : Holds Γ call none
  | awaiting (h : call.pc = .awaiting) : Holds Γ call none
  | threw {d : ℚ} (h : call.pc = .threw (.brainTimeout d)) : Holds Γ call none
  | null (h : call.pc = .done .null) : Holds Γ call none
  | timedOut {d : ℚ} (h : call.pc = .done (.rejected (.brainTimeout d))) : Holds Γ call none

theorem Holds.congr {Γ : Ctx ε υ} {call call' : Call ε υ} {hand : Option Frame} (h : Holds Γ call hand) (hpc : call'.pc = call.pc) :
    Holds Γ call' hand := by
  cases h with
  | got h => exact .got (hpc.trans h)
  | returned h => exact .returned (hpc.trans h)
  | opened h => exact .opened (hpc.trans h)
  | awaiting h => exact .awaiting (hpc.trans h)
  | threw h => exact .threw (hpc.trans h)
  | null h => exact .null (hpc.trans h)
  | timedOut h => exact .timedOut (hpc.trans h)

theorem Holds.of_awaiting {Γ : Ctx ε υ} {call : Call ε υ} {hand : Option Frame} (h : Holds Γ call hand) (hpc : call.pc = .awaiting) :
    hand = none := by
  cases h <;> rename_i h <;> first | rfl | exact nomatch hpc.symm.trans h

theorem Holds.of_got {Γ : Ctx ε υ} {call : Call ε υ} {hand : Option Frame} (h : Holds Γ call hand) {f : Frame} (hpc : call.pc = .got f) :
    hand = some f := by
  cases h with
  | got h =>
    obtain ⟨⟩ := hpc.symm.trans h
    rfl
  | _ h => exact nomatch hpc.symm.trans h

/-- Only a timer makes a call of `nextEvent` throw. -/
theorem Holds.of_threw {Γ : Ctx ε υ} {call : Call ε υ} {hand : Option Frame} (h : Holds Γ call hand) {e : Thrown}
    (hpc : call.pc = .threw e) : hand = none ∧ ∃ d, e = .brainTimeout d := by
  cases h with
  | threw h =>
    obtain ⟨⟩ := hpc.symm.trans h
    exact ⟨rfl, _, rfl⟩
  | _ h => exact nomatch hpc.symm.trans h

theorem given_of_holds_none {Γ : Ctx ε υ} {call : Call ε υ} (h : Holds Γ call none) : given Γ call = none := by
  cases h <;> rename_i h <;> simp only [given, h]

/-- Only a frame that ends the stream ends it. -/
theorem nextEventResult_fst (Γ : Ctx ε υ) (f : Frame) : (nextEventResult Γ (.ok f)).1 = endsStream f := by
  unfold nextEventResult endsStream
  by_cases ho : f.opcode = opError
  · simp [ho]
  · cases hf : f.isEos <;> simp [ho, hf]

/-- An event frame comes to its event, or to what the decoder throws. -/
theorem comesTo_of_event (Γ : Ctx ε υ) {f : Frame} (hf : endsStream f = false) : comesTo Γ f = eventOf Γ f.payload := by
  unfold endsStream at hf
  rw [Bool.or_eq_false_iff] at hf
  obtain ⟨ho, heos⟩ := hf
  simp only [comesTo, nextEventResult, if_neg (of_decide_eq_false ho), heos, Bool.false_eq_true, if_false]

theorem given_of_holds_some {Γ : Ctx ε υ} {call : Call ε υ} {f : Frame} (h : Holds Γ call (some f)) (hf : endsStream f = false) :
    given Γ call = some (comesTo Γ f) := by
  cases h with
  | got h => simp only [given, h]
  | returned h =>
    unfold given
    rw [h, comesTo_of_event Γ hf, eventOf]
    cases Γ.decodeSubscriptionEvent f.payload <;> rfl

/-- Calls have made as many things as they were given frames, at most. -/
theorem given_length_le {Γ : Ctx ε υ} {calls : List (Call ε υ)} {hands : List (Option Frame)} (h : List.Forall₂ (Holds Γ) calls hands) :
    (calls.filterMap (given Γ)).length ≤ hands.reduceOption.length := by
  induction h with
  | nil => exact Nat.le_refl 0
  | @cons call hand calls hands hh _ ih =>
    cases hand with
    | none =>
      rw [List.filterMap_cons_none (given_of_holds_none hh), List.reduceOption_cons_of_none]
      exact ih
    | some f =>
      rw [List.reduceOption_cons_of_some, List.length_cons]
      cases hg : given Γ call with
      | none =>
        rw [List.filterMap_cons_none hg]
        exact Nat.le_succ_of_le ih
      | some o =>
        rw [List.filterMap_cons_some hg]
        exact Nat.succ_le_succ ih

/-- Event frames that come first among what calls were given are what the calls return first. -/
theorem given_prefix {Γ : Ctx ε υ} {calls : List (Call ε υ)} {hands : List (Option Frame)} (h : List.Forall₂ (Holds Γ) calls hands)
    {live queue : List Frame} (hlive : ∀ f ∈ live, endsStream f = false) (hp : live <+: hands.reduceOption ++ queue) :
    live.map (comesTo Γ) <+: calls.filterMap (given Γ) ++ queue.map (comesTo Γ) := by
  induction h generalizing live with
  | nil => exact hp.map _
  | @cons call hand calls hands hh _ ih =>
    cases hand with
    | none =>
      rw [List.reduceOption_cons_of_none] at hp
      rw [List.filterMap_cons_none (given_of_holds_none hh)]
      exact ih hlive hp
    | some f =>
      rw [List.reduceOption_cons_of_some, List.cons_append] at hp
      cases live with
      | nil => exact List.nil_prefix
      | cons g live =>
        obtain ⟨rfl, hrest⟩ := List.cons_prefix_cons.1 hp
        rw [List.filterMap_cons_some (given_of_holds_some hh (hlive g List.mem_cons_self))]
        exact List.cons_prefix_cons.2 ⟨rfl, ih (fun f hf => hlive f (List.mem_cons_of_mem g hf)) hrest⟩

/-- The frames that calls were given, and then those in the sink, are the event frames and, once the stream is over, others after them. -/
def InOrder (frames arrived : List Frame) : Prop := ∃ others, frames = eventFrames arrived ++ others ∧ (¬Over arrived → others = [])

theorem event_of_mem {arrived : List Frame} {f : Frame} (hf : f ∈ eventFrames arrived) : endsStream f = false := by
  have := List.mem_takeWhile_imp hf
  simpa using this

theorem eventFrames_of_not_over {arrived : List Frame} (h : ¬Over arrived) : eventFrames arrived = arrived := by
  refine List.takeWhile_eq_self_iff.2 ?_
  intro f hf
  cases he : endsStream f with
  | true => exact absurd ⟨f, hf, he⟩ h
  | false => rfl

theorem eventFrames_append_of_over {arrived : List Frame} (h : Over arrived) (frames : List Frame) :
    eventFrames (arrived ++ frames) = eventFrames arrived := by
  unfold eventFrames
  rw [List.takeWhile_append, if_neg]
  intro hlen
  obtain ⟨f, hf, he⟩ := h
  rw [← (List.takeWhile_prefix _).eq_of_length hlen] at hf
  have := event_of_mem hf
  rw [he] at this
  cases this

theorem Over.append {arrived : List Frame} (h : Over arrived) (frames : List Frame) : Over (arrived ++ frames) := by
  obtain ⟨f, hf, he⟩ := h
  exact ⟨f, List.mem_append_left frames hf, he⟩

theorem over_concat {f : Frame} (hf : endsStream f = true) (arrived : List Frame) : Over (arrived ++ [f]) :=
  ⟨f, List.mem_append_right arrived (List.mem_singleton.2 rfl), hf⟩

theorem eventFrames_concat_of_ends {arrived : List Frame} {f : Frame} (hf : endsStream f = true) :
    eventFrames (arrived ++ [f]) = eventFrames arrived := by
  by_cases h : Over arrived
  · exact eventFrames_append_of_over h [f]
  · unfold eventFrames
    rw [List.takeWhile_append, List.takeWhile_cons_of_neg (by simp [hf]), List.append_nil, ite_eq_right_iff]
    exact fun _ => (eventFrames_of_not_over h).symm

/-- An event frame more. -/
theorem eventFrames_concat {arrived : List Frame} {f : Frame} (h : ¬Over arrived) (hf : endsStream f = false) :
    eventFrames (arrived ++ [f]) = arrived ++ [f] := by
  refine eventFrames_of_not_over ?_
  rintro ⟨g, hg, he⟩
  rcases List.mem_append.1 hg with hg | hg
  · exact h ⟨g, hg, he⟩
  · rw [List.mem_singleton.1 hg, hf] at he
    exact nomatch he

/-- A frame that reaches the sink or a call. -/
theorem InOrder.concat {frames arrived : List Frame} (h : InOrder frames arrived) (f : Frame) :
    InOrder (frames ++ [f]) (arrived ++ [f]) := by
  obtain ⟨others, heq, hnot⟩ := h
  by_cases ho : Over arrived
  · refine ⟨others ++ [f], ?_, fun hno => absurd (ho.append [f]) hno⟩
    rw [eventFrames_append_of_over ho, heq, List.append_assoc]
  · obtain rfl := hnot ho
    rw [List.append_nil, eventFrames_of_not_over ho] at heq
    cases hf : endsStream f with
    | true =>
      refine ⟨[f], ?_, fun hno => absurd (over_concat hf arrived) hno⟩
      rw [eventFrames_concat_of_ends hf, eventFrames_of_not_over ho, heq]
    | false =>
      refine ⟨[], ?_, fun _ => rfl⟩
      rw [eventFrames_concat ho hf, heq, List.append_nil]

/-- A frame that reaches neither, which is no event frame of the stream. -/
theorem InOrder.lost {frames arrived : List Frame} (h : InOrder frames arrived) {f : Frame} (hf : endsStream f = true ∨ Over arrived) :
    InOrder frames (arrived ++ [f]) ∧ eventFrames (arrived ++ [f]) = eventFrames arrived := by
  obtain ⟨others, heq, -⟩ := h
  have hkeep : eventFrames (arrived ++ [f]) = eventFrames arrived := by
    rcases hf with hf | ho
    · exact eventFrames_concat_of_ends hf
    · exact eventFrames_append_of_over ho [f]
  have hover : Over (arrived ++ [f]) := hf.elim (fun hf => over_concat hf arrived) (fun ho => ho.append [f])
  exact ⟨⟨others, heq.trans (by rw [hkeep]), fun hno => absurd hover hno⟩, hkeep⟩

/-! ### Where a calm subscription stands -/

/-- Where the subscription `sub` stands, whose connection's calls were given the frames `hands`. -/
structure Stands (Γ : Ctx ε υ) (s : Session ε υ) (sub : Call ε υ) (hands : List (Option Frame)) : Prop where
  first : s.conn.calls[0]? = some sub
  opened : sub.pc = .opened
  id : sub.streamId = subscriptionId
  alive : sub.sink.failure = none
  route : s.conn.routes.lookup subscriptionId = if sub.ended then none else some 0
  verbs : ∀ call ∈ s.conn.calls, call.pc = .opened ∨ call.args.verb = .nextEvent 0
  shown : List.Forall₂ (Holds Γ) s.conn.calls hands
  order : InOrder (hands.reduceOption ++ sub.sink.frames) s.arrived
  ended : sub.ended = true → eventFrames s.arrived <+: hands.reduceOption
  waiter : ∀ w, sub.sink.waiter = some w → sub.sink.frames = [] ∧ ∀ hand ∈ hands.drop w, hand = none

theorem Stands.kept {Γ : Ctx ε υ} {s : Session ε υ} {sub : Call ε υ} {hands : List (Option Frame)} (h : Stands Γ s sub hands) :
    Kept Γ s := by
  refine given_prefix h.shown (fun f hf => event_of_mem hf) ?_
  rw [Session.queue_eq h.first]
  cases he : sub.ended with
  | true => exact (h.ended he).trans (List.prefix_append _ _)
  | false =>
    obtain ⟨others, heq, -⟩ := h.order
    exact ⟨others, heq.symm⟩

/-- What the sink holds is nothing that a call shows. -/
theorem Stands.shown_sink {Γ : Ctx ε υ} {s : Session ε υ} {sub : Call ε υ} {hands : List (Option Frame)} (h : Stands Γ s sub hands)
    (k : StreamSink) : List.Forall₂ (Holds Γ) (s.conn.calls.set 0 { sub with sink := k }) hands := by
  refine forall₂_set_left h.shown h.first ?_
  exact fun hand hh => hh.congr rfl

/-- A frame that reaches a call that waits. -/
theorem settleWaiter_awaiting {calls : List (Call ε υ)} {w : Nat} {call : Call ε υ} (hc : calls[w]? = some call)
    (hpc : call.pc = .awaiting) (f : Frame) : settleWaiter calls (some w) (.ok f) = calls.set w { call with pc := .got f } := by
  refine (modify_of_some hc _).trans ?_
  unfold Call.settle
  rw [hpc]

/-- A frame for a call that no longer waits. -/
theorem settleWaiter_timedOut {calls : List (Call ε υ)} {w : Nat} (hc : ∀ call, calls[w]? = some call → call.pc ≠ .awaiting) (f : Frame) :
    settleWaiter calls (some w) (.ok f) = calls := by
  cases hw : calls[w]? with
  | none => exact modify_of_none hw _
  | some call =>
    have hsettle : call.settle (.ok f) = call := by
      unfold Call.settle
      cases hpc : call.pc with
      | awaiting => exact absurd hpc (hc call hw)
      | _ => rfl
    refine (modify_of_some hw _).trans ?_
    rw [hsettle]
    obtain ⟨hlt, rfl⟩ := List.getElem?_eq_some_iff.1 hw
    exact List.set_getElem_self hlt

/-- The frame reaches the sink as long as the stream is not marked as ended. -/
theorem Stands.dispatch {Γ : Ctx ε υ} {s : Session ε υ} {sub : Call ε υ} {hands : List (Option Frame)} (h : Stands Γ s sub hands)
    {f : Frame} (hid : f.streamId = subscriptionId) :
    s.conn.dispatch f =
      if sub.ended then s.conn
      else { s.conn with
        calls := settleWaiter (s.conn.calls.set 0 { sub with sink := (sub.sink.push f).1 }) (sub.sink.push f).2 (.ok f) } := by
  unfold State.dispatch
  rw [hid, h.route]
  by_cases he : sub.ended = true
  · rw [if_pos he, if_pos he]
  · rw [if_neg he, if_neg he]
    simp only [h.first]

/-- A frame for a promise that no call awaits. -/
theorem Stands.settle_timedOut {Γ : Ctx ε υ} {s : Session ε υ} {sub : Call ε υ} {hands : List (Option Frame)} (h : Stands Γ s sub hands)
    {w : Nat} (hnot : ∀ call, s.conn.calls[w]? = some call → call.pc ≠ .awaiting) (k : StreamSink) (f : Frame) :
    settleWaiter (s.conn.calls.set 0 { sub with sink := k }) (some w) (.ok f) = s.conn.calls.set 0 { sub with sink := k } := by
  refine settleWaiter_timedOut ?_ f
  intro call hcall hpc
  rw [getElem?_set_of_some h.first] at hcall
  split at hcall
  · obtain rfl := Option.some.inj hcall
    exact nomatch h.opened.symm.trans hpc
  · exact hnot call hcall hpc

/-- The state after a frame that neither the sink nor a call keeps. -/
theorem Stands.frame_lost {Γ : Ctx ε υ} {s s' : Session ε υ} {sub sub' : Call ε υ} {hands : List (Option Frame)}
    (h : Stands Γ s sub hands) {f : Frame} (hf : endsStream f = true ∨ Over s.arrived) (harrived : s'.arrived = s.arrived ++ [f])
    (hroutes : s'.conn.routes = s.conn.routes) (hcalls : s'.conn.calls = s.conn.calls.set 0 sub')
    (hsub : sub' = sub ∨ sub' = { sub with sink := { sub.sink with waiter := none } }) : Stands Γ s' sub' hands := by
  obtain ⟨horder, hevents⟩ := h.order.lost hf
  have hsame : sub'.pc = sub.pc ∧ sub'.args = sub.args ∧ sub'.streamId = sub.streamId ∧ sub'.ended = sub.ended ∧
      sub'.sink.failure = sub.sink.failure ∧ sub'.sink.frames = sub.sink.frames := by
    rcases hsub with rfl | rfl <;> simp
  obtain ⟨hpc, hargs, hid, hended, hfail, hframes⟩ := hsame
  refine ⟨?_, hpc.trans h.opened, hid.trans h.id, hfail.trans h.alive, ?_, ?_, ?_, ?_, ?_, ?_⟩
  · rw [hcalls]
    exact getElem?_set_self_of_some h.first sub'
  · rw [hroutes, hended]
    exact h.route
  · intro call hcall
    rw [hcalls] at hcall
    rcases List.mem_or_eq_of_mem_set hcall with hcall | rfl
    · exact h.verbs call hcall
    · exact .inl (hpc.trans h.opened)
  · rw [hcalls]
    exact forall₂_set_left h.shown h.first (fun hand hh => hh.congr hpc)
  · rw [harrived, hframes]
    exact horder
  · intro he
    rw [harrived, hevents]
    exact h.ended (hended.symm.trans he)
  · intro w hw
    rcases hsub with rfl | rfl
    · exact h.waiter w hw
    · cases hw

/-- A frame that no promise waits for is left in the sink. -/
theorem Stands.frame_queued {Γ : Ctx ε υ} {s : Session ε υ} {sub : Call ε υ} {hands : List (Option Frame)} (h : Stands Γ s sub hands)
    (he : sub.ended = false) (hw : sub.sink.waiter = none) (f : Frame) :
    Stands Γ
      { conn := { s.conn with calls := s.conn.calls.set 0 { sub with sink := { sub.sink with frames := sub.sink.frames ++ [f] } } }
        arrived := s.arrived ++ [f] }
      { sub with sink := { sub.sink with frames := sub.sink.frames ++ [f] } } hands where
  first := getElem?_set_self_of_some h.first _
  opened := h.opened
  id := h.id
  alive := h.alive
  route := h.route
  verbs := by
    intro call hcall
    rcases List.mem_or_eq_of_mem_set hcall with hcall | rfl
    · exact h.verbs call hcall
    · exact .inl h.opened
  shown := h.shown_sink _
  order := by
    dsimp only
    rw [← List.append_assoc]
    exact h.order.concat f
  ended := fun he' => nomatch he.symm.trans he'
  waiter := by
    intro w hw'
    exact nomatch hw.symm.trans hw'

/-- A frame that the promise of a call waits for is given to that call. -/
theorem Stands.frame_given {Γ : Ctx ε υ} {s : Session ε υ} {sub : Call ε υ} {hands : List (Option Frame)} (h : Stands Γ s sub hands)
    (he : sub.ended = false) {w : Nat} (hw : sub.sink.waiter = some w) {call : Call ε υ} (hc : s.conn.calls[w]? = some call)
    (hpc : call.pc = .awaiting) (f : Frame) :
    Stands Γ
      { conn := { s.conn with
          calls := (s.conn.calls.set 0 { sub with sink := { sub.sink with waiter := none } }).set w { call with pc := .got f } }
        arrived := s.arrived ++ [f] }
      { sub with sink := { sub.sink with waiter := none } } (hands.set w (some f)) := by
  obtain ⟨hempty, hlast⟩ := h.waiter w hw
  have hne : 0 ≠ w := by
    rintro rfl
    obtain rfl := Option.some.inj (hc.symm.trans h.first)
    exact nomatch hpc.symm.trans h.opened
  have hlt : w < hands.length := by
    rw [← h.shown.length_eq]
    exact (List.getElem?_eq_some_iff.1 hc).1
  refine ⟨?_, h.opened, h.id, h.alive, h.route, ?_, ?_, ?_, (fun he' => nomatch he.symm.trans he'), nofun⟩
  · dsimp only
    rw [List.getElem?_set_ne hne.symm]
    exact getElem?_set_self_of_some h.first _
  · intro call' hcall
    rcases List.mem_or_eq_of_mem_set hcall with hcall | rfl
    · rcases List.mem_or_eq_of_mem_set hcall with hcall | rfl
      · exact h.verbs call' hcall
      · exact .inl h.opened
    · have hverb := h.verbs call (List.mem_of_getElem? hc)
      exact .inr (hverb.resolve_left (fun ho => nomatch hpc.symm.trans ho))
  · have hgot : Holds Γ { call with pc := .got f } (some f) := .got rfl
    exact forall₂_set (h.shown_sink _) hgot w
  · have horder := h.order.concat f
    rw [hempty, List.append_nil] at horder
    dsimp only
    rw [reduceOption_set hlt hlast, hempty, List.append_nil]
    exact horder

/-- A frame comes. -/
theorem Stands.frame {Γ : Ctx ε υ} {s : Session ε υ} {sub : Call ε υ} {hands : List (Option Frame)} (h : Stands Γ s sub hands)
    {f : Frame} (hid : f.streamId = subscriptionId) (hc : Calm Γ s (.frame f)) :
    ∃ sub' hands', Stands Γ { conn := s.conn.dispatch f, arrived := s.arrived ++ [f] } sub' hands' := by
  have hhead : s.conn.calls.head? = some sub := List.head?_eq_getElem?.trans h.first
  have hself : s.conn.calls.set 0 sub = s.conn.calls := by
    obtain ⟨hlt, rfl⟩ := List.getElem?_eq_some_iff.1 h.first
    exact List.set_getElem_self hlt
  cases he : sub.ended with
  | true =>
    have hover : endsStream f = true ∨ Over s.arrived := by
      rcases hc with hf | ho | hc
      · exact .inl hf
      · exact .inr ho
      · cases he.symm.trans (hc sub hhead).1
    refine ⟨sub, hands, h.frame_lost hover rfl ?_ ?_ (.inl rfl)⟩
    · dsimp only
      rw [h.dispatch hid, if_pos he]
    · dsimp only
      rw [h.dispatch hid, if_pos he, hself]
  | false =>
    have hdispatch := h.dispatch hid
    rw [if_neg (by rw [he]; simp)] at hdispatch
    rw [hdispatch]
    cases hw : sub.sink.waiter with
    | none =>
      have hpush : sub.sink.push f = ({ sub.sink with frames := sub.sink.frames ++ [f] }, none) := by simp only [StreamSink.push, hw]
      rw [hpush]
      exact ⟨_, hands, h.frame_queued he hw f⟩
    | some w =>
      have hpush : sub.sink.push f = ({ sub.sink with waiter := none }, some w) := by simp only [StreamSink.push, hw]
      rw [hpush]
      by_cases hawait : ∃ call, s.conn.calls[w]? = some call ∧ call.pc = .awaiting
      · obtain ⟨call, hcall, hpc⟩ := hawait
        have hne : w ≠ 0 := by
          rintro rfl
          obtain rfl := Option.some.inj (hcall.symm.trans h.first)
          cases hpc.symm.trans h.opened
        rw [settleWaiter_awaiting ((List.getElem?_set_ne hne.symm).trans hcall) hpc]
        exact ⟨_, _, h.frame_given he hw hcall hpc f⟩
      · have hover : endsStream f = true ∨ Over s.arrived := by
          rcases hc with hf | ho | hc
          · exact .inl hf
          · exact .inr ho
          · exact absurd ((hc sub hhead).2 w hw) hawait
        refine ⟨_, hands, h.frame_lost hover rfl rfl ?_ (.inr rfl)⟩
        exact h.settle_timedOut (fun call hcall hpc => hawait ⟨call, hcall, hpc⟩) _ f

/-- A call of `nextEvent` more, which was given `hand`, leaves the sink at `k`. -/
theorem Stands.called {Γ : Ctx ε υ} {s : Session ε υ} {sub : Call ε υ} {hands : List (Option Frame)} (h : Stands Γ s sub hands)
    {k : StreamSink} {call : Call ε υ} {hand : Option Frame} (halive : k.failure = none) (hverb : call.args.verb = .nextEvent 0)
    (hhand : Holds Γ call hand) (hframes : hand.toList ++ k.frames = sub.sink.frames) (hended : sub.ended = true → hand = none)
    (hwaiter : ∀ w, k.waiter = some w → k.frames = [] ∧ ∀ x ∈ (hands ++ [hand]).drop w, x = none) :
    Stands Γ { s with conn := { s.conn with calls := s.conn.calls.set 0 { sub with sink := k } ++ [call] } } { sub with sink := k }
      (hands ++ [hand]) := by
  have hfirst := getElem?_set_self_of_some h.first { sub with sink := k }
  refine ⟨?_, h.opened, h.id, halive, h.route, ?_, ?_, ?_, ?_, hwaiter⟩
  · dsimp only
    rw [List.getElem?_append_left (List.getElem?_eq_some_iff.1 hfirst).1]
    exact hfirst
  · intro call' hcall
    rcases List.mem_append.1 hcall with hcall | hcall
    · rcases List.mem_or_eq_of_mem_set hcall with hcall | rfl
      · exact h.verbs call' hcall
      · exact .inl h.opened
    · rw [List.mem_singleton.1 hcall]
      exact .inr hverb
  · exact List.rel_append (h.shown_sink k) (.cons hhand .nil)
  · dsimp only
    rw [List.reduceOption_append, List.reduceOption_singleton, List.append_assoc, hframes]
    exact h.order
  · intro he
    rw [List.reduceOption_append, hended he]
    exact (h.ended he).trans (List.prefix_append _ _)

/-- A call of `nextEvent`. -/
theorem Stands.nextEvent {Γ : Ctx ε υ} {s s' : Session ε υ} {sub : Call ε υ} {hands : List (Option Frame)} (h : Stands Γ s sub hands)
    (hst : step Γ s .nextEvent = some s') : ∃ sub' hands', Stands Γ s' sub' hands' := by
  have hself : s.conn.calls.set 0 sub = s.conn.calls := by
    obtain ⟨hlt, rfl⟩ := List.getElem?_eq_some_iff.1 h.first
    exact List.set_getElem_self hlt
  simp only [step, TypeScript.step, h.first, Option.bind_some, h.opened, Option.map_some, Option.some.injEq] at hst
  subst hst
  have hverb : ∀ pc, (Call.begin ⟨.nextEvent 0, 0, [], none⟩ handshakeStreamId s.conn.taken pc : Call ε υ).args.verb = .nextEvent 0 :=
    fun _ => rfl
  unfold State.beginNextEvent
  by_cases he : sub.ended = true
  · rw [if_pos he]
    have hcalled := h.called (k := sub.sink) h.alive (hverb (.done .null)) (.null rfl) rfl (fun _ => rfl) (by
      intro w hw
      obtain ⟨hempty, hlast⟩ := h.waiter w hw
      refine ⟨hempty, ?_⟩
      intro x hx
      rw [List.drop_append] at hx
      rcases List.mem_append.1 hx with hx | hx
      · exact hlast x hx
      · exact List.mem_singleton.1 (List.mem_of_mem_drop hx))
    rw [hself] at hcalled
    exact ⟨_, _, hcalled⟩
  · rw [if_neg he]
    cases hq : sub.sink.frames with
    | cons f rest =>
      have hnext : sub.sink.next s.conn.calls.length = ({ sub.sink with frames := rest }, some (.ok f)) := by
        simp only [StreamSink.next, hq]
      rw [hnext]
      refine ⟨_, _, h.called (k := { sub.sink with frames := rest }) h.alive (hverb (.got f)) (.got rfl) hq.symm
        (fun he' => absurd he' he) ?_⟩
      intro w hw
      exact nomatch hq.symm.trans (h.waiter w hw).1
    | nil =>
      have hnext : sub.sink.next s.conn.calls.length = ({ sub.sink with waiter := some s.conn.calls.length }, none) := by
        simp only [StreamSink.next, hq, h.alive]
      rw [hnext]
      refine ⟨_, _, h.called (k := { sub.sink with waiter := some s.conn.calls.length }) h.alive (hverb .awaiting) (.awaiting rfl) rfl
        (fun _ => rfl) ?_⟩
      rintro w ⟨⟩
      refine ⟨hq, ?_⟩
      intro x hx
      rw [h.shown.length_eq, List.drop_left] at hx
      exact List.mem_singleton.1 hx

/-- A call of `nextEvent` that goes on, without a frame more. -/
theorem Stands.moved {Γ : Ctx ε υ} {s : Session ε υ} {sub : Call ε υ} {hands : List (Option Frame)} (h : Stands Γ s sub hands)
    {c : Nat} {call : Call ε υ} (hc : s.conn.calls[c]? = some call) (hne : call.pc ≠ .opened) {pc : Pc ε υ}
    (hhand : ∀ hand, hands[c]? = some hand → Holds Γ { call with pc := pc } hand) :
    Stands Γ { s with conn := s.conn.setCall c { call with pc := pc } } sub hands := by
  have hc0 : c ≠ 0 := by
    rintro rfl
    obtain rfl := Option.some.inj (hc.symm.trans h.first)
    exact hne h.opened
  refine ⟨?_, h.opened, h.id, h.alive, h.route, ?_, ?_, h.order, h.ended, h.waiter⟩
  · exact (List.getElem?_set_ne hc0).trans h.first
  · intro call' hcall
    rcases List.mem_or_eq_of_mem_set hcall with hcall | rfl
    · exact h.verbs call' hcall
    · exact .inr ((h.verbs call (List.mem_of_getElem? hc)).resolve_left hne)
  · obtain ⟨hand, hat, -⟩ := forall₂_getElem? h.shown hc
    have hset := forall₂_set h.shown (hhand hand hat) c
    obtain ⟨hlt, rfl⟩ := List.getElem?_eq_some_iff.1 hat
    rw [List.set_getElem_self hlt] at hset
    exact hset

/-- The stream is marked as ended once a call has every event frame that came. -/
theorem Stands.marked {Γ : Ctx ε υ} {s : Session ε υ} {sub : Call ε υ} {hands : List (Option Frame)} (h : Stands Γ s sub hands)
    (hall : eventFrames s.arrived <+: hands.reduceOption) :
    Stands Γ
      { s with conn := { s.conn.setCall 0 { sub with ended := true } with routes := s.conn.routes.erase subscriptionId } }
      { sub with ended := true } hands where
  first := getElem?_set_self_of_some h.first _
  opened := h.opened
  id := h.id
  alive := h.alive
  route := AList.lookup_erase subscriptionId s.conn.routes
  verbs := by
    intro call' hcall
    rcases List.mem_or_eq_of_mem_set hcall with hcall | rfl
    · exact h.verbs call' hcall
    · exact .inl h.opened
  shown := forall₂_set_left h.shown h.first (fun _ hh => hh.congr rfl)
  order := h.order
  ended := fun _ => hall
  waiter := h.waiter

/-- A timer fires. -/
theorem Stands.timeout {Γ : Ctx ε υ} {s s' : Session ε υ} {sub : Call ε υ} {hands : List (Option Frame)} (h : Stands Γ s sub hands)
    {c : Nat} (hst : step Γ s (.timeout c) = some s') : Stands Γ s' sub hands := by
  obtain ⟨conn, hconn, rfl⟩ := Option.map_eq_some_iff.1 hst
  obtain ⟨call, hc, hcall⟩ := Option.bind_eq_some_iff.1 hconn
  split at hcall
  · rename_i d hpc _
    cases hcall
    refine h.moved hc (fun ho => nomatch hpc.symm.trans ho) ?_
    intro hand hat
    obtain ⟨hand', hat', hh⟩ := forall₂_getElem? h.shown hc
    obtain rfl := Option.some.inj (hat.symm.trans hat')
    obtain rfl := hh.of_awaiting hpc
    exact .threw rfl
  · cases hcall

/-- A call of `nextEvent` whose wait is over leaves the stream as it is, or marks it as ended. -/
theorem Stands.endNextEvent {Γ : Ctx ε υ} {s : Session ε υ} {sub : Call ε υ} {hands : List (Option Frame)} (h : Stands Γ s sub hands)
    {c : Nat} {call : Call ε υ} (hc : s.conn.calls[c]? = some call) {r : Except Thrown Frame} (hne : call.pc ≠ .opened)
    (hhand : ∀ hand, hands[c]? = some hand → Holds Γ { call with pc := .done (nextEventResult Γ r).2 } hand)
    (hall : (nextEventResult Γ r).1 = true → eventFrames s.arrived <+: hands.reduceOption) :
    ∃ sub', Stands Γ { s with conn := s.conn.endNextEvent Γ c 0 call r } sub' hands := by
  have hmoved := h.moved hc hne hhand
  unfold State.endNextEvent
  dsimp only
  rw [show (s.conn.setCall c { call with pc := .done (nextEventResult Γ r).2 }).calls[0]? = some sub from hmoved.first]
  cases hres : (nextEventResult Γ r).1 with
  | false => exact ⟨sub, hmoved⟩
  | true =>
    have hmarked := hmoved.marked (hall hres)
    rw [← h.id] at hmarked
    exact ⟨_, hmarked⟩

/-- A call goes on. -/
theorem Stands.resume {Γ : Ctx ε υ} {s s' : Session ε υ} {sub : Call ε υ} {hands : List (Option Frame)} (h : Stands Γ s sub hands)
    {c : Nat} (hcalm : Calm Γ s (.resume c)) (hst : step Γ s (.resume c) = some s') : ∃ sub', Stands Γ s' sub' hands := by
  obtain ⟨conn, hconn, rfl⟩ := Option.map_eq_some_iff.1 hst
  obtain ⟨call, hc, hcall⟩ := Option.bind_eq_some_iff.1 hconn
  obtain ⟨hand, hat, hh⟩ := forall₂_getElem? h.shown hc
  obtain ⟨others, horder, -⟩ := h.order
  have hverb := h.verbs call (List.mem_of_getElem? hc)
  cases hpc : call.pc with
  | got f =>
    rw [hpc] at hverb
    simp only [State.resume, hpc, hverb.resolve_left (by simp), Option.some.injEq] at hcall
    subst hcall
    obtain rfl := hh.of_got hpc
    refine h.endNextEvent hc (by rw [hpc]; simp) ?_ ?_
    · intro hand hat'
      obtain rfl := Option.some.inj (hat.symm.trans hat')
      exact .returned rfl
    · -- the frame that ends the stream comes after the event frames
      intro hends
      rw [nextEventResult_fst] at hends
      have hmem : f ∈ hands.reduceOption := List.reduceOption_mem_iff.2 (List.mem_of_getElem? hat)
      obtain ⟨before, after, hsplit⟩ := List.append_of_mem hmem
      have hp : eventFrames s.arrived <+: before ++ f :: (after ++ sub.sink.frames) := by
        rw [← List.cons_append, ← List.append_assoc, ← hsplit]
        exact ⟨others, horder.symm⟩
      have hnot : f ∉ eventFrames s.arrived := by
        intro hf
        cases hends.symm.trans (event_of_mem hf)
      rw [hsplit]
      exact (prefix_of_not_mem hp hnot).trans (List.prefix_append _ _)
  | threw e =>
    rw [hpc] at hverb
    simp only [State.resume, hpc, hverb.resolve_left (by simp), Option.some.injEq] at hcall
    subst hcall
    obtain ⟨rfl, d, rfl⟩ := hh.of_threw hpc
    refine h.endNextEvent hc (by rw [hpc]; simp) ?_ ?_
    · intro hand hat'
      obtain rfl := Option.some.inj (hat.symm.trans hat')
      exact .timedOut rfl
    · intro _
      refine List.prefix_of_prefix_length_le ⟨others, horder.symm⟩ (List.prefix_append _ _) ?_
      exact (hcalm call _ hc hpc).trans (given_length_le h.shown)
  | written => cases hh <;> rename_i hpc' <;> cases hpc.symm.trans hpc'
  | _ => simp [State.resume, hpc] at hcall

theorem stands_init (Γ : Ctx ε υ) (m : Nat) (payload bytes : Bytes) :
    Stands Γ (init m payload bytes) (opened payload) [none] where
  first := rfl
  opened := rfl
  id := rfl
  alive := rfl
  route := rfl
  verbs := by
    intro call hcall
    rw [List.mem_singleton.1 hcall]
    exact .inl rfl
  shown := .cons (.opened rfl) .nil
  order := ⟨[], rfl, fun _ => rfl⟩
  ended := nofun
  waiter := nofun

/-- One step of a calm subscription. -/
theorem Stands.stepped {Γ : Ctx ε υ} {s s' : Session ε υ} {sub : Call ε υ} {hands : List (Option Frame)} (h : Stands Γ s sub hands)
    {a : Action} (hc : Calm Γ s a) (hst : step Γ s a = some s') : ∃ sub' hands', Stands Γ s' sub' hands' := by
  cases a with
  | frame f =>
    simp only [Subscribed.step, Option.ite_none_right_eq_some, Option.some.injEq] at hst
    obtain ⟨hid, rfl⟩ := hst
    exact h.frame hid hc
  | nextEvent => exact h.nextEvent hst
  | timeout c => exact ⟨sub, hands, h.timeout hst⟩
  | resume c =>
    obtain ⟨sub', h'⟩ := h.resume hc hst
    exact ⟨sub', hands, h'⟩

theorem stands_of_meets {Γ : Ctx ε υ} {m : Nat} {payload bytes : Bytes} {tr : List Action} {s : Session ε υ}
    (hr : (machine Γ m payload bytes).Runs tr s) (hm : (machine Γ m payload bytes).Meets (Calm Γ) tr) :
    ∃ sub hands, Stands Γ s sub hands := by
  refine Machine.Runs.rec_on_meets (C := Calm Γ) (P := fun _ s => ∃ sub hands, Stands Γ s sub hands) ?_ ?_ hr hm
  · exact ⟨_, _, stands_init Γ m payload bytes⟩
  · rintro tr s a s' - ⟨sub, hands, h⟩ hc hst
    exact h.stepped hc hst

/-- Of the frames that came, calls have at most those they were given, and the sink those it holds. -/
theorem not_kept_of_lt {Γ : Ctx ε υ} {s : Session ε υ}
    (h : (s.conn.calls.filterMap (given Γ)).length + s.queue.length < (eventFrames s.arrived).length) : ¬Kept Γ s := by
  intro hk
  have := hk.length_le
  simp only [List.length_map, List.length_append] at this
  omega

/-- An event frame that is neither given to a call nor left in the sink. -/
theorem Stands.frame_dropped {Γ : Ctx ε υ} {s : Session ε υ} {sub : Call ε υ} {hands : List (Option Frame)} (h : Stands Γ s sub hands)
    {f : Frame} (hid : f.streamId = subscriptionId) (hc : ¬Calm Γ s (.frame f)) :
    ¬Kept Γ { conn := s.conn.dispatch f, arrived := s.arrived ++ [f] } := by
  have hhead : s.conn.calls.head? = some sub := List.head?_eq_getElem?.trans h.first
  unfold Calm at hc
  push Not at hc
  obtain ⟨hf, hover, sub', hsub', hwait⟩ := hc
  obtain rfl := Option.some.inj (hhead.symm.trans hsub')
  replace hf := Bool.eq_false_iff.2 hf
  obtain ⟨others, horder, hothers⟩ := h.order
  rw [hothers hover, List.append_nil, eventFrames_of_not_over hover] at horder
  have hlength : hands.reduceOption.length + sub.sink.frames.length = s.arrived.length := by rw [← horder, List.length_append]
  apply not_kept_of_lt
  dsimp only
  rw [eventFrames_concat hover hf, List.length_append, List.length_singleton]
  by_cases he : sub.ended = true
  · rw [h.dispatch hid, if_pos he]
    have hgiven := given_length_le h.shown
    have hqueue : Session.queue { conn := s.conn, arrived := s.arrived ++ [f] } = [] := (Session.queue_eq h.first).trans (if_pos he)
    rw [hqueue, List.length_nil]
    omega
  · obtain ⟨w, hw, hnot⟩ := hwait (Bool.eq_false_iff.2 he)
    have hpush : sub.sink.push f = ({ sub.sink with waiter := none }, some w) := by simp only [StreamSink.push, hw]
    rw [h.dispatch hid, if_neg he, hpush, h.settle_timedOut hnot]
    have hgiven := given_length_le (h.shown_sink { sub.sink with waiter := none })
    have hfirst := getElem?_set_self_of_some h.first { sub with sink := { sub.sink with waiter := none } }
    rw [Session.queue_eq hfirst, if_neg he, ← hlength]
    exact Nat.lt_succ_of_le (Nat.add_le_add hgiven (Nat.le_refl _))

/-- A call that timed out ends the stream before a call has every event frame that came. -/
theorem Stands.ended_early {Γ : Ctx ε υ} {s s' : Session ε υ} {sub : Call ε υ} {hands : List (Option Frame)} (h : Stands Γ s sub hands)
    {c : Nat} (hst : step Γ s (.resume c) = some s') (hc : ¬Calm Γ s (.resume c)) : ¬Kept Γ s' := by
  unfold Calm at hc
  push Not at hc
  obtain ⟨call, e, hcall, hpc, hlt⟩ := hc
  obtain ⟨conn, hconn, rfl⟩ := Option.map_eq_some_iff.1 hst
  obtain ⟨call', hcall', hresume⟩ := Option.bind_eq_some_iff.1 hconn
  obtain rfl := Option.some.inj (hcall.symm.trans hcall')
  obtain ⟨hand, -, hh⟩ := forall₂_getElem? h.shown hcall
  obtain ⟨-, d, rfl⟩ := hh.of_threw hpc
  have hverb := h.verbs call (List.mem_of_getElem? hcall)
  rw [hpc] at hverb
  simp only [State.resume, hpc, hverb.resolve_left nofun, Option.some.injEq] at hresume
  have hne : c ≠ 0 := by
    rintro rfl
    obtain rfl := Option.some.inj (hcall.symm.trans h.first)
    exact nomatch hpc.symm.trans h.opened
  have hfirst : (s.conn.setCall c { call with pc := .done (.rejected (.brainTimeout d)) }).calls[0]? = some sub :=
    (List.getElem?_set_ne hne).trans h.first
  have hmarked : s.conn.endNextEvent Γ c 0 call (.error (.brainTimeout d)) =
      { (s.conn.setCall c { call with pc := .done (.rejected (.brainTimeout d)) }).setCall 0 { sub with ended := true } with
        routes := s.conn.routes.erase sub.streamId } := by
    simp only [State.endNextEvent, nextEventResult, hfirst]
    rfl
  rw [hmarked] at hresume
  subst hresume
  have hgiven : ((s.conn.calls.set c { call with pc := .done (.rejected (.brainTimeout d)) }).set 0
      { sub with ended := true }).filterMap (given Γ) = s.conn.calls.filterMap (given Γ) := by
    have hsame : given Γ { sub with ended := true } = given Γ sub := rfl
    refine (filterMap_set_of_some hfirst hsame).trans (filterMap_set_of_some hcall ?_)
    simp only [given, hpc]
  apply not_kept_of_lt
  rw [Session.queue_eq (getElem?_set_self_of_some hfirst { sub with ended := true }), if_pos rfl]
  simp only [State.setCall, hgiven]
  exact hlt

/-- A connection with a deadline, whose decoder takes every payload for an event. -/
def Ctx.waiting : Ctx Unit Unit := { Ctx.refusing with requestTimeoutMs := some 1000, decodeSubscriptionEvent := fun _ => .ok () }

/-- A call times out while nothing comes, and ends the stream; the event that comes then is dropped. -/
theorem event_after_timeout_lost : ¬∀ (tr : List Action) (s : Session Unit Unit),
    (machine Ctx.waiting 100 [] []).Runs tr s → Kept Ctx.waiting s := by
  intro h
  have hk := h [.nextEvent, .timeout 1, .resume 1, .frame ⟨0x0161, 0, 1, []⟩] _ rfl
  exact absurd hk.length_le (by decide)

/-- Along every run, every event frame that came is returned by one call of `nextEvent`, in order, or left for the next ones, exactly when
an event frame comes only while the stream is not marked as ended and no call that timed out has its promise in the sink, and a call that
timed out goes on only when every event frame that came is with a call. -/
theorem kept_iff_calm {Γ : Ctx ε υ} {m : Nat} {payload bytes : Bytes} {tr : List Action} {s : Session ε υ}
    (hr : (machine Γ m payload bytes).Runs tr s) :
    (machine Γ m payload bytes).Throughout (fun _ s => Kept Γ s) tr ↔ (machine Γ m payload bytes).Meets (Calm Γ) tr := by
  refine Machine.throughout_iff_meets (B := fun _ => True) (fun _ _ _ _ h => h) ?_ ?_ hr trivial
  · intro tr s hr _ hm
    obtain ⟨sub, hands, h⟩ := stands_of_meets hr hm
    exact h.kept
  · intro tr s a s' hr hm hst _ hc
    obtain ⟨sub, hands, h⟩ := stands_of_meets hr hm
    have hst' : step Γ s a = some s' := hst
    cases a with
    | frame f =>
      simp only [step, Option.ite_none_right_eq_some, Option.some.injEq] at hst'
      obtain ⟨hid, rfl⟩ := hst'
      exact h.frame_dropped hid hc
    | nextEvent => exact absurd trivial hc
    | timeout c => exact absurd trivial hc
    | resume c => exact h.ended_early hst' hc

/-- A call waits, and its event comes. -/
theorem kept_iff_calm_in_time : (machine Ctx.waiting 100 [] []).Throughout (fun _ s => Kept Ctx.waiting s)
    [.nextEvent, .frame ⟨0x0161, 0, 1, []⟩] := by
  obtain ⟨s, hr⟩ : ∃ s, (machine Ctx.waiting 100 [] []).Runs [.nextEvent, .frame ⟨0x0161, 0, 1, []⟩] s := ⟨_, rfl⟩
  refine (kept_iff_calm hr).2 ?_
  have hnext : (machine Ctx.waiting 100 [] []).Meets (Calm Ctx.waiting) [.nextEvent] :=
    (Machine.meets_nil _).snoc (s := init 100 [] []) rfl trivial
  refine hnext.snoc rfl (.inr (.inr ?_))
  rintro sub ⟨⟩
  refine ⟨rfl, ?_⟩
  rintro w ⟨⟩
  exact ⟨_, rfl, rfl⟩

end Subscribed

end BrainSdk.TypeScript
