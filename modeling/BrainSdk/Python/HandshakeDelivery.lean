import BrainSdk.Theorems.FrameCodec
import BrainSdk.Theorems.HandshakeSafety

/-!
# The handshake when all that the peer sends is delivered

In a run in which no wait times out or is interrupted, the socket does not fail and the writes of the handshake go through, the frames
that the reader has routed to the handshake are the first of those it hears, and they alone say how the handshake ends.
-/

namespace BrainSdk.Python.Handshake

open Library Wire

variable {ω α : Type}

/-- A frame that is an acceptable WELCOME, the stream apart. -/
def Ctx.Welcome (Γ : Ctx ω α) (f : Frame) : Prop :=
  f.opcode = opWelcome ∧ ∃ w, Γ.decodeWelcome f.payload = .ok w ∧ Γ.chosenVersion w ∈ Γ.offered

/-- A frame that is an acceptable AUTH_OK, the stream apart. -/
def Ctx.AuthOk (Γ : Ctx ω α) (f : Frame) : Prop := f.opcode = opAuthOk ∧ ∃ a, Γ.decodeAuthOk f.payload = .ok a

/-- The payloads of the handshake can be written, and these two replies to them are acceptable. -/
def Ctx.Accepts (Γ : Ctx ω α) (f g : Frame) : Prop :=
  Γ.hello.length ≤ maxPayloadBytes ∧ Γ.auth.length ≤ maxPayloadBytes ∧ Γ.Welcome f ∧ Γ.AuthOk g

/-- No wait ends in this step for want of a frame, the socket is not found failing, and a write of the handshake goes through. -/
def Action.isDelivery : Action → Bool
  | .timeout | .interrupt | .readError _ | .write (some _) => false
  | _ => true

/-- The handshake has ended, or waits for a frame and the reader has none left to read. -/
def AtRest (s : State ω α) : Prop :=
  match s.pc with
  | .done _ => True
  | .awaitingWelcome | .awaitingAuthOk _ => s.queue = [] ∧ s.inbox = [] ∧ s.reader = .reading
  | _ => False

/-- A run in which all that the peer sends is delivered, to its end. -/
structure Delivered (Γ : Ctx ω α) (frames : List Frame) (tr : List Action) (s : State ω α) : Prop where
  run : (machine Γ frames).Runs tr s
  clean : ∀ a ∈ tr, a.isDelivery = true
  rest : AtRest s

/-- The frame for the handshake that the reader drops in this step, as the handshake has not been registered. -/
def dropped (s : State ω α) : Action → List Frame
  | .lookup f =>
    match s.pc with
    | .registering => if isForHandshake f then [f] else []
    | _ => []
  | _ => []

/-- The frames for the handshake that came too early for it. -/
def missed (Γ : Ctx ω α) (frames : List Frame) (tr : List Action) : List Frame :=
  (machine Γ frames).outputs dropped (State.init frames) tr

/-- The frames for the handshake that the reader finds it registered for, up to the end of the handshake. -/
def heard (Γ : Ctx ω α) (frames : List Frame) (tr : List Action) : List Frame :=
  (frames.filter isForHandshake).drop (missed Γ frames tr).length

/-- The handshake succeeds with these payloads of WELCOME and AUTH_OK. -/
def Reports (tr : List Action) (s : State ω α) (welcome authOk : Bytes) : Prop :=
  ∃ f g rest w a, routed tr = f :: g :: rest ∧ s.pc = .done (.returned w a) ∧ f.payload = welcome ∧ g.payload = authOk

/-! ### What is delivered -/

/-- The frame for the handshake that the reader has read and not yet routed. -/
def inHand : Reader → List Frame
  | .routing f => if isForHandshake f then [f] else []
  | .putting f _ => [f]
  | _ => []

/-- The frame that the reader has found the queue of the handshake for. -/
def atQueue : Reader → List Frame
  | .putting f _ => [f]
  | _ => []

/-- The handshake has removed its route. -/
def Pc.isDone : Pc ω α → Bool
  | .done _ => true
  | _ => false

/-- The handshake has a route. -/
def Pc.isRouted : Pc ω α → Bool
  | .registering | .done _ => false
  | _ => true

/-- No two frames that begin with `frames` are acceptable. -/
def Refuses (Γ : Ctx ω α) (frames : List Frame) : Prop := ∀ more f g rest, frames ++ more = f :: g :: rest → ¬Γ.Accepts f g

/-- What the handshake has got past, given the frames routed to it. -/
def Passed (Γ : Ctx ω α) (frames : List Frame) : Pc ω α → Prop
  | .registering | .writingHello => True
  | .awaitingWelcome | .writingAuth _ => Γ.hello.length ≤ maxPayloadBytes
  | .awaitingAuthOk _ | .accepting _ _ | .leaving (.returned _ _) | .done (.returned _ _) =>
    Γ.hello.length ≤ maxPayloadBytes ∧ Γ.auth.length ≤ maxPayloadBytes
  | .leaving (.raised _) | .done (.raised _) => Refuses Γ frames
  | .leaving .interrupted | .done .interrupted => False

/-- What always holds as long as all is delivered, given the frames missed and those routed. -/
structure Delivery (Γ : Ctx ω α) (frames missed routed : List Frame) (s : State ω α) : Prop where
  error : s.closedError = none
  failing : ∀ e, s.reader ≠ .failing e
  stopped : s.reader ≠ .stopped
  routes : s.pc.isRouted = true → s.routes = (∅ : Routes Nat).insert handshakeStreamId 0
  whole : s.pc.isDone = false → frames.filter isForHandshake = missed ++ routed ++ inHand s.reader ++ s.inbox.filter isForHandshake
  order : missed ++ routed ++ atQueue s.reader <+: frames.filter isForHandshake
  passed : Passed Γ routed s.pc

theorem Refuses.append {Γ : Ctx ω α} {frames : List Frame} (h : Refuses Γ frames) (more : List Frame) : Refuses Γ (frames ++ more) := by
  intro more' f g rest heq
  rw [List.append_assoc] at heq
  exact h (more ++ more') f g rest heq

theorem Passed.append {Γ : Ctx ω α} {frames : List Frame} {pc : Pc ω α} (h : Passed Γ frames pc) (more : List Frame) :
    Passed Γ (frames ++ more) pc := by
  cases pc with
  | leaving o =>
    cases o with
    | raised e => exact Refuses.append h more
    | _ => exact h
  | done o =>
    cases o with
    | raised e => exact Refuses.append h more
    | _ => exact h
  | _ => exact h

/-- A write of the handshake that goes through at the socket fails only on a payload that is too long for a frame. -/
theorem tryWrite_refuses {opcode : Nat} (ho : opcode < 2 ^ 16) {payload : Bytes} {e : Exc}
    (h : tryWrite maxPayloadBytes opcode handshakeStreamId payload none = .error e) : ¬payload.length ≤ maxPayloadBytes := by
  intro hle
  obtain ⟨bytes, hb⟩ := @encodeFrame_total opcode handshakeStreamId flagEos payload ho (by decide) (by decide) hle
  unfold tryWrite at h
  rw [if_neg (Nat.not_lt.2 hle), hb] at h
  cases h

/-- A WELCOME that is acceptable is accepted. -/
theorem welcomeOf_error {Γ : Ctx ω α} {f : Frame} {e : Exc} (h : welcomeOf Γ (.frame f) = .error e) : ¬Γ.Welcome f := by
  rintro ⟨hop, w, hdec, hin⟩
  have herr : f.opcode ≠ opError := by rw [hop]; decide
  simp only [welcomeOf, expect, if_neg herr, if_neg (not_not.2 hop), hdec, if_neg (not_not.2 hin)] at h
  cases h

/-- An AUTH_OK that is acceptable is accepted. -/
theorem authOkOf_error {Γ : Ctx ω α} {f : Frame} {e : Exc} (h : authOkOf Γ (.frame f) = .error e) : ¬Γ.AuthOk f := by
  rintro ⟨hop, a, hdec⟩
  have herr : f.opcode ≠ opError := by rw [hop]; decide
  simp only [authOkOf, expect, if_neg herr, if_neg (not_not.2 hop), hdec] at h
  cases h

theorem refuses_welcome {Γ : Ctx ω α} {f : Frame} {frames : List Frame} (h : ¬Γ.Welcome f) : Refuses Γ (f :: frames) := by
  intro more f' g rest heq hacc
  obtain ⟨rfl, -⟩ := List.cons.inj heq
  exact h hacc.2.2.1

theorem refuses_authOk {Γ : Ctx ω α} {f g : Frame} {frames : List Frame} (h : ¬Γ.AuthOk g) : Refuses Γ (f :: g :: frames) := by
  intro more f' g' rest heq hacc
  obtain ⟨-, heq⟩ := List.cons.inj heq
  obtain ⟨rfl, -⟩ := List.cons.inj heq
  exact h hacc.2.2.2

/-- While the reader runs the handshake takes frames only. -/
theorem Queued.head {s : State ω α} {frames : List Frame} (h : Queued s frames) (hr : s.reader ≠ .stopped) {item : Item}
    {rest : List Item} (hq : s.queue = item :: rest) : ∃ f frames', frames = f :: frames' ∧ item = .frame f := by
  rw [h.of_running hr] at hq
  cases frames with
  | nil => cases hq
  | cons f frames' =>
    obtain ⟨rfl, -⟩ := List.cons.inj hq
    exact ⟨f, frames', rfl, rfl⟩

/-- The handshake's own steps leave what is delivered as it is. -/
theorem Delivery.own {Γ : Ctx ω α} {frames missed routed : List Frame} {s s' : State ω α} (h : Delivery Γ frames missed routed s)
    (hd : s.pc.isDone = false) (hr : s'.reader = s.reader) (hi : s'.inbox = s.inbox) (he : s'.closedError = s.closedError)
    (hroutes : s'.pc.isRouted = true → s'.routes = (∅ : Routes Nat).insert handshakeStreamId 0) (hp : Passed Γ routed s'.pc) :
    Delivery Γ frames missed routed s' where
  error := he.trans h.error
  failing e := hr ▸ h.failing e
  stopped := hr ▸ h.stopped
  routes := hroutes
  whole _ := by rw [hr, hi, h.whole hd]
  order := hr ▸ h.order
  passed := hp

/-- The reader's steps leave the handshake where it is. -/
theorem Delivery.reader {Γ : Ctx ω α} {frames missed routed missed' routed' : List Frame} {s s' : State ω α}
    (h : Delivery Γ frames missed routed s) (hpc : s'.pc = s.pc) (he : s'.closedError = s.closedError) (hroutes : s'.routes = s.routes)
    (hf : ∀ e, s'.reader ≠ .failing e) (hs : s'.reader ≠ .stopped) (hp : Passed Γ routed' s.pc)
    (hw : s.pc.isDone = false →
      missed ++ routed ++ inHand s.reader ++ s.inbox.filter isForHandshake =
        missed' ++ routed' ++ inHand s'.reader ++ s'.inbox.filter isForHandshake)
    (ho : missed' ++ routed' ++ atQueue s'.reader <+: frames.filter isForHandshake) : Delivery Γ frames missed' routed' s' where
  error := he.trans h.error
  failing := hf
  stopped := hs
  routes hr := hroutes.trans (h.routes (hpc ▸ hr))
  whole hd := (h.whole (hpc ▸ hd)).trans (hw (hpc ▸ hd))
  order := ho
  passed := hpc ▸ hp

theorem Delivery.prefix {Γ : Ctx ω α} {frames missed routed : List Frame} {s : State ω α} (h : Delivery Γ frames missed routed s) :
    missed ++ routed <+: frames.filter isForHandshake := (List.prefix_append _ _).trans h.order

/-- Until the handshake has ended, what the reader has at hand is next. -/
theorem Delivery.next {Γ : Ctx ω α} {frames missed routed : List Frame} {s : State ω α} (h : Delivery Γ frames missed routed s)
    (hd : s.pc.isDone = false) : missed ++ routed ++ inHand s.reader <+: frames.filter isForHandshake := by
  rw [h.whole hd]
  exact List.prefix_append _ _

/-- A frame that the reader finds no route for is not for the handshake, or it comes before the handshake is registered or after its
end. -/
theorem Delivery.unknown {Γ : Ctx ω α} {frames missed routed : List Frame} {s : State ω α} {f : Frame}
    (h : Delivery Γ frames missed routed s) (hinv : Inv Γ routed s) (hr : s.reader = .routing f)
    (hl : s.routes.lookup f.streamId = none) :
    Delivery Γ frames (missed ++ dropped s (.lookup f)) routed { s with reader := .reading } := by
  have hhand : inHand s.reader = if isForHandshake f then [f] else [] := by
    rw [hr]
    rfl
  have hlost : s.pc = .registering ∨ dropped s (.lookup f) = [] ∧ (s.pc.isDone = false → inHand s.reader = []) := by
    cases hpc : s.pc with
    | registering => exact .inl rfl
    | done o =>
      refine .inr ⟨?_, nofun⟩
      unfold dropped
      rw [hpc]
    | _ =>
      refine .inr ⟨by unfold dropped; rw [hpc], fun _ => ?_⟩
      have hroutes := h.routes (by rw [hpc]; rfl)
      rw [hroutes, Routes.lookup_insert_eq] at hl
      have hne : f.streamId ≠ handshakeStreamId := fun heq => by rw [if_pos heq] at hl; cases hl
      rw [hhand, if_neg (by simp [isForHandshake, hne])]
  rcases hlost with hpc | ⟨hdrop, hnone⟩
  · -- no frame has been routed to the handshake yet, so the frame comes right after those that were dropped
    have hstage := hinv.stage
    unfold Stage at hstage
    rw [hpc] at hstage
    obtain ⟨-, rfl, -⟩ := hstage
    have hd : s.pc.isDone = false := by rw [hpc]; rfl
    have hdrop : dropped s (.lookup f) = inHand s.reader := by
      rw [hhand]
      unfold dropped
      rw [hpc]
    have hnext := h.next hd
    rw [List.append_nil] at hnext
    refine h.reader rfl rfl rfl nofun nofun h.passed (fun _ => ?_) ?_
    · rw [hdrop]
      simp [inHand]
    · rw [hdrop]
      simpa [atQueue] using hnext
  · rw [hdrop, List.append_nil]
    refine h.reader rfl rfl rfl nofun nofun h.passed (fun hd => ?_) ?_
    · rw [hnone hd]
      rfl
    · exact (List.append_nil _).symm ▸ h.prefix

/-- The reader finds a route only for a frame of the handshake, between its registration and its end. -/
theorem Inv.found {Γ : Ctx ω α} {frames : List Frame} {s : State ω α} {f : Frame} {c : Nat} (hinv : Inv Γ frames s)
    (hr : s.reader = .routing f) (hl : s.routes.lookup f.streamId = some c) : isForHandshake f = true ∧ s.pc.isRouted = true := by
  have hempty : s.routes ≠ ∅ := fun h => by rw [h] at hl; cases hl
  constructor
  · rw [hinv.routes.resolve_left hempty, Routes.lookup_insert_eq] at hl
    have hzero : f.streamId = handshakeStreamId := by
      by_contra hne
      rw [if_neg hne] at hl
      cases hl
    exact isForHandshake_iff.2 ⟨hinv.routing f hr, hzero⟩
  · have hstage := hinv.stage
    unfold Stage at hstage
    cases hpc : s.pc with
    | registering =>
      rw [hpc] at hstage
      exact absurd hstage.2.2.2.1 hempty
    | done o =>
      rw [hpc] at hstage
      exact absurd hstage.2 hempty
    | _ => rfl

/-- What a step keeps that is part of a delivery. -/
theorem Delivery.step {Γ : Ctx ω α} {frames missed : List Frame} {tr : List Action} {s s' : State ω α} {a : Action}
    (h : Delivery Γ frames missed (routed tr) s) (hinv : Inv Γ (routed tr) s) (ha : a.isDelivery = true) (he : Effect Γ s a s') :
    Delivery Γ frames (missed ++ dropped s a) (routed (tr ++ [a])) s' := by
  have hstage : ∀ {pc}, s.pc = pc → Stage Γ (routed tr) { s with pc := pc } := by
    rintro pc rfl
    exact hinv.stage
  have hlimit : ∀ {pc}, s.pc = pc → LimitOk Γ { s with pc := pc } := by
    rintro pc rfl
    exact hinv.limit
  have hpassed : ∀ {pc}, s.pc = pc → Passed Γ (routed tr) pc := by
    rintro pc rfl
    exact h.passed
  have hroutes : ∀ {pc}, s.pc = pc → pc.isRouted = true → s.routes = (∅ : Routes Nat).insert handshakeStreamId 0 := by
    rintro pc rfl
    exact h.routes
  have hopen : ∀ {pc : Pc ω α}, s.pc = pc → pc.isDone = false → s.pc.isDone = false := fun hpc hd => hpc ▸ hd
  have hsame : (∀ f c, a ≠ .put f c) → routed (tr ++ [a]) = routed tr := fun ha => routed_snoc ha tr
  have hkept : dropped s a = [] → missed ++ dropped s a = missed := fun hnil => by rw [hnil, List.append_nil]
  cases he with
  | refuse hpc he =>
    rw [h.error] at he
    cases he
  | register hpc he =>
    rw [hsame nofun, hkept rfl]
    refine h.own (hopen hpc rfl) rfl rfl rfl (fun _ => ?_) trivial
    obtain ⟨-, -, -, hempty, -⟩ := hstage hpc
    rw [show s.routes = ∅ from hempty]
  | @writeFailed failure opcode payload e hpc he =>
    rw [hsame nofun, hkept rfl]
    cases failure with
    | some message => cases ha
    | none =>
      rcases hpc with ⟨hpc, rfl, rfl⟩ | ⟨w, hpc, rfl, rfl⟩
      · rw [show s.maxPayloadSize = maxPayloadBytes from hlimit hpc] at he
        have hlong := tryWrite_refuses (by decide) he
        exact h.own (hopen hpc rfl) rfl rfl rfl (fun _ => hroutes hpc rfl) fun _ _ _ _ _ hacc => hlong hacc.1
      · rw [show s.maxPayloadSize = maxPayloadBytes from hlimit hpc] at he
        have hlong := tryWrite_refuses (by decide) he
        exact h.own (hopen hpc rfl) rfl rfl rfl (fun _ => hroutes hpc rfl) fun _ _ _ _ _ hacc => hlong hacc.2.1
  | hello hpc hfits =>
    rw [hsame nofun, hkept rfl]
    rw [show s.maxPayloadSize = maxPayloadBytes from hlimit hpc] at hfits
    exact h.own (hopen hpc rfl) rfl rfl rfl (fun _ => hroutes hpc rfl) hfits
  | auth hpc hfits =>
    rw [hsame nofun, hkept rfl]
    rw [show s.maxPayloadSize = maxPayloadBytes from hlimit hpc] at hfits
    exact h.own (hopen hpc rfl) rfl rfl rfl (fun _ => hroutes hpc rfl) ⟨hpassed hpc, hfits⟩
  | noWelcome hpc hq he =>
    rw [hsame nofun, hkept rfl]
    obtain ⟨-, hqueue⟩ := hstage hpc
    obtain ⟨f, rest, hframes, rfl⟩ := Queued.head hqueue h.stopped hq
    refine h.own (hopen hpc rfl) rfl rfl rfl (fun _ => hroutes hpc rfl) ?_
    show Refuses Γ (routed tr)
    rw [hframes]
    exact refuses_welcome (welcomeOf_error he)
  | welcome hpc hq hw =>
    rw [hsame nofun, hkept rfl]
    exact h.own (hopen hpc rfl) rfl rfl rfl (fun _ => hroutes hpc rfl) (hpassed hpc :)
  | @noAuthOk _ _ w _ hpc hq he =>
    rw [hsame nofun, hkept rfl]
    obtain ⟨-, rest, ⟨f, hframes, -⟩, hqueue⟩ := hstage hpc
    obtain ⟨g, rest', rfl, rfl⟩ := Queued.head hqueue h.stopped hq
    refine h.own (hopen hpc rfl) rfl rfl rfl (fun _ => hroutes hpc rfl) ?_
    show Refuses Γ (routed tr)
    rw [hframes]
    exact refuses_authOk (authOkOf_error he)
  | authOk hpc hq ha =>
    rw [hsame nofun, hkept rfl]
    exact h.own (hopen hpc rfl) rfl rfl rfl (fun _ => hroutes hpc rfl) (hpassed hpc :)
  | timeout hpc hq => cases ha
  | accept hpc =>
    rw [hsame nofun, hkept rfl]
    exact h.own (hopen hpc rfl) rfl rfl rfl (fun _ => hroutes hpc rfl) (hpassed hpc :)
  | @deregister o hpc =>
    rw [hsame nofun, hkept rfl]
    have hp := hpassed hpc
    refine h.own (hopen hpc rfl) rfl rfl rfl nofun ?_
    cases o <;> exact hp
  | interrupt hpc => cases ha
  | @read f rest hr hi =>
    rw [hsame nofun, hkept rfl]
    have hfilter : inHand (.afterRead f) ++ rest.filter isForHandshake = s.inbox.filter isForHandshake := by
      rw [hi, List.filter_cons]
      unfold Reader.afterRead inHand
      by_cases hping : f.opcode = opServerPing
      · simp [hping, isForHandshake]
      · simp only [if_neg hping]
        split <;> rfl
    refine h.reader rfl rfl rfl ?_ ?_ h.passed (fun _ => ?_) ?_
    · intro e
      show Reader.afterRead f ≠ _
      unfold Reader.afterRead
      split <;> exact nofun
    · show Reader.afterRead f ≠ _
      unfold Reader.afterRead
      split <;> exact nofun
    · show _ = missed ++ routed tr ++ inHand (.afterRead f) ++ rest.filter isForHandshake
      rw [List.append_assoc _ _ (rest.filter _), hfilter, hr]
      simp [inHand]
    · have hnone : atQueue (.afterRead f) = [] := by
        unfold Reader.afterRead
        split <;> rfl
      show _ ++ atQueue (.afterRead f) <+: _
      rw [hnone, List.append_nil]
      exact h.prefix
  | readError hr => cases ha
  | pong hr hp =>
    rw [hsame nofun, hkept rfl]
    refine h.reader rfl rfl rfl nofun nofun h.passed (fun _ => ?_) ?_
    · rw [hr]
      rfl
    · exact (List.append_nil _).symm ▸ h.prefix
  | @found f c hr hl =>
    obtain ⟨hfor, hrouted⟩ := hinv.found hr hl
    have hhand : inHand s.reader = [f] := by
      rw [hr]
      exact if_pos hfor
    have hnone : dropped s (.lookup f) = [] := by
      unfold dropped
      cases hpc : s.pc with
      | registering =>
        rw [hpc] at hrouted
        cases hrouted
      | _ => rfl
    have hd : s.pc.isDone = false := by
      cases hpc : s.pc with
      | done o =>
        rw [hpc] at hrouted
        cases hrouted
      | _ => rfl
    rw [hsame nofun, hkept hnone]
    refine h.reader rfl rfl rfl nofun nofun h.passed (fun _ => ?_) ?_
    · rw [hhand]
      rfl
    · show _ ++ [f] <+: _
      rw [← hhand]
      exact h.next hd
  | unknown hr hl =>
    rw [hsame nofun]
    exact h.unknown hinv hr hl
  | @put f c hr =>
    rw [routed_put, hkept rfl]
    have horder := h.order
    rw [hr] at horder
    refine h.reader rfl rfl rfl nofun nofun (h.passed.append [f]) (fun _ => ?_) ?_
    · rw [hr]
      simp [inHand]
    · simpa [atQueue] using horder
  | failAll hr => exact absurd hr (h.failing _)

theorem delivery_init (Γ : Ctx ω α) (frames : List Frame) : Delivery Γ frames [] [] (State.init frames) where
  error := rfl
  failing := nofun
  stopped := nofun
  routes := nofun
  whole _ := rfl
  order := List.nil_prefix
  passed := trivial

theorem delivery_runs {Γ : Ctx ω α} {frames : List Frame} {tr : List Action} {s : State ω α} (hr : (machine Γ frames).Runs tr s)
    (hclean : ∀ a ∈ tr, a.isDelivery = true) : Delivery Γ frames (missed Γ frames tr) (routed tr) s := by
  refine Machine.Runs.rec_on_meets (M := machine Γ frames) (C := fun _ a => a.isDelivery = true)
    (P := fun tr s => Delivery Γ frames (missed Γ frames tr) (routed tr) s) (delivery_init Γ frames) ?_ hr
    (Machine.meets_of_mem fun a ha _ => hclean a ha)
  intro tr s a s' hrun h ha hs
  have hmissed : missed Γ frames (tr ++ [a]) = missed Γ frames tr ++ dropped s a := hrun.outputs_snoc dropped hs
  rw [hmissed]
  exact h.step (inv_runs hrun) ha (step_effect hs)

/-- The frames routed to the handshake are the first that it hears. -/
theorem Delivery.heard {Γ : Ctx ω α} {frames tr} {s : State ω α} (h : Delivery Γ frames (missed Γ frames tr) (routed tr) s) :
    routed tr <+: heard Γ frames tr := by
  obtain ⟨more, hmore⟩ := h.prefix
  refine ⟨more, ?_⟩
  unfold Handshake.heard
  rw [← hmore, List.append_assoc, List.drop_left]

/-- A handshake that waits for a frame has heard no more than was routed to it. -/
theorem Delivery.heard_rest {Γ : Ctx ω α} {frames tr} {s : State ω α} (h : Delivery Γ frames (missed Γ frames tr) (routed tr) s)
    (hd : s.pc.isDone = false) (hi : s.inbox = []) (hr : s.reader = .reading) : Handshake.heard Γ frames tr = routed tr := by
  have hwhole := h.whole hd
  rw [hi, hr] at hwhole
  unfold Handshake.heard
  rw [hwhole]
  simp [inHand]

/-- How a handshake ends that everything has been delivered to: it succeeds exactly if the first two frames it hears are acceptable. -/
theorem Delivered.reports_iff {Γ : Ctx ω α} {frames : List Frame} {tr : List Action} {s : State ω α} (h : Delivered Γ frames tr s)
    (p q : Bytes) :
    Reports tr s p q ↔ ∃ f g rest, heard Γ frames tr = f :: g :: rest ∧ Γ.Accepts f g ∧ f.payload = p ∧ g.payload = q := by
  have hinv := inv_runs h.run
  have hdel := delivery_runs h.run h.clean
  have hstage := hinv.stage
  have hpassed := hdel.passed
  unfold Stage at hstage
  constructor
  · rintro ⟨f, g, rest, w, a, hframes, hpc, hp, hq⟩
    rw [hpc] at hstage hpassed
    obtain ⟨⟨-, g', rest', ⟨f', hframes', hw⟩, ha⟩, -⟩ := hstage
    rw [hframes] at hframes'
    cases hframes'
    obtain ⟨more, hmore⟩ := hdel.heard
    rw [hframes] at hmore
    obtain ⟨hop, hdec, hin⟩ := welcomeOf_ok hw
    obtain ⟨hop', hdec'⟩ := authOkOf_ok ha
    exact ⟨f, g, rest ++ more, hmore.symm, ⟨hpassed.1, hpassed.2, ⟨hop, w, hdec, hin⟩, ⟨hop', a, hdec'⟩⟩, hp, hq⟩
  · rintro ⟨f, g, rest, hheard, hacc, hp, hq⟩
    obtain ⟨more, hmore⟩ := hdel.heard
    rw [hheard] at hmore
    have hrest := h.rest
    unfold AtRest at hrest
    cases hpc : s.pc with
    | done o =>
      rw [hpc] at hstage hpassed
      cases o with
      | returned w a =>
        obtain ⟨⟨-, g', rest', ⟨f', hframes, -⟩, -⟩, -⟩ := hstage
        rw [hframes] at hmore
        have hmore : f' :: g' :: (rest' ++ more) = f :: g :: rest := hmore
        cases hmore
        exact ⟨f, g, rest', w, a, hframes, hpc, hp, hq⟩
      | raised e => exact absurd hacc (hpassed more f g rest hmore)
      | interrupted => exact hpassed.elim
    | awaitingWelcome =>
      rw [hpc] at hstage hrest
      obtain ⟨hqueue, hi, hr⟩ := hrest
      have hnone := hstage.2.of_running hdel.stopped
      rw [hqueue] at hnone
      have hheard' := hdel.heard_rest (by rw [hpc]; rfl) hi hr
      rw [List.map_eq_nil_iff.1 hnone.symm, hheard] at hheard'
      cases hheard'
    | awaitingAuthOk w =>
      rw [hpc] at hstage hrest
      obtain ⟨hqueue, hi, hr⟩ := hrest
      obtain ⟨-, rest', ⟨f', hframes, -⟩, hq'⟩ := hstage
      have hnone := hq'.of_running hdel.stopped
      rw [hqueue] at hnone
      have hheard' := hdel.heard_rest (by rw [hpc]; rfl) hi hr
      rw [hframes, List.map_eq_nil_iff.1 hnone.symm, hheard] at hheard'
      cases hheard'
    | _ =>
      rw [hpc] at hrest
      exact hrest.elim

end BrainSdk.Python.Handshake
