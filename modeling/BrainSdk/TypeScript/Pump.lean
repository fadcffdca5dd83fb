import BrainSdk.Transport
import BrainSdk.TypeScript.FrameLemmas
import BrainSdk.TypeScript.Invariant

/-!
# The pump of the TypeScript mux

`onData` drains the whole frames of its buffer behind a read offset. This file keeps a record of what the loop does with each frame,
and says what one drain does in terms of the buffer decoded in one piece: every frame is handled once and in order; at the end of the
whole frames the buffer is what they left; at a malformed frame the connection fails and the buffer stays as it was, the frames before
the malformed one included.
-/

namespace BrainSdk.TypeScript

open Library Wire

variable {ε υ : Type}

/-! ### The decoder of the pump -/

/-- `decodeFrame` as the loop of `onData` takes it. -/
def pumpVerdict (buf : Bytes) : Verdict UInt8 Frame FrameErrorKind :=
  match decodeFrame buf with
  | .ok (f, rest) => .item f rest
  | .error e => if e.kind = .truncated then .short else .bad e.kind

theorem kindOf_eq_truncated {e : Wire.FrameError} : kindOf e = .truncated ↔ Transport.isTruncated e = true := by
  cases e <;> simp [kindOf, Transport.isTruncated]

/-- The loop takes a buffer as the Python reader does. -/
theorem pumpVerdict_eq (buf : Bytes) :
    pumpVerdict buf =
      match Transport.frameVerdict buf with
      | .item f rest => .item f rest
      | .short => .short
      | .bad e => .bad (kindOf e) := by
  have heq := decodeFrame_eq buf
  unfold pumpVerdict Transport.frameVerdict
  rcases hts : decodeFrame buf with e | ⟨f, rest⟩ <;> rcases hpy : Wire.decodeFrame buf with e' | ⟨f', rest'⟩ <;> rw [hts, hpy] at heq
  · have hk : e.kind = kindOf e' := Except.error.inj heq
    dsimp only
    rw [hk]
    by_cases ht : Transport.isTruncated e' = true
    · rw [if_pos ht, if_pos (kindOf_eq_truncated.2 ht)]
    · rw [if_neg ht, if_neg (fun h => ht (kindOf_eq_truncated.1 h))]
  · exact nomatch heq
  · exact nomatch heq
  · obtain ⟨rfl, rfl⟩ := Prod.mk.inj (Except.ok.inj heq)
    rfl

theorem pumpVerdict_item {buf rest : Bytes} {f : Frame} :
    pumpVerdict buf = .item f rest ↔ Transport.frameDecoder.decode buf = .item f rest := by
  change _ ↔ Transport.frameVerdict buf = _
  rw [pumpVerdict_eq]
  rcases Transport.frameVerdict buf with ⟨f', rest'⟩ | - | e <;> simp

theorem pumpVerdict_bad {buf : Bytes} {k : FrameErrorKind} :
    pumpVerdict buf = .bad k ↔ ∃ e, Transport.frameDecoder.decode buf = .bad e ∧ kindOf e = k := by
  change _ ↔ ∃ e, Transport.frameVerdict buf = _ ∧ _
  rw [pumpVerdict_eq]
  rcases Transport.frameVerdict buf with ⟨f', rest'⟩ | - | e <;> simp

/-- The codec as an incremental decoder. -/
def pumpDecoder : Incremental UInt8 Frame FrameErrorKind where
  decode := pumpVerdict
  item_append h t := pumpVerdict_item.2 (Transport.frameDecoder.item_append (pumpVerdict_item.1 h) t)
  bad_append h t := by
    obtain ⟨e, he, hk⟩ := pumpVerdict_bad.1 h
    exact pumpVerdict_bad.2 ⟨e, Transport.frameDecoder.bad_append he t, hk⟩
  shrinks h := Transport.frameDecoder.shrinks (pumpVerdict_item.1 h)

theorem decode_item {buf rest : Bytes} {f : Frame} (h : decodeFrame buf = .ok (f, rest)) : pumpDecoder.decode buf = .item f rest := by
  simp [pumpDecoder, pumpVerdict, h]

theorem decode_error {buf : Bytes} {e : FrameError} (h : decodeFrame buf = .error e) :
    pumpDecoder.decode buf = if e.kind = .truncated then .short else .bad e.kind := by
  simp [pumpDecoder, pumpVerdict, h]

/-- A decoded frame leaves the end of the buffer. -/
theorem drop_of_decodeFrame {buf rest : Bytes} {f : Frame} {offset : Nat} (h : decodeFrame (buf.drop offset) = .ok (f, rest)) :
    buf.drop (offset + (buf.length - offset - rest.length)) = rest := by
  have hw := Transport.frameVerdict_item.1 (pumpVerdict_item.1 (decode_item h))
  obtain ⟨-, used, hu⟩ := decodeFrame_rest hw
  have hlen : buf.length - offset - rest.length = used.length := by
    have hl := congrArg List.length hu
    rw [List.length_drop, List.length_append] at hl
    omega
  rw [← List.drop_drop, hu, hlen]
  exact List.drop_left

/-! ### What the loop does with a frame -/

/-- What becomes of a frame: it is answered with a CLIENT_PONG, its answer is refused for its size, or answering it throws; it is pushed
to the sink of a call, or dropped as that of an unknown stream. -/
inductive Deed where
  | answered
  | refused
  | threw
  | routed (c : Nat)
  | dropped
  deriving DecidableEq

/-- The frame has come where it was to come. -/
def Deed.isServed : Deed → Bool
  | .refused | .threw => false
  | .answered | .routed _ | .dropped => true

/-- What the loop does with a frame. -/
def State.deed (Γ : Ctx ε υ) (now : Nat) (s : State ε υ) (f : Frame) : Deed :=
  if f.opcode = opServerPing then
    match clientPong Γ s.maxPayloadSize f now with
    | .ok _ => .answered
    | .error (.protocolError _) => .refused
    | .error _ => .threw
  else
    match s.routes.lookup f.streamId with
    | some c => .routed c
    | none => .dropped

/-- The record of the loop of `onData` from a read offset on: the frames it handles, and what becomes of each. -/
def State.drainLog (Γ : Ctx ε υ) (now : Nat) : Nat → Nat → State ε υ → List (Frame × Deed)
  | 0, _, _ => []
  | fuel + 1, offset, s =>
    match decodeFrame (s.buf.drop offset) with
    | .error _ => []
    | .ok (f, rest) =>
      (f, s.deed Γ now f) ::
        match s.handle Γ now f with
        | .error _ => []
        | .ok s' => State.drainLog Γ now fuel (offset + (s.buf.length - offset - rest.length)) s'

/-- The record of one step: that of `onData`, where the step is one. -/
def record (Γ : Ctx ε υ) (s : State ε υ) : Action → List (Frame × Deed)
  | .data chunk now => State.drainLog Γ now (s.buf.length + chunk.length + 1) 0 { s with buf := s.buf ++ chunk }
  | _ => []

/-- What handling a frame leaves as it was. -/
structure Unmoved (s s' : State ε υ) : Prop where
  buf : s'.buf = s.buf
  routes : s'.routes = s.routes
  closedError : s'.closedError = s.closedError
  maxPayloadSize : s'.maxPayloadSize = s.maxPayloadSize
  uncaught : s'.uncaught = s.uncaught

theorem unmoved_of_handle {Γ : Ctx ε υ} {now : Nat} {s s' : State ε υ} {f : Frame} (h : s.handle Γ now f = .ok s') : Unmoved s s' := by
  rcases handle_ok h with ⟨-, out, rfl⟩ | ⟨-, rfl⟩
  · exact ⟨rfl, rfl, rfl, rfl, rfl⟩
  · unfold State.dispatch
    split
    · exact ⟨rfl, rfl, rfl, rfl, rfl⟩
    · split <;> exact ⟨rfl, rfl, rfl, rfl, rfl⟩

theorem Unmoved.deed {Γ : Ctx ε υ} {now : Nat} {s s' : State ε υ} (h : Unmoved s s') (f : Frame) : s'.deed Γ now f = s.deed Γ now f := by
  unfold State.deed
  rw [h.routes, h.maxPayloadSize]

/-- With no route set, a frame that is no SERVER_PING is dropped. -/
theorem deed_of_empty {Γ : Ctx ε υ} {now : Nat} {s : State ε υ} (h : ∀ id, s.routes.lookup id = none) {f : Frame}
    (hf : f.opcode ≠ opServerPing) : s.deed Γ now f = .dropped := by
  unfold State.deed
  rw [if_neg hf, h]

/-- A SERVER_PING is not dropped. -/
theorem deed_of_ping {Γ : Ctx ε υ} {now : Nat} {s : State ε υ} {f : Frame} (hf : f.opcode = opServerPing) :
    s.deed Γ now f ≠ .dropped := by
  unfold State.deed
  rw [if_pos hf]
  split <;> exact Deed.noConfusion

/-- The CLIENT_PONG of a SERVER_PING can be encoded, and it is within the limits of the server and of the frame format. -/
def Answerable (Γ : Ctx ε υ) (maxPayloadSize now : Nat) (f : Frame) : Prop :=
  ∃ payload, pongPayload Γ f now = .ok payload ∧ payload.length ≤ maxPayloadSize ∧ payload.length ≤ maxPayloadBytes

/-- What becomes of the CLIENT_PONG, by its payload. -/
theorem clientPong_eq {Γ : Ctx ε υ} {maxPayloadSize now : Nat} {f : Frame} :
    (∃ bytes, clientPong Γ maxPayloadSize f now = .ok bytes) ↔ Answerable Γ maxPayloadSize now f := by
  unfold Answerable clientPong
  rcases pongPayload Γ f now with message | payload
  · simp
  · unfold writeFrame encodeFrame
    by_cases hlimit : payload.length > maxPayloadSize
    · simp [hlimit, Nat.not_le.2 hlimit]
    · by_cases hformat : payload.length > maxPayloadBytes
      · simp [hlimit, hformat, Nat.not_le.2 hformat]
      · simp [hlimit, hformat, Nat.not_lt.1 hlimit, Nat.not_lt.1 hformat]

/-- A frame is served, unless it is a SERVER_PING whose CLIENT_PONG cannot be encoded or is over a limit. -/
theorem isServed_deed {Γ : Ctx ε υ} {now : Nat} {s : State ε υ} {f : Frame} :
    (s.deed Γ now f).isServed = true ↔ (f.opcode = opServerPing → Answerable Γ s.maxPayloadSize now f) := by
  rw [← clientPong_eq]
  unfold State.deed
  split
  · rename_i hping
    rw [forall_prop_of_true hping]
    split
    · rename_i bytes heq
      exact iff_of_true rfl ⟨bytes, heq⟩
    all_goals
      rename_i hne
      exact iff_of_false Bool.false_ne_true (fun ⟨bytes, heq⟩ => by rw [heq] at hne; cases hne)
  · rename_i hping
    simp only [hping, false_imp_iff, iff_true]
    split <;> rfl

/-- The loop throws exactly where handling the frame does. -/
theorem deed_threw_iff {Γ : Ctx ε υ} {now : Nat} {s : State ε υ} {f : Frame} :
    s.deed Γ now f = .threw ↔ ∃ e, s.handle Γ now f = .error e := by
  unfold State.deed State.handle State.answerServerPing
  by_cases hping : f.opcode = opServerPing
  · rw [if_pos hping, if_pos hping]
    rcases clientPong Γ s.maxPayloadSize f now with thrown | bytes
    · cases thrown <;> simp
    · simp
  · rw [if_neg hping, if_neg hping]
    cases s.routes.lookup f.streamId <;> simp

theorem handle_error {Γ : Ctx ε υ} {now : Nat} {s : State ε υ} {f : Frame} {e : Thrown} (h : s.handle Γ now f = .error e) :
    s.deed Γ now f = .threw :=
  deed_threw_iff.2 ⟨e, h⟩

theorem deed_of_handle {Γ : Ctx ε υ} {now : Nat} {s s' : State ε υ} {f : Frame} (h : s.handle Γ now f = .ok s') :
    s.deed Γ now f ≠ .threw := by
  intro hthrew
  obtain ⟨e, he⟩ := deed_threw_iff.1 hthrew
  rw [h] at he
  cases he

/-! ### One drain -/

/-- How the loop takes the bytes behind its offset, with its record: it comes to the end of the whole frames, or to a malformed one, or a
frame makes it throw, or it has handled a frame and goes on. -/
inductive Drains (Γ : Ctx ε υ) (now : Nat) : Bytes → State ε υ → List (Frame × Deed) → State ε υ → Prop
  | short {bytes : Bytes} {s : State ε υ} (hdecode : pumpDecoder.decode bytes = .short) : Drains Γ now bytes s [] { s with buf := bytes }
  | bad {bytes : Bytes} {s : State ε υ} {k : FrameErrorKind} (hdecode : pumpDecoder.decode bytes = .bad k) (e : FrameError) :
      Drains Γ now bytes s [] (s.failAll (.frameError e))
  | threw {bytes rest : Bytes} {s : State ε υ} {f : Frame} {e : Thrown} (hdecode : pumpDecoder.decode bytes = .item f rest)
      (hhandle : s.handle Γ now f = .error e) :
      Drains Γ now bytes s [(f, s.deed Γ now f)] { s with uncaught := s.uncaught.or (some e) }
  | item {bytes rest : Bytes} {s s' s'' : State ε υ} {f : Frame} {log : List (Frame × Deed)}
      (hdecode : pumpDecoder.decode bytes = .item f rest) (hhandle : s.handle Γ now f = .ok s') (hrest : Drains Γ now rest s' log s'') :
      Drains Γ now bytes s ((f, s.deed Γ now f) :: log) s''

theorem drains_of_fuel (Γ : Ctx ε υ) (now : Nat) {fuel offset : Nat} {s : State ε υ} (hfuel : (s.buf.drop offset).length < fuel) :
    Drains Γ now (s.buf.drop offset) s (State.drainLog Γ now fuel offset s) (State.drain Γ now fuel offset s) := by
  induction fuel generalizing offset s with
  | zero => exact absurd hfuel (Nat.not_lt_zero _)
  | succ fuel ih =>
    unfold State.drain State.drainLog
    rcases hd : decodeFrame (s.buf.drop offset) with e | ⟨f, rest⟩
    · have hv := decode_error hd
      by_cases ht : e.kind = .truncated
      · rw [if_pos ht] at hv
        have hbuf : (if offset = 0 then s.buf else s.buf.drop offset) = s.buf.drop offset := by
          split
          · rename_i h0
            rw [h0, List.drop_zero]
          · rfl
        simp only [ht, if_true, hbuf]
        exact .short hv
      · rw [if_neg ht] at hv
        simp only [ht, if_false]
        exact .bad hv e
    · have hitem := decode_item hd
      have hshrinks := pumpDecoder.shrinks hitem
      have hdrop := drop_of_decodeFrame hd
      dsimp only
      rcases hh : s.handle Γ now f with e | s'
      · exact .threw hitem hh
      · have hbuf := (unmoved_of_handle hh).buf
        have hrest := @ih (offset + (s.buf.length - offset - rest.length)) s' (by rw [hbuf, hdrop]; omega)
        rw [hbuf, hdrop] at hrest
        exact .item hitem hh hrest

/-- The loop of one `onData`. -/
theorem drains_onData (Γ : Ctx ε υ) (s : State ε υ) (chunk : Bytes) (now : Nat) :
    Drains Γ now (s.buf ++ chunk) { s with buf := s.buf ++ chunk } (record Γ s (.data chunk now)) (s.onData Γ chunk now) :=
  @drains_of_fuel ε υ Γ now (s.buf.length + chunk.length + 1) 0 { s with buf := s.buf ++ chunk } (by simp)

section Drains

variable {Γ : Ctx ε υ} {now : Nat} {bytes : Bytes} {s s' : State ε υ} {log : List (Frame × Deed)}

/-- The loop handles the frames of what is behind the offset, each once and in order, by the routes it began with; it may throw before it
has come to the last. -/
theorem Drains.log_isPrefix (h : Drains Γ now bytes s log s') :
    log <+: (pumpDecoder.decodeAll bytes).1.map (fun f => (f, s.deed Γ now f)) := by
  induction h with
  | short hdecode => exact List.nil_prefix
  | bad hdecode e => exact List.nil_prefix
  | threw hdecode hhandle =>
    rw [pumpDecoder.decodeAll_item hdecode, List.map_cons, List.cons_prefix_cons]
    exact ⟨rfl, List.nil_prefix⟩
  | item hdecode hhandle hrest ih =>
    rw [pumpDecoder.decodeAll_item hdecode, List.map_cons, List.cons_prefix_cons]
    simp only [(unmoved_of_handle hhandle).deed] at ih
    exact ⟨rfl, ih⟩

/-- Unless it throws, it comes to the last. -/
theorem Drains.log_eq (h : Drains Γ now bytes s log s') (hno : ∀ d ∈ log, d.2 ≠ .threw) :
    log = (pumpDecoder.decodeAll bytes).1.map (fun f => (f, s.deed Γ now f)) := by
  induction h with
  | short hdecode => rw [pumpDecoder.decodeAll_short hdecode, List.map_nil]
  | bad hdecode e => rw [pumpDecoder.decodeAll_bad hdecode, List.map_nil]
  | threw hdecode hhandle => exact absurd (handle_error hhandle) (hno _ List.mem_cons_self)
  | item hdecode hhandle hrest ih =>
    have hlog := ih (fun d hd => hno d (List.mem_cons_of_mem _ hd))
    simp only [(unmoved_of_handle hhandle).deed] at hlog
    rw [pumpDecoder.decodeAll_item hdecode, List.map_cons, ← hlog]

/-- It throws exactly where an error comes out of it. -/
theorem Drains.uncaught (h : Drains Γ now bytes s log s') :
    s'.uncaught = none ↔ s.uncaught = none ∧ ∀ d ∈ log, d.2 ≠ .threw := by
  induction h with
  | short hdecode => simp
  | bad hdecode e => simp [State.failAll]
  | threw hdecode hhandle => simp [handle_error hhandle]
  | item hdecode hhandle hrest ih =>
    rw [ih, (unmoved_of_handle hhandle).uncaught, List.forall_mem_cons]
    exact and_congr_right fun _ => (and_iff_right (deed_of_handle hhandle)).symm

/-- A drain that meets no malformed frame and does not throw leaves in the buffer what comes after the whole frames, and does not fail the
connection. -/
theorem Drains.of_whole (h : Drains Γ now bytes s log s') (hno : ∀ d ∈ log, d.2 ≠ .threw)
    (hend : (pumpDecoder.decodeAll bytes).2 = none) :
    pumpDecoder.Splits bytes (pumpDecoder.decodeAll bytes).1 s'.buf ∧ pumpDecoder.decode s'.buf = .short ∧
      s'.closedError = s.closedError := by
  induction h with
  | short hdecode =>
    rw [pumpDecoder.decodeAll_short hdecode]
    exact ⟨.nil, hdecode, rfl⟩
  | bad hdecode e =>
    rw [pumpDecoder.decodeAll_bad hdecode] at hend
    cases hend
  | threw hdecode hhandle => exact absurd (handle_error hhandle) (hno _ List.mem_cons_self)
  | item hdecode hhandle hrest ih =>
    rw [pumpDecoder.decodeAll_item hdecode] at hend ⊢
    obtain ⟨hsplits, hshort, hclosed⟩ := ih (fun d hd => hno d (List.mem_cons_of_mem _ hd)) hend
    exact ⟨(Incremental.Splits.nil.snoc hdecode).trans hsplits, hshort, hclosed.trans (unmoved_of_handle hhandle).closedError⟩

/-- A drain that meets a malformed frame fails the connection, empties the route table and leaves the buffer as it was. -/
theorem Drains.of_malformed (h : Drains Γ now bytes s log s') (hno : ∀ d ∈ log, d.2 ≠ .threw) {k : FrameErrorKind}
    (hend : (pumpDecoder.decodeAll bytes).2 = some k) : s'.buf = s.buf ∧ s'.routes = ∅ ∧ s'.closedError ≠ none := by
  induction h with
  | short hdecode =>
    rw [pumpDecoder.decodeAll_short hdecode] at hend
    cases hend
  | @bad _ s _ hdecode e =>
    refine ⟨rfl, rfl, ?_⟩
    unfold State.failAll
    cases s.closedError <;> simp
  | threw hdecode hhandle => exact absurd (handle_error hhandle) (hno _ List.mem_cons_self)
  | item hdecode hhandle hrest ih =>
    rw [pumpDecoder.decodeAll_item hdecode] at hend
    obtain ⟨hbuf, hroutes, hclosed⟩ := ih (fun d hd => hno d (List.mem_cons_of_mem _ hd)) hend
    exact ⟨hbuf.trans (unmoved_of_handle hhandle).buf, hroutes, hclosed⟩

end Drains

/-! ### The other steps -/

/-- A step that is no `onData` leaves the buffer and throws nothing, and a connection that has failed stays failed. -/
structure Quiet (s s' : State ε υ) : Prop where
  buf : s'.buf = s.buf
  uncaught : s'.uncaught = s.uncaught
  closedError : s.closedError ≠ none → s'.closedError ≠ none

/-- A step that is about no more than the calls leaves the buffer, and whether the connection has failed. -/
structure Aside (s s' : State ε υ) : Prop where
  buf : s'.buf = s.buf
  uncaught : s'.uncaught = s.uncaught
  closedError : s'.closedError = s.closedError

/-- An event of the socket. -/
def Action.isSocket : Action → Bool
  | .data _ _ | .socketError _ | .socketClose => true
  | _ => false

theorem Aside.quiet {s s' : State ε υ} (h : Aside s s') : Quiet s s' :=
  ⟨h.buf, h.uncaught, fun hne => by rw [h.closedError]; exact hne⟩

theorem aside_send (s : State ε υ) (args : Args) : Aside s (s.send args) := by
  unfold State.send
  split <;> exact ⟨rfl, rfl, rfl⟩

theorem quiet_failAll (s : State ε υ) (e : Thrown) : Quiet s (s.failAll e) := by
  refine ⟨rfl, rfl, fun h => ?_⟩
  unfold State.failAll
  obtain ⟨e', he'⟩ := Option.ne_none_iff_exists'.1 h
  rw [he']
  nofun

theorem aside_endNextEvent (Γ : Ctx ε υ) (s : State ε υ) (c target : Nat) (call : Call ε υ) (r : Except Thrown Frame) :
    Aside s (s.endNextEvent Γ c target call r) := by
  unfold State.endNextEvent
  dsimp only
  split <;> exact ⟨rfl, rfl, rfl⟩

theorem aside_resume {Γ : Ctx ε υ} {s s' : State ε υ} {c : Nat} {call : Call ε υ} (h : s.resume Γ c call = some s') : Aside s s' := by
  unfold State.resume at h
  split at h
  · cases h
    exact ⟨rfl, rfl, rfl⟩
  · cases h
    exact ⟨rfl, rfl, rfl⟩
  · cases h
    exact aside_endNextEvent Γ s c _ call _
  · cases h
    exact aside_endNextEvent Γ s c _ call _
  · cases h
    unfold State.collect
    dsimp only
    split
    · exact ⟨rfl, rfl, rfl⟩
    · split <;> exact ⟨rfl, rfl, rfl⟩
  · cases h
    exact ⟨rfl, rfl, rfl⟩
  · cases h

theorem step_aside {Γ : Ctx ε υ} {s s' : State ε υ} {a : Action} (h : step Γ s a = some s') (ha : a.isSocket = false) :
    Aside s s' := by
  rcases a with args | c | ⟨c, message⟩ | c | c | c | ⟨chunk, now⟩ | message | -
  · by_cases hv : args.verb.sends = true
    · obtain ⟨args', -, rfl⟩ := step_call_sends h hv
      exact aside_send s args'
    · simp only [step] at h
      split at h
      · obtain ⟨sub, -, h⟩ := Option.bind_eq_some_iff.1 h
        split at h
        · cases h
          unfold State.beginNextEvent
          split <;> exact ⟨rfl, rfl, rfl⟩
        · cases h
      · obtain ⟨sub, -, h⟩ := Option.bind_eq_some_iff.1 h
        split at h
        · cases h
          exact aside_send s _
        · cases h
      · cases h
        exact aside_send s _
  all_goals simp only [step] at h
  · obtain ⟨call, -, h⟩ := Option.bind_eq_some_iff.1 h
    split at h
    · cases h
      exact ⟨rfl, rfl, rfl⟩
    · cases h
  · obtain ⟨call, -, h⟩ := Option.bind_eq_some_iff.1 h
    split at h
    · cases h
      exact ⟨rfl, rfl, rfl⟩
    · cases h
  · obtain ⟨call, -, h⟩ := Option.bind_eq_some_iff.1 h
    exact aside_resume h
  · obtain ⟨call, -, h⟩ := Option.bind_eq_some_iff.1 h
    split at h
    · cases h
      exact ⟨rfl, rfl, rfl⟩
    · cases h
  · obtain ⟨sub, -, h⟩ := Option.bind_eq_some_iff.1 h
    split at h
    · cases h
      exact ⟨rfl, rfl, rfl⟩
    · cases h
  all_goals cases ha

theorem step_quiet {Γ : Ctx ε υ} {s s' : State ε υ} {a : Action} (h : step Γ s a = some s')
    (ha : ∀ chunk now, a ≠ .data chunk now) : Quiet s s' := by
  cases a with
  | data chunk now => exact absurd rfl (ha chunk now)
  | socketError message =>
    simp only [step] at h
    split at h
    · cases h
    · cases h
      exact quiet_failAll s _
  | socketClose =>
    simp only [step] at h
    split at h
    · cases h
    · cases h
      obtain ⟨hb, hu, hc⟩ := quiet_failAll s (.connectionClosed "connection closed by peer")
      exact ⟨hb, hu, hc⟩
  | _ => exact (step_aside h rfl).quiet

end BrainSdk.TypeScript
