import BrainSdk.Errors
import BrainSdk.Library.Machine
import BrainSdk.Library.Tables
import BrainSdk.StreamIds

/-!
# The TypeScript multiplexed connection

`mux.ts`: any number of async calls over one connection, and the handlers of its socket. Code runs between two awaits without
interruption, so a step is a call up to its first await, the continuation of a call whose awaited promise has settled, or an event
of the socket or of a timer; any call whose promise has settled may go on next. A call creates one `StreamSink`, so the sink is
named by the call; the call of a `subscribe` goes on as the `Subscription` it returned, and `nextEvent` on it is a call of its own
that waits on that sink. What the outside world decides is part of the action: the chunks and errors of the socket, what the
callback of a write is given, when a timer fires, the clock.
-/

namespace BrainSdk.TypeScript

open Library Wire

/-- What the mux takes from outside its module: its configured deadline, and the CBOR codec of the payloads it reads or writes
itself. `ε` is the type of subscription events, `υ` that of UNSUBSCRIBE responses. -/
structure Ctx (ε υ : Type) where
  requestTimeoutMs : Option ℚ
  decodeError : Bytes → Except String ErrorResponse
  decodeSubscriptionEvent : Bytes → Except String ε
  decodeServerPing : Bytes → Except String Int
  decodeUnsubscribeResponse : Bytes → Except String υ
  encodeClientPong : Int → Nat → Except String Bytes
  encodeUnsubscribe : Nat → Bytes

/-! ### The sink of a stream -/

/-- `StreamSink`. The waiter is the call whose promise it holds. -/
structure StreamSink where
  frames : List Frame
  waiter : Option Nat
  failure : Option Thrown
  deriving DecidableEq

/-- A new sink. -/
def StreamSink.empty : StreamSink := { frames := [], waiter := none, failure := none }

/-- `push`: the sink after it, and the waiter it resolves. -/
def StreamSink.push (k : StreamSink) (f : Frame) : StreamSink × Option Nat :=
  match k.waiter with
  | some w => ({ k with waiter := none }, some w)
  | none => ({ k with frames := k.frames ++ [f] }, none)

/-- `fail`: the sink after it, and the waiter it rejects. -/
def StreamSink.fail (k : StreamSink) (e : Thrown) : StreamSink × Option Nat :=
  ({ k with failure := k.failure.or (some e), waiter := none }, k.waiter)

/-- `next` of the call `w`: the sink after it, and what the promise has settled to at once. -/
def StreamSink.next (k : StreamSink) (w : Nat) : StreamSink × Option (Except Thrown Frame) :=
  match k.frames, k.failure with
  | f :: rest, _ => ({ k with frames := rest }, some (.ok f))
  | [], some e => (k, some (.error e))
  | [], none => ({ k with waiter := some w }, none)

/-! ### Calls -/

/-- The calls. `unsubscribe` and `nextEvent` are made on the `Subscription` of a call. -/
inductive Verb where
  | request
  | requestOnConnection
  | subscribe
  | unsubscribe (target : Nat)
  | nextEvent (target : Nat)
  deriving DecidableEq

/-- The calls that take a stream id: all but `requestOnConnection`, which uses stream 0, and `nextEvent`. -/
def Verb.isOp : Verb → Bool
  | .request | .subscribe | .unsubscribe _ => true
  | _ => false

/-- The calls that send a frame. -/
def Verb.sends : Verb → Bool
  | .nextEvent _ => false
  | _ => true

/-- The arguments of a call. The payload of `subscribe` is the encoded SUBSCRIBE request; only `request` has a `timeoutMs`. -/
structure Args where
  verb : Verb
  opcode : Nat
  payload : Bytes
  timeoutMs : Option ℚ
  deriving DecidableEq

/-- How a call ends: with the collected frames, the decoded UNSUBSCRIBE response, an event, `null`, or a rejection. -/
inductive Outcome (ε υ : Type) where
  | returned (frames : List Frame)
  | unsubscribed (response : υ)
  | event (e : ε)
  | null
  | rejected (e : Thrown)

/-- Where a call stands. -/
inductive Pc (ε υ : Type) where
  /-- awaiting the callback of `socket.write` -/
  | writing
  /-- the write succeeded, before the call goes on -/
  | written
  /-- awaiting `nextFrame` -/
  | awaiting
  /-- the awaited promise resolved with a frame, before the call goes on -/
  | got (f : Frame)
  /-- the awaited promise was rejected, before the call goes on -/
  | threw (e : Thrown)
  | done (o : Outcome ε υ)
  /-- a `Subscription` -/
  | opened

/-- A call: its arguments and its local variables. `ordinal`, which no step reads, is how many stream ids were taken before its
own. -/
structure Call (ε υ : Type) where
  args : Args
  streamId : Nat
  sink : StreamSink
  frames : List Frame
  ended : Bool
  ordinal : Nat
  pc : Pc ε υ

/-- The state of a connection and its calls. `taken` counts the stream ids taken so far, and `uncaught` is the first error that `onData`
has thrown; no step reads these two. `out` are the frames handed to `socket.write`, and `socketClosed` is whether the socket has emitted
`close`. -/
structure State (ε υ : Type) where
  buf : Bytes
  routes : Routes Nat
  nextStreamId : Nat
  taken : Nat
  closedError : Option Thrown
  maxPayloadSize : Nat
  calls : List (Call ε υ)
  out : List Bytes
  socketClosed : Bool
  uncaught : Option Thrown

/-- What happens in one step. -/
inductive Action where
  | call (args : Args)
  | writeDone (c : Nat)
  | writeFailed (c : Nat) (message : String)
  | resume (c : Nat)
  | timeout (c : Nat)
  | close (c : Nat)
  | data (chunk : Bytes) (now : Nat)
  | socketError (message : String)
  | socketClose
  deriving DecidableEq

variable {ε υ : Type}

/-- A connection as the handshake leaves it. -/
def State.init (maxPayloadSize : Nat) : State ε υ :=
  { buf := [], routes := ∅, nextStreamId := 1, taken := 0, closedError := none, maxPayloadSize := maxPayloadSize, calls := [],
    out := [], socketClosed := false, uncaught := none }

/-- A call past its first synchronous part, which leaves it at `pc`. -/
def Call.begin (args : Args) (streamId ordinal : Nat) (pc : Pc ε υ) : Call ε υ :=
  { args := args, streamId := streamId, sink := .empty, frames := [], ended := false, ordinal := ordinal, pc := pc }

/-- The state with call `c` replaced. -/
def State.setCall (s : State ε υ) (c : Nat) (call : Call ε υ) : State ε υ := { s with calls := s.calls.set c call }

/-- A promise of `next` that settles: it moves the call that awaits it, and no other. A call whose timer has fired awaits it no
longer. -/
def Call.settle (r : Except Thrown Frame) (call : Call ε υ) : Call ε υ :=
  match call.pc, r with
  | .awaiting, .ok f => { call with pc := .got f }
  | .awaiting, .error e => { call with pc := .threw e }
  | _, _ => call

/-- The calls after a waiter was resolved or rejected. -/
def settleWaiter (calls : List (Call ε υ)) (waiter : Option Nat) (r : Except Thrown Frame) : List (Call ε υ) :=
  match waiter with
  | some w => calls.modify w (Call.settle r)
  | none => calls

/-- Where a call stands once it has called `next`. -/
def pcAfterNext : Option (Except Thrown Frame) → Pc ε υ
  | some (.ok f) => .got f
  | some (.error e) => .threw e
  | none => .awaiting

/-- `writeFrame` up to `socket.write`: the bytes it writes, or what it throws or rejects with. -/
def writeFrame (maxPayloadSize opcode streamId : Nat) (payload : Bytes) : Except Thrown Bytes :=
  if payload.length > maxPayloadSize then
    .error (.protocolError
      s!"payload is {payload.length} bytes, over the {maxPayloadSize} the server advertised at WELCOME")
  else
    match encodeFrame opcode streamId flagEos payload with
    | .error e => .error (.frameError e)
    | .ok bytes => .ok bytes

/-- A call that sends a frame, up to its first await: it is refused when the connection has failed; else it takes its id, sets its
route and writes. -/
def State.send (s : State ε υ) (args : Args) : State ε υ :=
  match s.closedError with
  | some e => { s with calls := s.calls ++ [Call.begin args handshakeStreamId s.taken (.done (.rejected e))] }
  | none =>
    let streamId := if args.verb.isOp then s.nextStreamId else handshakeStreamId
    let r := writeFrame s.maxPayloadSize args.opcode streamId args.payload
    { s with
      nextStreamId := if args.verb.isOp then nextStreamIdAfter s.nextStreamId else s.nextStreamId
      taken := if args.verb.isOp then s.taken + 1 else s.taken
      routes := s.routes.insert streamId s.calls.length
      calls := s.calls ++ [Call.begin args streamId s.taken (match r with | .error e => .threw e | .ok _ => .writing)]
      out := s.out ++ r.toOption.toList }

/-- `nextEvent` up to its wait: an ended stream returns `null` at once. -/
def State.beginNextEvent (s : State ε υ) (args : Args) (target : Nat) (sub : Call ε υ) : State ε υ :=
  if sub.ended then { s with calls := s.calls ++ [Call.begin args handshakeStreamId s.taken (.done .null)] }
  else
    let r := sub.sink.next s.calls.length
    { s with
      calls := s.calls.set target { sub with sink := r.1 } ++ [Call.begin args handshakeStreamId s.taken (pcAfterNext r.2)] }

/-- A call that waits for the next frame of its own sink. -/
def State.awaitOwn (s : State ε υ) (c : Nat) (call : Call ε υ) : State ε υ :=
  let r := call.sink.next c
  s.setCall c { call with sink := r.1, pc := pcAfterNext r.2 }

/-- What an ERROR frame makes a call throw: `new ServerError(decodeError(payload))`. -/
def errorOf (Γ : Ctx ε υ) (payload : Bytes) : Thrown :=
  match Γ.decodeError payload with
  | .ok r => .serverError r
  | .error message => .cborError message

/-- What `unsubscribe` makes of the frames of its request. -/
def unsubscribeResult (Γ : Ctx ε υ) : List Frame → Outcome ε υ
  | [f] =>
    if f.opcode ≠ opUnsubscribeResp then
      .rejected (.protocolError ("expected UNSUBSCRIBE_RESP (0x" ++ String.ofList (Nat.toDigits 16 opUnsubscribeResp) ++
        "), got 0x" ++ String.ofList (Nat.toDigits 16 f.opcode)))
    else
      match Γ.decodeUnsubscribeResponse f.payload with
      | .ok r => .unsubscribed r
      | .error message => .rejected (.cborError message)
  | frames => .rejected (.protocolError s!"expected a single response frame, got {frames.length}")

/-- What a call makes of the frames it collected. -/
def Args.result (Γ : Ctx ε υ) (a : Args) (frames : List Frame) : Outcome ε υ :=
  match a.verb with
  | .unsubscribe _ => unsubscribeResult Γ frames
  | _ => .returned frames

/-- The deadline of `nextFrame` in a call: its own timeout, else the connection's. -/
def Args.deadlineMs (Γ : Ctx ε υ) (a : Args) : Option ℚ :=
  match a.verb with
  | .request => a.timeoutMs.or Γ.requestTimeoutMs
  | _ => Γ.requestTimeoutMs

/-- A decoded event, as what `nextEvent` comes to. -/
def eventOf (Γ : Ctx ε υ) (payload : Bytes) : Outcome ε υ :=
  match Γ.decodeSubscriptionEvent payload with
  | .ok e => .event e
  | .error message => .rejected (.cborError message)

/-- What `nextEvent` comes to once its wait has ended, and whether it ends the stream. -/
def nextEventResult (Γ : Ctx ε υ) : Except Thrown Frame → Bool × Outcome ε υ
  | .error (.connectionClosed _) => (true, .null)
  | .error e => (true, .rejected e)
  | .ok f =>
    if f.opcode = opError then (true, .rejected (errorOf Γ f.payload))
    else if f.isEos then (true, if f.payload.isEmpty then .null else eventOf Γ f.payload)
    else (false, eventOf Γ f.payload)

/-- A call that ends in its `finally`, which deletes its route. -/
def State.finish (s : State ε υ) (c : Nat) (call : Call ε υ) (o : Outcome ε υ) : State ε υ :=
  { s.setCall c { call with pc := .done o } with routes := s.routes.erase call.streamId }

/-- A request with a frame in hand: it throws, returns, or waits for the next one. -/
def State.collect (Γ : Ctx ε υ) (s : State ε υ) (c : Nat) (call : Call ε υ) (f : Frame) : State ε υ :=
  if f.opcode = opError then s.finish c call (.rejected (errorOf Γ f.payload))
  else
    let call := { call with frames := call.frames ++ [f] }
    if f.isEos then s.finish c call (call.args.result Γ call.frames) else s.awaitOwn c call

/-- `nextEvent` with its wait over: an end of the stream is marked, and drops the route. -/
def State.endNextEvent (Γ : Ctx ε υ) (s : State ε υ) (c target : Nat) (call : Call ε υ) (r : Except Thrown Frame) : State ε υ :=
  let s := s.setCall c { call with pc := .done (nextEventResult Γ r).2 }
  match (nextEventResult Γ r).1, s.calls[target]? with
  | true, some sub => { s.setCall target { sub with ended := true } with routes := s.routes.erase sub.streamId }
  | _, _ => s

/-- The continuation of a call whose awaited promise has settled. -/
def State.resume (Γ : Ctx ε υ) (s : State ε υ) (c : Nat) (call : Call ε υ) : Option (State ε υ) :=
  match call.pc, call.args.verb with
  | .written, .subscribe => some (s.setCall c { call with pc := .opened })
  | .written, _ => some (s.awaitOwn c call)
  | .got f, .nextEvent target => some (s.endNextEvent Γ c target call (.ok f))
  | .threw e, .nextEvent target => some (s.endNextEvent Γ c target call (.error e))
  | .got f, _ => some (s.collect Γ c call f)
  | .threw e, _ => some (s.finish c call (.rejected e))
  | _, _ => none

/-! ### The handlers of the socket -/

/-- A frame routed to the sink of its stream; one of an unknown stream is dropped. -/
def State.dispatch (s : State ε υ) (f : Frame) : State ε υ :=
  match s.routes.lookup f.streamId with
  | none => s
  | some c =>
    match s.calls[c]? with
    | none => s
    | some call =>
      { s with calls := settleWaiter (s.calls.set c { call with sink := (call.sink.push f).1 }) (call.sink.push f).2 (.ok f) }

/-- `sink.fail` of call `c`. -/
def failSink (e : Thrown) (calls : List (Call ε υ)) (c : Nat) : List (Call ε υ) :=
  match calls[c]? with
  | none => calls
  | some call => settleWaiter (calls.set c { call with sink := (call.sink.fail e).1 }) (call.sink.fail e).2 (.error e)

/-- `failAll`. -/
def State.failAll (s : State ε υ) (e : Thrown) : State ε υ :=
  { s with closedError := s.closedError.or (some e), calls := s.routes.tasks.foldl (failSink e) s.calls, routes := ∅ }

/-- The payload that answers a SERVER_PING: it echoes the timestamp, and 0 where that cannot be decoded. -/
def pongPayload (Γ : Ctx ε υ) (f : Frame) (now : Nat) : Except String Bytes :=
  Γ.encodeClientPong (match Γ.decodeServerPing f.payload with | .ok ts => ts | .error _ => 0) now

/-- The CLIENT_PONG that answers a SERVER_PING, or what becomes of it instead: its encoder throws, or `writeFrame` refuses it. -/
def clientPong (Γ : Ctx ε υ) (maxPayloadSize : Nat) (f : Frame) (now : Nat) : Except Thrown Bytes :=
  match pongPayload Γ f now with
  | .error message => .error (.cborError message)
  | .ok payload => writeFrame maxPayloadSize opClientPong handshakeStreamId payload

/-- `answerServerPing`. It ignores a rejected write; what the encoders throw leaves it. -/
def State.answerServerPing (Γ : Ctx ε υ) (s : State ε υ) (f : Frame) (now : Nat) : Except Thrown (State ε υ) :=
  match clientPong Γ s.maxPayloadSize f now with
  | .ok bytes => .ok { s with out := s.out ++ [bytes] }
  | .error (.protocolError _) => .ok s
  | .error e => .error e

/-- What the loop of `onData` does with a frame. -/
def State.handle (Γ : Ctx ε υ) (now : Nat) (s : State ε υ) (f : Frame) : Except Thrown (State ε υ) :=
  if f.opcode = opServerPing then s.answerServerPing Γ f now else .ok (s.dispatch f)

/-- The loop of `onData` from a read offset on. A codec error other than "truncated" fails the connection and leaves the buffer as
it is; the end of the whole frames drops what was read. What handling a frame throws leaves `onData`, with the buffer as it is. Every
frame shortens the rest, so the length of the buffer is fuel enough. -/
def State.drain (Γ : Ctx ε υ) (now : Nat) : Nat → Nat → State ε υ → State ε υ
  | 0, _, s => s
  | fuel + 1, offset, s =>
    match decodeFrame (s.buf.drop offset) with
    | .error e =>
      if e.kind = .truncated then { s with buf := if offset = 0 then s.buf else s.buf.drop offset }
      else s.failAll (.frameError e)
    | .ok (f, rest) =>
      let offset := offset + (s.buf.length - offset - rest.length)
      match s.handle Γ now f with
      | .error e => { s with uncaught := s.uncaught.or (some e) }
      | .ok s => State.drain Γ now fuel offset s

/-- `onData`. -/
def State.onData (Γ : Ctx ε υ) (s : State ε υ) (chunk : Bytes) (now : Nat) : State ε υ :=
  State.drain Γ now (s.buf.length + chunk.length + 1) 0 { s with buf := s.buf ++ chunk }

/-- One step. -/
def step (Γ : Ctx ε υ) (s : State ε υ) : Action → Option (State ε υ)
  | .call args =>
    match args.verb with
    | .nextEvent target =>
      s.calls[target]?.bind (fun sub => match sub.pc with | .opened => some (s.beginNextEvent args target sub) | _ => none)
    | .unsubscribe target =>
      s.calls[target]?.bind (fun sub =>
        match sub.pc with
        | .opened => some (s.send ⟨.unsubscribe target, opUnsubscribeReq, Γ.encodeUnsubscribe sub.streamId, none⟩)
        | _ => none)
    | _ => some (s.send args)
  | .writeDone c =>
    s.calls[c]?.bind (fun call => match call.pc with | .writing => some (s.setCall c { call with pc := .written }) | _ => none)
  | .writeFailed c message =>
    s.calls[c]?.bind (fun call =>
      match call.pc with | .writing => some (s.setCall c { call with pc := .threw (.nodeError message) }) | _ => none)
  | .resume c => s.calls[c]?.bind (fun call => s.resume Γ c call)
  | .timeout c =>
    s.calls[c]?.bind (fun call =>
      match call.pc, call.args.deadlineMs Γ with
      | .awaiting, some d => some (s.setCall c { call with pc := .threw (.brainTimeout d) })
      | _, _ => none)
  | .close c =>
    s.calls[c]?.bind (fun sub =>
      match sub.pc with
      | .opened => some { s.setCall c { sub with ended := true } with routes := s.routes.erase sub.streamId }
      | _ => none)
  | .data chunk now => if s.socketClosed then none else some (s.onData Γ chunk now)
  | .socketError message => if s.socketClosed then none else some (s.failAll (.transportError message))
  | .socketClose =>
    if s.socketClosed then none else some { s.failAll (.connectionClosed "connection closed by peer") with socketClosed := true }

/-- The connection as a machine, from the state the handshake leaves. -/
def mux (Γ : Ctx ε υ) (maxPayloadSize : Nat) : Machine (State ε υ) Action where
  init := State.init maxPayloadSize
  step := step Γ

/-- The context of the concrete runs: no deadline, and a codec that refuses every payload. -/
def Ctx.refusing : Ctx Unit Unit where
  requestTimeoutMs := none
  decodeError := fun _ => .error "invalid payload"
  decodeSubscriptionEvent := fun _ => .error "invalid payload"
  decodeServerPing := fun _ => .error "invalid payload"
  decodeUnsubscribeResponse := fun _ => .error "invalid payload"
  encodeClientPong := fun _ _ => .ok []
  encodeUnsubscribe := fun _ => []

end BrainSdk.TypeScript
