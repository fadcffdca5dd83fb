import BrainSdk.Errors
import BrainSdk.Library.Machine
import BrainSdk.Library.Tables
import BrainSdk.StreamIds

/-!
# The Python multiplexed connection

`mux.py`: any number of caller threads over one connection, and its reader thread. A step of the machine is what one thread does
under one lock, on one queue or at the socket; any thread that can step may step next. A call is one thread running `request`,
`request_on_connection` or `subscribe`, the latter followed by calls of `next` and `close` on the `Subscription` it got. A call
creates one route queue, so the queue is named by the call. What the outside world decides is part of the action: the frames and
errors the socket gives the reader, whether a write succeeds, when a wait times out, the clock.
-/

namespace BrainSdk.Python

open Library Wire

/-- What the mux takes from outside its module: its configured deadline, and the CBOR codec of the payloads it reads or writes
itself. `ε` is the type of subscription events. -/
structure Ctx (ε : Type) where
  requestTimeout : Option ℚ
  decodeErrorResponse : Bytes → Except String ErrorResponse
  decodeSubscriptionEvent : Bytes → Except String ε
  decodeServerPing : Bytes → Except String Nat
  encodeClientPong : Nat → Nat → Bytes

/-- What a route queue carries: a frame, or the `_Closed` sentinel with the error it holds. -/
inductive Item where
  | frame (f : Frame)
  | closed (error : Exc)
  deriving DecidableEq

/-- The three calls that register a route queue. -/
inductive Verb where
  | request
  | requestOnConnection
  | subscribe
  deriving DecidableEq

/-- A call on an op stream: every call but `request_on_connection`. -/
def Verb.isOp : Verb → Bool
  | .requestOnConnection => false
  | _ => true

/-- The arguments of a call. The payload of `subscribe` is the encoded SUBSCRIBE request; only `request` has a `timeout`. -/
structure Args where
  verb : Verb
  opcode : Nat
  payload : Bytes
  timeout : Option ℚ
  deriving DecidableEq

/-- The deadline of `_next` in a call: its own timeout, else the connection's. -/
def Args.deadline {ε : Type} (Γ : Ctx ε) (a : Args) : Option ℚ :=
  match a.verb with
  | .request => a.timeout.or Γ.requestTimeout
  | _ => Γ.requestTimeout

/-- How a call ends. -/
inductive Outcome where
  | returned (frames : List Frame)
  | raised (e : Exc)
  deriving DecidableEq

/-- What one call of `Subscription.next` comes to: an event, `None`, or an exception. -/
inductive NextOutcome (ε : Type) where
  | event (e : ε)
  | none
  | raised (e : Exc)
  deriving DecidableEq

/-- Where a call stands. -/
inductive Pc (ε : Type) where
  /-- before `_take_stream_id` -/
  | starting
  /-- before `_register` -/
  | registering
  /-- before `_write` -/
  | writing
  /-- in the loop of a request, at `_next` -/
  | collecting
  /-- in the `finally` (or the `except` of `subscribe`), before `_deregister` -/
  | leaving (o : Outcome)
  | done (o : Outcome)
  /-- `subscribe` has returned; between calls on the `Subscription` -/
  | opened
  /-- in `Subscription.next`, at `_next` -/
  | inNext
  /-- in `Subscription.next` with `_ended` set, before `_deregister` -/
  | ending (o : NextOutcome ε)
  /-- in `Subscription.close`, before `_deregister` -/
  | closing

/-- A call: its arguments and its local variables. `registered` is whether its queue is registered, that is whether it has
registered it and has not deregistered since; `ordinal` is how many stream ids were taken before its own. No step reads these two.
`outs` are the results of `next` so far. -/
structure Call (ε : Type) where
  args : Args
  streamId : Nat
  queue : List Item
  frames : List Frame
  ended : Bool
  outs : List (NextOutcome ε)
  registered : Bool
  ordinal : Nat
  pc : Pc ε

/-- What `read_frame` can raise in the reader. -/
inductive ReadFailure where
  | closed (message : String)
  | os (message : String)
  | frame (e : FrameError)
  deriving DecidableEq

/-- The `error` of `_fail_all`: a close or an `OSError` as it is, anything else as a close with its text. -/
def ReadFailure.error : ReadFailure → Exc
  | .closed message => .connectionClosed message
  | .os message => .osError message
  | .frame e => .connectionClosed e.str

/-- Where the reader thread stands. -/
inductive Reader where
  /-- at `read_frame` -/
  | reading
  /-- at the lookup of the route of a frame -/
  | routing (f : Frame)
  /-- before `q.put(frame)`, with the queue the lookup found -/
  | putting (f : Frame) (c : Nat)
  /-- answering a SERVER_PING -/
  | ponging (f : Frame)
  /-- before `_fail_all` -/
  | failing (e : ReadFailure)
  | stopped
  deriving DecidableEq

/-- The shared state of a connection, its calls and its reader. `taken` counts the stream ids taken so far and is read by no step;
`sent` are the frames written to the socket. -/
structure State (ε : Type) where
  nextStreamId : Nat
  taken : Nat
  routes : Routes Nat
  closedError : Option Exc
  maxPayloadSize : Nat
  calls : List (Call ε)
  reader : Reader
  sent : List Frame

/-- What one thread does in one step. -/
inductive Action where
  | start (args : Args)
  | takeStreamId (c : Nat)
  | register (c : Nat)
  | write (c : Nat) (failure : Option String)
  | dequeue (c : Nat) (item : Item)
  | timeout (c : Nat)
  | deregister (c : Nat)
  | next (c : Nat)
  | close (c : Nat)
  | readFrame (f : Frame)
  | readError (e : ReadFailure)
  | pong (now : Nat) (failure : Option String)
  | lookup (f : Frame)
  | put (f : Frame) (c : Nat)
  | failAll
  deriving DecidableEq

variable {ε : Type}

/-- A connection as the handshake leaves it: no route, the first op-stream id, the reader at `read_frame`. -/
def State.init (maxPayloadSize : Nat) : State ε :=
  { nextStreamId := 1, taken := 0, routes := ∅, closedError := none, maxPayloadSize := maxPayloadSize, calls := [],
    reader := .reading, sent := [] }

/-- A call that has just begun. `request_on_connection` needs no stream id of its own: it uses stream 0. -/
def Call.begin (args : Args) : Call ε :=
  { args := args, streamId := handshakeStreamId, queue := [], frames := [], ended := false, outs := [], registered := false,
    ordinal := 0, pc := if args.verb.isOp then .starting else .registering }

/-- The state with call `c` replaced. -/
def State.setCall (s : State ε) (c : Nat) (call : Call ε) : State ε := { s with calls := s.calls.set c call }

/-- `_write`: the size check, the encoding of the frame, and the write, which may fail with an `OSError`. -/
def tryWrite (maxPayloadSize opcode streamId : Nat) (payload : Bytes) (failure : Option String) : Except Exc Frame :=
  if payload.length > maxPayloadSize then
    .error (.protocolError s!"payload is {payload.length} bytes, over the {maxPayloadSize} the server advertised at WELCOME")
  else
    match encodeFrame opcode streamId flagEos payload with
    | .error (.oversizePayload n) => .error (.frameError (.oversizePayload n))
    | .error e => .error (.encodeError e)
    | .ok _ =>
      match failure with
      | some message => .error (.osError message)
      | none => .ok ⟨opcode, flagEos, streamId, payload⟩

/-- `ServerError.from_response(decode_payload(ErrorResponse, frame.payload))`: what an ERROR frame makes a call raise. -/
def errorOf (Γ : Ctx ε) (payload : Bytes) : Exc :=
  match Γ.decodeErrorResponse payload with
  | .ok r => .serverError r
  | .error message => .payloadError message

/-- What a request does with the item `_next` took off its queue. -/
def Call.collect (Γ : Ctx ε) (call : Call ε) : Item → Call ε
  | .closed e => { call with pc := .leaving (.raised e) }
  | .frame f =>
    if f.opcode = opError then { call with pc := .leaving (.raised (errorOf Γ f.payload)) }
    else
      let frames := call.frames ++ [f]
      if f.isEos then { call with frames := frames, pc := .leaving (.returned frames) } else { call with frames := frames }

/-- `decode_payload(SubscriptionEvent, payload)`, as a result of `next`. -/
def eventOf (Γ : Ctx ε) (payload : Bytes) : NextOutcome ε :=
  match Γ.decodeSubscriptionEvent payload with
  | .ok e => .event e
  | .error message => .raised (.payloadError message)

/-- What `Subscription.next` does with the item `_next` took off the queue: whether it sets `_ended`, and its result. Only a
`ConnectionClosed` is caught; another error of the sentinel passes through. -/
def nextItem (Γ : Ctx ε) : Item → Bool × NextOutcome ε
  | .closed (.connectionClosed _) => (true, .none)
  | .closed e => (false, .raised e)
  | .frame f =>
    if f.opcode = opError then (true, .raised (errorOf Γ f.payload))
    else if f.isEos then (true, if f.payload.isEmpty then .none else eventOf Γ f.payload)
    else (false, eventOf Γ f.payload)

/-- `Subscription.next` after its wait: end the stream and deregister, or return to the caller at once. -/
def Call.advance (Γ : Ctx ε) (call : Call ε) (item : Item) : Call ε :=
  match nextItem Γ item with
  | (true, o) => { call with ended := true, pc := .ending o }
  | (false, o) => { call with outs := call.outs ++ [o], pc := .opened }

/-- `q.put`. -/
def Call.push (item : Item) (call : Call ε) : Call ε := { call with queue := call.queue ++ [item] }

/-! ### What each step does to the call that takes it -/

/-- A call past `_take_stream_id`, which gave it `id` as the `n`-th id of the connection. -/
def Call.afterTake (call : Call ε) (id n : Nat) : Option (Call ε) :=
  match call.pc with
  | .starting => some { call with streamId := id, ordinal := n, pc := .registering }
  | _ => none

/-- A call past `_register`: it raises the stored error when there is one. -/
def Call.afterRegister (call : Call ε) (closedError : Option Exc) : Option (Call ε) :=
  match call.pc, closedError with
  | .registering, some e => some { call with pc := .done (.raised e) }
  | .registering, none => some { call with registered := true, pc := .writing }
  | _, _ => none

/-- A call past `_write`. -/
def Call.afterWrite (call : Call ε) (r : Except Exc Frame) : Option (Call ε) :=
  match call.pc, r with
  | .writing, .error e => some { call with pc := .leaving (.raised e) }
  | .writing, .ok _ => some { call with pc := if call.args.verb = .subscribe then .opened else .collecting }
  | _, _ => none

/-- A call past a `_next` that took the first item of its queue. -/
def Call.afterDequeue (Γ : Ctx ε) (call : Call ε) (item : Item) : Option (Call ε) :=
  match call.pc, call.queue with
  | .collecting, i :: rest => if i = item then some ({ call with queue := rest }.collect Γ item) else none
  | .inNext, i :: rest => if i = item then some ({ call with queue := rest }.advance Γ item) else none
  | _, _ => none

/-- A call past a `_next` whose wait ended with `queue.Empty`: there is a deadline, and the queue is empty. -/
def Call.afterTimeout (Γ : Ctx ε) (call : Call ε) : Option (Call ε) :=
  match call.pc, call.queue, call.args.deadline Γ with
  | .collecting, [], some d => some { call with pc := .leaving (.raised (.brainTimeout d)) }
  | .inNext, [], some d => some { call with outs := call.outs ++ [.raised (.brainTimeout d)], pc := .opened }
  | _, _, _ => none

/-- A call past `_deregister`. -/
def Call.afterDeregister (call : Call ε) : Option (Call ε) :=
  match call.pc with
  | .leaving o => some { call with registered := false, pc := .done o }
  | .ending o => some { call with registered := false, outs := call.outs ++ [o], pc := .opened }
  | .closing => some { call with registered := false, pc := .opened }
  | _ => none

/-- `Subscription.next` up to its wait: an ended stream returns `None` at once. -/
def Call.beginNext (call : Call ε) : Option (Call ε) :=
  match call.pc with
  | .opened => some (if call.ended then { call with outs := call.outs ++ [.none] } else { call with pc := .inNext })
  | _ => none

/-- `Subscription.close` up to its `_deregister`. -/
def Call.beginClose (call : Call ε) : Option (Call ε) :=
  match call.pc with
  | .opened => some { call with ended := true, pc := .closing }
  | _ => none

/-- The reader past `read_frame`: a SERVER_PING is answered, any other frame is routed. -/
def Reader.afterRead (f : Frame) : Reader := if f.opcode = opServerPing then .ponging f else .routing f

/-- The timestamp a CLIENT_PONG echoes: 0 when the payload of the SERVER_PING does not decode. -/
def serverTimestamp (Γ : Ctx ε) (f : Frame) : Nat :=
  match Γ.decodeServerPing f.payload with
  | .ok ts => ts
  | .error _ => 0

/-- A step of one call: its local part, and what becomes of the state with the new call in place. -/
def State.onCall (s : State ε) (c : Nat) (f : Call ε → Option (Call ε)) (g : Call ε → State ε → State ε) :
    Option (State ε) :=
  s.calls[c]?.bind (fun call => (f call).map (fun call' => g call (s.setCall c call')))

/-- One step. -/
def step (Γ : Ctx ε) (s : State ε) : Action → Option (State ε)
  | .start args => some { s with calls := s.calls ++ [Call.begin args] }
  | .takeStreamId c =>
    s.onCall c (fun call => call.afterTake s.nextStreamId s.taken)
      (fun _ t => { t with nextStreamId := nextStreamIdAfter s.nextStreamId, taken := s.taken + 1 })
  | .register c =>
    s.onCall c (fun call => call.afterRegister s.closedError)
      (fun call t =>
        match s.closedError with
        | some _ => t
        | none => { t with routes := s.routes.insert call.streamId c })
  | .write c failure =>
    s.onCall c
      (fun call =>
        call.afterWrite (tryWrite s.maxPayloadSize call.args.opcode call.streamId call.args.payload failure))
      (fun call t =>
        { t with
          sent := s.sent ++
            (tryWrite s.maxPayloadSize call.args.opcode call.streamId call.args.payload failure).toOption.toList })
  | .dequeue c item => s.onCall c (fun call => call.afterDequeue Γ item) (fun _ t => t)
  | .timeout c => s.onCall c (fun call => call.afterTimeout Γ) (fun _ t => t)
  | .deregister c =>
    s.onCall c Call.afterDeregister (fun call t => { t with routes := s.routes.erase call.streamId })
  | .next c => s.onCall c Call.beginNext (fun _ t => t)
  | .close c => s.onCall c Call.beginClose (fun _ t => t)
  | .readFrame f => if s.reader = .reading then some { s with reader := .afterRead f } else none
  | .readError e => if s.reader = .reading then some { s with reader := .failing e } else none
  | .pong now failure =>
    match s.reader with
    | .ponging f =>
      let r := tryWrite s.maxPayloadSize opClientPong handshakeStreamId (Γ.encodeClientPong (serverTimestamp Γ f) now) failure
      some { s with reader := .reading, sent := s.sent ++ r.toOption.toList }
    | _ => none
  | .lookup f =>
    if s.reader = .routing f then
      match s.routes.lookup f.streamId with
      | some c => some { s with reader := .putting f c }
      | none => some { s with reader := .reading }
    else none
  | .put f c =>
    if s.reader = .putting f c then
      some { s with reader := .reading, calls := s.calls.modify c (Call.push (.frame f)) }
    else none
  | .failAll =>
    match s.reader with
    | .failing e =>
      some { s with
        closedError := s.closedError.or (some e.error)
        calls := updateAll (Call.push (.closed e.error)) s.routes.tasks s.calls
        routes := ∅
        reader := .stopped }
    | _ => none

/-- The connection as a machine, from the state the handshake leaves. -/
def mux (Γ : Ctx ε) (maxPayloadSize : Nat) : Machine (State ε) Action where
  init := State.init maxPayloadSize
  step := step Γ

/-- The context of the concrete runs: the default deadline, and a codec that refuses every payload. -/
def Ctx.refusing : Ctx Unit where
  requestTimeout := some 30
  decodeErrorResponse := fun _ => .error "invalid payload"
  decodeSubscriptionEvent := fun _ => .error "invalid payload"
  decodeServerPing := fun _ => .error "invalid payload"
  encodeClientPong := fun _ _ => []

end BrainSdk.Python
