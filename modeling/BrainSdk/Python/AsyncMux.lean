import BrainSdk.Python.Consumed

/-!
# The asyncio multiplexed connection

`AsyncMuxConnection` and `AsyncSubscription` of `aio/mux.py`, from the end of the handshake on: any number of tasks over one connection,
and its reader task. All run on one loop, from one `await` to the next without interruption, so a step is what one task does between two
of them. Any task may be cancelled at any `await`, and any task may call `send_bye` or `aclose`, of the connection or of a subscription. One
task at a time is in `next` of a subscription.
-/

namespace BrainSdk.Python.AsyncMux

open Library Wire

/-- Where a call awaits. -/
inductive Pc where
  /-- in `_write`, the lock -/
  | locking
  /-- in `_write`, `drain`, with the lock -/
  | draining
  /-- in the loop of a request, `_next` -/
  | collecting
  /-- `subscribe` has returned; between calls on the `AsyncSubscription` -/
  | opened
  /-- in `AsyncSubscription.next`, `_next` -/
  | inNext
  | done (o : Outcome)
  /-- it raised `CancelledError` -/
  | cancelled
  deriving DecidableEq

/-- A call: one task in `request` or `request_on_connection`, or in `subscribe` and then on the `AsyncSubscription` it got. `outs` are the
results of `next` so far; one that was cancelled has none. -/
structure Call (ε : Type) where
  args : Args
  streamId : Nat
  queue : List Item
  frames : List Frame
  ended : Bool
  outs : List (NextOutcome ε)
  pc : Pc

/-- A task in `send_bye`: of the places of a call it awaits at the first two only. -/
structure Bye where
  payload : Bytes
  pc : Pc

/-- Where the reader task stands. -/
inductive Reader where
  /-- at `read_frame` -/
  | reading
  /-- in `_pong`, at the lock -/
  | ponging (f : Frame)
  /-- in `_pong`, at `drain`, with the lock -/
  | draining
  /-- `cancel` was called; `holds` is whether it has the lock -/
  | cancelling (holds : Bool)
  | stopped
  deriving DecidableEq

/-- The connection, its calls and its reader. `taken` counts the stream ids taken and is read by no step; `sent` are the frames given to
the transport. -/
structure State (ε : Type) where
  nextStreamId : Nat
  taken : Nat
  routes : Routes Nat
  closedError : Option Exc
  maxPayloadSize : Nat
  locked : Bool
  calls : List (Call ε)
  byes : List Bye
  reader : Reader
  sent : List Frame

/-- What one task does from one `await` to the next. -/
inductive Action where
  | begin (args : Args)
  | write (c : Nat)
  | drained (c : Nat) (failure : Option String)
  | cancel (c : Nat)
  | dequeue (c : Nat)
  | timeout (c : Nat)
  | next (c : Nat)
  | close (c : Nat)
  | sendBye (payload : Bytes)
  | byeWrite (k : Nat)
  | byeDrained (k : Nat) (failure : Option String)
  | byeCancel (k : Nat)
  | readFrame (f : Frame)
  | readError (e : ReadFailure)
  | pong (now : Nat)
  | ponged
  | aclose
  | readerCancelled
  deriving DecidableEq

variable {ε : Type}

/-- A connection as the handshake leaves it. -/
def State.init (maxPayloadSize : Nat) : State ε :=
  { nextStreamId := 1, taken := 0, routes := ∅, closedError := none, maxPayloadSize := maxPayloadSize, locked := false, calls := [],
    byes := [], reader := .reading, sent := [] }

/-- What a step makes of a call: it stays, or it leaves and deregisters on its way out. -/
inductive Turn (ε : Type) where
  | stay (call : Call ε)
  | leave (call : Call ε)

/-- The size check of `_write`. -/
def checkSize (maxPayloadSize : Nat) (payload : Bytes) : Option Exc :=
  if payload.length > maxPayloadSize then
    some (.protocolError s!"payload is {payload.length} bytes, over the {maxPayloadSize} the server advertised at WELCOME")
  else none

/-- The encoding of the frame in `write_frame`. -/
def encodeWritten (opcode streamId : Nat) (payload : Bytes) : Except Exc Frame :=
  match encodeFrame opcode streamId flagEos payload with
  | .error (.oversizePayload n) => .error (.frameError (.oversizePayload n))
  | .error e => .error (.encodeError e)
  | .ok _ => .ok ⟨opcode, flagEos, streamId, payload⟩

/-! ### What each step does to the call that takes it -/

/-- With the lock: the frame goes to the transport, or does not encode. -/
def Call.afterWrite (call : Call ε) : Option (Turn ε × Option Frame) :=
  match call.pc, encodeWritten call.args.opcode call.streamId call.args.payload with
  | .locking, .error e => some (.leave { call with pc := .done (.raised e) }, none)
  | .locking, .ok f => some (.stay { call with pc := .draining }, some f)
  | _, _ => none

/-- Behind `drain`. -/
def Call.afterDrain (call : Call ε) (failure : Option String) : Option (Turn ε) :=
  match call.pc, failure with
  | .draining, some message => some (.leave { call with pc := .done (.raised (.osError message)) })
  | .draining, none => some (.stay { call with pc := if call.args.verb = .subscribe then .opened else .collecting })
  | _, _ => none

/-- At a `CancelledError`. A subscription whose `next` is cancelled stays as it was. -/
def Call.afterCancel (call : Call ε) : Option (Turn ε) :=
  match call.pc with
  | .locking | .draining | .collecting => some (.leave { call with pc := .cancelled })
  | .inNext => some (.stay { call with pc := .opened })
  | _ => none

/-- A request with an item in hand. -/
def Call.collect (Γ : Ctx ε) (call : Call ε) : Item → Turn ε
  | .closed e => .leave { call with pc := .done (.raised e) }
  | .frame f =>
    if f.opcode = opError then .leave { call with pc := .done (.raised (errorOf Γ f.payload)) }
    else
      let frames := call.frames ++ [f]
      if f.isEos then .leave { call with frames := frames, pc := .done (.returned frames) } else .stay { call with frames := frames }

/-- `AsyncSubscription.next` with an item in hand: it ends the stream, or returns at once. -/
def Call.advance (Γ : Ctx ε) (call : Call ε) (item : Item) : Turn ε :=
  match nextItem Γ item with
  | (true, o) => .leave { call with ended := true, outs := call.outs ++ [o], pc := .opened }
  | (false, o) => .stay { call with outs := call.outs ++ [o], pc := .opened }

/-- Behind `_next`, with the first item of the queue. -/
def Call.afterDequeue (Γ : Ctx ε) (call : Call ε) : Option (Turn ε) :=
  match call.pc, call.queue with
  | .collecting, i :: rest => some ({ call with queue := rest }.collect Γ i)
  | .inNext, i :: rest => some ({ call with queue := rest }.advance Γ i)
  | _, _ => none

/-- Behind a `_next` whose wait timed out. The item may have come in the same turn of the loop; then it stays on the queue. -/
def Call.afterTimeout (Γ : Ctx ε) (call : Call ε) : Option (Turn ε) :=
  match call.pc, call.args.deadline Γ with
  | .collecting, some d => some (.leave { call with pc := .done (.raised (.brainTimeout d)) })
  | .inNext, some d => some (.stay { call with outs := call.outs ++ [.raised (.brainTimeout d)], pc := .opened })
  | _, _ => none

/-- `AsyncSubscription.next` up to its wait. -/
def Call.beginNext (call : Call ε) : Option (Turn ε) :=
  match call.pc with
  | .opened => some (.stay (if call.ended then { call with outs := call.outs ++ [.none] } else { call with pc := .inNext }))
  | _ => none

/-- `AsyncSubscription.aclose`. A task that is in `next` meanwhile goes on waiting. -/
def Call.beginClose (call : Call ε) : Option (Turn ε) :=
  match call.pc with
  | .opened | .inNext => some (.leave { call with ended := true })
  | _ => none

/-! ### What each step does to a `send_bye` -/

def Bye.begin (maxPayloadSize : Nat) (payload : Bytes) : Bye :=
  ⟨payload, match checkSize maxPayloadSize payload with
    | some e => .done (.raised e)
    | none => .locking⟩

def Bye.afterWrite (b : Bye) : Option (Bye × Option Frame) :=
  match b.pc, encodeWritten opBye handshakeStreamId b.payload with
  | .locking, .error e => some ({ b with pc := .done (.raised e) }, none)
  | .locking, .ok f => some ({ b with pc := .draining }, some f)
  | _, _ => none

def Bye.afterDrain (b : Bye) (failure : Option String) : Option Bye :=
  match b.pc, failure with
  | .draining, some message => some { b with pc := .done (.raised (.osError message)) }
  | .draining, none => some { b with pc := .done (.returned []) }
  | _, _ => none

def Bye.afterCancel (b : Bye) : Option Bye :=
  match b.pc with
  | .locking | .draining => some { b with pc := .cancelled }
  | _ => none

/-- `put_nowait`. -/
def Call.push (item : Item) (call : Call ε) : Call ε := { call with queue := call.queue ++ [item] }

/-! ### The steps -/

/-- The state with the turn of call `c` taken. -/
def State.take (s : State ε) (c : Nat) : Turn ε → State ε
  | .stay call => { s with calls := s.calls.set c call }
  | .leave call => { s with calls := s.calls.set c call, routes := s.routes.erase call.streamId }

/-- A step of one call. -/
def State.onCall (s : State ε) (c : Nat) (f : Call ε → Option (Turn ε)) : Option (State ε) :=
  s.calls[c]?.bind (fun call => (f call).map (s.take c))

/-- A step of one `send_bye`. -/
def State.onBye (s : State ε) (k : Nat) (f : Bye → Option Bye) : Option (State ε) :=
  s.byes[k]?.bind (fun b => (f b).map (fun b' => { s with byes := s.byes.set k b' }))

/-- The stream id of a call about to begin: that of `_take_stream_id`, or stream 0 for `request_on_connection`. -/
def State.streamIdFor (s : State ε) (verb : Verb) : Nat := if verb.isOp then s.nextStreamId else handshakeStreamId

/-- The state behind `_take_stream_id`. -/
def State.takeStreamId (s : State ε) (verb : Verb) : State ε :=
  if verb.isOp then { s with nextStreamId := nextStreamIdAfter s.nextStreamId, taken := s.taken + 1 } else s

/-- The first part of a call, up to the lock: `_take_stream_id` of an op call, `_register`, and the size check. -/
def State.begin (s : State ε) (args : Args) : State ε :=
  let t := s.takeStreamId args.verb
  let streamId := s.streamIdFor args.verb
  let call : Pc → Call ε := fun pc => ⟨args, streamId, [], [], false, [], pc⟩
  match s.closedError with
  | some e => { t with calls := s.calls ++ [call (.done (.raised e))] }
  | none =>
    match checkSize s.maxPayloadSize args.payload with
    | some e =>
      { t with
        calls := s.calls ++ [call (.done (.raised e))]
        routes := (s.routes.insert streamId s.calls.length).erase streamId }
    | none => { t with calls := s.calls ++ [call .locking], routes := s.routes.insert streamId s.calls.length }

/-- `_fail_all`. -/
def State.failAll (s : State ε) (error : Exc) : State ε :=
  { s with
    closedError := s.closedError.or (some error)
    calls := updateAll (Call.push (.closed error)) s.routes.tasks s.calls
    routes := ∅ }

/-- `cancel` of the reader task. -/
def Reader.cancel : Reader → Reader
  | .reading | .ponging _ => .cancelling false
  | .draining => .cancelling true
  | r => r

/-- One step. -/
def step (Γ : Ctx ε) (s : State ε) : Action → Option (State ε)
  | .begin args => some (s.begin args)
  | .write c =>
    if s.locked then none
    else
      s.calls[c]?.bind (fun call => call.afterWrite.map (fun r =>
        { s.take c r.1 with locked := r.2.isSome, sent := s.sent ++ r.2.toList }))
  | .drained c failure => (s.onCall c (fun call => call.afterDrain failure)).map (fun t => { t with locked := false })
  | .cancel c =>
    (s.onCall c Call.afterCancel).map (fun t => { t with locked := if (s.calls[c]?).any (·.pc = .draining) then false else s.locked })
  | .dequeue c => s.onCall c (Call.afterDequeue Γ)
  | .timeout c => s.onCall c (Call.afterTimeout Γ)
  | .next c => s.onCall c Call.beginNext
  | .close c => s.onCall c Call.beginClose
  | .sendBye payload => some { s with byes := s.byes ++ [.begin s.maxPayloadSize payload] }
  | .byeWrite k =>
    if s.locked then none
    else
      s.byes[k]?.bind (fun b => b.afterWrite.map (fun r =>
        { s with byes := s.byes.set k r.1, locked := r.2.isSome, sent := s.sent ++ r.2.toList }))
  | .byeDrained k failure => (s.onBye k (fun b => b.afterDrain failure)).map (fun t => { t with locked := false })
  | .byeCancel k =>
    (s.onBye k Bye.afterCancel).map (fun t => { t with locked := if (s.byes[k]?).any (·.pc = .draining) then false else s.locked })
  | .readFrame f =>
    if s.reader = .reading then
      if f.opcode = opServerPing then some { s with reader := .ponging f }
      else some { s with calls := (s.routes.lookup f.streamId).elim s.calls (fun c => s.calls.modify c (Call.push (.frame f))) }
    else none
  | .readError e => if s.reader = .reading then some { s.failAll e.error with reader := .stopped } else none
  | .pong now =>
    match s.reader with
    | .ponging f =>
      match tryWrite s.maxPayloadSize opClientPong handshakeStreamId (Γ.encodeClientPong (serverTimestamp Γ f) now) none with
      | .error _ => some { s with reader := .reading }
      | .ok pong => if s.locked then none else some { s with reader := .draining, locked := true, sent := s.sent ++ [pong] }
    | _ => none
  | .ponged => if s.reader = .draining then some { s with reader := .reading, locked := false } else none
  | .aclose => some { s.failAll (.connectionClosed "connection closed by client") with reader := s.reader.cancel }
  | .readerCancelled =>
    match s.reader with
    | .cancelling holds => some { s with reader := .stopped, locked := if holds then false else s.locked }
    | _ => none

/-- The connection as a machine. -/
def mux (Γ : Ctx ε) (maxPayloadSize : Nat) : Machine (State ε) Action := ⟨State.init maxPayloadSize, step Γ⟩

end BrainSdk.Python.AsyncMux
