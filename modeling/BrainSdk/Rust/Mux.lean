import BrainSdk.Errors
import BrainSdk.Library.Machine
import BrainSdk.Library.Tables
import BrainSdk.StreamIds

/-!
# The Rust multiplexed connection

`mux.rs` and the writing half of `transport.rs`: any number of tasks over one connection, and its reader task. A step is what one
task does up to its next lock or `await`; any task that can step may step next, and a future may be dropped wherever it awaits. A
task is one future of `request`, `request_on_connection`, `subscribe` or `unsubscribe`; the task of a `subscribe` goes on as the
`Subscription` it returned. A task registers one channel, so the channel is named by the task: the table holds its sender, the task
its receiver. What the outside world decides is part of the action: the frames and errors of the socket, how many bytes a write
takes, when a wait times out, the clock, what is dropped when.
-/

namespace BrainSdk.Rust

open Library Wire

/-- What the mux takes from outside its module: its configured deadline, and the CBOR codec of the payloads it reads or writes
itself. `ε` is the type of subscription events, `υ` that of UNSUBSCRIBE responses. -/
structure Ctx (ε υ : Type) where
  requestTimeout : Option Nat
  decodeErrorResponse : Bytes → Except String ErrorResponse
  decodeSubscriptionEvent : Bytes → Except String ε
  decodeServerPing : Bytes → Except String Nat
  decodeUnsubscribeResponse : Bytes → Except String υ
  encodeClientPong : Nat → Nat → Bytes
  encodeUnsubscribe : UInt32 → Bytes

/-- The calls that register a channel. `unsubscribe` is made on the `Subscription` of a task. -/
inductive Verb where
  | request
  | requestOnConnection
  | subscribe
  | unsubscribe (target : Nat)
  deriving DecidableEq

/-- The calls made on the `MuxConnection`, which they borrow; `unsubscribe` borrows the `Subscription` instead. -/
def Verb.onConnection : Verb → Bool
  | .unsubscribe _ => false
  | _ => true

/-- The arguments of a call. The payload of `subscribe` is the encoded SUBSCRIBE request. -/
structure Args where
  verb : Verb
  opcode : UInt16
  payload : Bytes
  timeout : Option Nat
  deriving DecidableEq

/-- How a call ends: with the collected frames, with the decoded UNSUBSCRIBE response, or with an error. -/
inductive Outcome (υ : Type) where
  | returned (frames : List Frame)
  | unsubscribed (response : υ)
  | failed (e : BrainError)

/-- What one call of `Subscription::next` comes to. -/
inductive NextOutcome (ε : Type) where
  | event (e : ε)
  | none
  | failed (e : BrainError)

/-- Where a task stands. `writing` has the bytes of the frame written so far and those still to write. -/
inductive Pc (υ : Type) where
  /-- before `alloc_stream_id` -/
  | starting
  /-- before `register` -/
  | registering
  /-- at the size check of `write` -/
  | checking
  /-- awaiting the writer mutex -/
  | locking
  /-- in `write_all`, with the writer mutex -/
  | writing (written rest : Bytes)
  /-- in the loop of `request_on`, awaiting its receiver -/
  | receiving
  /-- the channel closed, before `closed_error` -/
  | closing
  /-- before the `deregister` of an error path -/
  | leaving (o : Outcome υ)
  | done (o : Outcome υ)
  /-- the future was dropped -/
  | cancelled
  /-- a `Subscription`, between calls on it -/
  | opened
  /-- in `Subscription::next`, awaiting its receiver -/
  | inNext
  /-- a `Subscription` that was dropped -/
  | dropped

/-- A task: its arguments and its local variables. `ordinal`, which no step reads, is how many stream ids were taken before its
own; `outs` are the results of `next` so far. -/
structure Task (ε υ : Type) where
  args : Args
  streamId : UInt32
  queue : List Frame
  frames : List Frame
  ended : Bool
  outs : List (NextOutcome ε)
  ordinal : Nat
  pc : Pc υ

/-- What `read_frame` fails with. -/
inductive ReadFailure where
  | io (message : String)
  | frame (e : FrameError)
  | closed
  deriving DecidableEq

/-- `e.to_string()` of the error `read_frame` fails with. -/
def ReadFailure.display : ReadFailure → String
  | .io message => s!"io error: {message}"
  | .frame e => s!"frame codec error: {frameErrorDisplay e}"
  | .closed => "connection closed by peer"

/-- How the reader task ended. -/
inductive ReaderEnd where
  | failed
  | aborted
  deriving DecidableEq

/-- Where the reader task stands. -/
inductive Reader where
  /-- awaiting `read_frame` -/
  | reading
  /-- awaiting the writer mutex, with the payload of the CLIENT_PONG -/
  | locking (payload : Bytes)
  /-- in `write_all` of the CLIENT_PONG, with the writer mutex -/
  | writing (written rest : Bytes)
  | ended (how : ReaderEnd)
  deriving DecidableEq

/-- Who holds the writer mutex. -/
inductive Writer where
  | task (c : Nat)
  | reader
  deriving DecidableEq

/-- The shared state of a connection, its tasks and its reader. `taken` counts the stream ids taken so far and is read by no step;
`wire` are the bytes the socket has taken, and `broken` is whether a write on it has failed. -/
structure State (ε υ : Type) where
  nextStreamId : UInt32
  taken : Nat
  routes : Routes Nat
  closed : Option String
  maxPayloadSize : Nat
  tasks : List (Task ε υ)
  reader : Reader
  lock : Option Writer
  wire : Bytes
  broken : Bool
  connected : Bool
  aborting : Bool

/-- What one task does in one step, or what is dropped. -/
inductive Action where
  | start (args : Args)
  | unsubscribe (target : Nat)
  | allocStreamId (c : Nat)
  | register (c : Nat)
  | check (c : Nat)
  | acquire (c : Nat)
  | write (c n : Nat)
  | writeError (c : Nat) (message : String)
  | recv (c : Nat) (item : Option Frame)
  | timeout (c : Nat)
  | closedError (c : Nat)
  | deregister (c : Nat)
  | cancel (c : Nat)
  | next (c : Nat)
  | dropSubscription (c : Nat)
  | readFrame (f : Frame) (now : Nat)
  | readError (e : ReadFailure)
  | acquirePong
  | writePong (n : Nat)
  | writePongError
  | dropConnection
  | abort
  deriving DecidableEq

variable {ε υ : Type}

/-- A connection as the handshake leaves it. -/
def State.init (maxPayloadSize : Nat) : State ε υ :=
  { nextStreamId := 1, taken := 0, routes := ∅, closed := none, maxPayloadSize := maxPayloadSize, tasks := [],
    reader := .reading, lock := none, wire := [], broken := false, connected := true, aborting := false }

/-- A task that has just begun. `request_on_connection` needs no stream id of its own: it uses stream 0. -/
def Task.begin (args : Args) : Task ε υ :=
  { args := args, streamId := 0, queue := [], frames := [], ended := false, outs := [], ordinal := 0,
    pc := if args.verb = .requestOnConnection then .registering else .starting }

/-- The state with task `c` replaced. -/
def State.setTask (s : State ε υ) (c : Nat) (task : Task ε υ) : State ε υ := { s with tasks := s.tasks.set c task }

/-- A step of one task: its local part, and what becomes of the state with the new task in place. -/
def State.onTask (s : State ε υ) (c : Nat) (f : Task ε υ → Option (Task ε υ)) (g : Task ε υ → State ε υ → State ε υ) :
    Option (State ε υ) :=
  s.tasks[c]?.bind (fun task => (f task).map (fun task' => g task (s.setTask c task')))

/-- A future that has been started and neither finished nor dropped. -/
def Pc.inFlight : Pc υ → Bool
  | .done _ | .cancelled | .opened | .inNext | .dropped => false
  | _ => true

/-- A live `Subscription`. -/
def Pc.isSubscription : Pc υ → Bool
  | .opened | .inNext => true
  | _ => false

/-- The receiver of a task is gone once its future or its `Subscription` is. -/
def Pc.receives : Pc υ → Bool
  | .done _ | .cancelled | .dropped => false
  | _ => true

/-- The bytes a task has still to write. -/
def Pc.rest : Pc υ → Bytes
  | .writing _ rest => rest
  | _ => []

/-- `Frame::encode` of a frame with the EOS flag. -/
def encode (opcode : UInt16) (streamId : UInt32) (payload : Bytes) : Except FrameError Bytes :=
  if payload.length > maxPayloadBytes then .error (.oversizePayload (payload.length % 2 ^ 32))
  else .ok (encodeHeader opcode.toNat streamId.toNat flagEos payload.length (crc32c payload) ++ payload)

/-- The deadline of `request_on`: the call's own timeout, else the connection's. -/
def Args.deadline (Γ : Ctx ε υ) (a : Args) : Option Nat := a.timeout.or Γ.requestTimeout

/-- A number as `{:#06x}` prints it, for one of 16 bits. -/
def hex06 (n : Nat) : String :=
  "0x" ++ String.ofList ((Nat.toDigits 16 (2 ^ 16 + n)).drop 1)

/-- What `unsubscribe` makes of the frames it collected. -/
def unsubscribeResult (Γ : Ctx ε υ) : List Frame → Outcome υ
  | [f] =>
    if f.opcode ≠ opUnsubscribeResp then
      .failed (.protocol s!"expected UNSUBSCRIBE_RESP ({hex06 opUnsubscribeResp}), got {hex06 f.opcode}")
    else
      match Γ.decodeUnsubscribeResponse f.payload with
      | .ok r => .unsubscribed r
      | .error message => .failed (.cbor message)
  | frames => .failed (.protocol s!"expected a single UNSUBSCRIBE_RESP frame, got {frames.length}")

/-- What a call makes of the frames `request_on` collected. -/
def Args.result (Γ : Ctx ε υ) (a : Args) (frames : List Frame) : Outcome υ :=
  match a.verb with
  | .unsubscribe _ => unsubscribeResult Γ frames
  | _ => .returned frames

/-- `BrainError::from_server` of the decoded payload: what an ERROR frame makes a call fail with. -/
def errorOf (Γ : Ctx ε υ) (payload : Bytes) : BrainError :=
  match Γ.decodeErrorResponse payload with
  | .ok r => .server r
  | .error message => .cbor message

/-- What `request_on` does with a frame off its channel. -/
def Task.collect (Γ : Ctx ε υ) (task : Task ε υ) (f : Frame) : Task ε υ :=
  if f.opcode = opError then { task with pc := .leaving (.failed (errorOf Γ f.payload)) }
  else
    let frames := task.frames ++ [f]
    if f.isEos then { task with frames := frames, pc := .done (task.args.result Γ frames) } else { task with frames := frames }

/-- A decoded event, as a result of `next`. -/
def eventOf (Γ : Ctx ε υ) (payload : Bytes) : NextOutcome ε :=
  match Γ.decodeSubscriptionEvent payload with
  | .ok e => .event e
  | .error message => .failed (.cbor message)

/-- What `Subscription::next` does with a frame off its channel: whether it sets `ended`, and its result. -/
def nextFrame (Γ : Ctx ε υ) (f : Frame) : Bool × NextOutcome ε :=
  if f.opcode = opError then (true, .failed (errorOf Γ f.payload))
  else if f.isEos then (true, if f.payload.isEmpty then .none else eventOf Γ f.payload)
  else (false, eventOf Γ f.payload)

/-- `Subscription::next` with a frame in hand. -/
def Task.advance (Γ : Ctx ε υ) (task : Task ε υ) (f : Frame) : Task ε υ :=
  { task with ended := task.ended || (nextFrame Γ f).1, outs := task.outs ++ [(nextFrame Γ f).2], pc := .opened }

/-- `tx.send`: it does nothing when the receiver is gone. -/
def Task.deliver (f : Frame) (task : Task ε υ) : Task ε υ :=
  if task.pc.receives then { task with queue := task.queue ++ [f] } else task

/-- `closed_error`. -/
def closedErrorOf : Option String → BrainError
  | some reason => .protocol s!"connection closed: {reason}"
  | none => .closed

/-! ### What each step does to the task that takes it -/

def Task.afterAlloc (task : Task ε υ) (id : UInt32) (n : Nat) : Option (Task ε υ) :=
  match task.pc with
  | .starting => some { task with streamId := id, ordinal := n, pc := .registering }
  | _ => none

/-- A task past `register`: it fails when the connection has closed. -/
def Task.afterRegister (task : Task ε υ) (closed : Option String) : Option (Task ε υ) :=
  match task.pc, closed with
  | .registering, some reason => some { task with pc := .done (.failed (.protocol s!"connection closed: {reason}")) }
  | .registering, none => some { task with pc := .checking }
  | _, _ => none

/-- A task past the size check of `write`. -/
def Task.afterCheck (task : Task ε υ) (maxPayloadSize : Nat) : Option (Task ε υ) :=
  match task.pc with
  | .checking =>
    some (if task.args.payload.length > maxPayloadSize then
        { task with pc := .leaving (.failed (.protocol
            s!"payload is {task.args.payload.length} bytes, over the {maxPayloadSize} the server advertised at WELCOME")) }
      else { task with pc := .locking })
  | _ => none

/-- A task that has just got the writer mutex and encoded its frame. -/
def Task.afterAcquire (task : Task ε υ) : Option (Task ε υ) :=
  match task.pc with
  | .locking =>
    match encode task.args.opcode task.streamId task.args.payload with
    | .error e => some { task with pc := .leaving (.failed (.frame e)) }
    | .ok bytes => some { task with pc := .writing [] bytes }
  | _ => none

/-- Where a task goes on once its frame is written. -/
def Task.written (task : Task ε υ) : Pc υ := if task.args.verb = .subscribe then .opened else .receiving

/-- A task past a write of `n` bytes. -/
def Task.afterWrite (task : Task ε υ) (n : Nat) : Option (Task ε υ) :=
  match task.pc with
  | .writing written rest =>
    if 0 < n ∧ n ≤ rest.length then
      some { task with pc := if rest.length = n then task.written else .writing (written ++ rest.take n) (rest.drop n) }
    else none
  | _ => none

def Task.afterWriteError (task : Task ε υ) (message : String) : Option (Task ε υ) :=
  match task.pc with
  | .writing _ _ => some { task with pc := .leaving (.failed (.io message)) }
  | _ => none

/-- A task past `rx.recv()`: the first frame of its channel, or `None` when there is none and the sender is gone. -/
def Task.afterRecv (Γ : Ctx ε υ) (task : Task ε υ) (sender : Bool) (item : Option Frame) : Option (Task ε υ) :=
  match task.pc, task.queue, item with
  | .receiving, f :: rest, some g => if f = g then some ({ task with queue := rest }.collect Γ f) else none
  | .receiving, [], none => if sender then none else some { task with pc := .closing }
  | .inNext, f :: rest, some g => if f = g then some ({ task with queue := rest }.advance Γ f) else none
  | .inNext, [], none => if sender then none else some { task with outs := task.outs ++ [.none], pc := .opened }
  | _, _, _ => none

/-- A task whose wait ran out: it had a deadline, and `rx.recv()` was not ready. -/
def Task.afterTimeout (Γ : Ctx ε υ) (task : Task ε υ) (sender : Bool) : Option (Task ε υ) :=
  match task.pc, task.queue, task.args.deadline Γ with
  | .receiving, [], some d => if sender then some { task with pc := .leaving (.failed (.timeout d)) } else none
  | _, _, _ => none

def Task.afterClosedError (task : Task ε υ) (closed : Option String) : Option (Task ε υ) :=
  match task.pc with
  | .closing => some { task with pc := .done (.failed (closedErrorOf closed)) }
  | _ => none

def Task.afterDeregister (task : Task ε υ) : Option (Task ε υ) :=
  match task.pc with
  | .leaving o => some { task with pc := .done o }
  | _ => none

/-- A future dropped at the `await` it is in. A `Subscription` outlives a dropped `next`. -/
def Task.afterCancel (task : Task ε υ) : Option (Task ε υ) :=
  match task.pc with
  | .locking | .writing _ _ | .receiving => some { task with pc := .cancelled }
  | .inNext => some { task with pc := .opened }
  | _ => none

/-- `Subscription::next` up to its wait: an ended stream returns `None` at once. -/
def Task.beginNext (task : Task ε υ) : Option (Task ε υ) :=
  match task.pc with
  | .opened => some (if task.ended then { task with outs := task.outs ++ [.none] } else { task with pc := .inNext })
  | _ => none

def Task.afterDrop (task : Task ε υ) : Option (Task ε υ) :=
  match task.pc with
  | .opened => some { task with pc := .dropped }
  | _ => none

/-- The payload of the CLIENT_PONG that answers a SERVER_PING. -/
def pongPayload (Γ : Ctx ε υ) (f : Frame) (now : Nat) : Bytes :=
  Γ.encodeClientPong (match Γ.decodeServerPing f.payload with | .ok ts => ts | .error _ => 0) now

/-- The writer mutex once `w` has dropped its guard. -/
def release (lock : Option Writer) (w : Writer) : Option Writer := if lock = some w then none else lock

/-- The reader with a frame that is no heartbeat: it is sent to the route of its stream, and the last frame of a stream removes the
route. -/
def State.route (s : State ε υ) (f : Frame) : State ε υ :=
  match s.routes.lookup f.streamId with
  | some c =>
    { s with
      tasks := s.tasks.modify c (Task.deliver f)
      routes := if f.isEos then s.routes.erase f.streamId else s.routes }
  | none => s

/-- One step. -/
def step (Γ : Ctx ε υ) (s : State ε υ) : Action → Option (State ε υ)
  | .start args =>
    if s.connected ∧ args.verb.onConnection then some { s with tasks := s.tasks ++ [Task.begin args] } else none
  | .unsubscribe target =>
    s.onTask target (fun sub => match sub.pc with | .opened => some sub | _ => none)
      (fun sub t =>
        { t with
          tasks := t.tasks ++
            [Task.begin ⟨.unsubscribe target, UInt16.ofNat opUnsubscribeReq, Γ.encodeUnsubscribe sub.streamId, none⟩] })
  | .allocStreamId c =>
    s.onTask c (fun task => task.afterAlloc s.nextStreamId s.taken)
      (fun _ t => { t with nextStreamId := nextStreamIdAfter s.nextStreamId, taken := s.taken + 1 })
  | .register c =>
    s.onTask c (fun task => task.afterRegister s.closed)
      (fun task t =>
        match s.closed with
        | some _ => t
        | none => { t with routes := s.routes.insert task.streamId.toNat c })
  | .check c => s.onTask c (fun task => task.afterCheck s.maxPayloadSize) (fun _ t => t)
  | .acquire c =>
    if s.lock = none then
      s.onTask c Task.afterAcquire
        (fun task t =>
          match encode task.args.opcode task.streamId task.args.payload with
          | .error _ => t
          | .ok _ => { t with lock := some (.task c) })
    else none
  | .write c n =>
    if s.broken then none
    else
      s.onTask c (fun task => task.afterWrite n)
        (fun task t =>
          { t with
            wire := s.wire ++ task.pc.rest.take n
            lock := if task.pc.rest.length = n then release s.lock (.task c) else s.lock })
  | .writeError c message =>
    s.onTask c (fun task => task.afterWriteError message)
      (fun _ t => { t with broken := true, lock := release s.lock (.task c) })
  | .recv c item => s.onTask c (fun task => task.afterRecv Γ (c ∈ s.routes.tasks) item) (fun _ t => t)
  | .timeout c => s.onTask c (fun task => task.afterTimeout Γ (c ∈ s.routes.tasks)) (fun _ t => t)
  | .closedError c => s.onTask c (fun task => task.afterClosedError s.closed) (fun _ t => t)
  | .deregister c =>
    s.onTask c Task.afterDeregister (fun task t => { t with routes := s.routes.erase task.streamId.toNat })
  | .cancel c => s.onTask c Task.afterCancel (fun _ t => { t with lock := release s.lock (.task c) })
  | .next c => s.onTask c Task.beginNext (fun _ t => t)
  | .dropSubscription c =>
    if ∀ task ∈ s.tasks, task.args.verb = .unsubscribe c → task.pc.inFlight = false then
      s.onTask c Task.afterDrop (fun task t => { t with routes := s.routes.erase task.streamId.toNat })
    else none
  | .readFrame f now =>
    if s.reader = .reading then
      some (if f.opcode = opServerPing then { s with reader := .locking (pongPayload Γ f now) } else s.route f)
    else none
  | .readError e =>
    if s.reader = .reading then some { s with closed := some e.display, routes := ∅, reader := .ended .failed } else none
  | .acquirePong =>
    match s.reader, s.lock with
    | .locking payload, none =>
      match encode (UInt16.ofNat opClientPong) 0 payload with
      | .error _ => some { s with reader := .reading }
      | .ok bytes => some { s with reader := .writing [] bytes, lock := some .reader }
    | _, _ => none
  | .writePong n =>
    match s.reader with
    | .writing written rest =>
      if s.broken = false ∧ 0 < n ∧ n ≤ rest.length then
        some { s with
          wire := s.wire ++ rest.take n
          reader := if rest.length = n then .reading else .writing (written ++ rest.take n) (rest.drop n)
          lock := if rest.length = n then release s.lock .reader else s.lock }
      else none
    | _ => none
  | .writePongError =>
    match s.reader with
    | .writing _ _ => some { s with reader := .reading, broken := true, lock := release s.lock .reader }
    | _ => none
  | .dropConnection =>
    if s.connected ∧ ∀ task ∈ s.tasks, task.args.verb.onConnection → task.pc.inFlight = false then
      some { s with connected := false, aborting := true }
    else none
  | .abort =>
    if s.aborting then
      match s.reader with
      | .ended _ => none
      | _ => some { s with reader := .ended .aborted, lock := release s.lock .reader }
    else none

/-- The connection as a machine, from the state the handshake leaves. -/
def mux (Γ : Ctx ε υ) (maxPayloadSize : Nat) : Machine (State ε υ) Action where
  init := State.init maxPayloadSize
  step := step Γ

/-- The context of the concrete runs: no deadline, and a codec that refuses every payload. -/
def Ctx.refusing : Ctx Unit Unit where
  requestTimeout := none
  decodeErrorResponse := fun _ => .error "invalid payload"
  decodeSubscriptionEvent := fun _ => .error "invalid payload"
  decodeServerPing := fun _ => .error "invalid payload"
  decodeUnsubscribeResponse := fun _ => .error "invalid payload"
  encodeClientPong := fun _ _ => []
  encodeUnsubscribe := fun _ => []

end BrainSdk.Rust
