import BrainSdk.Python.Mux

/-!
# The handshake of the Python multiplexed connection

`MuxConnection.handshake` of `mux.py` and the reader thread it runs beside. As in the mux, a step is what one thread does under one lock,
on one queue or at the socket, and either thread may step next. The one queue there is is that of the handshake, named 0. The frames
that the peer sends are an inbox that the reader takes from; whether a write succeeds, when a wait times out, when it is interrupted,
and when the socket fails are part of the action.
-/

namespace BrainSdk.Python.Handshake

open Library Wire

/-- What the handshake is called with, and what it takes from outside its module: besides what the mux takes, the codec of the handshake
payloads. `ω` and `α` are the types of the WELCOME and AUTH_OK payloads. -/
structure Ctx (ω α : Type) extends Python.Ctx Unit where
  /-- The encoded HELLO payload. -/
  hello : Bytes
  /-- `hello.supported_versions`. -/
  offered : List Nat
  /-- The encoded AUTH payload. -/
  auth : Bytes
  decodeWelcome : Bytes → Except String ω
  decodeAuthOk : Bytes → Except String α
  chosenVersion : ω → Nat
  /-- `welcome.server_features.max_payload_size`. -/
  maxPayloadSize : ω → Nat

variable {ω α : Type}

/-- How the handshake ends: with the negotiated outcome, with an exception, or with a `BaseException` at one of its waits. -/
inductive Outcome (ω α : Type) where
  | returned (welcome : ω) (authOk : α)
  | raised (e : Exc)
  | interrupted

/-- Where the handshake stands. -/
inductive Pc (ω α : Type) where
  /-- before `_register` -/
  | registering
  /-- before the `_write` of HELLO -/
  | writingHello
  /-- at `_next`, for the WELCOME -/
  | awaitingWelcome
  /-- before the `_write` of AUTH -/
  | writingAuth (welcome : ω)
  /-- at `_next`, for the AUTH_OK -/
  | awaitingAuthOk (welcome : ω)
  /-- before `_max_payload_size` is set -/
  | accepting (welcome : ω) (authOk : α)
  /-- in the `finally`, before `_deregister` -/
  | leaving (o : Outcome ω α)
  | done (o : Outcome ω α)

/-- The shared state of the connection, its reader and the handshake. `inbox` are the frames the reader has still to read, `queue` is the
queue of the handshake, `sent` are the frames written to the socket. -/
structure State (ω α : Type) where
  inbox : List Frame
  reader : Reader
  routes : Routes Nat
  queue : List Item
  closedError : Option Exc
  maxPayloadSize : Nat
  sent : List Frame
  pc : Pc ω α

/-- What one thread does in one step. -/
inductive Action where
  | register
  | write (failure : Option String)
  | dequeue (item : Item)
  | timeout
  | accept
  | deregister
  | interrupt
  | readFrame (f : Frame)
  | readError (e : ReadFailure)
  | pong (now : Nat) (failure : Option String)
  | lookup (f : Frame)
  | put (f : Frame) (c : Nat)
  | failAll
  deriving DecidableEq

/-- A connection as its constructor leaves it, with a peer that sends `frames`. -/
def State.init (frames : List Frame) : State ω α :=
  { inbox := frames, reader := .reading, routes := ∅, queue := [], closedError := none, maxPayloadSize := maxPayloadBytes, sent := [],
    pc := .registering }

/-- `_expect` with the item that `_next` took off the queue, for the opcode named `name`. -/
def expect (Γ : Ctx ω α) (name : String) (expected : Nat) : Item → Except Exc Frame
  | .closed e => .error e
  | .frame f =>
    if f.opcode = opError then .error (errorOf Γ.toCtx f.payload)
    else if f.opcode ≠ expected then .error (.protocolError s!"expected {name} ({hex expected}), got {hex f.opcode}")
    else .ok f

/-- What the handshake makes of the item it takes for the WELCOME. -/
def welcomeOf (Γ : Ctx ω α) (item : Item) : Except Exc ω :=
  match expect Γ "WELCOME" opWelcome item with
  | .error e => .error e
  | .ok f =>
    match Γ.decodeWelcome f.payload with
    | .error message => .error (.payloadError message)
    | .ok w => if Γ.chosenVersion w ∉ Γ.offered then .error (.versionMismatch (Γ.chosenVersion w) Γ.offered) else .ok w

/-- What the handshake makes of the item it takes for the AUTH_OK. -/
def authOkOf (Γ : Ctx ω α) (item : Item) : Except Exc α :=
  match expect Γ "AUTH_OK" opAuthOk item with
  | .error e => .error e
  | .ok f =>
    match Γ.decodeAuthOk f.payload with
    | .error message => .error (.payloadError message)
    | .ok a => .ok a

/-- The payload limit of a WELCOME: 0 stands for the limit of the format. -/
def limitOf (Γ : Ctx ω α) (w : ω) : Nat := if Γ.maxPayloadSize w = 0 then maxPayloadBytes else Γ.maxPayloadSize w

/-- The handshake past the `_write` of one of its two frames. -/
def Pc.afterWrite (r : Except Exc Frame) (next : Pc ω α) : Pc ω α :=
  match r with
  | .error e => .leaving (.raised e)
  | .ok _ => next

/-- The handshake past a `_next` that took an item. -/
def Pc.afterDequeue (Γ : Ctx ω α) (item : Item) : Pc ω α → Option (Pc ω α)
  | .awaitingWelcome =>
    match welcomeOf Γ item with
    | .error e => some (.leaving (.raised e))
    | .ok w => some (.writingAuth w)
  | .awaitingAuthOk w =>
    match authOkOf Γ item with
    | .error e => some (.leaving (.raised e))
    | .ok a => some (.accepting w a)
  | _ => none

/-- The handshake is where it can wait: at a `_write` or at a `_next`. -/
def Pc.isWait : Pc ω α → Bool
  | .writingHello | .awaitingWelcome | .writingAuth _ | .awaitingAuthOk _ => true
  | _ => false

/-- `_write` of one of the frames of the handshake. -/
def State.write (s : State ω α) (opcode : Nat) (payload : Bytes) (failure : Option String) (next : Pc ω α) : State ω α :=
  let r := tryWrite s.maxPayloadSize opcode handshakeStreamId payload failure
  { s with sent := s.sent ++ r.toOption.toList, pc := Pc.afterWrite r next }

/-- One step. -/
def step (Γ : Ctx ω α) (s : State ω α) : Action → Option (State ω α)
  | .register =>
    match s.pc, s.closedError with
    | .registering, some e => some { s with pc := .done (.raised e) }
    | .registering, none => some { s with routes := s.routes.insert handshakeStreamId 0, pc := .writingHello }
    | _, _ => none
  | .write failure =>
    match s.pc with
    | .writingHello => some (s.write opHello Γ.hello failure .awaitingWelcome)
    | .writingAuth w => some (s.write opAuth Γ.auth failure (.awaitingAuthOk w))
    | _ => none
  | .dequeue item =>
    match s.queue with
    | i :: rest => if i = item then (s.pc.afterDequeue Γ item).map (fun pc => { s with queue := rest, pc := pc }) else none
    | [] => none
  | .timeout =>
    match s.pc, s.queue, Γ.requestTimeout with
    | .awaitingWelcome, [], some d => some { s with pc := .leaving (.raised (.brainTimeout d)) }
    | .awaitingAuthOk _, [], some d => some { s with pc := .leaving (.raised (.brainTimeout d)) }
    | _, _, _ => none
  | .accept =>
    match s.pc with
    | .accepting w a => some { s with maxPayloadSize := limitOf Γ w, pc := .leaving (.returned w a) }
    | _ => none
  | .deregister =>
    match s.pc with
    | .leaving o => some { s with routes := s.routes.erase handshakeStreamId, pc := .done o }
    | _ => none
  | .interrupt => if s.pc.isWait then some { s with pc := .leaving .interrupted } else none
  | .readFrame f =>
    match s.reader, s.inbox with
    | .reading, g :: rest => if g = f then some { s with inbox := rest, reader := .afterRead f } else none
    | _, _ => none
  | .readError e => if s.reader = .reading then some { s with reader := .failing e } else none
  | .pong now failure =>
    match s.reader with
    | .ponging f =>
      let pong := Γ.encodeClientPong (serverTimestamp Γ.toCtx f) now
      let r := tryWrite s.maxPayloadSize opClientPong handshakeStreamId pong failure
      some { s with reader := .reading, sent := s.sent ++ r.toOption.toList }
    | _ => none
  | .lookup f =>
    if s.reader = .routing f then
      match s.routes.lookup f.streamId with
      | some c => some { s with reader := .putting f c }
      | none => some { s with reader := .reading }
    else none
  | .put f c =>
    if s.reader = .putting f c then some { s with reader := .reading, queue := s.queue ++ [.frame f] } else none
  | .failAll =>
    match s.reader with
    | .failing e =>
      some { s with
        closedError := s.closedError.or (some e.error)
        queue := s.queue ++ s.routes.tasks.map (fun _ => .closed e.error)
        routes := ∅
        reader := .stopped }
    | _ => none

/-- The handshake as a machine, with a peer that sends `frames`. -/
def machine (Γ : Ctx ω α) (frames : List Frame) : Machine (State ω α) Action := ⟨State.init frames, step Γ⟩

/-! ### What is seen of a run -/

/-- The frames that the reader has put on the queue. -/
def routed : List Action → List Frame :=
  List.filterMap fun
    | .put f _ => some f
    | _ => none

/-- The frames of a connection that are not the reader's answers to SERVER_PING. -/
def handshakeWrites (sent : List Frame) : List Frame := sent.filter (fun f => f.opcode ≠ opClientPong)

/-- A frame that the reader routes to the handshake, when that is registered. -/
def isForHandshake (f : Frame) : Bool := f.opcode ≠ opServerPing && f.streamId = handshakeStreamId

end BrainSdk.Python.Handshake
