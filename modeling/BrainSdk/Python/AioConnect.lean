import BrainSdk.Python.Handshake

/-!
# The connect of the asyncio connection

`AsyncMuxConnection.connect` of `aio/mux.py`, from its open stream on: `handshake`, the reader task beside it, and the `aclose` that a
handshake that raises runs into. Everything is on one loop and runs from one `await` to the next without interruption, so a step is what
is between two of them: of `connect`, or of the reader task. When the task of `connect` is cancelled is part of the action, as is what
becomes of the stream.
-/

namespace BrainSdk.Python.Aio

open Library Wire
open Handshake (welcomeOf authOkOf limitOf)

variable {ω α : Type}

/-- The reader task. -/
inductive ReaderTask where
  /-- awaiting `read_frame` -/
  | reading
  /-- in `_pong`, awaiting its `_write` -/
  | ponging (f : Frame)
  | done
  deriving DecidableEq

/-- The transport of the stream, with its socket. -/
inductive Transport where
  | opened
  /-- `close` was called, and the loop has still to close the socket -/
  | closing
  | closed
  deriving DecidableEq

/-- Where `connect` awaits. -/
inductive Pc (ω α : Type) where
  /-- the `_write` of HELLO -/
  | writingHello
  /-- the `_next` for the WELCOME -/
  | awaitingWelcome
  /-- the `_write` of AUTH -/
  | writingAuth (welcome : ω)
  /-- the `_next` for the AUTH_OK -/
  | awaitingAuthOk (welcome : ω)
  /-- in `aclose`, the reader task -/
  | awaitingReader (o : Handshake.Outcome ω α)
  /-- in `aclose`, `wait_closed` -/
  | awaitingClosed (o : Handshake.Outcome ω α)
  | raised (o : Handshake.Outcome ω α)
  | returned (welcome : ω) (authOk : α)

/-- The state of the connection and of its `connect`. `queue` is the queue of the handshake, and `cancelled` whether the reader task has
been cancelled. -/
structure State (ω α : Type) where
  reader : ReaderTask
  cancelled : Bool
  routes : Routes Nat
  queue : List Item
  closedError : Option Exc
  maxPayloadSize : Nat
  sent : List Frame
  transport : Transport
  pc : Pc ω α

/-- What happens in one step. -/
inductive Action where
  | write (failure : Option String)
  | dequeue
  | timeout
  | cancel
  | reap
  | waitClosed
  | readFrame (f : Frame)
  | readError (e : ReadFailure)
  | pong (now : Nat) (failure : Option String)
  | readerCancelled
  | connectionLost
  deriving DecidableEq

/-- The connection at the first await of its handshake: it has registered, on a connection that nothing can have failed yet. -/
def State.init : State ω α :=
  { reader := .reading, cancelled := false, routes := (∅ : Routes Nat).insert handshakeStreamId 0, queue := [], closedError := none,
    maxPayloadSize := maxPayloadBytes, sent := [], transport := .opened, pc := .writingHello }

/-- `_fail_all`. -/
def State.failAll (s : State ω α) (error : Exc) : State ω α :=
  { s with
    closedError := s.closedError.or (some error)
    queue := s.queue ++ s.routes.tasks.map (fun _ => .closed error)
    routes := ∅ }

/-- The handshake raises: its `finally`, and `aclose` up to its first await. -/
def State.raise (s : State ω α) (o : Handshake.Outcome ω α) : State ω α :=
  let s := { s with routes := s.routes.erase handshakeStreamId }
  { s.failAll (.connectionClosed "connection closed by client") with cancelled := true, pc := .awaitingReader o }

/-- The handshake returns. -/
def State.return (s : State ω α) (Γ : Handshake.Ctx ω α) (w : ω) (a : α) : State ω α :=
  { s with maxPayloadSize := limitOf Γ w, routes := s.routes.erase handshakeStreamId, pc := .returned w a }

/-- `aclose` past the wait for the reader task: `self._writer.close()`. -/
def State.closeWriter (s : State ω α) (o : Handshake.Outcome ω α) : State ω α :=
  { s with transport := if s.transport = .closed then .closed else .closing, pc := .awaitingClosed o }

/-- `_write` of one of the frames of the handshake. -/
def State.write (s : State ω α) (opcode : Nat) (payload : Bytes) (failure : Option String) (next : Pc ω α) : State ω α :=
  match tryWrite s.maxPayloadSize opcode handshakeStreamId payload failure with
  | .error e => s.raise (.raised e)
  | .ok f => { s with sent := s.sent ++ [f], pc := next }

/-- The handshake with the item that `_next` took. -/
def State.take (s : State ω α) (Γ : Handshake.Ctx ω α) (item : Item) : Option (State ω α) :=
  match s.pc with
  | .awaitingWelcome =>
    match welcomeOf Γ item with
    | .error e => some (s.raise (.raised e))
    | .ok w => some { s with pc := .writingAuth w }
  | .awaitingAuthOk w =>
    match authOkOf Γ item with
    | .error e => some (s.raise (.raised e))
    | .ok a => some (s.return Γ w a)
  | _ => none

/-- The reader task is where it reads, and has not been cancelled. -/
def State.reads (s : State ω α) : Bool := s.reader = .reading && !s.cancelled

/-- The reader task with a frame. -/
def State.route (s : State ω α) (f : Frame) : State ω α :=
  if f.opcode = opServerPing then { s with reader := .ponging f }
  else
    match s.routes.lookup f.streamId with
    | some _ => { s with queue := s.queue ++ [.frame f] }
    | none => s

/-- One step. -/
def step (Γ : Handshake.Ctx ω α) (s : State ω α) : Action → Option (State ω α)
  | .write failure =>
    match s.pc with
    | .writingHello => some (s.write opHello Γ.hello failure .awaitingWelcome)
    | .writingAuth w => some (s.write opAuth Γ.auth failure (.awaitingAuthOk w))
    | _ => none
  | .dequeue =>
    match s.queue with
    | item :: rest => { s with queue := rest }.take Γ item
    | [] => none
  | .timeout =>
    match s.pc, Γ.requestTimeout with
    | .awaitingWelcome, some d | .awaitingAuthOk _, some d => some (s.raise (.raised (.brainTimeout d)))
    | _, _ => none
  | .cancel =>
    match s.pc with
    | .writingHello | .awaitingWelcome | .writingAuth _ | .awaitingAuthOk _ => some (s.raise .interrupted)
    -- `suppress(asyncio.CancelledError, Exception)` around the wait for the reader task
    | .awaitingReader o => some (s.closeWriter o)
    -- `suppress(Exception)` around `wait_closed` lets it through
    | .awaitingClosed _ => some { s with pc := .raised .interrupted }
    | _ => none
  | .reap =>
    match s.pc, s.reader with
    | .awaitingReader o, .done => some (s.closeWriter o)
    | _, _ => none
  | .waitClosed =>
    match s.pc, s.transport with
    | .awaitingClosed o, .closed => some { s with pc := .raised o }
    | _, _ => none
  | .readFrame f => if s.reads then some (s.route f) else none
  | .readError e => if s.reads then some { s.failAll e.error with reader := .done } else none
  | .pong now failure =>
    match s.reader with
    | .ponging f =>
      if s.cancelled then none
      else
        let pong := Γ.encodeClientPong (serverTimestamp Γ.toCtx f) now
        let r := tryWrite s.maxPayloadSize opClientPong handshakeStreamId pong failure
        some { s with reader := .reading, sent := s.sent ++ r.toOption.toList }
    | _ => none
  | .readerCancelled => if s.cancelled then some { s with reader := .done } else none
  | .connectionLost => some { s with transport := .closed }

/-- The connect as a machine. -/
def machine (Γ : Handshake.Ctx ω α) : Machine (State ω α) Action := ⟨State.init, step Γ⟩

end BrainSdk.Python.Aio
