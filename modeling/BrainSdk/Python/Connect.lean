import BrainSdk.Python.Handshake
import BrainSdk.Python.Socket

/-!
# The Python connection from its socket on

The two machines of the multiplexed connection with their socket: the connection that the handshake leaves, on which any thread may call
`close`, and `MuxConnection.connect`, which runs the handshake on the connection it has opened and closes it when the handshake raises.
-/

namespace BrainSdk.Python

open Library Wire

/-- The connection that the handshake leaves. -/
def threads {ε : Type} (Γ : Ctx ε) (maxPayloadSize : Nat) : Threads (State ε) Action where
  machine := mux Γ maxPayloadSize
  reader := State.reader
  routes := State.routes
  readFrame := .readFrame
  readError := .readError
  reads
    | .readFrame _ | .readError _ => true
    | _ => false
  writes
    | .write _ none | .pong _ none => true
    | _ => false
  isReader
    | .pong _ _ | .lookup _ | .put _ _ | .failAll => true
    | _ => false
  fails
    | .failAll => true
    | _ => false
  mayClose _ := true

namespace Connect

variable {ω α : Type}

/-- The handshake, with the frames that the socket gives the reader. -/
def handshakeStep (Γ : Handshake.Ctx ω α) (s : Handshake.State ω α) : Handshake.Action → Option (Handshake.State ω α)
  | .readFrame f => Handshake.step Γ { s with inbox := [f] } (.readFrame f)
  | a => Handshake.step Γ s a

/-- The connection under the handshake. Only `connect` has it. -/
def threads (Γ : Handshake.Ctx ω α) : Threads (Handshake.State ω α) Handshake.Action where
  machine := ⟨Handshake.State.init [], handshakeStep Γ⟩
  reader := Handshake.State.reader
  routes := Handshake.State.routes
  readFrame := .readFrame
  readError := .readError
  reads
    | .readFrame _ | .readError _ => true
    | _ => false
  writes
    | .write none | .pong _ none => true
    | _ => false
  isReader
    | .pong _ _ | .lookup _ | .put _ _ | .failAll => true
    | _ => false
  fails
    | .failAll => true
    | _ => false
  mayClose _ := false

/-- Where `connect` stands, once the socket is open. -/
inductive Pc (ω α : Type) where
  /-- in the handshake -/
  | connecting
  /-- in the `except BaseException`, before `conn.close()` -/
  | closing (o : Handshake.Outcome ω α)
  | raised (o : Handshake.Outcome ω α)
  | returned (welcome : ω) (authOk : α)

/-- `connect` and the connection that it has opened. -/
structure State (ω α : Type) where
  conn : Socket.State (Handshake.State ω α)
  pc : Pc ω α

/-- What one thread does in one step: a step of the connection, and the two of `connect` itself. -/
inductive Action where
  | conn (a : Socket.Action Handshake.Action)
  /-- the handshake has returned or raised -/
  | leave
  | close
  deriving DecidableEq

/-- One step. -/
def step (Γ : Handshake.Ctx ω α) (s : State ω α) : Action → Option (State ω α)
  | .conn a => (Socket.step (threads Γ) s.conn a).map (fun t => { s with conn := t })
  | .leave =>
    match s.pc, s.conn.inner.pc with
    | .connecting, .done (.returned w a) => some { s with pc := .returned w a }
    | .connecting, .done o => some { s with pc := .closing o }
    | _, _ => none
  | .close =>
    match s.pc with
    | .closing o => some { conn := { s.conn with closed := true }, pc := .raised o }
    | _ => none

/-- `connect` as a machine, from its open socket on. -/
def machine (Γ : Handshake.Ctx ω α) : Machine (State ω α) Action := ⟨⟨(Socket.machine (threads Γ)).init, .connecting⟩, step Γ⟩

end Connect

end BrainSdk.Python
