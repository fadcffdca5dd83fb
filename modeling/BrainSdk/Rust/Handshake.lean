import BrainSdk.Errors

/-!
# The handshake of the Rust multiplexed connection

`MuxConnection::handshake` and `read_handshake_reply` of `mux.rs`, on a connection whose writes succeed and whose reads do not time out.
The handshake reads its replies off the socket itself, before there is a reader task: a reply is the next whole frame there is.
-/

namespace BrainSdk.Rust.Handshake

open Library Wire

/-- What the handshake is called with, and the CBOR codec of its payloads. `ω` and `α` are the types of the WELCOME and AUTH_OK payloads. -/
structure Ctx (ω α : Type) where
  /-- The encoded HELLO payload. -/
  hello : Bytes
  /-- `hello.supported_versions`. -/
  offered : List Nat
  /-- The encoded AUTH payload. -/
  auth : Bytes
  decodeWelcome : Bytes → Except String ω
  decodeAuthOk : Bytes → Except String α
  decodeErrorResponse : Bytes → Except String ErrorResponse
  chosenVersion : ω → Nat

variable {ω α : Type}

/-- `send`, up to the write: only a payload that fits in a frame is written. -/
def send (payload : Bytes) : Except BrainError Unit :=
  if payload.length > maxPayloadBytes then .error (.frame (.oversizePayload payload.length)) else .ok ()

/-- `read_handshake_reply` with the frame that it has read, for the opcode named `name`. -/
def handshakeReply (Γ : Ctx ω α) (name : String) (expected : Nat) (f : Frame) : Except BrainError Frame :=
  if f.opcode = opError then
    match Γ.decodeErrorResponse f.payload with
    | .ok r => .error (.server r)
    | .error message => .error (.cbor message)
  else if f.opcode ≠ expected then .error (.protocol s!"expected {name} ({hex expected}), got opcode {hex f.opcode}")
  else .ok f

/-- What the handshake makes of the WELCOME. -/
def welcomeOf (Γ : Ctx ω α) (f : Frame) : Except BrainError ω :=
  match Γ.decodeWelcome f.payload with
  | .error message => .error (.cbor message)
  | .ok w => if Γ.chosenVersion w ∉ Γ.offered then .error (.versionMismatch (Γ.chosenVersion w) Γ.offered) else .ok w

/-- What the handshake makes of the AUTH_OK. -/
def authOkOf (Γ : Ctx ω α) (f : Frame) : Except BrainError α :=
  match Γ.decodeAuthOk f.payload with
  | .error message => .error (.cbor message)
  | .ok a => .ok a

/-- Where the handshake has got with the frames there are: it waits for the next, has returned, or has failed. `replies` are the frames
that it has taken for its replies. -/
structure Result (ω α : Type) where
  replies : List Frame
  /-- `none` while it waits. -/
  outcome : Option (Except BrainError (ω × α))

/-- The handshake after the WELCOME. -/
def authenticate (Γ : Ctx ω α) (welcomeFrame : Frame) (w : ω) (frames : List Frame) : Result ω α :=
  match send Γ.auth with
  | .error e => ⟨[welcomeFrame], some (.error e)⟩
  | .ok () =>
    match frames with
    | [] => ⟨[welcomeFrame], none⟩
    | f :: _ =>
      match handshakeReply Γ "AuthOk" opAuthOk f with
      | .error e => ⟨[welcomeFrame], some (.error e)⟩
      | .ok authOkFrame =>
        match authOkOf Γ authOkFrame with
        | .error e => ⟨[welcomeFrame, authOkFrame], some (.error e)⟩
        | .ok a => ⟨[welcomeFrame, authOkFrame], some (.ok (w, a))⟩

/-- `MuxConnection::handshake`, when `frames` are the whole frames that arrive. -/
def handshake (Γ : Ctx ω α) (frames : List Frame) : Result ω α :=
  match send Γ.hello with
  | .error e => ⟨[], some (.error e)⟩
  | .ok () =>
    match frames with
    | [] => ⟨[], none⟩
    | f :: rest =>
      match handshakeReply Γ "Welcome" opWelcome f with
      | .error e => ⟨[], some (.error e)⟩
      | .ok welcomeFrame =>
        match welcomeOf Γ welcomeFrame with
        | .error e => ⟨[welcomeFrame], some (.error e)⟩
        | .ok w => authenticate Γ welcomeFrame w rest

end BrainSdk.Rust.Handshake
