import BrainSdk.TypeScript.Mux

/-!
# The connect of the TypeScript connection

`MuxConnection.connect` and `handshake` of `mux.ts`, from the open socket on. As in the mux, a step is the continuation of the handshake
when the promise it awaits has settled, or an event of the socket or of a timer; here the continuation comes first, as it does in the
runtime, where no event is handled while a promise has settled. A socket that emits `error` or `close`, or whose write fails, has been
destroyed by the runtime.
-/

namespace BrainSdk.TypeScript.Handshake

open Library Wire

/-- What the connect is called with, and what it takes from outside its module. `ω` and `α` are the types of the WELCOME and AUTH_OK
payloads. -/
structure Ctx (ω α : Type) extends TypeScript.Ctx Unit Unit where
  /-- The encoded HELLO payload. -/
  hello : Bytes
  /-- `hello.supportedVersions`. -/
  offered : List Nat
  /-- The encoded AUTH payload. -/
  auth : Bytes
  decodeWelcome : Bytes → Except String ω
  decodeAuthOk : Bytes → Except String α
  chosenVersion : ω → Nat
  /-- `welcome.serverFeatures.maxPayloadSize`. -/
  maxPayloadSize : ω → Nat

variable {ω α : Type}

/-- What the handshake awaits. -/
inductive Wait (ω : Type) where
  | helloWritten
  | welcome
  | authWritten (welcome : ω)
  | authOk (welcome : ω)

/-- Where the connect stands. -/
inductive Pc (ω α : Type) where
  | waiting (k : Wait ω)
  /-- the write has succeeded, before the handshake goes on -/
  | wrote (k : Wait ω)
  /-- the awaited promise has resolved with a frame, before the handshake goes on -/
  | got (k : Wait ω) (f : Frame)
  /-- the awaited promise was rejected, or the handshake threw, before its `finally` -/
  | threw (e : Thrown)
  | resolved (welcome : ω) (authOk : α)
  | rejected (e : Thrown)

/-- The state of the connection under its handshake, whose sink is the only one there can be. `out` are the frames handed to
`socket.write`. -/
structure State (ω α : Type) where
  buf : Bytes
  sink : StreamSink
  routed : Bool
  closedError : Option Thrown
  maxPayloadSize : Nat
  out : List Bytes
  destroyed : Bool
  pc : Pc ω α

/-- What happens in one step. -/
inductive Action where
  | resume
  | writeDone
  | writeFailed (message : String)
  | timeout
  | data (chunk : Bytes) (now : Nat)
  | socketError (message : String)
  | socketClose
  deriving DecidableEq

/-- `expectReply` with the frame that it awaited. -/
def expectReply (Γ : Ctx ω α) (expected : Nat) (f : Frame) : Except Thrown Frame :=
  if f.opcode = opError then .error (errorOf Γ.toCtx f.payload)
  else if f.opcode ≠ expected then .error (.protocolError s!"expected opcode {hex expected}, got {hex f.opcode}")
  else .ok f

/-- What the handshake makes of the frame it awaited for the WELCOME. -/
def welcomeOf (Γ : Ctx ω α) (f : Frame) : Except Thrown ω :=
  match expectReply Γ opWelcome f with
  | .error e => .error e
  | .ok f =>
    match Γ.decodeWelcome f.payload with
    | .error message => .error (.cborError message)
    | .ok w => if Γ.chosenVersion w ∉ Γ.offered then .error (.versionMismatch (Γ.chosenVersion w) Γ.offered) else .ok w

/-- What the handshake makes of the frame it awaited for the AUTH_OK. -/
def authOkOf (Γ : Ctx ω α) (f : Frame) : Except Thrown α :=
  match expectReply Γ opAuthOk f with
  | .error e => .error e
  | .ok f =>
    match Γ.decodeAuthOk f.payload with
    | .error message => .error (.cborError message)
    | .ok a => .ok a

/-- The payload limit of a WELCOME: 0 stands for the limit of the format. -/
def limitOf (Γ : Ctx ω α) (w : ω) : Nat := if Γ.maxPayloadSize w = 0 then maxPayloadBytes else Γ.maxPayloadSize w

/-- `await this.writeFrame(..)` of one of the frames of the handshake. -/
def State.send (s : State ω α) (opcode : Nat) (payload : Bytes) (k : Wait ω) : State ω α :=
  match writeFrame s.maxPayloadSize opcode handshakeStreamId payload with
  | .error e => { s with pc := .threw e }
  | .ok bytes => { s with out := s.out ++ [bytes], pc := .waiting k }

/-- `await this.nextFrame(sink)`. The handshake is the one call that waits on its sink. -/
def State.await (s : State ω α) (k : Wait ω) : State ω α :=
  let r := s.sink.next 0
  { s with
    sink := r.1
    pc :=
      match r.2 with
      | some (.ok f) => .got k f
      | some (.error e) => .threw e
      | none => .waiting k }

/-- The connect with an open socket, up to the first await of its handshake. -/
def State.init (Γ : Ctx ω α) : State ω α :=
  State.send
    { buf := [], sink := .empty, routed := true, closedError := none, maxPayloadSize := maxPayloadBytes, out := [], destroyed := false,
      pc := .waiting .helloWritten }
    opHello Γ.hello .helloWritten

/-- The handshake ends, in its `finally`, and the connect with it. -/
def State.finish (s : State ω α) (pc : Pc ω α) : State ω α := { s with routed := false, pc := pc }

/-- The continuation of the handshake. -/
def State.resume (Γ : Ctx ω α) (s : State ω α) : Option (State ω α) :=
  match s.pc with
  | .wrote .helloWritten => some (s.await .welcome)
  | .got .welcome f =>
    match welcomeOf Γ f with
    | .error e => some (s.finish (.rejected e))
    | .ok w => some (s.send opAuth Γ.auth (.authWritten w))
  | .wrote (.authWritten w) => some (s.await (.authOk w))
  | .got (.authOk w) f =>
    match authOkOf Γ f with
    | .error e => some (s.finish (.rejected e))
    | .ok a => some { s.finish (.resolved w a) with maxPayloadSize := limitOf Γ w }
  | .threw e => some (s.finish (.rejected e))
  | _ => none

/-- A promise that the handshake awaits has settled, or it has thrown: its continuation is next. -/
def Pc.isSettled : Pc ω α → Bool
  | .wrote _ | .got _ _ | .threw _ => true
  | _ => false

/-- The handshake awaits `nextFrame`. -/
def Wait.isFrame : Wait ω → Bool
  | .welcome | .authOk _ => true
  | _ => false

/-- The promise of `nextFrame` settles: the handshake goes on if it awaits it. -/
def State.settle (s : State ω α) (waiter : Option Nat) (r : Except Thrown Frame) : State ω α :=
  match waiter, s.pc, r with
  | some _, .waiting k, .ok f => if k.isFrame then { s with pc := .got k f } else s
  | some _, .waiting k, .error e => if k.isFrame then { s with pc := .threw e } else s
  | _, _, _ => s

/-! ### The handlers of the socket -/

/-- A frame routed to the sink of its stream; one of an unknown stream is dropped. -/
def State.dispatch (s : State ω α) (f : Frame) : State ω α :=
  if s.routed && f.streamId = handshakeStreamId then
    let r := s.sink.push f
    { s with sink := r.1 }.settle r.2 (.ok f)
  else s

/-- `failAll`. -/
def State.failAll (s : State ω α) (e : Thrown) : State ω α :=
  let s := { s with closedError := s.closedError.or (some e) }
  if s.routed then
    let r := s.sink.fail e
    { { s with sink := r.1 }.settle r.2 (.error e) with routed := false }
  else s

/-- `answerServerPing`, as in the mux. -/
def State.answerServerPing (Γ : Ctx ω α) (s : State ω α) (f : Frame) (now : Nat) : Except Thrown (State ω α) :=
  match clientPong Γ.toCtx s.maxPayloadSize f now with
  | .ok bytes => .ok { s with out := s.out ++ [bytes] }
  | .error (.protocolError _) => .ok s
  | .error e => .error e

/-- What the loop of `onData` does with a frame. -/
def State.handle (Γ : Ctx ω α) (now : Nat) (s : State ω α) (f : Frame) : Except Thrown (State ω α) :=
  if f.opcode = opServerPing then s.answerServerPing Γ f now else .ok (s.dispatch f)

/-- The loop of `onData` from a read offset on, as in the mux. -/
def State.drain (Γ : Ctx ω α) (now : Nat) : Nat → Nat → State ω α → State ω α
  | 0, _, s => s
  | fuel + 1, offset, s =>
    match decodeFrame (s.buf.drop offset) with
    | .error e =>
      if e.kind = .truncated then { s with buf := if offset = 0 then s.buf else s.buf.drop offset }
      else s.failAll (.frameError e)
    | .ok (f, rest) =>
      let offset := offset + (s.buf.length - offset - rest.length)
      match s.handle Γ now f with
      | .error _ => s
      | .ok s => State.drain Γ now fuel offset s

/-- `onData`. -/
def State.onData (Γ : Ctx ω α) (s : State ω α) (chunk : Bytes) (now : Nat) : State ω α :=
  State.drain Γ now (s.buf.length + chunk.length + 1) 0 { s with buf := s.buf ++ chunk }

/-- An event, when no continuation is to run before it. -/
def State.onEvent (s s' : State ω α) : Option (State ω α) := if s.pc.isSettled then none else some s'

/-- One step. -/
def step (Γ : Ctx ω α) (s : State ω α) : Action → Option (State ω α)
  | .resume => s.resume Γ
  | .writeDone =>
    match s.pc with
    | .waiting k => if k.isFrame then none else some { s with pc := .wrote k }
    | _ => none
  | .writeFailed message =>
    match s.pc with
    | .waiting k => if k.isFrame then none else some { s with pc := .threw (.nodeError message), destroyed := true }
    | _ => none
  | .timeout =>
    match s.pc, Γ.requestTimeoutMs with
    | .waiting k, some d => if k.isFrame then some { s with pc := .threw (.brainTimeout d) } else none
    | _, _ => none
  | .data chunk now => if s.destroyed then none else s.onEvent (s.onData Γ chunk now)
  | .socketError message => s.onEvent { s.failAll (.transportError message) with destroyed := true }
  | .socketClose => s.onEvent { s.failAll (.connectionClosed "connection closed by peer") with destroyed := true }

/-- The connect as a machine. -/
def machine (Γ : Ctx ω α) : Machine (State ω α) Action := ⟨State.init Γ, step Γ⟩

end BrainSdk.TypeScript.Handshake
