import BrainSdk.Rust.Invariant
import BrainSdk.Transport

/-!
# The Rust mux over a socket with finite buffers

The mux together with the reading half of `transport.rs`, the two directions of its socket as byte buffers of finite capacity, and a
peer that writes a given output and reads no request byte while a part of that output does not fit the full buffer. A step is one of
the mux, whose writes must fit what is free of the buffer and whose reader takes the frames of its own buffer, or a `read` of the
reader, a write of the peer or a read of the peer. The socket does not fail.
-/

namespace BrainSdk.Rust

open Library Wire

variable {ε υ : Type}

/-- `READ_CHUNK`. -/
def readChunk : Nat := 16 * 1024

/-- The capacities of the two directions of a socket. -/
structure Buffers where
  toServer : Nat
  toClient : Nat
  toServer_pos : 0 < toServer
  toClient_pos : 0 < toClient

/-- The mux, the buffer of `read_frame`, the bytes under way in each direction, and what the peer has still to write. -/
structure Link (ε υ : Type) where
  client : State ε υ
  buf : Bytes
  toServer : Bytes
  toClient : Bytes
  output : Bytes

/-- A step of the mux, or of the socket and the peer. -/
inductive LinkAction where
  | client (a : Action)
  | receive (n : Nat)
  | peerWrite (n : Nat)
  | peerRead (n : Nat)

/-- What a step of the mux leaves in the buffer of `read_frame`, when the buffer lets it happen. -/
def bufAfter (buf : Bytes) : Action → Option Bytes
  | .readFrame f _ =>
    match decodeFrame buf with
    | .ok (g, rest) => if g = f then some rest else none
    | .error _ => none
  | .readError (.frame e) =>
    match decodeFrame buf with
    | .ok _ => none
    | .error e' => if e' = e ∧ Transport.isTruncated e = false then some buf else none
  | .readError _ | .writeError _ _ | .writePongError => none
  | _ => some buf

/-- `read_frame` needs more bytes. -/
def wantsMore (buf : Bytes) : Bool :=
  match decodeFrame buf with
  | .ok _ => false
  | .error e => Transport.isTruncated e

/-- The peer has output that it cannot place in the full buffer. -/
def Link.PeerBlocked (κ : Buffers) (s : Link ε υ) : Prop := s.output ≠ [] ∧ s.toClient.length = κ.toClient

instance (κ : Buffers) (s : Link ε υ) : Decidable (s.PeerBlocked κ) := inferInstanceAs (Decidable (_ ∧ _))

/-- One step. -/
def linkStep (Γ : Ctx ε υ) (κ : Buffers) (s : Link ε υ) : LinkAction → Option (Link ε υ)
  | .client a =>
    (bufAfter s.buf a).bind (fun buf =>
      (step Γ s.client a).bind (fun client =>
        let sent := client.wire.drop s.client.wire.length
        if s.toServer.length + sent.length ≤ κ.toServer then
          some { s with client := client, buf := buf, toServer := s.toServer ++ sent }
        else none))
  | .receive n =>
    if s.client.reader = .reading ∧ wantsMore s.buf ∧ 0 < n ∧ n ≤ readChunk ∧ n ≤ s.toClient.length then
      some { s with buf := s.buf ++ s.toClient.take n, toClient := s.toClient.drop n }
    else none
  | .peerWrite n =>
    if 0 < n ∧ n ≤ s.output.length ∧ s.toClient.length + n ≤ κ.toClient then
      some { s with toClient := s.toClient ++ s.output.take n, output := s.output.drop n }
    else none
  | .peerRead n =>
    if ¬s.PeerBlocked κ ∧ 0 < n ∧ n ≤ s.toServer.length then some { s with toServer := s.toServer.drop n } else none

/-- The mux over a socket, and a peer with this output. -/
def link (Γ : Ctx ε υ) (maxPayloadSize : Nat) (κ : Buffers) (output : Bytes) : Machine (Link ε υ) LinkAction where
  init := { client := State.init maxPayloadSize, buf := [], toServer := [], toClient := [], output := output }
  step := linkStep Γ κ

/-- The reader is answering a SERVER_PING. -/
def Reader.answering : Reader → Bool
  | .locking _ | .writing _ _ => true
  | _ => false

/-! ### What the reader has taken of the peer's output -/

/-- What is left of the peer's output after the frames the reader has taken. -/
def Link.ahead (s : Link ε υ) : Bytes := s.buf ++ s.toClient ++ s.output

/-- The reader answers only a SERVER_PING that it has just taken. -/
theorem Effect.answering {Γ : Ctx ε υ} {s s' : State ε υ} {a : Action} (h : Effect Γ s a s')
    (ha : s'.reader.answering = true) :
    s.reader.answering = true ∧ (∀ f now, a ≠ .readFrame f now) ∨ ∃ f now, a = .readFrame f now ∧ f.opcode = opServerPing := by
  cases h with
  | ping _ hf => exact .inr ⟨_, _, rfl, hf⟩
  | miss hr _ | hit hr _ =>
    simp only [hr] at ha
    cases ha
  | readError _ | pongFailed _ | writePongAll _ _ _ | writePongError _ | abort _ _ => cases ha
  | acquirePong hr _ _ | writePong hr _ _ _ => exact .inl ⟨by rw [hr]; rfl, nofun⟩
  | move _ hm =>
    refine .inl ⟨ha, ?_⟩
    rintro f now rfl
    cases hm
  | _ => exact .inl ⟨ha, nofun⟩

/-- The invariant of a run: the reader has taken whole frames off the front of the peer's output, and one that answers has taken a
SERVER_PING last. -/
def Taken (output : Bytes) (s : Link ε υ) : Prop :=
  ∃ fs, Transport.frameDecoder.Splits output fs s.ahead ∧
    (s.client.reader.answering = true → ∃ before f, fs = before ++ [f] ∧ f.opcode = opServerPing)

/-- What a step of the mux leaves of the reader's buffer. -/
theorem bufAfter_eq_some {buf buf' : Bytes} {a : Action} (h : bufAfter buf a = some buf') :
    (∃ f now, a = .readFrame f now ∧ decodeFrame buf = .ok (f, buf')) ∨ ((∀ f now, a ≠ .readFrame f now) ∧ buf' = buf) := by
  unfold bufAfter at h
  split at h
  · split at h
    · split at h
      · rename_i hgf
        cases h
        subst hgf
        exact .inl ⟨_, _, rfl, by assumption⟩
      · cases h
    · cases h
  · split at h
    · cases h
    · split at h
      · cases h
        exact .inr ⟨nofun, rfl⟩
      · cases h
  · cases h
  · cases h
  · cases h
  · rename_i hread _ _ _ _
    cases h
    exact .inr ⟨fun f now ha => hread f now ha, rfl⟩

theorem Taken.step {Γ : Ctx ε υ} {κ : Buffers} {output : Bytes} {s s' : Link ε υ} {a : LinkAction} (ht : Taken output s)
    (hst : linkStep Γ κ s a = some s') : Taken output s' := by
  obtain ⟨fs, hfs, hping⟩ := ht
  have hsame : ∀ {t : Link ε υ}, t.ahead = s.ahead → t.client.reader = s.client.reader → Taken output t := by
    intro t hahead hreader
    exact ⟨fs, by rw [hahead]; exact hfs, by rw [hreader]; exact hping⟩
  cases a with
  | client a =>
    obtain ⟨buf, hbuf, hst⟩ := Option.bind_eq_some_iff.1 hst
    obtain ⟨client, hclient, hst⟩ := Option.bind_eq_some_iff.1 hst
    dsimp only at hst
    split at hst
    · cases hst
      rcases bufAfter_eq_some hbuf with ⟨f, now, rfl, hdec⟩ | ⟨hread, rfl⟩
      · have hitem : Transport.frameDecoder.decode s.ahead = .item f (buf ++ s.toClient ++ s.output) := by
          refine Transport.frameVerdict_item.2 ?_
          rw [Link.ahead, List.append_assoc, List.append_assoc]
          exact decodeFrame_append_ok hdec _
        refine ⟨fs ++ [f], hfs.snoc hitem, fun ha => ?_⟩
        rcases (step_effect hclient).answering ha with ⟨-, hno⟩ | ⟨g, now', hg, hop⟩
        · exact absurd rfl (hno f now)
        · cases hg
          exact ⟨fs, f, rfl, hop⟩
      · refine ⟨fs, hfs, fun ha => ?_⟩
        rcases (step_effect hclient).answering ha with ⟨ha', -⟩ | ⟨g, now, hg, -⟩
        · exact hping ha'
        · exact absurd hg (hread g now)
    · cases hst
  | receive n =>
    simp only [linkStep] at hst
    split at hst
    · cases hst
      refine hsame ?_ rfl
      simp [Link.ahead]
    · cases hst
  | peerWrite n =>
    simp only [linkStep] at hst
    split at hst
    · cases hst
      refine hsame ?_ rfl
      simp [Link.ahead]
    · cases hst
  | peerRead n =>
    simp only [linkStep] at hst
    split at hst
    · cases hst
      exact hsame rfl rfl
    · cases hst

theorem taken_runs {Γ : Ctx ε υ} {m : Nat} {κ : Buffers} {output : Bytes} {tr : List LinkAction} {s : Link ε υ}
    (hr : (link Γ m κ output).Runs tr s) : Taken output s := by
  refine hr.invariant (P := Taken output) ⟨[], .nil, ?_⟩ (fun _ _ _ ht hst => ht.step hst)
  intro ha
  cases ha

end BrainSdk.Rust
