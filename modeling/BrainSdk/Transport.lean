import BrainSdk.Library.Incremental
import BrainSdk.Wire.FrameLemmas

/-!
# Reading frames off a socket

`transport.py`. A blocking socket is the list of chunks its next `recv` calls return; past the last one `recv` returns the empty
byte string, as it does once the peer has closed. `readFrame` is `read_frame`: the buffer is the caller's, and the frame comes
back with the buffer and the socket it left. `decodeStream` is the same stream decoded in one piece, by `decode_frame` alone.
-/

namespace BrainSdk.Transport

open Library Wire

/-- What `read_frame` raises: the peer closed the connection, or a frame error that is not "truncated". (An `OSError` of `recv` is
not an answer of the stream; the muxes take it as an event of its own.) -/
inductive ReadError where
  | connectionClosed (message : String)
  | frameError (e : FrameError)
  deriving DecidableEq, Repr

/-- The socket as a reader sees it: what the next `recv` calls return. -/
abbrev Socket : Type := List Bytes

/-- `read_frame`: decode the buffer; while it is truncated, `recv` more, and stop at an empty read. -/
def readFrame (buf : Bytes) (sock : Socket) : Except ReadError (Frame × Bytes × Socket) :=
  match decodeFrame buf with
  | .ok (frame, rest) => .ok (frame, rest, sock)
  | .error (.truncatedFrame _ _) =>
    match sock with
    | [] => .error (.connectionClosed "connection closed by peer")
    | chunk :: sock =>
      if chunk.isEmpty then .error (.connectionClosed "connection closed by peer") else readFrame (buf ++ chunk) sock
  | .error e => .error (.frameError e)

/-- Whether a frame error is the codec's "need more bytes". -/
def isTruncated : FrameError → Bool
  | .truncatedFrame _ _ => true
  | _ => false

/-- `decode_frame` as a verdict on a buffer. -/
def frameVerdict (buf : Bytes) : Verdict UInt8 Frame FrameError :=
  match decodeFrame buf with
  | .ok (frame, rest) => .item frame rest
  | .error e => if isTruncated e then .short else .bad e

theorem frameVerdict_item {buf rest : Bytes} {f : Frame} : frameVerdict buf = .item f rest ↔ decodeFrame buf = .ok (f, rest) := by
  unfold frameVerdict
  cases decodeFrame buf with
  | ok r => simp [Prod.ext_iff]
  | error e => cases e <;> simp [isTruncated]

theorem frameVerdict_bad {buf : Bytes} {e : FrameError} :
    frameVerdict buf = .bad e ↔ decodeFrame buf = .error e ∧ isTruncated e = false := by
  unfold frameVerdict
  cases decodeFrame buf with
  | ok r => simp
  | error e' =>
    simp only [Except.error.injEq]
    split
    · rename_i ht
      simp only [reduceCtorEq, false_iff, not_and, Bool.not_eq_false]
      rintro rfl
      exact ht
    · rename_i ht
      simp only [Verdict.bad.injEq, iff_self_and]
      rintro rfl
      simpa using ht

theorem frameVerdict_short {buf : Bytes} :
    frameVerdict buf = .short ↔ ∃ n m, decodeFrame buf = .error (.truncatedFrame n m) := by
  unfold frameVerdict
  cases decodeFrame buf with
  | ok r => simp
  | error e => cases e <;> simp [isTruncated]

/-- The frame codec as an incremental decoder. -/
def frameDecoder : Incremental UInt8 Frame FrameError where
  decode := frameVerdict
  item_append h t := frameVerdict_item.2 (decodeFrame_append_ok (frameVerdict_item.1 h) t)
  bad_append h t := by
    obtain ⟨hd, ht⟩ := frameVerdict_bad.1 h
    rcases decodeFrame_append_error hd with ⟨n, m, rfl⟩ | hall
    · cases ht
    · exact frameVerdict_bad.2 ⟨hall t, ht⟩
  shrinks h := by
    have hr := (decodeFrame_rest (frameVerdict_item.1 h)).1
    have hs : headerSize = 32 := rfl
    omega

/-- The exception a reader ends with: the frame error it met, or the close it met while it wanted more. -/
def ReadError.ofEnd : Option FrameError → ReadError
  | none => .connectionClosed "connection closed by peer"
  | some e => .frameError e

/-- `read_frame` is a pull of the frame decoder. -/
theorem readFrame_eq_pull (buf : Bytes) (sock : Socket) :
    readFrame buf sock = (frameDecoder.pull buf sock).mapError ReadError.ofEnd := by
  induction sock generalizing buf with
  | nil =>
    have hp : frameDecoder.decode buf = frameVerdict buf := rfl
    unfold readFrame Incremental.pull
    rw [hp, frameVerdict]
    cases decodeFrame buf with
    | ok r => rfl
    | error e => cases e <;> rfl
  | cons c cs ih =>
    have hp : frameDecoder.decode buf = frameVerdict buf := rfl
    unfold readFrame Incremental.pull
    rw [hp, frameVerdict]
    cases decodeFrame buf with
    | ok r => rfl
    | error e =>
      cases e with
      | truncatedFrame n m =>
        simp only [isTruncated, if_true]
        split
        · rfl
        · exact ih (buf ++ c)
      | _ => rfl

/-- A frame that was read leaves fewer bytes in the buffer and the socket. -/
theorem readFrame_lt {buf : Bytes} {sock : Socket} {f : Frame} {buf' : Bytes} {sock' : Socket}
    (h : readFrame buf sock = .ok (f, buf', sock')) :
    buf'.length + sock'.flatten.length < buf.length + sock.flatten.length := by
  rw [readFrame_eq_pull] at h
  cases hp : frameDecoder.pull buf sock with
  | error e => rw [hp] at h; cases h
  | ok r =>
    rw [hp] at h
    cases h
    exact frameDecoder.pull_lt hp

/-- `read_frame` called until it raises, with one buffer: the frames and the exception. -/
def readFrames (buf : Bytes) (sock : Socket) : List Frame × ReadError :=
  match _h : readFrame buf sock with
  | .ok (frame, buf', sock') =>
    let r := readFrames buf' sock'
    (frame :: r.1, r.2)
  | .error e => ([], e)
termination_by buf.length + sock.flatten.length
decreasing_by exact readFrame_lt (by assumption)

/-- A byte string decoded in one piece: `decode_frame` called on what the frame before left, until it raises. -/
def decodeStream (buf : Bytes) : List Frame × FrameError :=
  match _h : decodeFrame buf with
  | .ok (frame, rest) =>
    let r := decodeStream rest
    (frame :: r.1, r.2)
  | .error e => ([], e)
termination_by buf.length
decreasing_by
  have hr := (decodeFrame_rest (by assumption)).1
  have hs : headerSize = 32 := rfl
  omega

theorem readFrames_ok {buf : Bytes} {sock : Socket} {f : Frame} {buf' : Bytes} {sock' : Socket}
    (h : readFrame buf sock = .ok (f, buf', sock')) :
    readFrames buf sock = (f :: (readFrames buf' sock').1, (readFrames buf' sock').2) := by
  rw [readFrames]
  split <;> simp_all

theorem readFrames_error {buf : Bytes} {sock : Socket} {e : ReadError} (h : readFrame buf sock = .error e) :
    readFrames buf sock = ([], e) := by
  rw [readFrames]
  split <;> simp_all

theorem decodeStream_ok {buf rest : Bytes} {f : Frame} (h : decodeFrame buf = .ok (f, rest)) :
    decodeStream buf = (f :: (decodeStream rest).1, (decodeStream rest).2) := by
  rw [decodeStream]
  split <;> simp_all

theorem decodeStream_error {buf : Bytes} {e : FrameError} (h : decodeFrame buf = .error e) : decodeStream buf = ([], e) := by
  rw [decodeStream]
  split <;> simp_all

end BrainSdk.Transport
