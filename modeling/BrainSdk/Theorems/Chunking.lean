import BrainSdk.Transport

/-!
# Reading frames does not depend on how the bytes arrive

`read_frame`, called until it raises, is the frame decoder pulled over the chunks (`Incremental.pullAll`); the same bytes decoded
in one piece are `Incremental.decodeAll`. The library's `pullAll_eq_decodeAll` makes the two agree.
-/

namespace BrainSdk.Transport

open Library Wire

/-- Reading a stream to its end is pulling the frame decoder to its end. -/
theorem readFrames_eq_pullAll (buf : Bytes) (sock : Socket) :
    readFrames buf sock =
      ((frameDecoder.pullAll buf sock).1, ReadError.ofEnd (frameDecoder.pullAll buf sock).2) := by
  have hr := readFrame_eq_pull buf sock
  rw [Incremental.pullAll]
  split
  · rename_i f buf' sock' hp
    rw [hp] at hr
    rw [readFrames_ok hr, readFrames_eq_pullAll buf' sock']
  · rename_i e hp
    rw [hp] at hr
    rw [readFrames_error hr]
termination_by buf.length + sock.flatten.length
decreasing_by exact frameDecoder.pull_lt (by assumption)

/-- What stopped `decode_frame` on a stream, as the reader of the stream reports it: "truncated" at the end of the stream is the
peer's close, any other frame error is itself. -/
def terminalError : FrameError → ReadError
  | .truncatedFrame _ _ => .connectionClosed "connection closed by peer"
  | e => .frameError e

theorem ofEnd_eq_terminalError (e : FrameError) :
    ReadError.ofEnd (if isTruncated e then none else some e) = terminalError e := by
  cases e <;> rfl

/-- Decoding in one piece by `decode_frame` is the frame decoder on the whole input. -/
theorem decodeAll_eq_decodeStream (buf : Bytes) :
    frameDecoder.decodeAll buf =
      ((decodeStream buf).1, if isTruncated (decodeStream buf).2 then none else some (decodeStream buf).2) := by
  cases hd : decodeFrame buf with
  | ok r =>
    obtain ⟨f, rest⟩ := r
    have hv : frameDecoder.decode buf = .item f rest := frameVerdict_item.2 hd
    have hlt := frameDecoder.shrinks hv
    rw [frameDecoder.decodeAll_item hv, decodeStream_ok hd, decodeAll_eq_decodeStream rest]
  | error e =>
    rw [decodeStream_error hd]
    cases ht : isTruncated e with
    | true =>
      obtain ⟨n, m, rfl⟩ : ∃ n m, e = .truncatedFrame n m := by
        cases e <;> simp_all [isTruncated]
      have hv : frameDecoder.decode buf = .short := frameVerdict_short.2 ⟨n, m, hd⟩
      rw [frameDecoder.decodeAll_short hv]
      rfl
    | false =>
      have hv : frameDecoder.decode buf = .bad e := frameVerdict_bad.2 ⟨hd, ht⟩
      rw [frameDecoder.decodeAll_bad hv]
      rfl
termination_by buf.length

/-- The bytes `bs` are what `encode_frame` returned for the frames `fs`, one each. -/
def Encoded (fs : List Frame) (bs : List Bytes) : Prop :=
  List.Forall₂ (fun f b => encodeFrame f.opcode f.streamId f.flags f.payload = .ok b) fs bs

/-- Encoded frames put end to end decode to those frames and then to "truncated", nothing being left. -/
theorem decodeStream_encoded {fs : List Frame} {bs : List Bytes} (h : Encoded fs bs)
    (hf : ∀ f ∈ fs, FlagsDefined f.flags) : decodeStream bs.flatten = (fs, .truncatedFrame 0 headerSize) := by
  induction h with
  | nil => exact decodeStream_error rfl
  | @cons f b fs bs hb _ ih =>
    have hd := decodeFrame_encodeFrame hb (hf f List.mem_cons_self) bs.flatten
    rw [List.flatten_cons, decodeStream_ok hd, ih (fun g hg => hf g (List.mem_cons_of_mem f hg))]

/-- Reading a stream through `read_frame` gives, for every way its bytes are cut into chunks, the frames of the stream decoded in
one piece and the same terminal error: the peer's close, or the frame error that stopped `decode_frame`. A stream of encoded
frames whose flags use the defined bits only gives those frames, and then the peer's close. -/
theorem readFrames_chunking (sock : Socket) (hne : ∀ c ∈ sock, c ≠ []) :
    (readFrames [] sock).1 = (decodeStream sock.flatten).1 ∧
    (readFrames [] sock).2 = terminalError (decodeStream sock.flatten).2 ∧
    ∀ (fs : List Frame) (bs : List Bytes), Encoded fs bs → (∀ f ∈ fs, FlagsDefined f.flags) → sock.flatten = bs.flatten →
      readFrames [] sock = (fs, .connectionClosed "connection closed by peer") := by
  have hread : readFrames [] sock =
      ((decodeStream sock.flatten).1, terminalError (decodeStream sock.flatten).2) := by
    rw [readFrames_eq_pullAll, frameDecoder.pullAll_eq_decodeAll [] sock hne, List.nil_append,
      decodeAll_eq_decodeStream, ← ofEnd_eq_terminalError]
  refine ⟨by rw [hread], by rw [hread], ?_⟩
  intro fs bs hb hf hflat
  rw [hread, hflat, decodeStream_encoded hb hf]
  rfl

/-- Two PONG frames with defined flags. -/
def pongs : List Frame := [⟨0x0090, flagEos, 0, []⟩, ⟨0x0090, flagEos ||| flagMpl, 7, [1, 2, 3]⟩]

/-- The bytes of a frame, empty when it cannot be encoded. -/
def bytesOf (f : Frame) : Bytes :=
  match encodeFrame f.opcode f.streamId f.flags f.payload with
  | .ok b => b
  | .error _ => []

/-- The two PONG frames cut in the middle of the first header and again in the middle of the second. -/
def pongChunks : Socket :=
  let s := (pongs.map bytesOf).flatten
  [s.take 5, (s.drop 5).take 40, s.drop 45]

theorem readFrames_pongChunks :
    readFrames [] pongChunks = (pongs, .connectionClosed "connection closed by peer") := by
  refine (readFrames_chunking pongChunks ?_).2.2 pongs (pongs.map bytesOf) ?_ ?_ ?_
  · decide +kernel
  · exact .cons (by decide +kernel) (.cons (by decide +kernel) .nil)
  · intro f hf
    rcases List.mem_cons.1 hf with rfl | hf
    · rfl
    · rcases List.mem_singleton.1 hf with rfl
      rfl
  · decide +kernel

/-- Without the condition on the flags the last part fails: `encode_frame` writes a flags byte with a reserved bit as it is given,
and `decode_frame` refuses it. -/
theorem readFrames_encoded_reserved_flag :
    ¬∀ (sock : Socket), (∀ c ∈ sock, c ≠ []) → ∀ (fs : List Frame) (bs : List Bytes), Encoded fs bs →
      sock.flatten = bs.flatten → (readFrames [] sock).1 = fs := by
  intro h
  have hread := h [bytesOf ⟨0x0090, 1, 0, []⟩] (by decide +kernel) [⟨0x0090, 1, 0, []⟩] [bytesOf ⟨0x0090, 1, 0, []⟩]
    (.cons (by decide +kernel) .nil) rfl
  have hbad : readFrame [] [bytesOf ⟨0x0090, 1, 0, []⟩] =
      .error (.frameError (.reservedNonZero "reserved flag bit was non-zero")) := by decide +kernel
  rw [readFrames_error hbad] at hread
  cases hread

end BrainSdk.Transport
