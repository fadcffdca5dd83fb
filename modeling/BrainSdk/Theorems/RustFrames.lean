import BrainSdk.Rust.Frame
import BrainSdk.Theorems.Chunking

/-!
# The Rust frames

The Rust codec is the same function as the Python one on both sides, each refusal with its fields included, so it accepts exactly what it
writes; and `read_frame` gives the frames of the bytes that arrive, however the socket cuts them.
-/

namespace BrainSdk.Rust.Codec

open Library Wire

variable {crc32c : Bytes → UInt32}

theorem decode_ok_iff (hc : IsCastagnoli crc32c) {bytes rest : Bytes} {f : Frame} :
    decode crc32c bytes = .ok (f, rest) ↔ Wire.decodeFrame bytes = .ok (f.toWire, rest) := by
  have heq := decode_eq hc bytes
  rcases hw : Wire.decodeFrame bytes with e | ⟨g, rest'⟩ <;> rcases hr : decode crc32c bytes with e' | ⟨f', rest''⟩ <;>
    rw [hw, hr] at heq
  · simp
  · cases heq
  · cases heq
  · obtain ⟨rfl, rfl⟩ := Prod.mk.inj (Except.ok.inj heq)
    simp only [Except.ok.injEq, Prod.mk.injEq, Frame.toWire_injective.eq_iff]

/-- The Rust codec writes what `encode_frame` writes and refuses what is too long; it finds the frames that `decode_frame` finds, and leaves
the same bytes, or fails with the same error. So a frame with defined flags comes back from its bytes with the tail left alone, and what is
accepted is the encoding of a frame, followed by the rest. -/
theorem rust_codec_agrees (hc : IsCastagnoli crc32c) (f : Frame) (bytes tail : Bytes) :
    encode crc32c f = (Wire.encodeFrame f.opcode.toNat f.streamId.toNat f.flags.toNat f.payload).mapError
      (fun _ => .oversizePayload (UInt32.ofNat f.payload.length) (UInt32.ofNat maxPayloadBytes)) ∧
    (decode crc32c bytes).map (fun r => (r.1.toWire, r.2)) = (Wire.decodeFrame bytes).mapError FrameError.ofWire ∧
    (FlagsDefined f.flags.toNat → f.payload.length ≤ maxPayloadBytes →
      ∃ written, encode crc32c f = .ok written ∧ decode crc32c (written ++ tail) = .ok (f, tail)) ∧
    (decode crc32c bytes = .ok (f, tail) →
      FlagsDefined f.flags.toNat ∧ ∃ used, encode crc32c f = .ok used ∧ used ++ tail = bytes) := by
  have henc := encode_eq_encodeFrame hc f
  refine ⟨henc, decode_eq hc bytes, ?_, ?_⟩
  · intro hf hl
    rcases hw : Wire.encodeFrame f.opcode.toNat f.streamId.toNat f.flags.toNat f.payload with e | written
    · rw [encode_eq hc hl, hw] at henc
      cases henc
    · rw [hw] at henc
      exact ⟨written, henc, (decode_ok_iff hc).2 (decodeFrame_encodeFrame hw hf tail)⟩
  · intro hdec
    obtain ⟨hf, used, hw, happend⟩ := encodeFrame_decodeFrame ((decode_ok_iff hc).1 hdec)
    have hused : Wire.encodeFrame f.opcode.toNat f.streamId.toNat f.flags.toNat f.payload = .ok used := hw
    rw [hused] at henc
    exact ⟨hf, used, henc, happend⟩

/-- A crate that computes the checksum. -/
def tableCrc (data : Bytes) : UInt32 := UInt32.ofNat (Wire.crc32c data)

theorem tableCrc_isCastagnoli : IsCastagnoli tableCrc := by
  intro data
  rw [tableCrc, UInt32.toNat_ofNat_of_lt' (crc32c_lt data), wire_crc32c_eq]

/-- The last opcode and the last stream id with every defined flag, read back in front of one more byte. -/
theorem rust_codec_agrees_last : ∃ written, encode tableCrc ⟨0xFFFF, 0xE0, 0xFFFFFFFF, [1, 2]⟩ = .ok written ∧
    decode tableCrc (written ++ [7]) = .ok (⟨0xFFFF, 0xE0, 0xFFFFFFFF, [1, 2]⟩, [7]) :=
  (rust_codec_agrees tableCrc_isCastagnoli ⟨0xFFFF, 0xE0, 0xFFFFFFFF, [1, 2]⟩ [] [7]).2.2.1 (by unfold FlagsDefined; decide) (by decide)

/-! ### Reading a stream -/

/-- What the frame decoder says of a buffer, and what `Frame::decode` says. -/
theorem decode_verdict (hc : IsCastagnoli crc32c) (buf : Bytes) :
    (∃ f rest, decode crc32c buf = .ok (f, rest) ∧ Transport.frameDecoder.decode buf = .item f.toWire rest) ∨
    (∃ n m, decode crc32c buf = .error (.truncated n m) ∧ Transport.frameDecoder.decode buf = .short) ∨
    ∃ e, decode crc32c buf = .error (.ofWire e) ∧ (∀ n m, FrameError.ofWire e ≠ .truncated n m) ∧
      Transport.frameDecoder.decode buf = .bad e := by
  have heq := decode_eq hc buf
  rcases hw : Wire.decodeFrame buf with e | ⟨g, rest⟩ <;> rcases hr : decode crc32c buf with e' | ⟨f, rest'⟩ <;> rw [hw, hr] at heq
  · have he : e' = .ofWire e := Except.error.inj heq
    cases ht : Transport.isTruncated e with
    | true =>
      cases e with
      | truncatedFrame n m => exact .inr (.inl ⟨n, m, congrArg Except.error he, Transport.frameVerdict_short.2 ⟨n, m, hw⟩⟩)
      | _ => cases ht
    | false =>
      refine .inr (.inr ⟨e, congrArg Except.error he, ?_, Transport.frameVerdict_bad.2 ⟨hw, ht⟩⟩)
      intro n m
      cases e with
      | truncatedFrame n' m' => cases ht
      | _ => simp [FrameError.ofWire]
  · cases heq
  · cases heq
  · obtain ⟨rfl, rfl⟩ := Prod.mk.inj (Except.ok.inj heq)
    exact .inl ⟨f, rest', rfl, Transport.frameVerdict_item.2 hw⟩

/-- The error that ends a stream of reads whose decoding stopped at the given error, or at the end of the bytes. -/
def lastError (reads : Reads) : Option Wire.FrameError → ReadError
  | none => endOf reads
  | some e => .frame (.ofWire e)

/-- `read_frame` gives the first frame of the bytes in its buffer and of those that arrive, or ends as their decoding ends. -/
theorem readFrame_spec (hc : IsCastagnoli crc32c) (buf : Bytes) (reads : Reads) :
    (∃ f buf' reads', readFrame crc32c buf reads = (.ok f, buf', reads') ∧ endOf reads' = endOf reads ∧
      Transport.frameDecoder.decode (buf ++ (chunksOf reads).flatten) = .item f.toWire (buf' ++ (chunksOf reads').flatten)) ∨
    ∃ buf' reads' stop, readFrame crc32c buf reads = (.error (lastError reads stop), buf', reads') ∧
      Transport.frameDecoder.decodeAll (buf ++ (chunksOf reads).flatten) = ([], stop) := by
  induction reads generalizing buf with
  | nil =>
    rw [chunksOf_nil, List.flatten_nil, List.append_nil]
    rcases decode_verdict hc buf with ⟨f, rest, hr, hv⟩ | ⟨n, m, hr, hv⟩ | ⟨e, hr, hne, hv⟩
    · exact .inl ⟨f, rest, [], readFrame_frame hr [], rfl, by rw [hv, chunksOf_nil, List.flatten_nil, List.append_nil]⟩
    · refine .inr ⟨(buf ++ List.replicate readChunk 0).take buf.length, [], none, ?_, Incremental.decodeAll_short _ hv⟩
      rw [readFrame, hr]
      rfl
    · exact .inr ⟨buf, [], some e, readFrame_bad hr hne [], Incremental.decodeAll_bad _ hv⟩
  | cons r reads ih =>
    rcases decode_verdict hc buf with ⟨f, rest, hr, hv⟩ | ⟨n, m, hr, hv⟩ | ⟨e, hr, hne, hv⟩
    · exact .inl ⟨f, rest, r :: reads, readFrame_frame hr _, rfl, Transport.frameDecoder.item_append hv _⟩
    · cases r with
      | error message =>
        rw [chunksOf_error, List.flatten_nil, List.append_nil]
        refine .inr ⟨buf ++ List.replicate readChunk 0, reads, none, ?_, Incremental.decodeAll_short _ hv⟩
        rw [readFrame, hr]
        rfl
      | ok bytes =>
        rw [readFrame_short hr, chunksOf]
        by_cases hb : bytes.length = 0
        · rw [if_pos hb, if_pos hb, List.flatten_nil, List.append_nil]
          refine .inr ⟨buf ++ bytes, reads, none, ?_, Incremental.decodeAll_short _ hv⟩
          rw [lastError, endOf, if_pos hb]
        · rw [if_neg hb, if_neg hb, List.flatten_cons, ← List.append_assoc]
          have hend : endOf (.ok bytes :: reads) = endOf reads := by rw [endOf, if_neg hb]
          have hlast : lastError (.ok bytes :: reads) = lastError reads := by
            funext stop
            cases stop with
            | none => exact hend
            | some e => rfl
          rw [hend, hlast]
          exact ih (buf ++ bytes)
    · exact .inr ⟨buf, r :: reads, some e, readFrame_bad hr hne _,
        Incremental.decodeAll_bad _ (Transport.frameDecoder.bad_append hv _)⟩

theorem readFrames_ok {buf buf' : Bytes} {reads reads' : Reads} {f : Frame}
    (h : readFrame crc32c buf reads = (.ok f, buf', reads')) :
    readFrames crc32c buf reads = (f :: (readFrames crc32c buf' reads').1, (readFrames crc32c buf' reads').2) := by
  rw [readFrames]
  split <;> simp_all

theorem readFrames_error {buf buf' : Bytes} {reads reads' : Reads} {e : ReadError}
    (h : readFrame crc32c buf reads = (.error e, buf', reads')) : readFrames crc32c buf reads = ([], e) := by
  rw [readFrames]
  split <;> simp_all

/-- The frames of the buffer and of what arrives are those of the bytes in one piece. -/
theorem readFrames_eq (hc : IsCastagnoli crc32c) (buf : Bytes) (reads : Reads) :
    (readFrames crc32c buf reads).1.map Frame.toWire =
      (Transport.frameDecoder.decodeAll (buf ++ (chunksOf reads).flatten)).1 ∧
    (readFrames crc32c buf reads).2 =
      lastError reads (Transport.frameDecoder.decodeAll (buf ++ (chunksOf reads).flatten)).2 := by
  rcases readFrame_spec hc buf reads with ⟨f, buf', reads', hread, hend, hv⟩ | ⟨buf', reads', stop, hread, hall⟩
  · obtain ⟨hframes, herror⟩ := readFrames_eq hc buf' reads'
    rw [readFrames_ok hread, Incremental.decodeAll_item _ hv, List.map_cons, hframes, herror]
    refine ⟨rfl, ?_⟩
    cases (Transport.frameDecoder.decodeAll (buf' ++ (chunksOf reads').flatten)).2 with
    | none => exact hend
    | some e => rfl
  · rw [readFrames_error hread, hall]
    exact ⟨rfl, rfl⟩
termination_by buf.length + (chunksOf reads).flatten.length
decreasing_by exact readFrame_lt hread

/-- The bytes `bs` are what `Frame::encode` returned for the frames `fs`, one each. -/
def Written (crc32c : Bytes → UInt32) (fs : List Frame) (bs : List Bytes) : Prop :=
  List.Forall₂ (fun f b => encode crc32c f = .ok b) fs bs

theorem Written.encoded (hc : IsCastagnoli crc32c) {fs : List Frame} {bs : List Bytes} (h : Written crc32c fs bs) :
    Transport.Encoded (fs.map Frame.toWire) bs := by
  induction h with
  | nil => exact .nil
  | @cons f b fs bs hb _ ih =>
    have henc := encode_eq_encodeFrame hc f
    rw [hb] at henc
    rcases hw : Wire.encodeFrame f.opcode.toNat f.streamId.toNat f.flags.toNat f.payload with e | written
    · rw [hw] at henc
      cases henc
    · rw [hw] at henc
      cases henc
      exact .cons hw ih

/-- However a socket cuts a stream, the frames that `read_frame` gives are those that Python decodes in one piece, and the error behind them
is the first frame error, or, when the bytes end, that of the socket or the peer's close. Encoded frames with defined flags are read back as
they were written. -/
theorem rust_reads_any_cut (hc : IsCastagnoli crc32c) (reads : Reads) :
    (readFrames crc32c [] reads).1.map Frame.toWire = (Transport.decodeStream (chunksOf reads).flatten).1 ∧
    (readFrames crc32c [] reads).2 = (match (Transport.decodeStream (chunksOf reads).flatten).2 with
      | .truncatedFrame _ _ => endOf reads
      | e => .frame (.ofWire e)) ∧
    ∀ (fs : List Frame) (bs : List Bytes), Written crc32c fs bs → (∀ f ∈ fs, FlagsDefined f.flags.toNat) →
      (chunksOf reads).flatten = bs.flatten → readFrames crc32c [] reads = (fs, endOf reads) := by
  obtain ⟨hframes, herror⟩ := readFrames_eq hc [] reads
  rw [List.nil_append] at hframes herror
  rw [Transport.decodeAll_eq_decodeStream] at hframes herror
  refine ⟨hframes, ?_, ?_⟩
  · rw [herror]
    cases (Transport.decodeStream (chunksOf reads).flatten).2 <;> rfl
  · intro fs bs hb hf hflat
    have hdefined : ∀ g ∈ fs.map Frame.toWire, FlagsDefined g.flags := by
      intro g hg
      obtain ⟨f, hmem, rfl⟩ := List.mem_map.1 hg
      exact hf f hmem
    rw [hflat, Transport.decodeStream_encoded (hb.encoded hc) hdefined] at hframes herror
    refine Prod.ext ?_ herror
    exact List.map_injective_iff.2 Frame.toWire_injective hframes

/-- A PONG and an event. -/
def sampleFrames : List Frame := [⟨0x0090, 0x80, 0, []⟩, ⟨0x0030, 0, 7, [1, 2]⟩]

/-- The bytes of a frame, empty when it cannot be encoded. -/
def bytesOf (f : Frame) : Bytes :=
  match encode tableCrc f with
  | .ok b => b
  | .error _ => []

/-- The frames in two reads, cut in the middle of the first header, and then an error of the socket. -/
def cutReads : Reads :=
  let s := (sampleFrames.map bytesOf).flatten
  [.ok (s.take 5), .ok (s.drop 5), .error "connection reset"]

theorem readFrames_cutReads : readFrames tableCrc [] cutReads = (sampleFrames, .io "connection reset") := by
  refine (rust_reads_any_cut tableCrc_isCastagnoli cutReads).2.2 sampleFrames (sampleFrames.map bytesOf) ?_ ?_ ?_
  · exact .cons (by decide +kernel) (.cons (by decide +kernel) .nil)
  · intro f hf
    rcases List.mem_cons.1 hf with rfl | hf
    · rfl
    · rcases List.mem_singleton.1 hf with rfl
      rfl
  · decide +kernel

end BrainSdk.Rust.Codec
