import BrainSdk.Rust.Link
import BrainSdk.Theorems.Castagnoli

/-!
# The Rust frame codec

`wire/frame.rs` and the reading half of `transport.rs`. The fields of a frame have the widths of the wire; `crc32c` is the function of the
crate of that name. The lemmas compare the codec, function by function, with that of `Wire.Frame`, and `read_frame` with a pull of the
frame decoder.
-/

namespace BrainSdk.Rust.Codec

open Library Wire

/-- `FrameError`. -/
inductive FrameError where
  | badMagic
  | badVersion (got expected : UInt8)
  | badHeaderCrc
  | badPayloadCrc
  | oversizePayload (len max : UInt32)
  | reservedNonZero
  | truncated (haveBytes needBytes : Nat)
  deriving DecidableEq, Repr

/-- `Frame`. -/
structure Frame where
  opcode : UInt16
  flags : UInt8
  streamId : UInt32
  payload : Bytes
  deriving DecidableEq, Repr

/-- `u16::to_be_bytes`. -/
def u16ToBeBytes (x : UInt16) : Bytes := toBytesBE 2 x.toNat

/-- `u32::to_be_bytes`. -/
def u32ToBeBytes (x : UInt32) : Bytes := toBytesBE 4 x.toNat

/-- `u16::from_be_bytes`. -/
def u16FromBeBytes (bytes : Bytes) : UInt16 := UInt16.ofNat (fromBytesBE bytes)

/-- `u32::from_be_bytes`. -/
def u32FromBeBytes (bytes : Bytes) : UInt32 := UInt32.ofNat (fromBytesBE bytes)

section

variable (crc32c : Bytes → UInt32)

/-- `compute_header_crc`. -/
def computeHeaderCrc (header : Bytes) : UInt32 :=
  let buf := List.replicate (headerSize - 4) 0
  let buf := setSlice buf 0 (slice header 0 offHeaderCrc)
  let buf := setSlice buf offHeaderCrc (slice header offStreamId headerSize)
  crc32c buf

/-- The bytes of `encode` before the header checksum and the payload are written. -/
def encodeFields (f : Frame) : Bytes :=
  let out := List.replicate (headerSize + f.payload.length) 0
  let out := setSlice out offMagic magic
  let out := setSlice out offVersion [UInt8.ofNat wireVersion]
  let out := setSlice out offOpcode (u16ToBeBytes f.opcode)
  let out := setSlice out offFlags [f.flags]
  let out := setSlice out offStreamId (u32ToBeBytes f.streamId)
  let lenBe := u32ToBeBytes (UInt32.ofNat f.payload.length)
  let out := setSlice out offPayloadLen (lenBe.drop 1)
  setSlice out offPayloadCrc (u32ToBeBytes (crc32c f.payload))

/-- `Frame::encode`. -/
def encode (f : Frame) : Except FrameError Bytes :=
  if f.payload.length > maxPayloadBytes then
    .error (.oversizePayload (UInt32.ofNat f.payload.length) (UInt32.ofNat maxPayloadBytes))
  else
    let out := encodeFields crc32c f
    let headerCrc := computeHeaderCrc crc32c (slice out 0 headerSize)
    let out := setSlice out offHeaderCrc (u32ToBeBytes headerCrc)
    .ok (setSlice out headerSize f.payload)

/-- The checks of `Frame::decode` on the header, and the payload length it then reads. -/
def checkHeader (header : Bytes) : Except FrameError UInt32 :=
  if slice header offMagic (offMagic + 4) ≠ magic then .error .badMagic
  else if header.getD offVersion 0 ≠ UInt8.ofNat wireVersion then
    .error (.badVersion (header.getD offVersion 0) (UInt8.ofNat wireVersion))
  else if header.getD offReservedA 0 ≠ 0 ∨ slice header offReservedB headerSize ≠ List.replicate 8 0 then .error .reservedNonZero
  else if header.getD offFlags 0 &&& ~~~UInt8.ofNat flagsDefinedMask ≠ 0 then .error .reservedNonZero
  else if u32FromBeBytes (slice header offHeaderCrc (offHeaderCrc + 4)) ≠ computeHeaderCrc crc32c header then .error .badHeaderCrc
  else
    let payloadLen := u32FromBeBytes (0 :: slice header offPayloadLen (offPayloadLen + 3))
    if payloadLen.toNat > maxPayloadBytes then .error (.oversizePayload payloadLen (UInt32.ofNat maxPayloadBytes)) else .ok payloadLen

/-- The rest of `Frame::decode`, once the header passed its checks. -/
def takePayload (bytes : Bytes) (payloadLen : UInt32) : Except FrameError (Frame × Bytes) :=
  let header := slice bytes 0 headerSize
  let need := headerSize + payloadLen.toNat
  if bytes.length < need then .error (.truncated bytes.length need)
  else
    let payload := slice bytes headerSize need
    if u32FromBeBytes (slice header offPayloadCrc (offPayloadCrc + 4)) ≠ crc32c payload then .error .badPayloadCrc
    else .ok ({ opcode := u16FromBeBytes (slice header offOpcode (offOpcode + 2))
                flags := header.getD offFlags 0
                streamId := u32FromBeBytes (slice header offStreamId (offStreamId + 4))
                payload := payload }, bytes.drop need)

/-- `Frame::decode`. -/
def decode (bytes : Bytes) : Except FrameError (Frame × Bytes) :=
  if bytes.length < headerSize then .error (.truncated bytes.length headerSize)
  else
    match checkHeader crc32c (slice bytes 0 headerSize) with
    | .error e => .error e
    | .ok payloadLen => takePayload crc32c bytes payloadLen

/-- The errors `read_frame` returns: of the socket, of the codec, and the peer's close. -/
inductive ReadError where
  | io (message : String)
  | frame (e : FrameError)
  | closed
  deriving DecidableEq, Repr

/-- What the next calls of `read` return; past the last one they return no bytes. -/
abbrev Reads : Type := List (Except String Bytes)

/-- `read_frame`: the buffer, which `read` fills behind what it holds, is the caller's. -/
def readFrame (buf : Bytes) (reads : Reads) : Except ReadError Frame × Bytes × Reads :=
  match decode crc32c buf with
  | .ok (frame, rest) =>
    let consumed := buf.length - rest.length
    (.ok frame, buf.drop consumed, reads)
  | .error (.truncated _ _) =>
    let start := buf.length
    let filled := buf ++ List.replicate readChunk 0
    match reads with
    | [] => (.error .closed, filled.take start, [])
    | .error message :: reads => (.error (.io message), filled, reads)
    | .ok bytes :: reads =>
      let buf := (setSlice filled start bytes).take (start + bytes.length)
      if bytes.length = 0 then (.error .closed, buf, reads) else readFrame buf reads
  | .error e => (.error (.frame e), buf, reads)

end

/-! ### The codec against that of `Wire.Frame` -/

/-- The Rust value of an error of `Wire.decodeFrame`. -/
def FrameError.ofWire : Wire.FrameError → FrameError
  | .badMagic => .badMagic
  | .badVersion got => .badVersion (UInt8.ofNat got) (UInt8.ofNat wireVersion)
  | .badHeaderCrc => .badHeaderCrc
  | .badPayloadCrc => .badPayloadCrc
  | .oversizePayload length => .oversizePayload (UInt32.ofNat length) (UInt32.ofNat maxPayloadBytes)
  | .reservedNonZero _ => .reservedNonZero
  | .truncatedFrame haveBytes needBytes => .truncated haveBytes needBytes

/-- The fields of a frame as numbers. -/
def Frame.toWire (f : Frame) : Wire.Frame := ⟨f.opcode.toNat, f.flags.toNat, f.streamId.toNat, f.payload⟩

theorem Frame.toWire_injective : Function.Injective Frame.toWire := by
  rintro ⟨o, fl, s, p⟩ ⟨o', fl', s', p'⟩ h
  simp only [Frame.toWire, Wire.Frame.mk.injEq, UInt16.toNat_inj, UInt8.toNat_inj, UInt32.toNat_inj] at h
  obtain ⟨rfl, rfl, rfl, rfl⟩ := h
  rfl

/-- `crc32c` computes the Castagnoli CRC, as its crate documents it. -/
def IsCastagnoli (crc32c : Bytes → UInt32) : Prop := ∀ data, (crc32c data).toNat = castagnoli data

theorem toNat_u32FromBeBytes {bytes : Bytes} (h : bytes.length ≤ 4) : (u32FromBeBytes bytes).toNat = fromBytesBE bytes := by
  have hlt : fromBytesBE bytes < 256 ^ bytes.length := fromBytesBE_lt bytes
  have hle : 256 ^ bytes.length ≤ 256 ^ 4 := Nat.pow_le_pow_right (by decide) h
  rw [u32FromBeBytes, UInt32.toNat_ofNat_of_lt' (show fromBytesBE bytes < 2 ^ 32 by omega)]

theorem toNat_u16FromBeBytes {bytes : Bytes} (h : bytes.length ≤ 2) : (u16FromBeBytes bytes).toNat = fromBytesBE bytes := by
  have hlt : fromBytesBE bytes < 256 ^ bytes.length := fromBytesBE_lt bytes
  have hle : 256 ^ bytes.length ≤ 256 ^ 2 := Nat.pow_le_pow_right (by decide) h
  rw [u16FromBeBytes, UInt16.toNat_ofNat_of_lt' (show fromBytesBE bytes < 2 ^ 16 by omega)]

theorem setSlice_append {header new : Bytes} {a : Nat} (h : a + new.length ≤ header.length) (tail : Bytes) :
    setSlice (header ++ tail) a new = setSlice header a new ++ tail := by
  unfold setSlice
  rw [List.take_append_of_le_length (by omega), List.drop_append_of_le_length h]
  simp only [List.append_assoc]

theorem slice_zero (bs : Bytes) (n : Nat) : slice bs 0 n = bs.take n := by
  rw [slice, List.drop_zero]

variable {crc32c : Bytes → UInt32}

theorem toNat_crc (hc : IsCastagnoli crc32c) (data : Bytes) : (crc32c data).toNat = Wire.crc32c data := by
  rw [hc, wire_crc32c_eq]

theorem computeHeaderCrc_eq (hc : IsCastagnoli crc32c) {header : Bytes} (h : header.length = headerSize) :
    (computeHeaderCrc crc32c header).toNat = Wire.computeHeaderCrc header := by
  have h32 : header.length = 32 := h
  have h8 : (header.take 8).length = 8 := List.length_take_of_le (by omega)
  have h20 : (slice header 12 32).length = 20 := slice_length (by omega)
  have hfront : setSlice (List.replicate 28 0) 0 (header.take 8) = header.take 8 ++ List.replicate 20 0 := by
    rw [setSlice, h8, List.take_zero, List.nil_append, List.drop_replicate]
  have hback : setSlice (header.take 8 ++ List.replicate 20 0) 8 (slice header 12 32) = header.take 8 ++ slice header 12 32 := by
    rw [setSlice, h20, List.take_left' h8, List.drop_of_length_le (by rw [List.length_append, h8, List.length_replicate]),
      List.append_nil]
  unfold computeHeaderCrc Wire.computeHeaderCrc
  rw [toNat_crc hc]
  simp only [slice_zero, headerSize, offHeaderCrc, offStreamId, Nat.reduceSub]
  rw [hfront, hback]

/-- The header checks find the same length or fail with the same error. -/
theorem checkHeader_eq (hc : IsCastagnoli crc32c) {header : Bytes} (h : header.length = headerSize) :
    (checkHeader crc32c header).map UInt32.toNat = (Wire.checkHeader header).mapError FrameError.ofWire := by
  have h32 : header.length = 32 := h
  have hstored : u32FromBeBytes (slice header offHeaderCrc (offHeaderCrc + 4)) = computeHeaderCrc crc32c header ↔
      fromBytesBE (slice header offHeaderCrc (offHeaderCrc + 4)) = Wire.computeHeaderCrc header := by
    have h4 : (slice header offHeaderCrc (offHeaderCrc + 4)).length = 4 := slice_length (by rw [h32]; decide)
    rw [← UInt32.toNat_inj, toNat_u32FromBeBytes (Nat.le_of_eq h4), computeHeaderCrc_eq hc h]
  have h3 : (slice header offPayloadLen (offPayloadLen + 3)).length = 3 := slice_length (by rw [h32]; decide)
  have hlen : (u32FromBeBytes (0 :: slice header offPayloadLen (offPayloadLen + 3))).toNat =
      fromBytesBE (slice header offPayloadLen (offPayloadLen + 3)) := by
    rw [toNat_u32FromBeBytes (by rw [List.length_cons, h3])]
    rfl
  have hver : UInt8.ofNat (header.getD offVersion 0).toNat = header.getD offVersion 0 := UInt8.ofNat_toNat
  unfold checkHeader Wire.checkHeader
  have hback : UInt32.ofNat (fromBytesBE (slice header offPayloadLen (offPayloadLen + 3))) =
      u32FromBeBytes (0 :: slice header offPayloadLen (offPayloadLen + 3)) := by
    rw [← hlen, UInt32.ofNat_toNat]
  simp only [ne_eq, hstored, hlen]
  split_ifs <;> simp only [Except.map, Except.mapError, FrameError.ofWire, hver, hback, hlen]

/-- Past the header the codecs find the same frame or fail with the same error. -/
theorem takePayload_eq (hc : IsCastagnoli crc32c) {bytes : Bytes} (h : headerSize ≤ bytes.length) (len : UInt32) :
    (takePayload crc32c bytes len).map (fun r => (r.1.toWire, r.2)) =
      (Wire.takePayload bytes len.toNat).mapError FrameError.ofWire := by
  have hl : (bytes.take headerSize).length = headerSize := List.length_take_of_le h
  unfold takePayload Wire.takePayload
  rw [slice_zero]
  dsimp only
  generalize bytes.take headerSize = header at hl
  have h32 : header.length = 32 := hl
  have hfield : ∀ a w, a + w ≤ 32 → (slice header a (a + w)).length = w := by
    intro a w haw
    rw [slice_length (by omega), Nat.add_sub_cancel_left]
  have hcrc : ∀ payload : Bytes, u32FromBeBytes (slice header offPayloadCrc (offPayloadCrc + 4)) = crc32c payload ↔
      fromBytesBE (slice header offPayloadCrc (offPayloadCrc + 4)) = Wire.crc32c payload := by
    intro payload
    rw [← UInt32.toNat_inj, toNat_u32FromBeBytes (Nat.le_of_eq (hfield offPayloadCrc 4 (by decide))), toNat_crc hc]
  simp only [ne_eq, hcrc]
  split_ifs
  · rfl
  · refine congrArg Except.ok ?_
    simp only [Frame.toWire, toNat_u16FromBeBytes (Nat.le_of_eq (hfield offOpcode 2 (by decide))),
      toNat_u32FromBeBytes (Nat.le_of_eq (hfield offStreamId 4 (by decide)))]
  · rfl

/-- `Frame::decode` finds the frame that `Wire.decodeFrame` finds and leaves the same bytes, or fails with the same error. -/
theorem decode_eq (hc : IsCastagnoli crc32c) (bytes : Bytes) :
    (decode crc32c bytes).map (fun r => (r.1.toWire, r.2)) = (Wire.decodeFrame bytes).mapError FrameError.ofWire := by
  unfold decode Wire.decodeFrame
  by_cases h : bytes.length < headerSize
  · rw [if_pos h, if_pos h]
    rfl
  · rw [if_neg h, if_neg h, slice_zero]
    have hle : headerSize ≤ bytes.length := Nat.le_of_not_lt h
    have hcheck := checkHeader_eq hc (List.length_take_of_le hle)
    rcases hw : Wire.checkHeader (bytes.take headerSize) with e | len <;>
      rcases hr : checkHeader crc32c (bytes.take headerSize) with e' | len' <;> rw [hw, hr] at hcheck
    · exact congrArg Except.error (Except.error.inj hcheck)
    · cases hcheck
    · cases hcheck
    · obtain rfl : len'.toNat = len := Except.ok.inj hcheck
      exact takePayload_eq hc hle len'

/-- The fields as `encode` lays them out, in front of room for the payload. -/
theorem encodeFields_eq (hc : IsCastagnoli crc32c) {f : Frame} (hl : f.payload.length ≤ maxPayloadBytes) :
    encodeFields crc32c f =
      headerLayout f.opcode.toNat f.flags.toNat 0 f.streamId.toNat f.payload.length (Wire.crc32c f.payload) ++
        List.replicate f.payload.length 0 := by
  have hmax : maxPayloadBytes = 2 ^ 24 - 1 := rfl
  have hlen : (u32ToBeBytes (UInt32.ofNat f.payload.length)).drop 1 = toBytesBE 3 f.payload.length := by
    rw [u32ToBeBytes, UInt32.toNat_ofNat_of_lt' (show f.payload.length < 2 ^ 32 by omega)]
    rfl
  have hflags : [f.flags] = [UInt8.ofNat f.flags.toNat] := by rw [UInt8.ofNat_toNat]
  unfold encodeFields
  simp only [hlen]
  rw [List.replicate_add, u16ToBeBytes, u32ToBeBytes, u32ToBeBytes, toNat_crc hc, hflags,
    setSlice_append (Nat.le_of_ble_eq_true rfl), setSlice_append (Nat.le_of_ble_eq_true rfl),
    setSlice_append (Nat.le_of_ble_eq_true rfl), setSlice_append (Nat.le_of_ble_eq_true rfl),
    setSlice_append (Nat.le_of_ble_eq_true rfl), setSlice_append (Nat.le_of_ble_eq_true rfl),
    setSlice_append (Nat.le_of_ble_eq_true rfl)]
  exact congrArg (· ++ List.replicate f.payload.length 0)
    (headerFields_eq f.opcode.toNat f.streamId.toNat f.flags.toNat f.payload.length (Wire.crc32c f.payload))

/-- `Frame::encode` writes the bytes that `Wire.encodeFrame` writes. -/
theorem encode_eq (hc : IsCastagnoli crc32c) {f : Frame} (hl : f.payload.length ≤ maxPayloadBytes) :
    encode crc32c f = .ok (encodeHeader f.opcode.toNat f.streamId.toNat f.flags.toNat f.payload.length (Wire.crc32c f.payload) ++
      f.payload) := by
  unfold encode
  rw [if_neg (Nat.not_lt.2 hl)]
  refine congrArg Except.ok ?_
  rw [encodeFields_eq hc hl, encodeHeader_eq]
  generalize hfields : headerLayout f.opcode.toNat f.flags.toNat 0 f.streamId.toNat f.payload.length (Wire.crc32c f.payload) = fields
  have hsize : fields.length = headerSize := by
    rw [← hfields]
    rfl
  have hhead : slice (fields ++ List.replicate f.payload.length 0) 0 headerSize = fields := by
    rw [slice_zero, ← hsize, List.take_left]
  have hcrc : u32ToBeBytes (computeHeaderCrc crc32c fields) = toBytesBE 4 (Wire.computeHeaderCrc fields) := by
    rw [u32ToBeBytes, computeHeaderCrc_eq hc hsize]
  rw [hhead, hcrc, setSlice_append (by rw [hsize, length_toBytesBE]; decide), ← hfields, setSlice_layout]
  generalize hheader : headerLayout f.opcode.toNat f.flags.toNat _ f.streamId.toNat f.payload.length (Wire.crc32c f.payload) = header
  have hlen : header.length = headerSize := by
    rw [← hheader]
    rfl
  rw [setSlice, ← hlen, List.take_left, List.drop_of_length_le (by rw [List.length_append, List.length_replicate]),
    List.append_nil]

/-- Every frame: the bytes of `Wire.encodeFrame`, or the refusal of a payload that is too long. -/
theorem encode_eq_encodeFrame (hc : IsCastagnoli crc32c) (f : Frame) :
    encode crc32c f = (Wire.encodeFrame f.opcode.toNat f.streamId.toNat f.flags.toNat f.payload).mapError
      (fun _ => .oversizePayload (UInt32.ofNat f.payload.length) (UInt32.ofNat maxPayloadBytes)) := by
  have ho : f.opcode.toNat < 2 ^ 16 := f.opcode.toNat_lt
  have hf : f.flags.toNat < 2 ^ 8 := f.flags.toNat_lt
  have hs : f.streamId.toNat < 2 ^ 32 := f.streamId.toNat_lt
  by_cases hl : f.payload.length > maxPayloadBytes
  · rw [encode, if_pos hl, Wire.encodeFrame, if_pos hl]
    rfl
  · rw [encode_eq hc (Nat.le_of_not_lt hl), Wire.encodeFrame, if_neg hl, if_neg (Nat.not_le.2 ho), if_neg (Nat.not_le.2 hf),
      if_neg (Nat.not_le.2 hs)]
    rfl

/-- The frames the tasks of the mux write are encoded by this codec. -/
theorem encode_eq_mux (hc : IsCastagnoli crc32c) (opcode : UInt16) (streamId : UInt32) (payload : Bytes) :
    encode crc32c ⟨opcode, UInt8.ofNat flagEos, streamId, payload⟩ =
      (Rust.encode opcode streamId payload).mapError FrameError.ofWire := by
  by_cases hl : payload.length > maxPayloadBytes
  · have hlen : UInt32.ofNat (payload.length % 2 ^ 32) = UInt32.ofNat payload.length := by
      apply UInt32.toNat_inj.1
      rw [UInt32.toNat_ofNat', UInt32.toNat_ofNat', Nat.mod_mod]
    rw [encode, if_pos hl, Rust.encode, if_pos hl, Except.mapError, FrameError.ofWire, hlen]
  · rw [encode_eq hc (Nat.le_of_not_lt hl), Rust.encode, if_neg hl]
    rfl

/-! ### `read_frame` -/

/-- What is left once `drain` took the bytes of a frame is the rest that `decode` returned. -/
theorem decode_rest {buf rest : Bytes} {f : Frame} (h : decode crc32c buf = .ok (f, rest)) :
    buf.drop (buf.length - rest.length) = rest ∧ rest.length < buf.length := by
  unfold decode at h
  split at h
  · cases h
  rename_i hle
  have hsize : headerSize = 32 := rfl
  split at h
  · cases h
  · rename_i len _
    unfold takePayload at h
    dsimp only at h
    split at h
    · cases h
    · rename_i hneed
      split at h
      · cases h
      · simp only [Except.ok.injEq, Prod.mk.injEq] at h
        obtain ⟨-, rfl⟩ := h
        rw [List.length_drop]
        exact ⟨congrArg (List.drop · buf) (by omega), by omega⟩

theorem take_fill (buf bytes : Bytes) :
    (setSlice (buf ++ List.replicate readChunk 0) buf.length bytes).take (buf.length + bytes.length) = buf ++ bytes := by
  rw [setSlice, List.take_left, ← List.length_append, List.take_left]

/-- The bytes that the reads deliver until one fails or delivers none. -/
def chunksOf : Reads → List Bytes
  | .ok bytes :: reads => if bytes.length = 0 then [] else bytes :: chunksOf reads
  | _ => []

/-- What `read_frame` ends with when the frame decoder wants more than was delivered. -/
def endOf : Reads → ReadError
  | [] => .closed
  | .error message :: _ => .io message
  | .ok bytes :: reads => if bytes.length = 0 then .closed else endOf reads

theorem chunksOf_nil : chunksOf [] = [] := rfl

theorem chunksOf_error (message : String) (reads : Reads) : chunksOf (.error message :: reads) = [] := rfl

theorem readFrame_frame {buf rest : Bytes} {f : Frame} (h : decode crc32c buf = .ok (f, rest)) (reads : Reads) :
    readFrame crc32c buf reads = (.ok f, rest, reads) := by
  have hrest := (decode_rest h).1
  cases reads <;> simp only [readFrame, h, hrest]

theorem readFrame_bad {buf : Bytes} {e : FrameError} (h : decode crc32c buf = .error e) (he : ∀ n m, e ≠ .truncated n m)
    (reads : Reads) : readFrame crc32c buf reads = (.error (.frame e), buf, reads) := by
  unfold readFrame
  rw [h]
  cases e with
  | truncated n m => exact absurd rfl (he n m)
  | _ => rfl

/-- A read behind an unfinished frame. -/
theorem readFrame_short {buf : Bytes} {n m : Nat} (h : decode crc32c buf = .error (.truncated n m)) (bytes : Bytes) (reads : Reads) :
    readFrame crc32c buf (.ok bytes :: reads) =
      if bytes.length = 0 then (.error .closed, buf ++ bytes, reads) else readFrame crc32c (buf ++ bytes) reads := by
  conv_lhs => rw [readFrame, h]
  simp only [take_fill]

/-- A frame that was read leaves fewer bytes in the buffer and to be delivered. -/
theorem readFrame_lt {buf : Bytes} {reads : Reads} {f : Frame} {buf' : Bytes} {reads' : Reads}
    (h : readFrame crc32c buf reads = (.ok f, buf', reads')) :
    buf'.length + (chunksOf reads').flatten.length < buf.length + (chunksOf reads).flatten.length := by
  induction reads generalizing buf with
  | nil =>
    unfold readFrame at h
    split at h
    · rename_i hd
      simp only [Prod.mk.injEq] at h
      obtain ⟨-, rfl, rfl⟩ := h
      obtain ⟨hdrop, hlt⟩ := decode_rest hd
      rw [hdrop]
      omega
    · cases h
    · cases h
  | cons r reads ih =>
    rcases hd : decode crc32c buf with e | ⟨g, rest⟩
    · by_cases he : ∃ n m, e = .truncated n m
      · obtain ⟨n, m, rfl⟩ := he
        cases r with
        | error message => simp only [readFrame, hd, Prod.mk.injEq, reduceCtorEq, false_and] at h
        | ok bytes =>
          rw [readFrame_short hd] at h
          split at h
          · cases h
          · rename_i hne
            have hlt := ih h
            rw [chunksOf, if_neg hne, List.flatten_cons, List.length_append]
            rw [List.length_append] at hlt
            omega
      · rw [readFrame_bad hd (fun n m hnm => he ⟨n, m, hnm⟩)] at h
        cases h
    · rw [readFrame_frame hd] at h
      cases h
      have hlt := (decode_rest hd).2
      omega

/-- The frames `reader_loop` gets off a socket, and the error that ends it. -/
def readFrames (crc32c : Bytes → UInt32) (buf : Bytes) (reads : Reads) : List Frame × ReadError :=
  match _h : readFrame crc32c buf reads with
  | (.ok frame, buf, reads) =>
    let r := readFrames crc32c buf reads
    (frame :: r.1, r.2)
  | (.error e, _, _) => ([], e)
termination_by buf.length + (chunksOf reads).flatten.length
decreasing_by exact readFrame_lt (by assumption)

end BrainSdk.Rust.Codec
