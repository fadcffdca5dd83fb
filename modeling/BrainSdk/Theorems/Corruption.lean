import BrainSdk.Wire.CrcLemmas
import BrainSdk.Wire.FrameLemmas

/-!
# Corrupted frames

What `decode_frame` makes of an encoded frame with a burst of errors in its payload, or with one bit of its header flipped. Neither is
ever taken for a frame that has not arrived in full.
-/

namespace BrainSdk.Wire

open Library Crc

/-- Byte strings of one length that differ by a nonzero pattern within 32 consecutive bits. -/
structure Burst (bs bs' : Bytes) : Prop where
  length : bs'.length = bs.length
  pattern : ∃ e k, e ≠ 0 ∧ e < 2 ^ 32 ∧ messageBits bs ^^^ messageBits bs' = e <<< k

/-- A byte string with bit `j` flipped. -/
def flipBit (bs : Bytes) (j : Nat) : Bytes := bs.set (j / 8) (bs.getD (j / 8) 0 ^^^ UInt8.ofNat (2 ^ (j % 8)))

/-- What the checks of a header before that of its length refuse it with. -/
inductive HeaderError : FrameError → Prop
  | badMagic : HeaderError .badMagic
  | badVersion (got : Nat) : HeaderError (.badVersion got)
  | reservedNonZero (message : String) : HeaderError (.reservedNonZero message)
  | badHeaderCrc : HeaderError .badHeaderCrc

/-- The bytes under the checksum of a header. -/
def covered (header : Bytes) : Bytes := header.take offHeaderCrc ++ slice header offStreamId headerSize

/-- The bytes of the checksum of a header. -/
def stored (header : Bytes) : Bytes := slice header offHeaderCrc (offHeaderCrc + 4)

/-! ### The payload -/

/-- The header of an encoded frame, as `decode_frame` checks it. -/
theorem checkHeader_encodeHeader (opcode streamId payloadCrc : Nat) {flags len : Nat} (hflags : flags < 2 ^ 8)
    (hl : len ≤ maxPayloadBytes) :
    (FlagsDefined flags → checkHeader (encodeHeader opcode streamId flags len payloadCrc) = .ok len) ∧
    (¬FlagsDefined flags → checkHeader (encodeHeader opcode streamId flags len payloadCrc) =
      .error (.reservedNonZero "reserved flag bit was non-zero")) := by
  rw [encodeHeader_eq]
  refine ⟨fun hf => checkHeader_layout hf hl, fun hf => ?_⟩
  have hall : ∀ n < 256, ¬n &&& flagsDefinedMask = n → UInt8.ofNat n &&& ~~~UInt8.ofNat flagsDefinedMask ≠ 0 := by decide +kernel
  have hmasked := hall flags hflags hf
  generalize computeHeaderCrc (headerLayout opcode flags 0 streamId len payloadCrc) = crc
  have hmagic : slice (headerLayout opcode flags crc streamId len payloadCrc) offMagic (offMagic + 4) = magic := rfl
  have hver : (headerLayout opcode flags crc streamId len payloadCrc).getD offVersion 0 = UInt8.ofNat wireVersion := rfl
  have hresA : (headerLayout opcode flags crc streamId len payloadCrc).getD offReservedA 0 = 0 := rfl
  have hresB : slice (headerLayout opcode flags crc streamId len payloadCrc) offReservedB headerSize = List.replicate 8 0 := rfl
  have hbyte : (headerLayout opcode flags crc streamId len payloadCrc).getD offFlags 0 = UInt8.ofNat flags := rfl
  unfold checkHeader
  rw [hmagic, hver, hresA, hresB, hbyte]
  simp [hmasked]

/-- The checksums in the header of an encoded frame. -/
theorem encodeHeader_checksums (opcode streamId flags len : Nat) {payloadCrc : Nat} (hcrc : payloadCrc < 256 ^ 4) :
    (encodeHeader opcode streamId flags len payloadCrc).length = headerSize ∧
    fromBytesBE (slice (encodeHeader opcode streamId flags len payloadCrc) offPayloadCrc (offPayloadCrc + 4)) = payloadCrc ∧
    fromBytesBE (stored (encodeHeader opcode streamId flags len payloadCrc)) =
      crc32c (covered (encodeHeader opcode streamId flags len payloadCrc)) := by
  rw [encodeHeader_eq]
  generalize hheader : computeHeaderCrc (headerLayout opcode flags 0 streamId len payloadCrc) = crc
  have hlt : crc < 256 ^ 4 := by
    rw [← hheader]
    exact crc32c_lt _
  have hstored : fromBytesBE (stored (headerLayout opcode flags crc streamId len payloadCrc)) = crc :=
    fromBytesBE_toBytesBE_of_lt (w := 4) hlt
  refine ⟨rfl, fromBytesBE_toBytesBE_of_lt (w := 4) hcrc, ?_⟩
  rw [hstored, ← hheader]
  exact (computeHeaderCrc_layout opcode flags crc streamId len payloadCrc).symm

/-- A burst in a payload is not among the bytes before it or after it. -/
theorem takePayload_burst {header payload payload' : Bytes} (hlen : header.length = headerSize) (hburst : Burst payload payload')
    (hcrc : fromBytesBE (slice header offPayloadCrc (offPayloadCrc + 4)) = crc32c payload) (t : Bytes) :
    takePayload (header ++ payload' ++ t) payload.length = .error .badPayloadCrc := by
  obtain ⟨hlength, e, k, he, hlt, hdiff⟩ := hburst
  have htake : (header ++ payload' ++ t).take headerSize = header := by rw [← hlen, List.append_assoc, List.take_left]
  have hpayload : slice (header ++ payload' ++ t) headerSize (headerSize + payload.length) = payload' := by
    unfold slice
    rw [← hlen, ← hlength, List.append_assoc, List.take_length_add_append, List.drop_left, List.take_left]
  have hne := crc32c_ne_of_burst hlength he hlt hdiff
  unfold takePayload
  dsimp only
  rw [if_neg (by simp only [List.length_append, hlen, hlength]; omega), htake, hpayload, hcrc, if_pos hne.symm]

/-! ### The header -/

theorem slice_set_of_lt {bs : Bytes} {i a b : Nat} (v : UInt8) (h : i < a) : slice (bs.set i v) a b = slice bs a b := by
  unfold slice
  rw [List.take_set, List.drop_set, if_pos h]

theorem slice_set_of_ge {bs : Bytes} {i a b : Nat} (v : UInt8) (h : b ≤ i) : slice (bs.set i v) a b = slice bs a b := by
  unfold slice
  rw [List.take_set, List.set_eq_of_length_le]
  exact (List.length_take_le b bs).trans h

theorem slice_set {bs : Bytes} {i a b : Nat} (v : UInt8) (h : a ≤ i) : slice (bs.set i v) a b = (slice bs a b).set (i - a) v := by
  unfold slice
  rw [List.take_set, List.drop_set, if_neg (Nat.not_lt.2 h)]

theorem slice_getD {bs : Bytes} {i a b : Nat} (ha : a ≤ i) (hb : i < b) : (slice bs a b).getD (i - a) 0 = bs.getD i 0 := by
  unfold slice
  rw [List.getD_eq_getElem?_getD, List.getD_eq_getElem?_getD, List.getElem?_drop, Nat.add_sub_cancel' ha, List.getElem?_take, if_pos hb]

/-- A byte that is not under the checksum is part of it. -/
theorem set_header {header : Bytes} (hlen : header.length = headerSize) {i : Nat} (hi : i < headerSize) (v : UInt8) :
    (∃ p, p < (covered header).length ∧ (covered header).getD p 0 = header.getD i 0 ∧ covered (header.set i v) = (covered header).set p v ∧
      stored (header.set i v) = stored header) ∨
    (∃ p, p < (stored header).length ∧ (stored header).getD p 0 = header.getD i 0 ∧ stored (header.set i v) = (stored header).set p v ∧
      covered (header.set i v) = covered header) := by
  have hsize : headerSize = 32 := rfl
  have hcrc : offHeaderCrc = 8 := rfl
  have hstream : offStreamId = 12 := rfl
  have htake : (header.take offHeaderCrc).length = 8 := List.length_take_of_le (by omega)
  have hslice : (slice header offStreamId headerSize).length = 20 := slice_length (by omega)
  have hstored : (stored header).length = 4 := slice_length (by omega)
  have hcovered : (covered header).length = 28 := by
    unfold covered
    rw [List.length_append, htake, hslice]
  rcases Nat.lt_or_ge i 8 with hlow | hge
  · refine .inl ⟨i, by omega, ?_, ?_, slice_set_of_lt v (by omega)⟩
    · unfold covered
      rw [List.getD_append _ _ _ _ (by omega), List.getD_eq_getElem?_getD, List.getElem?_take, if_pos (by omega),
        ← List.getD_eq_getElem?_getD]
    · unfold covered
      rw [List.take_set, slice_set_of_lt v (by omega), List.set_append_left _ _ (by omega)]
  · rcases Nat.lt_or_ge i 12 with hmid | hhigh
    · refine .inr ⟨i - offHeaderCrc, by omega, slice_getD (by omega) (by omega), slice_set v (by omega), ?_⟩
      unfold covered
      rw [slice_set_of_lt v (by omega), List.take_set, List.set_eq_of_length_le (by omega)]
    · refine .inl ⟨i - 4, by omega, ?_, ?_, slice_set_of_ge v (by omega)⟩
      · have hp : i - 4 - (header.take offHeaderCrc).length = i - offStreamId := by omega
        unfold covered
        rw [List.getD_append_right _ _ _ _ (by omega), hp, slice_getD (by omega) hi]
      · have hp : i - 4 - (header.take offHeaderCrc).length = i - offStreamId := by omega
        unfold covered
        rw [List.take_set, List.set_eq_of_length_le (by omega), slice_set v (by omega), List.set_append_right _ _ (by omega), hp]

/-- A bit that is flipped in a byte. -/
theorem flip_toNat (a : UInt8) {k : Nat} (hk : k < 8) : a.toNat ^^^ (a ^^^ UInt8.ofNat (2 ^ k)).toNat = 2 ^ k := by
  have hpow : (2 : Nat) ^ k < 256 := Nat.pow_lt_pow_right (by decide) hk
  have hbit : (UInt8.ofNat (2 ^ k)).toNat = 2 ^ k := by
    rw [UInt8.toNat_ofNat']
    exact Nat.mod_eq_of_lt hpow
  rw [UInt8.toNat_xor, hbit, ← Nat.xor_assoc, Nat.xor_self, Nat.zero_xor]

/-- A header whose checksum was right has a wrong one after a bit of it is flipped. -/
theorem stored_ne_of_flip {header : Bytes} (hlen : header.length = headerSize) {j : Nat} (hj : j < 8 * headerSize)
    (hcrc : fromBytesBE (stored header) = crc32c (covered header)) :
    fromBytesBE (stored (flipBit header j)) ≠ crc32c (covered (flipBit header j)) := by
  have hbit : j % 8 < 8 := Nat.mod_lt j (by decide)
  have hbyte : j / 8 < headerSize := Nat.div_lt_of_lt_mul hj
  have hpow : (2 : Nat) ^ (j % 8) ≠ 0 := Nat.ne_of_gt (Nat.two_pow_pos _)
  unfold flipBit
  rcases set_header hlen hbyte (header.getD (j / 8) 0 ^^^ UInt8.ofNat (2 ^ (j % 8))) with ⟨p, hp, hget, hset, hsame⟩ | ⟨p, hp, hget, hset, hsame⟩
  · have hdiff : messageBits (covered header) ^^^
        messageBits ((covered header).set p (header.getD (j / 8) 0 ^^^ UInt8.ofNat (2 ^ (j % 8)))) = 2 ^ (j % 8) <<< (8 * p) := by
      rw [messageBits_set hp, hget, flip_toNat _ hbit, ← Nat.xor_assoc, Nat.xor_self, Nat.zero_xor]
    have hlt : (2 : Nat) ^ (j % 8) < 2 ^ 32 := Nat.pow_lt_pow_right (by decide) (by omega)
    rw [hset, hsame, hcrc]
    exact (crc32c_ne_of_burst (List.length_set ..) hpow hlt hdiff).symm
  · rw [hset, hsame, ← hcrc]
    intro h
    -- the bytes of the checksum are the number that they spell
    have hbytes := congrArg (toBytesBE (stored header).length) h
    have hlength : ((stored header).set p (header.getD (j / 8) 0 ^^^ UInt8.ofNat (2 ^ (j % 8)))).length = (stored header).length :=
      List.length_set ..
    rw [toBytesBE_fromBytesBE, ← hlength, toBytesBE_fromBytesBE] at hbytes
    have hchange := congrArg messageBits hbytes
    rw [messageBits_set hp, hget, flip_toNat _ hbit] at hchange
    have hzero : messageBits (stored header) ^^^ (messageBits (stored header) ^^^ 2 ^ (j % 8) <<< (8 * p)) =
        messageBits (stored header) ^^^ messageBits (stored header) := by rw [hchange]
    rw [← Nat.xor_assoc, Nat.xor_self, Nat.zero_xor, Nat.shiftLeft_eq] at hzero
    exact absurd hzero (Nat.mul_ne_zero hpow (Nat.ne_of_gt (Nat.two_pow_pos _)))

/-- A header with a wrong checksum is refused by it, or by a check before it. -/
theorem checkHeader_wrong {header : Bytes} (h : fromBytesBE (stored header) ≠ crc32c (covered header)) :
    ∃ e, checkHeader header = .error e ∧ HeaderError e := by
  unfold checkHeader
  split
  · exact ⟨_, rfl, .badMagic⟩
  split
  · exact ⟨_, rfl, .badVersion _⟩
  split
  · exact ⟨_, rfl, .reservedNonZero _⟩
  split
  · exact ⟨_, rfl, .reservedNonZero _⟩
  exact ⟨_, if_pos h, .badHeaderCrc⟩

/-- For every encoded frame and whatever follows it in the buffer: a burst of up to 32 bits in its payload is reported as a bad checksum of
the payload, or as the reserved flag bit that the frame was encoded with, and a flipped bit of its header by one of the checks of the
header. -/
theorem corruption_detected {opcode streamId flags : Nat} {payload bytes : Bytes}
    (h : encodeFrame opcode streamId flags payload = .ok bytes) (t : Bytes) :
    (∀ payload', Burst payload payload' →
      (FlagsDefined flags → decodeFrame (bytes.take headerSize ++ payload' ++ t) = .error .badPayloadCrc) ∧
      (¬FlagsDefined flags → decodeFrame (bytes.take headerSize ++ payload' ++ t) =
        .error (.reservedNonZero "reserved flag bit was non-zero"))) ∧
    ∀ j < 8 * headerSize, ∃ e, decodeFrame (flipBit bytes j ++ t) = .error e ∧ HeaderError e := by
  unfold encodeFrame at h
  split_ifs at h with hl ho hg hs
  cases h
  obtain ⟨hlen, hpayloadCrc, hheaderCrc⟩ := encodeHeader_checksums opcode streamId flags payload.length (crc32c_lt payload)
  have hcheck := checkHeader_encodeHeader opcode streamId (crc32c payload) (Nat.not_le.1 hg) (Nat.not_lt.1 hl)
  generalize encodeHeader opcode streamId flags payload.length (crc32c payload) = header at hlen hpayloadCrc hheaderCrc hcheck
  refine ⟨fun payload' hburst => ?_, fun j hj => ?_⟩
  · have htake : (header ++ payload).take headerSize = header := by rw [← hlen, List.take_left]
    have htake' : (header ++ payload' ++ t).take headerSize = header := by rw [← hlen, List.append_assoc, List.take_left]
    have hle : headerSize ≤ (header ++ payload' ++ t).length := by
      rw [List.append_assoc, List.length_append, hlen]
      exact Nat.le_add_right _ _
    rw [htake, decodeFrame_of_le hle, htake']
    constructor
    · intro hf
      rw [hcheck.1 hf]
      exact takePayload_burst hlen hburst hpayloadCrc t
    · intro hf
      rw [hcheck.2 hf]
      rfl
  · have hbyte : j / 8 < header.length := by
      rw [hlen]
      exact Nat.div_lt_of_lt_mul hj
    have hflip : flipBit (header ++ payload) j = flipBit header j ++ payload := by
      unfold flipBit
      rw [List.getD_append _ _ _ _ hbyte, List.set_append_left _ _ hbyte]
    have hfliplen : (flipBit header j).length = headerSize := (List.length_set ..).trans hlen
    have htake : (flipBit header j ++ payload ++ t).take headerSize = flipBit header j := by
      rw [← hfliplen, List.append_assoc, List.take_left]
    have hle : headerSize ≤ (flipBit header j ++ payload ++ t).length := by
      rw [List.append_assoc, List.length_append, hfliplen]
      exact Nat.le_add_right _ _
    obtain ⟨e, he, herror⟩ := checkHeader_wrong (stored_ne_of_flip hlen hj hheaderCrc)
    rw [hflip, decodeFrame_of_le hle, htake, he]
    exact ⟨e, rfl, herror⟩

/-- A burst in a payload of two bytes, and a flipped bit of the stream id. -/
theorem corruption_detected_pong :
    ∃ bytes, encodeFrame opPong 7 flagEos [0xA0, 0x00] = .ok bytes ∧
      decodeFrame (bytes.take headerSize ++ [0x5F, 0x80] ++ []) = .error .badPayloadCrc ∧
      ∃ e, decodeFrame (flipBit bytes 100 ++ []) = .error e ∧ HeaderError e := by
  have hburst : Burst [0xA0, 0x00] [0x5F, 0x80] := ⟨rfl, 0x80FF, 0, by decide, by decide, by decide⟩
  have hframe : ∃ bytes, encodeFrame opPong 7 flagEos [0xA0, 0x00] = .ok bytes := ⟨_, rfl⟩
  obtain ⟨bytes, hbytes⟩ := hframe
  obtain ⟨hpayload, hheader⟩ := corruption_detected hbytes []
  exact ⟨bytes, hbytes, (hpayload [0x5F, 0x80] hburst).1 rfl, hheader 100 (by decide)⟩

/-- A frame encoded with an undefined flag bit is refused for it, whatever its payload. -/
theorem corruption_of_reserved_flag :
    ∃ bytes, encodeFrame opPong 7 1 [0xA0] = .ok bytes ∧ Burst [0xA0] [0xA1] ∧
      decodeFrame (bytes.take headerSize ++ [0xA1] ++ []) = .error (.reservedNonZero "reserved flag bit was non-zero") := by
  have hburst : Burst [0xA0] [0xA1] := ⟨rfl, 1, 0, by decide, by decide, by decide⟩
  exact ⟨_, rfl, hburst, rfl⟩

end BrainSdk.Wire
