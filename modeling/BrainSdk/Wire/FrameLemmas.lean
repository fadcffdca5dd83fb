import BrainSdk.Wire.Frame
import Mathlib.Tactic.IntervalCases

/-!
# What the frame codec keeps

Three groups of facts. A verdict of `decode_frame` other than "truncated" does not change when more bytes follow the buffer, and a
frame takes bytes off the front; the readers of all three SDKs rest on this. `decode_frame` reads back what `encode_frame` writes,
whatever follows it, when the flags use the defined bits only. And what `decode_frame` accepts is what `encode_frame` writes.
-/

namespace BrainSdk.Wire

open Library

/-! ## Decoding and later bytes -/

theorem take_append_of_le {n : Nat} {buf t : Bytes} (h : n ≤ buf.length) : (buf ++ t).take n = buf.take n := by
  rw [List.take_append_of_le_length h]

/-- A frame found in a buffer is found, with the same payload, when more bytes follow. -/
theorem takePayload_append {buf : Bytes} {len : Nat} {f : Frame} {rest : Bytes}
    (h : takePayload buf len = .ok (f, rest)) (t : Bytes) :
    takePayload (buf ++ t) len = .ok (f, rest ++ t) ∧ headerSize + len ≤ buf.length ∧
      rest = buf.drop (headerSize + len) := by
  unfold takePayload at h
  by_cases hl : buf.length < headerSize + len
  · simp [hl] at h
  have hle : headerSize + len ≤ buf.length := Nat.le_of_not_lt hl
  have hh : (buf ++ t).take headerSize = buf.take headerSize := take_append_of_le (by omega)
  have hs : slice (buf ++ t) headerSize (headerSize + len) = slice buf headerSize (headerSize + len) := by
    unfold slice
    rw [take_append_of_le hle]
  simp only [hl, if_false] at h
  split at h
  · cases h
  · rename_i hc
    simp only [Except.ok.injEq, Prod.mk.injEq] at h
    obtain ⟨hf, hr⟩ := h
    refine ⟨?_, hle, hr.symm⟩
    unfold takePayload
    have hl' : ¬(buf ++ t).length < headerSize + len := by
      rw [List.length_append]
      omega
    rw [if_neg hl', hh, hs, if_neg hc, ← hf, ← hr, List.drop_append_of_le_length hle]

/-- A payload whose checksum is wrong stays wrong when more bytes follow. -/
theorem takePayload_append_error {buf : Bytes} {len : Nat} {e : FrameError} (h : takePayload buf len = .error e) :
    (∃ n m, e = .truncatedFrame n m) ∨ ∀ t, takePayload (buf ++ t) len = .error e := by
  unfold takePayload at h
  by_cases hl : buf.length < headerSize + len
  · simp only [hl, if_true, Except.error.injEq] at h
    exact Or.inl ⟨_, _, h.symm⟩
  have hle : headerSize + len ≤ buf.length := Nat.le_of_not_lt hl
  simp only [hl, if_false] at h
  split at h
  · rename_i hc
    cases h
    right
    intro t
    have hh : (buf ++ t).take headerSize = buf.take headerSize := take_append_of_le (by omega)
    have hs : slice (buf ++ t) headerSize (headerSize + len) = slice buf headerSize (headerSize + len) := by
      unfold slice
      rw [take_append_of_le hle]
    have hl' : ¬(buf ++ t).length < headerSize + len := by
      rw [List.length_append]
      omega
    unfold takePayload
    rw [if_neg hl', hh, hs, if_pos hc]
  · cases h

/-- `decode_frame` on a buffer that holds a header: the header checks, then the payload. -/
theorem decodeFrame_of_le {buf : Bytes} (h : headerSize ≤ buf.length) :
    decodeFrame buf = (checkHeader (buf.take headerSize)).bind (takePayload buf) := by
  unfold decodeFrame
  rw [if_neg (by omega)]
  cases checkHeader (buf.take headerSize) <;> rfl

theorem le_length_of_decodeFrame_ok {buf : Bytes} {r : Frame × Bytes} (h : decodeFrame buf = .ok r) :
    headerSize ≤ buf.length := by
  by_contra hc
  unfold decodeFrame at h
  rw [if_pos (by omega)] at h
  cases h

/-- A decoded frame stays decoded when more bytes follow, and they are left for the next call. -/
theorem decodeFrame_append_ok {buf rest : Bytes} {f : Frame} (h : decodeFrame buf = .ok (f, rest)) (t : Bytes) :
    decodeFrame (buf ++ t) = .ok (f, rest ++ t) := by
  have hle := le_length_of_decodeFrame_ok h
  have hle' : headerSize ≤ (buf ++ t).length := by rw [List.length_append]; omega
  rw [decodeFrame_of_le hle] at h
  rw [decodeFrame_of_le hle', take_append_of_le hle]
  cases hc : checkHeader (buf.take headerSize) with
  | error e => rw [hc] at h; cases h
  | ok len =>
    rw [hc] at h
    exact (takePayload_append h t).1

/-- A frame takes at least its header off the buffer, and what it leaves is the end of the buffer. -/
theorem decodeFrame_rest {buf rest : Bytes} {f : Frame} (h : decodeFrame buf = .ok (f, rest)) :
    rest.length + headerSize ≤ buf.length ∧ ∃ used, buf = used ++ rest := by
  have hle := le_length_of_decodeFrame_ok h
  rw [decodeFrame_of_le hle] at h
  cases hc : checkHeader (buf.take headerSize) with
  | error e => rw [hc] at h; cases h
  | ok len =>
    rw [hc] at h
    obtain ⟨-, hl, hr⟩ := takePayload_append h []
    refine ⟨?_, buf.take (headerSize + len), ?_⟩
    · rw [hr, List.length_drop]
      omega
    · rw [hr, List.take_append_drop]

/-- A frame is decoded from its own bytes alone. -/
theorem decodeFrame_used {used rest : Bytes} {f : Frame} (h : decodeFrame (used ++ rest) = .ok (f, rest)) :
    decodeFrame used = .ok (f, []) := by
  have hle := le_length_of_decodeFrame_ok h
  rw [decodeFrame_of_le hle] at h
  cases hc : checkHeader ((used ++ rest).take headerSize) with
  | error e => rw [hc] at h; cases h
  | ok len =>
    rw [hc] at h
    have hpay : takePayload (used ++ rest) len = .ok (f, rest) := h
    obtain ⟨-, hl, hr⟩ := takePayload_append hpay []
    have hlen : used.length = headerSize + len := by
      have := congrArg List.length hr
      rw [List.length_drop, List.length_append] at this
      rw [List.length_append] at hl
      omega
    have hhead : (used ++ rest).take headerSize = used.take headerSize := take_append_of_le (by omega)
    rw [decodeFrame_of_le (by omega), ← hhead, hc]
    unfold takePayload at hpay
    rw [if_neg (by omega), hhead] at hpay
    have hslice : slice (used ++ rest) headerSize (headerSize + len) = slice used headerSize (headerSize + len) := by
      unfold slice
      rw [take_append_of_le (by omega)]
    rw [hslice] at hpay
    change takePayload used len = .ok (f, [])
    unfold takePayload
    rw [if_neg (by omega)]
    dsimp only at hpay ⊢
    split at hpay
    · cases hpay
    · rename_i hcrc
      rw [if_neg hcrc, List.drop_eq_nil_of_le (by omega)]
      simp only [Except.ok.injEq, Prod.mk.injEq] at hpay
      rw [hpay.1]

/-- A malformed frame stays malformed, for the same reason, when more bytes follow. -/
theorem decodeFrame_append_error {buf : Bytes} {e : FrameError} (h : decodeFrame buf = .error e) :
    (∃ n m, e = .truncatedFrame n m) ∨ ∀ t, decodeFrame (buf ++ t) = .error e := by
  by_cases hl : buf.length < headerSize
  · unfold decodeFrame at h
    rw [if_pos hl] at h
    cases h
    exact Or.inl ⟨_, _, rfl⟩
  have hle : headerSize ≤ buf.length := Nat.le_of_not_lt hl
  rw [decodeFrame_of_le hle] at h
  have hdec : ∀ t : Bytes, decodeFrame (buf ++ t) = (checkHeader (buf.take headerSize)).bind (takePayload (buf ++ t)) := by
    intro t
    rw [decodeFrame_of_le (by rw [List.length_append]; omega), take_append_of_le hle]
  cases hc : checkHeader (buf.take headerSize) with
  | error e' =>
    rw [hc] at h
    cases h
    right
    intro t
    rw [hdec t, hc]
    rfl
  | ok len =>
    rw [hc] at h
    rcases takePayload_append_error h with ht | ht
    · exact Or.inl ht
    · right
      intro t
      rw [hdec t, hc]
      exact ht t

/-! ## Decoding what was encoded -/

/-- The 32 bytes of a header, field by field in the order of the wire. -/
def headerLayout (opcode flags headerCrc streamId len payloadCrc : Nat) : Bytes :=
  magic ++ [1] ++ toBytesBE 2 opcode ++ [UInt8.ofNat flags] ++ toBytesBE 4 headerCrc ++ toBytesBE 4 streamId ++
    toBytesBE 3 len ++ [0] ++ toBytesBE 4 payloadCrc ++ List.replicate 8 0

theorem headerFields_eq (opcode streamId flags len payloadCrc : Nat) :
    headerFields opcode streamId flags len payloadCrc = headerLayout opcode flags 0 streamId len payloadCrc := rfl

theorem setSlice_layout (opcode flags crc streamId len payloadCrc : Nat) :
    setSlice (headerLayout opcode flags 0 streamId len payloadCrc) offHeaderCrc (toBytesBE 4 crc) =
      headerLayout opcode flags crc streamId len payloadCrc := rfl

theorem encodeHeader_eq (opcode streamId flags len payloadCrc : Nat) :
    encodeHeader opcode streamId flags len payloadCrc =
      headerLayout opcode flags (computeHeaderCrc (headerLayout opcode flags 0 streamId len payloadCrc)) streamId len
        payloadCrc := by
  rw [encodeHeader, headerFields_eq, setSlice_layout]

/-- The header checksum does not cover its own slot. -/
theorem computeHeaderCrc_layout (opcode flags crc streamId len payloadCrc : Nat) :
    computeHeaderCrc (headerLayout opcode flags crc streamId len payloadCrc) =
      computeHeaderCrc (headerLayout opcode flags 0 streamId len payloadCrc) := rfl

/-- Flags that use the defined bits only: EOS, MPL and CMP. -/
def FlagsDefined (flags : Nat) : Prop := flags &&& flagsDefinedMask = flags

theorem FlagsDefined.lt {flags : Nat} (h : FlagsDefined flags) : flags < 2 ^ 8 := by
  have hle : flags &&& flagsDefinedMask ≤ flagsDefinedMask := Nat.and_le_right
  have hm : flagsDefinedMask = 224 := by decide
  rw [FlagsDefined] at h
  omega

/-- Flags that use the defined bits only pass the reserved-bit check of `decode_frame`. -/
theorem FlagsDefined.masked {flags : Nat} (h : FlagsDefined flags) :
    UInt8.ofNat flags &&& ~~~UInt8.ofNat flagsDefinedMask = 0 := by
  have hall : ∀ n < 256, n &&& flagsDefinedMask = n → UInt8.ofNat n &&& ~~~UInt8.ofNat flagsDefinedMask = 0 := by
    decide +kernel
  exact hall flags h.lt h

/-- A header whose checksum slot holds the checksum passes the header checks when its flags are defined and its length fits. -/
theorem checkHeader_layout {opcode flags streamId len payloadCrc : Nat} (hf : FlagsDefined flags)
    (hl : len ≤ maxPayloadBytes) :
    checkHeader (headerLayout opcode flags (computeHeaderCrc (headerLayout opcode flags 0 streamId len payloadCrc)) streamId
      len payloadCrc) = .ok len := by
  generalize hcrc : computeHeaderCrc (headerLayout opcode flags 0 streamId len payloadCrc) = crc
  have hlt : crc < 256 ^ 4 := by
    rw [← hcrc]
    exact crc32c_lt _
  have hmax : maxPayloadBytes < 256 ^ 3 := by decide
  have hlen : fromBytesBE (slice (headerLayout opcode flags crc streamId len payloadCrc) offPayloadLen
      (offPayloadLen + 3)) = len := fromBytesBE_toBytesBE_of_lt (w := 3) (by omega)
  have hstored : fromBytesBE (slice (headerLayout opcode flags crc streamId len payloadCrc) offHeaderCrc
      (offHeaderCrc + 4)) = crc := fromBytesBE_toBytesBE_of_lt (w := 4) hlt
  have hcomp : computeHeaderCrc (headerLayout opcode flags crc streamId len payloadCrc) = crc := by
    rw [computeHeaderCrc_layout, hcrc]
  have hmagic : slice (headerLayout opcode flags crc streamId len payloadCrc) offMagic (offMagic + 4) = magic := rfl
  have hver : (headerLayout opcode flags crc streamId len payloadCrc).getD offVersion 0 = UInt8.ofNat wireVersion := rfl
  have hresA : (headerLayout opcode flags crc streamId len payloadCrc).getD offReservedA 0 = 0 := rfl
  have hresB : slice (headerLayout opcode flags crc streamId len payloadCrc) offReservedB headerSize =
      List.replicate 8 0 := rfl
  have hflags : (headerLayout opcode flags crc streamId len payloadCrc).getD offFlags 0 = UInt8.ofNat flags := rfl
  unfold checkHeader
  simp only [hmagic, hver, hresA, hresB, hflags, hf.masked, hstored, hcomp, hlen, ne_eq, not_true_eq_false, or_self,
    if_false]
  rw [if_neg (Nat.not_lt.2 hl)]

/-- `decode_frame` reads back what `encode_frame` wrote, and leaves whatever follows it. -/
theorem decodeFrame_encodeFrame {opcode streamId flags : Nat} {payload bytes : Bytes}
    (h : encodeFrame opcode streamId flags payload = .ok bytes) (hf : FlagsDefined flags) (t : Bytes) :
    decodeFrame (bytes ++ t) = .ok (⟨opcode, flags, streamId, payload⟩, t) := by
  unfold encodeFrame at h
  split_ifs at h with hl ho hg hs
  cases h
  have hl' : payload.length ≤ maxPayloadBytes := Nat.le_of_not_lt hl
  rw [encodeHeader_eq, List.append_assoc]
  generalize hcrc : computeHeaderCrc (headerLayout opcode flags 0 streamId payload.length (crc32c payload)) = crc
  generalize hhdr : headerLayout opcode flags crc streamId payload.length (crc32c payload) = header
  have hlen : header.length = headerSize := by rw [← hhdr]; rfl
  have htake : (header ++ (payload ++ t)).take headerSize = header := by rw [← hlen, List.take_left]
  have hcheck : checkHeader header = .ok payload.length := by
    rw [← hhdr, ← hcrc]
    exact checkHeader_layout hf hl'
  rw [decodeFrame_of_le (by rw [List.length_append]; omega), htake, hcheck]
  have hpay : slice (header ++ (payload ++ t)) headerSize (headerSize + payload.length) = payload := by
    unfold slice
    rw [← hlen, List.take_length_add_append, List.drop_left, List.take_left]
  have hdrop : (header ++ (payload ++ t)).drop (headerSize + payload.length) = t := by
    rw [← hlen, List.drop_length_add_append, List.drop_left]
  have hop : fromBytesBE (slice header offOpcode (offOpcode + 2)) = opcode := by
    rw [← hhdr]
    exact fromBytesBE_toBytesBE_of_lt (w := 2) (by omega)
  have hsid : fromBytesBE (slice header offStreamId (offStreamId + 4)) = streamId := by
    rw [← hhdr]
    exact fromBytesBE_toBytesBE_of_lt (w := 4) (by omega)
  have hpcrc : fromBytesBE (slice header offPayloadCrc (offPayloadCrc + 4)) = crc32c payload := by
    rw [← hhdr]
    exact fromBytesBE_toBytesBE_of_lt (w := 4) (crc32c_lt payload)
  have hflags : (header.getD offFlags 0).toNat = flags := by
    rw [← hhdr]
    have hb : (UInt8.ofNat flags).toNat = flags % 256 := UInt8.toNat_ofNat'
    have hlt := hf.lt
    exact hb.trans (Nat.mod_eq_of_lt hlt)
  show takePayload _ payload.length = _
  unfold takePayload
  rw [if_neg (by simp only [List.length_append, hlen]; omega), htake]
  simp only [hpay, hpcrc, hdrop, hop, hsid, hflags, ne_eq, not_true_eq_false, if_false]

/-! ## Encoding what was decoded -/

/-- A header, cut into its fields. -/
theorem header_fields_of_length {h : Bytes} (hl : h.length = headerSize) :
    h = slice h offMagic (offMagic + 4) ++ [h.getD offVersion 0] ++ slice h offOpcode (offOpcode + 2) ++ [h.getD offFlags 0] ++
      slice h offHeaderCrc (offHeaderCrc + 4) ++ slice h offStreamId (offStreamId + 4) ++
      slice h offPayloadLen (offPayloadLen + 3) ++ [h.getD offReservedA 0] ++ slice h offPayloadCrc (offPayloadCrc + 4) ++
      slice h offReservedB headerSize := by
  have h32 : h.length = 32 := hl
  have hall : slice h 0 32 = h := by
    unfold slice
    rw [← h32, List.take_length, List.drop_zero]
  have hbyte : ∀ a < 32, [h.getD a 0] = slice h a (a + 1) := fun a ha => (slice_succ (by omega)).symm
  rw [hbyte _ (by decide), hbyte _ (by decide), hbyte _ (by decide)]
  simp only [offMagic, offVersion, offOpcode, offFlags, offHeaderCrc, offStreamId, offPayloadLen, offReservedA, offPayloadCrc,
    offReservedB, headerSize, Nat.reduceAdd]
  rw [slice_append h (by decide) (by decide), slice_append h (by decide) (by decide), slice_append h (by decide) (by decide),
    slice_append h (by decide) (by decide), slice_append h (by decide) (by decide), slice_append h (by decide) (by decide),
    slice_append h (by decide) (by decide), slice_append h (by decide) (by decide), slice_append h (by decide) (by decide), hall]

/-- A field of a header is the big-endian bytes of the number it holds. -/
theorem slice_eq_toBytesBE {h : Bytes} {a w : Nat} (hl : a + w ≤ h.length) :
    slice h a (a + w) = toBytesBE w (fromBytesBE (slice h a (a + w))) := by
  have hlen : (slice h a (a + w)).length = w := by
    rw [slice_length hl]
    omega
  conv_lhs => rw [← toBytesBE_fromBytesBE (slice h a (a + w)), hlen]

/-- Flags that pass the reserved-bit check use the defined bits only. -/
theorem flagsDefined_of_masked {b : UInt8} (h : b &&& ~~~UInt8.ofNat flagsDefinedMask = 0) : FlagsDefined b.toNat := by
  have hall : ∀ n < 256, UInt8.ofNat n &&& ~~~UInt8.ofNat flagsDefinedMask = 0 → n &&& flagsDefinedMask = n := by
    decide +kernel
  have hb : UInt8.ofNat b.toNat = b := UInt8.ofNat_toNat
  exact hall b.toNat b.toNat_lt (by rw [hb]; exact h)

/-- A header that passes the checks is laid out as `encode_frame` lays one out, and its checksum slot holds the checksum. -/
theorem checkHeader_ok {h : Bytes} {len : Nat} (hl : h.length = headerSize) (hc : checkHeader h = .ok len) :
    len ≤ maxPayloadBytes ∧ FlagsDefined (h.getD offFlags 0).toNat ∧
      h = headerLayout (fromBytesBE (slice h offOpcode (offOpcode + 2))) (h.getD offFlags 0).toNat (computeHeaderCrc h)
        (fromBytesBE (slice h offStreamId (offStreamId + 4))) len (fromBytesBE (slice h offPayloadCrc (offPayloadCrc + 4))) := by
  have h32 : h.length = 32 := hl
  unfold checkHeader at hc
  split_ifs at hc with hmagic hver hres hflags hcrc
  dsimp only at hc
  split_ifs at hc with hlen
  cases hc
  push Not at hmagic hver hres hflags hcrc
  refine ⟨Nat.le_of_not_lt hlen, flagsDefined_of_masked hflags, ?_⟩
  have hflag : UInt8.ofNat (h.getD offFlags 0).toNat = h.getD offFlags 0 := UInt8.ofNat_toNat
  rw [headerLayout, ← hcrc, hflag, ← hmagic, ← slice_eq_toBytesBE (by rw [h32]; decide), ← slice_eq_toBytesBE (by rw [h32]; decide),
    ← slice_eq_toBytesBE (by rw [h32]; decide), ← slice_eq_toBytesBE (by rw [h32]; decide),
    ← slice_eq_toBytesBE (by rw [h32]; decide), ← hres.2]
  conv_lhs => rw [header_fields_of_length hl, hver, hres.1]
  rfl

/-- What `decode_frame` accepts is what `encode_frame` writes for the frame it returns, and the bytes it leaves. -/
theorem encodeFrame_decodeFrame {buf rest : Bytes} {f : Frame} (h : decodeFrame buf = .ok (f, rest)) :
    FlagsDefined f.flags ∧ ∃ bytes, encodeFrame f.opcode f.streamId f.flags f.payload = .ok bytes ∧ bytes ++ rest = buf := by
  have hle := le_length_of_decodeFrame_ok h
  rw [decodeFrame_of_le hle] at h
  have hl : (buf.take headerSize).length = headerSize := List.length_take_of_le hle
  generalize hhdr : buf.take headerSize = header at h hl
  rcases hc : checkHeader header with e | len
  · rw [hc] at h
    cases h
  rw [hc] at h
  replace h : takePayload buf len = .ok (f, rest) := h
  obtain ⟨hlen, hflags, hlayout⟩ := checkHeader_ok hl hc
  unfold takePayload at h
  dsimp only at h
  rw [hhdr] at h
  split_ifs at h with hshort hcrc
  push Not at hshort hcrc
  cases h
  have hpay : (slice buf headerSize (headerSize + len)).length = len := by
    rw [slice_length hshort]
    omega
  have h32 : header.length = 32 := hl
  have hop : fromBytesBE (slice header offOpcode (offOpcode + 2)) < 2 ^ 16 := by
    have hlt := fromBytesBE_lt (slice header offOpcode (offOpcode + 2))
    rw [slice_length (by rw [h32]; decide)] at hlt
    exact hlt
  have hsid : fromBytesBE (slice header offStreamId (offStreamId + 4)) < 2 ^ 32 := by
    have hlt := fromBytesBE_lt (slice header offStreamId (offStreamId + 4))
    rw [slice_length (by rw [h32]; decide)] at hlt
    exact hlt
  have hself : computeHeaderCrc header = computeHeaderCrc
      (headerLayout (fromBytesBE (slice header offOpcode (offOpcode + 2))) (header.getD offFlags 0).toNat 0
        (fromBytesBE (slice header offStreamId (offStreamId + 4))) len
        (fromBytesBE (slice header offPayloadCrc (offPayloadCrc + 4)))) := by
    conv_lhs => rw [hlayout, computeHeaderCrc_layout]
  refine ⟨hflags, header ++ slice buf headerSize (headerSize + len), ?_, ?_⟩
  · unfold encodeFrame
    dsimp only
    rw [if_neg (by rw [hpay]; omega), if_neg (Nat.not_le.2 hop), if_neg (Nat.not_le.2 hflags.lt), if_neg (Nat.not_le.2 hsid),
      encodeHeader_eq, hpay, ← hcrc, ← hself, ← hlayout]
  · have hfront : header = slice buf 0 headerSize := by
      rw [← hhdr, slice, List.drop_zero]
    rw [hfront, slice_append buf (Nat.zero_le _) (Nat.le_add_right _ _), slice, List.drop_zero, List.take_append_drop]

end BrainSdk.Wire
