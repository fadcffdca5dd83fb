import BrainSdk.TypeScript.Frame
import BrainSdk.Wire.FrameLemmas

/-!
# The TypeScript frame codec against the Python one

The bit operators of JavaScript work on 32 bits, so each is read through `toInt32`, which the operators commute with; a number below
`2 ^ 32` is read back off its 32 bits by `>>>`. With that the checksums, the fields and the checks of the two codecs are compared one
by one.
-/

namespace BrainSdk.TypeScript

open Library Wire

/-! ### The operators on 32 bits -/

@[simp] theorem toInt32_natCast (n : Nat) : toInt32 (n : Int) = BitVec.ofNat 32 n := BitVec.ofInt_natCast 32 n

@[simp] theorem toInt32_bitAnd (x y : Int) : toInt32 (bitAnd x y) = toInt32 x &&& toInt32 y := BitVec.ofInt_toInt

@[simp] theorem toInt32_bitOr (x y : Int) : toInt32 (bitOr x y) = toInt32 x ||| toInt32 y := BitVec.ofInt_toInt

@[simp] theorem toInt32_bitXor (x y : Int) : toInt32 (bitXor x y) = toInt32 x ^^^ toInt32 y := BitVec.ofInt_toInt

@[simp] theorem toInt32_shiftLeft (x : Int) (k : Nat) : toInt32 (shiftLeft x k) = toInt32 x <<< k := BitVec.ofInt_toInt

@[simp] theorem toInt32_shiftRightUnsigned (x : Int) (k : Nat) : toInt32 (shiftRightUnsigned x k) = toInt32 x >>> k := by
  rw [shiftRightUnsigned, toInt32_natCast, BitVec.ofNat_toNat, BitVec.setWidth_eq]

/-- A number whose 32 bits are those of `n` is `n` after `>>> 0`. -/
theorem shiftRightUnsigned_zero {x : Int} {n : Nat} (h : toInt32 x = BitVec.ofNat 32 n) (hn : n < 2 ^ 32) :
    shiftRightUnsigned x 0 = n := by
  rw [shiftRightUnsigned, h, BitVec.ushiftRight_zero, BitVec.toNat_ofNat, Nat.mod_eq_of_lt hn]

/-- The low byte of a number. -/
theorem bitAnd_255 {x : Int} {n : Nat} (h : toInt32 x = BitVec.ofNat 32 n) : bitAnd x 0xFF = (n % 256 : Nat) := by
  have hmask : toInt32 0xFF = BitVec.ofNat 32 255 := rfl
  have hand : (BitVec.ofNat 32 n &&& BitVec.ofNat 32 255).toNat = n % 256 := by
    rw [BitVec.toNat_and, BitVec.toNat_ofNat, BitVec.toNat_ofNat]
    rw [show (255 : Nat) % 2 ^ 32 = 2 ^ 8 - 1 from rfl, Nat.and_two_pow_sub_one_eq_mod]
    omega
  rw [bitAnd, h, hmask, BitVec.toInt_eq_toNat_of_lt (by rw [hand]; omega), hand]

theorem toUint8_natCast (n : Nat) : toUint8 (n : Int) = UInt8.ofNat n := by
  apply UInt8.toNat_inj.1
  rw [toUint8, UInt8.toNat_ofNat', UInt8.toNat_ofNat']
  omega

/-- A byte of a number, as the encoder writes it. -/
theorem toUint8_bitAnd {x : Int} {n : Nat} (h : toInt32 x = BitVec.ofNat 32 n) : toUint8 (bitAnd x 0xFF) = UInt8.ofNat n := by
  rw [bitAnd_255 h, toUint8_natCast]
  apply UInt8.toNat_inj.1
  rw [UInt8.toNat_ofNat', UInt8.toNat_ofNat', Nat.mod_mod]

theorem toInt32_shiftRight {n k : Nat} (hn : n < 2 ^ 32) :
    toInt32 (shiftRightUnsigned (n : Int) k) = BitVec.ofNat 32 (n / 2 ^ k) := by
  have hle : n / 2 ^ k ≤ n := Nat.div_le_self n _
  apply BitVec.eq_of_toNat_eq
  rw [toInt32_shiftRightUnsigned, toInt32_natCast, BitVec.toNat_ushiftRight, BitVec.toNat_ofNat, BitVec.toNat_ofNat,
    Nat.mod_eq_of_lt hn, Nat.mod_eq_of_lt (by omega), Nat.shiftRight_eq_div_pow]

/-! ### The checksum -/

theorem crcTable_eq : crcTable = Wire.crcTable.map Int.ofNat := by decide +kernel

/-- One turn of the checksum loop keeps the 32 bits equal. -/
theorem crcByte_bits {x : Int} {n : Nat} (h : toInt32 x = BitVec.ofNat 32 n) (hn : n < 2 ^ 32) (b : UInt8) :
    toInt32 (crcByte x b) = BitVec.ofNat 32 (Wire.crcByte n b) := by
  have hxor : toInt32 (bitXor x b.toNat) = BitVec.ofNat 32 (n ^^^ b.toNat) := by
    rw [toInt32_bitXor, h, toInt32_natCast, BitVec.ofNat_xor]
  have hindex : (bitAnd (bitXor x b.toNat) 0xFF).toNat = (n ^^^ b.toNat) &&& 0xFF := by
    rw [bitAnd_255 hxor, Int.toNat_natCast, show (0xFF : Nat) = 2 ^ 8 - 1 from rfl, Nat.and_two_pow_sub_one_eq_mod]
  have hentry : ∀ i, crcTable.getD i 0 = (Wire.crcTable.getD i 0 : Nat) := by
    intro i
    rw [crcTable_eq, List.getD_eq_getElem?_getD, List.getD_eq_getElem?_getD, List.getElem?_map]
    rcases Wire.crcTable[i]? with - | v <;> rfl
  rw [crcByte, hindex, toInt32_bitXor, hentry, toInt32_natCast, toInt32_shiftRightUnsigned, h, Wire.crcByte, BitVec.ofNat_xor,
    BitVec.xor_comm]
  congr 1
  apply BitVec.eq_of_toNat_eq
  have hle : n >>> 8 ≤ n := Nat.shiftRight_le n 8
  rw [BitVec.toNat_ushiftRight, BitVec.toNat_ofNat, BitVec.toNat_ofNat, Nat.mod_eq_of_lt hn, Nat.mod_eq_of_lt (by omega)]

theorem foldl_crcByte_bits (data : Bytes) {x : Int} {n : Nat} (h : toInt32 x = BitVec.ofNat 32 n) (hn : n < 2 ^ 32) :
    toInt32 (data.foldl crcByte x) = BitVec.ofNat 32 (data.foldl Wire.crcByte n) := by
  induction data generalizing x n with
  | nil => exact h
  | cons b data ih => exact ih (crcByte_bits h hn b) (crcByte_lt hn b)

/-- The two checksums agree. -/
theorem crc32c_eq (data : Bytes) : crc32c data = (Wire.crc32c data : Nat) := by
  have hinit : toInt32 0xFFFFFFFF = BitVec.ofNat 32 0xFFFFFFFF := rfl
  refine shiftRightUnsigned_zero ?_ (crc32c_lt data)
  rw [toInt32_bitXor, foldl_crcByte_bits data hinit (by decide), hinit, Wire.crc32c, BitVec.ofNat_xor]

theorem computeHeaderCrc_eq (header : Bytes) : computeHeaderCrc header = (Wire.computeHeaderCrc header : Nat) :=
  crc32c_eq _

/-! ### The fields -/

/-- `writeU32Be` writes the four big-endian bytes. -/
theorem u32Be_eq {n : Nat} (hn : n < 2 ^ 32) : u32Be n = toBytesBE 4 n := by
  rw [u32Be, toUint8_bitAnd (toInt32_shiftRight hn), toUint8_bitAnd (toInt32_shiftRight hn), toUint8_bitAnd (toInt32_shiftRight hn),
    toUint8_bitAnd (toInt32_natCast n)]
  simp only [toBytesBE, List.nil_append, List.cons_append, Nat.div_div_eq_div_mul, Nat.reduceMul, Nat.reducePow]

theorem toInt32_shiftLeft_byte (b : UInt8) (k : Nat) :
    toInt32 (shiftLeft (b.toNat : Int) k) = BitVec.ofNat 32 (b.toNat * 2 ^ k) := by
  apply BitVec.eq_of_toNat_eq
  rw [toInt32_shiftLeft, toInt32_natCast, BitVec.toNat_shiftLeft, BitVec.toNat_ofNat, BitVec.toNat_ofNat, Nat.shiftLeft_eq,
    Nat.mod_mul_mod]

/-- One more byte put under a number with `|`. -/
theorem toInt32_bitOr_byte {x y : Int} {n k : Nat} {b : UInt8} (hx : toInt32 x = BitVec.ofNat 32 (n * 2 ^ (k + 8)))
    (hy : toInt32 y = BitVec.ofNat 32 (b.toNat * 2 ^ k)) :
    toInt32 (bitOr x y) = BitVec.ofNat 32 ((n * 256 + b.toNat) * 2 ^ k) := by
  have hb : b.toNat * 2 ^ k < 2 ^ (k + 8) := by
    rw [pow_add, Nat.mul_comm (2 ^ k)]
    exact Nat.mul_lt_mul_of_pos_right b.toNat_lt (Nat.two_pow_pos k)
  have hsum : n * 2 ^ (k + 8) ||| b.toNat * 2 ^ k = (n * 256 + b.toNat) * 2 ^ k := by
    rw [← Nat.shiftLeft_eq n, ← Nat.shiftLeft_add_eq_or_of_lt hb, Nat.shiftLeft_eq, pow_add]
    ring
  rw [toInt32_bitOr, hx, hy, ← BitVec.ofNat_or, hsum]

theorem toInt32_byte (b : UInt8) : toInt32 (b.toNat : Int) = BitVec.ofNat 32 (b.toNat * 2 ^ 0) := by
  rw [toInt32_natCast, pow_zero, Nat.mul_one]

/-- `readU32Be` reads four big-endian bytes. -/
theorem readU32Be_eq {buf : Bytes} {i : Nat} (h : i + 4 ≤ buf.length) :
    readU32Be buf i = (fromBytesBE (slice buf i (i + 4)) : Nat) := by
  have hlt := fromBytesBE_lt (slice buf i (i + 4))
  rw [slice_length h, Nat.add_sub_cancel_left] at hlt
  refine shiftRightUnsigned_zero ?_ hlt
  have hbits := toInt32_bitOr_byte (toInt32_bitOr_byte (toInt32_bitOr_byte (n := (buf.getD i 0).toNat)
    (toInt32_shiftLeft_byte (buf.getD i 0) 24) (toInt32_shiftLeft_byte (buf.getD (i + 1) 0) 16))
    (toInt32_shiftLeft_byte (buf.getD (i + 2) 0) 8)) (toInt32_byte (buf.getD (i + 3) 0))
  refine hbits.trans ?_
  rw [fromBytesBE_slice_succ (by omega) (by omega), fromBytesBE_slice_succ (by omega) (by omega),
    fromBytesBE_slice_succ (by omega) (by omega), fromBytesBE_slice_succ (by omega) (by omega), slice_self, pow_zero, Nat.mul_one]
  simp [fromBytesBE]

/-- A small number is read back off the result of `|`. -/
theorem bitOr_eq {x y : Int} {n : Nat} (h : toInt32 (bitOr x y) = BitVec.ofNat 32 n) (hn : n < 2 ^ 31) : bitOr x y = n := by
  rw [toInt32_bitOr] at h
  have hnat : (BitVec.ofNat 32 n).toNat = n := by
    rw [BitVec.toNat_ofNat]
    omega
  rw [bitOr, h, BitVec.toInt_eq_toNat_of_lt (by rw [hnat]; omega), hnat]

/-- The payload length, off its three bytes. -/
theorem payloadLen_eq {header : Bytes} (h : header.length = headerSize) :
    bitOr (bitOr (shiftLeft (byteAt header offPayloadLen) 16) (shiftLeft (byteAt header (offPayloadLen + 1)) 8))
      (byteAt header (offPayloadLen + 2)) = (fromBytesBE (slice header offPayloadLen (offPayloadLen + 3)) : Nat) := by
  have h32 : header.length = 32 := h
  have hoff : offPayloadLen = 16 := rfl
  have hlt := fromBytesBE_lt (slice header offPayloadLen (offPayloadLen + 3))
  rw [slice_length (by omega), Nat.add_sub_cancel_left] at hlt
  refine bitOr_eq ?_ (by omega)
  have hbits := toInt32_bitOr_byte (toInt32_bitOr_byte (n := (header.getD offPayloadLen 0).toNat)
    (toInt32_shiftLeft_byte (header.getD offPayloadLen 0) 16) (toInt32_shiftLeft_byte (header.getD (offPayloadLen + 1) 0) 8))
    (toInt32_byte (header.getD (offPayloadLen + 2) 0))
  refine hbits.trans ?_
  rw [fromBytesBE_slice_succ (by omega) (by omega), fromBytesBE_slice_succ (by omega) (by omega),
    fromBytesBE_slice_succ (by omega) (by omega), slice_self, pow_zero, Nat.mul_one]
  simp [fromBytesBE]

/-- The opcode, off its two bytes. -/
theorem opcode_eq {header : Bytes} (h : header.length = headerSize) :
    shiftRightUnsigned (bitOr (shiftLeft (byteAt header offOpcode) 8) (byteAt header (offOpcode + 1))) 0 =
      (fromBytesBE (slice header offOpcode (offOpcode + 2)) : Nat) := by
  have h32 : header.length = 32 := h
  have hoff : offOpcode = 5 := rfl
  have hlt := fromBytesBE_lt (slice header offOpcode (offOpcode + 2))
  rw [slice_length (by omega), Nat.add_sub_cancel_left] at hlt
  refine shiftRightUnsigned_zero ?_ (by omega)
  have hbits := toInt32_bitOr_byte (n := (header.getD offOpcode 0).toNat) (toInt32_shiftLeft_byte (header.getD offOpcode 0) 8)
    (toInt32_byte (header.getD (offOpcode + 1) 0))
  refine hbits.trans ?_
  rw [fromBytesBE_slice_succ (by omega) (by omega), fromBytesBE_slice_succ (by omega) (by omega), slice_self, pow_zero, Nat.mul_one]
  simp [fromBytesBE]

/-- The reserved-bit check. -/
theorem maskedFlags_eq_zero (b : UInt8) :
    bitAnd (b.toNat : Int) (bitNot flagsDefinedMask) = 0 ↔ b &&& ~~~UInt8.ofNat flagsDefinedMask = 0 := by
  have hall : ∀ n : Nat, n < 256 → (bitAnd (n : Int) (bitNot flagsDefinedMask) = 0 ↔
      UInt8.ofNat n &&& ~~~UInt8.ofNat flagsDefinedMask = 0) := by decide +kernel
  have hb := hall b.toNat b.toNat_lt
  rw [UInt8.ofNat_toNat] at hb
  exact hb

/-! ### The codecs -/

/-- The kind a Python `FrameError` class has in TypeScript. -/
def kindOf : Wire.FrameError → FrameErrorKind
  | .badMagic => .badMagic
  | .badVersion _ => .badVersion
  | .badHeaderCrc => .badHeaderCrc
  | .badPayloadCrc => .badPayloadCrc
  | .oversizePayload _ => .oversizePayload
  | .reservedNonZero _ => .reservedNonZero
  | .truncatedFrame _ _ => .truncated

/-- The header checks find the same length or fail with the same kind. -/
theorem checkHeader_eq {header : Bytes} (h : header.length = headerSize) :
    (checkHeader header).mapError FrameError.kind = ((Wire.checkHeader header).mapError kindOf).map (fun n => (n : Int)) := by
  have h32 : header.length = 32 := h
  have hver : byteAt header offVersion = (wireVersion : Int) ↔ header.getD offVersion 0 = UInt8.ofNat wireVersion := by
    rw [byteAt, ← UInt8.toNat_inj]
    exact Int.ofNat_inj
  have hresA : byteAt header offReservedA = 0 ↔ header.getD offReservedA 0 = 0 := by
    rw [byteAt, ← UInt8.toNat_inj]
    exact Int.ofNat_inj
  have hresB : (slice header offReservedB headerSize).any (· ≠ 0) = true ↔
      slice header offReservedB headerSize ≠ List.replicate 8 0 := by
    have hlen : (slice header offReservedB headerSize).length = 8 := slice_length (by rw [h])
    rw [List.any_eq_true, ne_eq, List.eq_replicate_iff]
    simp [hlen]
  have hflags : bitAnd (byteAt header offFlags) (bitNot flagsDefinedMask) = 0 ↔
      header.getD offFlags 0 &&& ~~~UInt8.ofNat flagsDefinedMask = 0 := maskedFlags_eq_zero _
  have hcrc : readU32Be header offHeaderCrc = computeHeaderCrc header ↔
      fromBytesBE (slice header offHeaderCrc (offHeaderCrc + 4)) = Wire.computeHeaderCrc header := by
    rw [readU32Be_eq (by rw [h32]; decide), computeHeaderCrc_eq]
    exact Int.ofNat_inj
  unfold checkHeader Wire.checkHeader
  rw [payloadLen_eq h]
  simp only [ne_eq, hver, hresA, hresB, hflags, hcrc, gt_iff_lt, Int.ofNat_lt]
  split_ifs with hm hv ha hb hboth hf hc hl <;> first | rfl | (exfalso; tauto)

/-- Past the header the codecs find the same frame or fail with the same kind. -/
theorem takePayload_eq {buf : Bytes} (h : headerSize ≤ buf.length) (len : Nat) :
    (takePayload buf len).mapError FrameError.kind = (Wire.takePayload buf len).mapError kindOf := by
  have hl : (buf.take headerSize).length = headerSize := List.length_take_of_le h
  unfold takePayload Wire.takePayload
  dsimp only
  generalize buf.take headerSize = header at hl
  have h32 : header.length = 32 := hl
  have hcrc : ∀ payload : Bytes, readU32Be header offPayloadCrc = crc32c payload ↔
      fromBytesBE (slice header offPayloadCrc (offPayloadCrc + 4)) = Wire.crc32c payload := by
    intro payload
    rw [readU32Be_eq (by rw [h32]; decide), crc32c_eq]
    exact Int.ofNat_inj
  have hsid : readU32Be header offStreamId = (fromBytesBE (slice header offStreamId (offStreamId + 4)) : Nat) :=
    readU32Be_eq (by rw [h32]; decide)
  simp only [ne_eq, hcrc, opcode_eq hl, hsid, Int.toNat_natCast]
  split_ifs <;> rfl

/-- `decodeFrame` finds the frame that `decode_frame` finds, and leaves the same bytes, or fails with the same kind. -/
theorem decodeFrame_eq (buf : Bytes) :
    (decodeFrame buf).mapError FrameError.kind = (Wire.decodeFrame buf).mapError kindOf := by
  unfold decodeFrame Wire.decodeFrame
  by_cases h : buf.length < headerSize
  · rw [if_pos h, if_pos h]
    rfl
  · rw [if_neg h, if_neg h]
    have hle : headerSize ≤ buf.length := Nat.le_of_not_lt h
    have hcheck := checkHeader_eq (List.length_take_of_le hle)
    rcases hw : Wire.checkHeader (buf.take headerSize) with e | len <;>
      rcases ht : checkHeader (buf.take headerSize) with e' | len' <;> rw [hw, ht] at hcheck
    · exact congrArg Except.error (Except.error.inj hcheck)
    · exact nomatch hcheck
    · exact nomatch hcheck
    · obtain rfl : len' = (len : Int) := Except.ok.inj hcheck
      exact takePayload_eq hle len

/-- The header of `encodeFrame` is the header of `encode_frame`. -/
theorem headerFields_eq {opcode streamId flags : Nat} {payload : Bytes} (ho : opcode < 2 ^ 16) (hs : streamId < 2 ^ 32)
    (hl : payload.length ≤ maxPayloadBytes) :
    headerFields opcode streamId flags payload = Wire.headerFields opcode streamId flags payload.length (Wire.crc32c payload) := by
  have hmax : maxPayloadBytes = 2 ^ 24 - 1 := rfl
  have hopcode : [toUint8 (bitAnd (shiftRightUnsigned opcode 8) 0xFF), toUint8 (bitAnd opcode 0xFF)] = toBytesBE 2 opcode := by
    rw [toUint8_bitAnd (toInt32_shiftRight (by omega)), toUint8_bitAnd (toInt32_natCast opcode)]
    simp [toBytesBE]
  have hlen : [toUint8 (bitAnd (shiftRightUnsigned payload.length 16) 0xFF),
      toUint8 (bitAnd (shiftRightUnsigned payload.length 8) 0xFF), toUint8 (bitAnd payload.length 0xFF)] =
      toBytesBE 3 payload.length := by
    rw [toUint8_bitAnd (toInt32_shiftRight (by omega)), toUint8_bitAnd (toInt32_shiftRight (by omega)),
      toUint8_bitAnd (toInt32_natCast payload.length)]
    simp [toBytesBE, Nat.div_div_eq_div_mul]
  have hsid : u32Be (shiftRightUnsigned streamId 0) = toBytesBE 4 streamId := by
    rw [shiftRightUnsigned_zero (toInt32_natCast streamId) hs, u32Be_eq hs]
  have hcrc : u32Be (crc32c payload) = toBytesBE 4 (Wire.crc32c payload) := by
    rw [crc32c_eq, u32Be_eq (crc32c_lt payload)]
  unfold headerFields Wire.headerFields
  rw [hopcode, toUint8_bitAnd (toInt32_natCast flags), hsid, hlen, hcrc]
  rfl

/-- `encodeFrame` writes the bytes that `encode_frame` writes, or both refuse the payload as too long. -/
theorem encodeFrame_eq {opcode streamId flags : Nat} (ho : opcode < 2 ^ 16) (hs : streamId < 2 ^ 32) (hf : flags < 2 ^ 8)
    (payload : Bytes) :
    (∃ bytes, encodeFrame opcode streamId flags payload = .ok bytes ∧ Wire.encodeFrame opcode streamId flags payload = .ok bytes) ∨
    ∃ e, encodeFrame opcode streamId flags payload = .error e ∧ e.kind = .oversizePayload ∧
      Wire.encodeFrame opcode streamId flags payload = .error (.oversizePayload payload.length) := by
  unfold encodeFrame Wire.encodeFrame
  by_cases hl : payload.length > maxPayloadBytes
  · rw [if_pos hl, if_pos hl]
    exact .inr ⟨_, rfl, rfl, rfl⟩
  · rw [if_neg hl, if_neg hl, if_neg (Nat.not_le.2 ho), if_neg (Nat.not_le.2 hf), if_neg (Nat.not_le.2 hs)]
    refine .inl ⟨_, rfl, ?_⟩
    have hlt : ∀ h : Bytes, Wire.computeHeaderCrc h < 2 ^ 32 := fun h => crc32c_lt _
    rw [headerFields_eq ho hs (Nat.le_of_not_lt hl), computeHeaderCrc_eq, u32Be_eq (hlt _)]
    rfl

end BrainSdk.TypeScript
