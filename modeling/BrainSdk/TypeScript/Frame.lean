import BrainSdk.Wire.Frame

/-!
# The TypeScript frame codec

`wire/crc32c.ts` and `wire/frame.ts`. A JavaScript number that holds an integer is an `Int`; the bit operators convert it to 32 bits
first and give back a signed number, except `>>>`, which gives back an unsigned one. The header layout is that of `Wire.Frame`.
-/

namespace BrainSdk.TypeScript

open Library Wire

/-! ### The bit operators -/

/-- The 32 bits an operator sees of a number. -/
def toInt32 (x : Int) : BitVec 32 := BitVec.ofInt 32 x

/-- `x & y`. -/
def bitAnd (x y : Int) : Int := (toInt32 x &&& toInt32 y).toInt

/-- `x | y`. -/
def bitOr (x y : Int) : Int := (toInt32 x ||| toInt32 y).toInt

/-- `x ^ y`. -/
def bitXor (x y : Int) : Int := (toInt32 x ^^^ toInt32 y).toInt

/-- `~x`. -/
def bitNot (x : Int) : Int := (~~~toInt32 x).toInt

/-- `x << k`. -/
def shiftLeft (x : Int) (k : Nat) : Int := (toInt32 x <<< k).toInt

/-- `x >>> k`. -/
def shiftRightUnsigned (x : Int) (k : Nat) : Int := (toInt32 x >>> k).toNat

/-- A number stored into a `Uint8Array`. -/
def toUint8 (x : Int) : UInt8 := UInt8.ofNat (x % 256).toNat

/-- A byte of a `Uint8Array`, as a number. -/
def byteAt (buf : Bytes) (i : Nat) : Int := (buf.getD i 0).toNat

/-! ### CRC32C -/

/-- `POLYNOMIAL_REFLECTED`. -/
def polynomialReflected : Int := 0x82F63B78

/-- One turn of the inner loop that fills `TABLE`. -/
def crcBit (c : Int) : Int :=
  if bitAnd c 1 ≠ 0 then bitXor polynomialReflected (shiftRightUnsigned c 1) else shiftRightUnsigned c 1

/-- `TABLE`. -/
def crcTable : List Int :=
  (List.range 256).map (fun n => shiftRightUnsigned ((List.range 8).foldl (fun c _ => crcBit c) (n : Int)) 0)

/-- One turn of the loop of `crc32c`. -/
def crcByte (crc : Int) (byte : UInt8) : Int :=
  bitXor (crcTable.getD (bitAnd (bitXor crc byte.toNat) 0xFF).toNat 0) (shiftRightUnsigned crc 8)

/-- `crc32c`. -/
def crc32c (bytes : Bytes) : Int := shiftRightUnsigned (bitXor (bytes.foldl crcByte 0xFFFFFFFF) 0xFFFFFFFF) 0

/-! ### Frames -/

/-- `FrameErrorKind`. -/
inductive FrameErrorKind where
  | badMagic
  | badVersion
  | badHeaderCrc
  | badPayloadCrc
  | oversizePayload
  | reservedNonZero
  | truncated
  deriving DecidableEq, Repr

/-- `FrameError`. -/
structure FrameError where
  kind : FrameErrorKind
  message : String
  deriving DecidableEq, Repr

/-- `computeHeaderCrc`. -/
def computeHeaderCrc (header : Bytes) : Int :=
  crc32c (header.take offHeaderCrc ++ slice header offStreamId headerSize)

/-- The four bytes `writeU32Be` writes. -/
def u32Be (value : Int) : Bytes :=
  [toUint8 (bitAnd (shiftRightUnsigned value 24) 0xFF), toUint8 (bitAnd (shiftRightUnsigned value 16) 0xFF),
   toUint8 (bitAnd (shiftRightUnsigned value 8) 0xFF), toUint8 (bitAnd value 0xFF)]

/-- `readU32Be`. -/
def readU32Be (buf : Bytes) (offset : Nat) : Int :=
  shiftRightUnsigned
    (bitOr (bitOr (bitOr (shiftLeft (byteAt buf offset) 24) (shiftLeft (byteAt buf (offset + 1)) 16))
      (shiftLeft (byteAt buf (offset + 2)) 8)) (byteAt buf (offset + 3))) 0

/-- The header of `encodeFrame` with a zero checksum slot. -/
def headerFields (opcode streamId flags : Int) (payload : Bytes) : Bytes :=
  let out := List.replicate headerSize 0
  let out := setSlice out offMagic magic
  let out := setSlice out offVersion [toUint8 wireVersion]
  let out := setSlice out offOpcode
    [toUint8 (bitAnd (shiftRightUnsigned opcode 8) 0xFF), toUint8 (bitAnd opcode 0xFF)]
  let out := setSlice out offFlags [toUint8 (bitAnd flags 0xFF)]
  let out := setSlice out offStreamId (u32Be (shiftRightUnsigned streamId 0))
  let out := setSlice out offPayloadLen
    [toUint8 (bitAnd (shiftRightUnsigned payload.length 16) 0xFF), toUint8 (bitAnd (shiftRightUnsigned payload.length 8) 0xFF),
     toUint8 (bitAnd payload.length 0xFF)]
  setSlice out offPayloadCrc (u32Be (crc32c payload))

/-- `encodeFrame`. -/
def encodeFrame (opcode streamId flags : Int) (payload : Bytes) : Except FrameError Bytes :=
  if payload.length > maxPayloadBytes then
    .error ⟨.oversizePayload, s!"payload length {payload.length} exceeds 24-bit max {maxPayloadBytes}"⟩
  else
    let out := headerFields opcode streamId flags payload
    .ok (setSlice out offHeaderCrc (u32Be (computeHeaderCrc out)) ++ payload)

/-- The checks of `decodeFrame` on the header, in the order of the source, and the payload length it then reads. -/
def checkHeader (header : Bytes) : Except FrameError Int :=
  if slice header offMagic (offMagic + 4) ≠ magic then .error ⟨.badMagic, "bad frame magic"⟩
  else if byteAt header offVersion ≠ wireVersion then
    .error ⟨.badVersion, s!"unsupported wire version: got {byteAt header offVersion}, expected {wireVersion}"⟩
  else if byteAt header offReservedA ≠ 0 then .error ⟨.reservedNonZero, "reserved field was non-zero"⟩
  else if (slice header offReservedB headerSize).any (· ≠ 0) then .error ⟨.reservedNonZero, "reserved field was non-zero"⟩
  else if bitAnd (byteAt header offFlags) (bitNot flagsDefinedMask) ≠ 0 then
    .error ⟨.reservedNonZero, "reserved flag bit was non-zero"⟩
  else if readU32Be header offHeaderCrc ≠ computeHeaderCrc header then .error ⟨.badHeaderCrc, "header CRC mismatch"⟩
  else
    let payloadLen := bitOr (bitOr (shiftLeft (byteAt header offPayloadLen) 16) (shiftLeft (byteAt header (offPayloadLen + 1)) 8))
      (byteAt header (offPayloadLen + 2))
    if payloadLen > maxPayloadBytes then
      .error ⟨.oversizePayload, s!"payload length {payloadLen} exceeds maximum {maxPayloadBytes}"⟩
    else .ok payloadLen

/-- The rest of `decodeFrame`, once the header passed its checks. -/
def takePayload (buf : Bytes) (payloadLen : Nat) : Except FrameError (Frame × Bytes) :=
  let header := buf.take headerSize
  let need := headerSize + payloadLen
  if buf.length < need then .error ⟨.truncated, s!"truncated frame: have {buf.length} bytes, need {need}"⟩
  else
    let payload := slice buf headerSize need
    if readU32Be header offPayloadCrc ≠ crc32c payload then .error ⟨.badPayloadCrc, "payload CRC mismatch"⟩
    else
      .ok ({ opcode := (shiftRightUnsigned (bitOr (shiftLeft (byteAt header offOpcode) 8) (byteAt header (offOpcode + 1))) 0).toNat
             flags := (byteAt header offFlags).toNat
             streamId := (readU32Be header offStreamId).toNat
             payload := payload }, buf.drop need)

/-- `decodeFrame`: one frame off the front of the buffer, and the bytes after it. -/
def decodeFrame (buf : Bytes) : Except FrameError (Frame × Bytes) :=
  if buf.length < headerSize then
    .error ⟨.truncated, s!"truncated frame: have {buf.length} bytes, need {headerSize}"⟩
  else
    match checkHeader (buf.take headerSize) with
    | .error e => .error e
    | .ok payloadLen => takePayload buf payloadLen.toNat

/-- The check vector the source pins the table with. -/
example : crc32c [0x31, 0x32, 0x33, 0x34, 0x35, 0x36, 0x37, 0x38, 0x39] = 0xE3069283 := by decide +kernel

end BrainSdk.TypeScript
