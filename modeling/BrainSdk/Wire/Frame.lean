import BrainSdk.Wire.Crc32c

/-!
# The BRN0 frame codec

`wire/frame.py`: the 32-byte header and `encode_frame` / `decode_frame`. The header is written and read at the offsets of the
source, field by field. A decoded frame holds Python integers; the header bytes are `UInt8`.
-/

namespace BrainSdk.Wire

open Library

/-- `MAGIC`: the bytes of `"BRN0"`. -/
def magic : Bytes := [0x42, 0x52, 0x4E, 0x30]

def wireVersion : Nat := 1
def headerSize : Nat := 32
def maxPayloadBytes : Nat := 2 ^ 24 - 1

def flagEos : Nat := 0x80
def flagMpl : Nat := 0x40
def flagCmp : Nat := 0x20
/-- Flag bits that are defined. -/
def flagsDefinedMask : Nat := flagEos ||| flagMpl ||| flagCmp

def offMagic : Nat := 0
def offVersion : Nat := 4
def offOpcode : Nat := 5
def offFlags : Nat := 7
def offHeaderCrc : Nat := 8
def offStreamId : Nat := 12
def offPayloadLen : Nat := 16
def offReservedA : Nat := 19
def offPayloadCrc : Nat := 20
def offReservedB : Nat := 24

/-- The `FrameError` classes, with the fields and texts they carry. -/
inductive FrameError where
  | badMagic
  | badVersion (got : Nat)
  | badHeaderCrc
  | badPayloadCrc
  | oversizePayload (length : Nat)
  | reservedNonZero (message : String)
  | truncatedFrame (haveBytes needBytes : Nat)
  deriving DecidableEq, Repr

/-- `str(exc)` of a `FrameError`. -/
def FrameError.str : FrameError → String
  | .badMagic => "bad frame magic"
  | .badVersion got => s!"unsupported wire version: got {got}, expected {wireVersion}"
  | .badHeaderCrc => "header CRC mismatch"
  | .badPayloadCrc => "payload CRC mismatch"
  | .oversizePayload length => s!"payload length {length} exceeds maximum {maxPayloadBytes}"
  | .reservedNonZero message => message
  | .truncatedFrame h n => s!"truncated frame: have {h} bytes, need {n}"

/-- A decoded frame: header fields and raw payload bytes. -/
structure Frame where
  opcode : Nat
  flags : Nat
  streamId : Nat
  payload : Bytes
  deriving DecidableEq, Repr

/-- `frame.flags & FLAG_EOS`, as a truth value. -/
def Frame.isEos (f : Frame) : Bool := f.flags &&& flagEos ≠ 0

/-- The opcodes the muxes branch on or write themselves (`wire/opcode.py`). -/
def opHello : Nat := 0x0001
def opWelcome : Nat := 0x0081
def opAuth : Nat := 0x0002
def opAuthOk : Nat := 0x0082
def opServerPing : Nat := 0x0091
def opClientPong : Nat := 0x0011
def opError : Nat := 0x00FF
def opPing : Nat := 0x0010
def opBye : Nat := 0x001F
def opPong : Nat := 0x0090
def opSubscribeReq : Nat := 0x0030
def opUnsubscribeReq : Nat := 0x0031
def opUnsubscribeResp : Nat := 0x00B1

/-- `HANDSHAKE_STREAM_ID`: the connection-level stream. -/
def handshakeStreamId : Nat := 0

/-- What `encode_frame` raises: its own `OversizePayload`, the `OverflowError` of `int.to_bytes` for a field that does not fit, or
the `ValueError` of storing a flags value that is not a byte. -/
inductive EncodeError where
  | oversizePayload (length : Nat)
  | overflowError
  | valueError
  deriving DecidableEq, Repr

/-- `_compute_header_crc`: the checksum of header bytes `0..8` and `12..32`. -/
def computeHeaderCrc (header : Bytes) : Nat :=
  crc32c (header.take offHeaderCrc ++ slice header offStreamId headerSize)

/-- The header of `encode_frame` with a zero checksum slot: every field but `header_crc32c`, at its offset. -/
def headerFields (opcode streamId flags len payloadCrc : Nat) : Bytes :=
  let header := List.replicate headerSize 0
  let header := setSlice header offMagic magic
  let header := setSlice header offVersion [UInt8.ofNat wireVersion]
  let header := setSlice header offOpcode (toBytesBE 2 opcode)
  let header := setSlice header offFlags [UInt8.ofNat flags]
  let header := setSlice header offStreamId (toBytesBE 4 streamId)
  let header := setSlice header offPayloadLen (toBytesBE 3 len)
  setSlice header offPayloadCrc (toBytesBE 4 payloadCrc)

/-- The header of `encode_frame`: the fields, then the checksum over them in its slot. -/
def encodeHeader (opcode streamId flags len payloadCrc : Nat) : Bytes :=
  let header := headerFields opcode streamId flags len payloadCrc
  setSlice header offHeaderCrc (toBytesBE 4 (computeHeaderCrc header))

/-- `encode_frame`: the header with both checksums, then the payload. A field that does not fit its width is refused in the
order the source writes the fields; the payload length and the checksums always fit. -/
def encodeFrame (opcode streamId flags : Nat) (payload : Bytes) : Except EncodeError Bytes :=
  if payload.length > maxPayloadBytes then .error (.oversizePayload payload.length)
  else if opcode ≥ 2 ^ 16 then .error .overflowError
  else if flags ≥ 2 ^ 8 then .error .valueError
  else if streamId ≥ 2 ^ 32 then .error .overflowError
  else .ok (encodeHeader opcode streamId flags payload.length (crc32c payload) ++ payload)

/-- The checks of `decode_frame` on the header, in the order of the source, and the payload length it then reads. -/
def checkHeader (header : Bytes) : Except FrameError Nat :=
  if slice header offMagic (offMagic + 4) ≠ magic then .error .badMagic
  else if header.getD offVersion 0 ≠ UInt8.ofNat wireVersion then .error (.badVersion (header.getD offVersion 0).toNat)
  else if header.getD offReservedA 0 ≠ 0 ∨ slice header offReservedB headerSize ≠ List.replicate 8 0 then
    .error (.reservedNonZero "reserved header byte was non-zero")
  else if header.getD offFlags 0 &&& ~~~UInt8.ofNat flagsDefinedMask ≠ 0 then
    .error (.reservedNonZero "reserved flag bit was non-zero")
  else if fromBytesBE (slice header offHeaderCrc (offHeaderCrc + 4)) ≠ computeHeaderCrc header then .error .badHeaderCrc
  else
    let payloadLen := fromBytesBE (slice header offPayloadLen (offPayloadLen + 3))
    if payloadLen > maxPayloadBytes then .error (.oversizePayload payloadLen) else .ok payloadLen

/-- The rest of `decode_frame`, once the header passed its checks: wait for the payload, check it, build the frame. -/
def takePayload (buf : Bytes) (payloadLen : Nat) : Except FrameError (Frame × Bytes) :=
  let header := buf.take headerSize
  let need := headerSize + payloadLen
  if buf.length < need then .error (.truncatedFrame buf.length need)
  else
    let payload := slice buf headerSize need
    if fromBytesBE (slice header offPayloadCrc (offPayloadCrc + 4)) ≠ crc32c payload then .error .badPayloadCrc
    else .ok ({ opcode := fromBytesBE (slice header offOpcode (offOpcode + 2))
                flags := (header.getD offFlags 0).toNat
                streamId := fromBytesBE (slice header offStreamId (offStreamId + 4))
                payload := payload }, buf.drop need)

/-- `decode_frame`: one frame off the front of the buffer, and the bytes after it. -/
def decodeFrame (buf : Bytes) : Except FrameError (Frame × Bytes) :=
  if buf.length < headerSize then .error (.truncatedFrame buf.length headerSize)
  else
    match checkHeader (buf.take headerSize) with
    | .error e => .error e
    | .ok payloadLen => takePayload buf payloadLen

end BrainSdk.Wire
