import BrainSdk.Library.Bytes
import BrainSdk.Library.Ieee

/-!
# Measuring a CBOR item

`_cbor_item_end` of `wire/cbor.py` and `cborItemLength` of `wire/cbor.ts`: both walk the heads of one item and give the offset where it
ends. The Python scanner checks its bounds before it reads, knows items of indefinite length and refuses to nest too deep. The
TypeScript one keeps one position, leaves the bounds to `byteAt` and to the end of a string, and refuses indefinite lengths; its numbers
are doubles.
-/

namespace BrainSdk.Cbor

open Library

/-- `CborError` of both SDKs. -/
structure CborError where
  message : String
  deriving DecidableEq, Repr

/-- The major type of an initial byte. -/
def major (ib : UInt8) : Nat := ib.toNat >>> 5

/-- The additional information of an initial byte. -/
def additionalInfo (ib : UInt8) : Nat := ib.toNat &&& 0x1F

/-- The turns of a counted loop, each from the offset the turn before it left. -/
def each (scan : Nat → Except CborError Nat) : Nat → Nat → Except CborError Nat
  | 0, i => .ok i
  | n + 1, i => (scan i).bind (each scan n)

/-- Two items, as the loop over a map takes them. -/
def pair (scan : Nat → Except CborError Nat) (i : Nat) : Except CborError Nat := (scan i).bind scan

end BrainSdk.Cbor

namespace BrainSdk.Python

open Library Cbor

/-- `_MAX_NESTING_DEPTH`. -/
def maxNestingDepth : Nat := 128

/-- `need`. -/
def cborItemEnd.need (data : Bytes) (i k : Nat) : Except CborError Unit :=
  if i + k > data.length then
    .error ⟨s!"truncated CBOR: need {k} byte(s) at offset {i}, have {data.length - i}"⟩
  else .ok ()

/-- An argument of `k` bytes at `i`. -/
def cborItemEnd.wideArg (data : Bytes) (i k : Nat) : Except CborError (Option Nat × Nat) := do
  cborItemEnd.need data i k
  return (some (fromBytesBE (slice data i (i + k))), i + k)

/-- The argument of a head, and the offset after it; `none` is the indefinite length. -/
def cborItemEnd.arg (data : Bytes) (ai i : Nat) : Except CborError (Option Nat × Nat) :=
  if ai < 24 then .ok (some ai, i)
  else if ai = 24 then cborItemEnd.wideArg data i 1
  else if ai = 25 then cborItemEnd.wideArg data i 2
  else if ai = 26 then cborItemEnd.wideArg data i 4
  else if ai = 27 then cborItemEnd.wideArg data i 8
  else if ai = 31 then .ok (none, i)
  else .error ⟨s!"reserved additional-info {ai} at offset {i - 1}"⟩

/-- The `while True` of an item of indefinite length. Each turn moves on, so the bytes of the data are turns enough; past them `need`
raises. -/
def cborItemEnd.untilBreak (data : Bytes) (scan : Nat → Except CborError Nat) : Nat → Nat → Except CborError Nat
  | 0, i => .error ⟨s!"truncated CBOR: need 1 byte(s) at offset {i}, have {data.length - i}"⟩
  | fuel + 1, i => do
    cborItemEnd.need data i 1
    if data.getD i 0 = 0xFF then return i + 1
    else
      let i ← scan i
      cborItemEnd.untilBreak data scan fuel i

/-- The rest of `scan`, once the head is read: what follows a head of this major type and argument. -/
def cborItemEnd.rest (data : Bytes) (scan : Nat → Except CborError Nat) (major : Nat) (arg : Option Nat) (i : Nat) :
    Except CborError Nat :=
  if major = 0 ∨ major = 1 then .ok i
  else if major = 7 then .ok i
  else if major = 2 ∨ major = 3 then
    match arg with
    | none => cborItemEnd.untilBreak data scan (data.length + 1) i
    | some arg => (cborItemEnd.need data i arg).bind (fun _ => .ok (i + arg))
  else if major = 4 then
    match arg with
    | none => cborItemEnd.untilBreak data scan (data.length + 1) i
    | some arg => each scan arg i
  else if major = 5 then
    match arg with
    | none => cborItemEnd.untilBreak data (pair scan) (data.length + 1) i
    | some arg => each (pair scan) arg i
  else if major = 6 then scan i
  else .error ⟨s!"unreachable major type {major}"⟩

/-- `scan`. The first argument is how many levels may still be entered, `_MAX_NESTING_DEPTH + 1 - depth`. -/
def cborItemEnd.scan (data : Bytes) : Nat → Nat → Except CborError Nat
  | 0, i => .error ⟨s!"CBOR nesting deeper than {maxNestingDepth} at offset {i}"⟩
  | left + 1, i => do
    cborItemEnd.need data i 1
    let head ← cborItemEnd.arg data (additionalInfo (data.getD i 0)) (i + 1)
    cborItemEnd.rest data (cborItemEnd.scan data left) (major (data.getD i 0)) head.1 head.2

/-- `_cbor_item_end`. -/
def cborItemEnd (data : Bytes) (start : Nat) : Except CborError Nat := cborItemEnd.scan data (maxNestingDepth + 1) start

end BrainSdk.Python

namespace BrainSdk.TypeScript

open Library Cbor

/-- The number a non-negative integer converts to. Rounding is the same in every unit, so it may be counted in ones here. -/
def toNumber (n : Nat) : Nat := Format.binary64.magnitude (Format.binary64.round n)

/-- `a + b` of two non-negative integral numbers. -/
def numberAdd (a b : Nat) : Nat := toNumber (a + b)

/-- A `Uint8Array`: its length is an index, below 2^53. -/
structure Uint8Array where
  bytes : Bytes
  length_lt : bytes.length < 2 ^ 53

/-- `byteAt`. -/
def cborItemLength.byteAt (bytes : Bytes) (i : Nat) : Except CborError Nat :=
  if i ≥ bytes.length then .error ⟨"truncated CBOR item"⟩ else .ok (bytes.getD i 0).toNat

/-- The loop of `readArg` over `k` bytes. -/
def cborItemLength.readBytes (bytes : Bytes) (pos k : Nat) : Except CborError Nat :=
  (List.range k).foldlM (fun v i => do return (v <<< 8) ||| (← cborItemLength.byteAt bytes (numberAdd pos i))) 0

/-- `readArg`: the argument, and the position after it. -/
def cborItemLength.readArg (bytes : Bytes) (initial pos : Nat) : Except CborError (Nat × Nat) :=
  let ai := initial &&& 0x1F
  if ai < 24 then .ok (ai, pos)
  else if ai = 24 then do return (← cborItemLength.byteAt bytes pos, numberAdd pos 1)
  else if ai = 25 then do
    let high ← cborItemLength.byteAt bytes pos
    let low ← cborItemLength.byteAt bytes (numberAdd pos 1)
    return ((high <<< 8) ||| low, numberAdd pos 2)
  else if ai = 26 then do return (← cborItemLength.readBytes bytes pos 4, numberAdd pos 4)
  else if ai = 27 then do return (← cborItemLength.readBytes bytes pos 8, numberAdd pos 8)
  else .error ⟨s!"indefinite-length item not supported (additional info {ai})"⟩

/-- The `MAJOR_SIMPLE` case of `walk`. -/
def cborItemLength.simple (initial pos : Nat) : Except CborError Nat :=
  let ai := initial &&& 0x1F
  if ai = 24 then .ok (numberAdd pos 1)
  else if ai = 25 then .ok (numberAdd pos 2)
  else if ai = 26 then .ok (numberAdd pos 4)
  else if ai = 27 then .ok (numberAdd pos 8)
  else if ai ≥ 28 then .error ⟨s!"unsupported simple value (additional info {ai})"⟩
  else .ok pos

/-- The end of a string of `n` bytes at `pos`. -/
def cborItemLength.string (bytes : Bytes) (n pos : Nat) : Except CborError Nat :=
  if numberAdd pos n > bytes.length then .error ⟨"truncated CBOR string"⟩ else .ok (numberAdd pos n)

/-- The `switch` of `walk`. -/
def cborItemLength.rest (bytes : Bytes) (walk : Nat → Except CborError Nat) (initial pos : Nat) : Except CborError Nat :=
  let major := initial >>> 5
  if major = 0 ∨ major = 1 then do return (← cborItemLength.readArg bytes initial pos).2
  else if major = 2 ∨ major = 3 then do
    let r ← cborItemLength.readArg bytes initial pos
    cborItemLength.string bytes (toNumber r.1) r.2
  else if major = 4 then do
    let r ← cborItemLength.readArg bytes initial pos
    each walk (toNumber r.1) r.2
  else if major = 5 then do
    let r ← cborItemLength.readArg bytes initial pos
    each (pair walk) (toNumber r.1) r.2
  else if major = 6 then do
    let r ← cborItemLength.readArg bytes initial pos
    walk r.2
  else if major = 7 then cborItemLength.simple initial pos
  else .error ⟨s!"unknown CBOR major type {major}"⟩

/-- `walk`. Each level takes a byte, so the bytes that are left are levels enough, and where they run out `byteAt` throws. The index
of a loop stays exact, since each turn takes a byte too. -/
def cborItemLength.walk (bytes : Bytes) : Nat → Nat → Except CborError Nat
  | 0, _ => .error ⟨"truncated CBOR item"⟩
  | fuel + 1, pos => do
    let initial ← cborItemLength.byteAt bytes pos
    cborItemLength.rest bytes (cborItemLength.walk bytes fuel) initial (numberAdd pos 1)

/-- `cborItemLength`. -/
def cborItemLength (array : Uint8Array) : Except CborError Nat :=
  cborItemLength.walk array.bytes (array.bytes.length + 1) 0

end BrainSdk.TypeScript
