import BrainSdk.Cbor.EncodeLemmas

/-!
# The writer

`toCbor` of `wire/cbor.ts` once more, as the source has it: over a `Writer`, whose buffer grows. `new Uint8Array(n)` throws a `RangeError`
for an `n` that is no length, and so does `set` for a source that does not fit; a store past the end is lost.
-/

namespace BrainSdk.TypeScript

open Library Cbor

/-- What the encoder throws. -/
inductive EncodeError where
  | cborError (e : CborError)
  | rangeError
  deriving DecidableEq, Repr

/-- `new Uint8Array(n)`. -/
def Uint8Array.new (n : Nat) : Except EncodeError Uint8Array :=
  if h : n < 2 ^ 53 then .ok ⟨List.replicate n 0, by rwa [List.length_replicate]⟩ else .error .rangeError

theorem length_setSlice {bs new : Bytes} {a : Nat} (h : a + new.length ≤ bs.length) : (setSlice bs a new).length = bs.length := by
  unfold setSlice
  simp only [List.length_append, List.length_take, List.length_drop]
  omega

/-- `array.set(source, offset)`. -/
def Uint8Array.set (array : Uint8Array) (source : Bytes) (offset : Nat) : Except EncodeError Uint8Array :=
  if h : offset + source.length ≤ array.bytes.length then
    .ok ⟨setSlice array.bytes offset source, by rw [length_setSlice h]; exact array.length_lt⟩
  else .error .rangeError

/-- `array[i] = b`. -/
def Uint8Array.store (array : Uint8Array) (i : Nat) (b : UInt8) : Uint8Array :=
  ⟨array.bytes.set i b, by rw [List.length_set]; exact array.length_lt⟩

/-- `Writer`. -/
structure Writer where
  buf : Uint8Array
  len : Nat

/-- `new Writer()`. -/
def Writer.new : Writer := ⟨⟨List.replicate 256 0, by rw [List.length_replicate]; decide⟩, 0⟩

/-- The `while` of `ensure`, for some turns. From one on, doubling passes a number within as many turns. -/
def Writer.double (need : Nat) : Nat → Nat → Nat
  | 0, next => next
  | turns + 1, next => if next < need then double need turns (next * 2) else next

/-- `ensure`. -/
def Writer.ensure (w : Writer) (extra : Nat) : Except EncodeError Writer :=
  if w.len + extra ≤ w.buf.bytes.length then .ok w
  else do
    let grown ← Uint8Array.new (double (w.len + extra) (w.len + extra) (w.buf.bytes.length * 2))
    let grown ← grown.set (slice w.buf.bytes 0 w.len) 0
    return { w with buf := grown }

/-- `pushByte`. -/
def Writer.pushByte (w : Writer) (b : Nat) : Except EncodeError Writer := do
  let w ← w.ensure 1
  return { buf := w.buf.store w.len (UInt8.ofNat (b &&& 0xFF)), len := w.len + 1 }

/-- `pushBytes`. -/
def Writer.pushBytes (w : Writer) (bytes : Bytes) : Except EncodeError Writer := do
  let w ← w.ensure bytes.length
  let buf ← w.buf.set bytes w.len
  return { buf := buf, len := w.len + bytes.length }

/-- `pushHead`. -/
def Writer.pushHead (w : Writer) (major arg : Nat) : Except EncodeError Writer :=
  let m := major <<< 5
  if arg < 24 then w.pushByte (m ||| arg)
  else if arg ≤ 0xFF then do
    let w ← w.pushByte (m ||| 24)
    w.pushByte arg
  else if arg ≤ 0xFFFF then do
    let w ← w.pushByte (m ||| 25)
    let w ← w.pushByte ((arg >>> 8) &&& 0xFF)
    w.pushByte (arg &&& 0xFF)
  else if arg ≤ 0xFFFFFFFF then do
    let w ← w.pushByte (m ||| 26)
    let w ← w.pushByte ((arg >>> 24) &&& 0xFF)
    let w ← w.pushByte ((arg >>> 16) &&& 0xFF)
    let w ← w.pushByte ((arg >>> 8) &&& 0xFF)
    w.pushByte (arg &&& 0xFF)
  else do
    let w ← w.pushByte (m ||| 27)
    [56, 48, 40, 32, 24, 16, 8, 0].foldlM (fun w shift => w.pushByte ((arg >>> shift) &&& 0xFF)) w

/-- `finish`. -/
def Writer.finish (w : Writer) : Uint8Array :=
  ⟨w.buf.bytes.take w.len, Nat.lt_of_le_of_lt (List.length_take_le' _ _) w.buf.length_lt⟩

/-- `writeBignum`. -/
def Writer.writeBignum (w : Writer) (n : Nat) : Except EncodeError Writer := do
  let bytes := (Nat.digits 256 n).reverse.map UInt8.ofNat
  let bytes := if bytes.length = 0 then [0] else bytes
  let w ← w.pushHead 6 2
  let w ← w.pushHead 2 bytes.length
  w.pushBytes bytes

/-- `writeInteger`. -/
def Writer.writeInteger (w : Writer) (n : Int) : Except EncodeError Writer :=
  if n ≥ 0 then
    if n ≤ 2 ^ 64 - 1 then w.pushHead 0 n.toNat else w.writeBignum n.toNat
  else if -1 - n ≤ 2 ^ 64 - 1 then w.pushHead 1 (-1 - n).toNat
  else .error (.cborError ⟨s!"integer out of representable range: {n}"⟩)

/-- `writeHalf`. -/
def Writer.writeHalf (w : Writer) (bits : Nat) : Except EncodeError Writer := do
  let w ← w.pushByte (7 <<< 5 ||| 25)
  let w ← w.pushByte ((bits >>> 8) &&& 0xFF)
  w.pushByte (bits &&& 0xFF)

/-- `writeSingle`. -/
def Writer.writeSingle (w : Writer) (value : Double) : Except EncodeError Writer :=
  w.pushBytes (UInt8.ofNat (7 <<< 5 ||| 26) :: toBytesBE 4 (float32Bits value))

/-- `writeDouble`. -/
def Writer.writeDouble (w : Writer) (value : Double) : Except EncodeError Writer :=
  w.pushBytes (UInt8.ofNat (7 <<< 5 ||| 27) :: toBytesBE 8 value.toNat)

/-- `writeF32`. -/
def Writer.writeF32 (w : Writer) (value : Double) : Except EncodeError Writer :=
  (toHalfBitsExact value).elim (w.writeSingle value) w.writeHalf

/-- `writeF64`. -/
def Writer.writeF64 (w : Writer) (value : Double) : Except EncodeError Writer :=
  (toHalfBitsExact value).elim (if (fround value).eq value then w.writeSingle value else w.writeDouble value) w.writeHalf

/-- The text string that `writeValue` writes for a string and for a key. -/
def Writer.writeText (w : Writer) (s : String) : Except EncodeError Writer := do
  let w ← w.pushHead 3 (utf8 s).length
  w.pushBytes (utf8 s)

mutual

/-- `writeValue`. -/
def Writer.writeValue (w : Writer) : Value → Except EncodeError Writer
  | .null => w.pushByte (7 <<< 5 ||| 22)
  | .undefined => w.pushByte (7 <<< 5 ||| 22)
  | .boolean b => w.pushByte (7 <<< 5 ||| (if b then 21 else 20))
  | .bigint n => w.writeInteger n
  | .number x => if isInteger x then w.writeInteger (bigInt x) else w.writeF64 x
  | .string s => w.writeText s
  | .uint8Array bytes => do
    let w ← w.pushHead 2 bytes.length
    w.pushBytes bytes
  | .f32 x => w.writeF32 x
  | .f64 x => w.writeF64 x
  | .array items => do
    let w ← w.pushHead 4 items.length
    w.writeItems items
  | .map entries => do
    let w ← w.pushHead 5 entries.length
    w.writeEntries entries

/-- The loop over an array. -/
def Writer.writeItems (w : Writer) : List Value → Except EncodeError Writer
  | [] => .ok w
  | x :: xs => do
    let w ← w.writeValue x
    w.writeItems xs

/-- The loop over a map. -/
def Writer.writeEntries (w : Writer) : List (String × Value) → Except EncodeError Writer
  | [] => .ok w
  | (k, v) :: rest => do
    let w ← w.writeText k
    let w ← w.writeValue v
    w.writeEntries rest

end

/-- `toCbor`, over its writer. -/
def Writer.toCbor (value : Value) : Except EncodeError Uint8Array := do
  let w ← Writer.new.writeValue value
  return w.finish

end BrainSdk.TypeScript
