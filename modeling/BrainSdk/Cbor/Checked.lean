import BrainSdk.Cbor.Scan

/-!
# The Python scanner with its reads

`_cbor_item_end` once more, with an error of its own for a read past the data, and one for a loop that would not end.
-/

namespace BrainSdk.Python

open Library Cbor

/-- How a scan can fail. -/
inductive ScanError where
  | cborError (e : CborError)
  | indexError
  | diverges
  deriving DecidableEq, Repr

namespace checkedItemEnd

/-- A `CborError`, if any. -/
def lift {α : Type} (r : Except CborError α) : Except ScanError α := r.mapError .cborError

/-- `data[i]`. -/
def byteAt (data : Bytes) (i : Nat) : Except ScanError UInt8 := if i < data.length then .ok (data.getD i 0) else .error .indexError

/-- `data[i : j]`, in full. -/
def sliceAt (data : Bytes) (i j : Nat) : Except ScanError Bytes :=
  if j ≤ data.length then .ok (slice data i j) else .error .indexError

/-- An argument of `k` bytes at `i`. -/
def wideArg (data : Bytes) (i k : Nat) : Except ScanError (Option Nat × Nat) := do
  lift (cborItemEnd.need data i k)
  let bytes ← sliceAt data i (i + k)
  return (some (fromBytesBE bytes), i + k)

/-- The argument of a head, and the offset after it. -/
def arg (data : Bytes) (ai i : Nat) : Except ScanError (Option Nat × Nat) :=
  if ai < 24 then .ok (some ai, i)
  else if ai = 24 then wideArg data i 1
  else if ai = 25 then wideArg data i 2
  else if ai = 26 then wideArg data i 4
  else if ai = 27 then wideArg data i 8
  else if ai = 31 then .ok (none, i)
  else .error (.cborError ⟨s!"reserved additional-info {ai} at offset {i - 1}"⟩)

/-- A counted loop. -/
def each (scan : Nat → Except ScanError Nat) : Nat → Nat → Except ScanError Nat
  | 0, i => .ok i
  | n + 1, i => (scan i).bind (each scan n)

/-- A key and a value. -/
def pair (scan : Nat → Except ScanError Nat) (i : Nat) : Except ScanError Nat := (scan i).bind scan

/-- The `while True` of an item of indefinite length, for some turns. -/
def untilBreak (data : Bytes) (scan : Nat → Except ScanError Nat) : Nat → Nat → Except ScanError Nat
  | 0, _ => .error .diverges
  | fuel + 1, i => do
    lift (cborItemEnd.need data i 1)
    if (← byteAt data i) = 0xFF then return i + 1
    else
      let i ← scan i
      untilBreak data scan fuel i

/-- The rest of `scan`, once the head is read. -/
def rest (data : Bytes) (scan : Nat → Except ScanError Nat) (major : Nat) (arg : Option Nat) (i : Nat) : Except ScanError Nat :=
  if major = 0 ∨ major = 1 then .ok i
  else if major = 7 then .ok i
  else if major = 2 ∨ major = 3 then
    match arg with
    | none => untilBreak data scan (data.length + 1) i
    | some arg => (lift (cborItemEnd.need data i arg)).bind (fun _ => .ok (i + arg))
  else if major = 4 then
    match arg with
    | none => untilBreak data scan (data.length + 1) i
    | some arg => each scan arg i
  else if major = 5 then
    match arg with
    | none => untilBreak data (pair scan) (data.length + 1) i
    | some arg => each (pair scan) arg i
  else if major = 6 then scan i
  else .error (.cborError ⟨s!"unreachable major type {major}"⟩)

/-- `scan`. -/
def scan (data : Bytes) : Nat → Nat → Except ScanError Nat
  | 0, i => .error (.cborError ⟨s!"CBOR nesting deeper than {maxNestingDepth} at offset {i}"⟩)
  | left + 1, i => do
    lift (cborItemEnd.need data i 1)
    let ib ← byteAt data i
    let head ← arg data (additionalInfo ib) (i + 1)
    rest data (scan data left) (major ib) head.1 head.2

end checkedItemEnd

/-- `_cbor_item_end`, with its reads. -/
def checkedItemEnd (data : Bytes) (start : Nat) : Except ScanError Nat := checkedItemEnd.scan data (maxNestingDepth + 1) start

end BrainSdk.Python
