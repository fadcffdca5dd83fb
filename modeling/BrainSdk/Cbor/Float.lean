import BrainSdk.Library.Bytes
import BrainSdk.Library.Ieee

/-!
# Float fields

`_shortest_float_bytes` of `wire/cbor.py` and `writeF32` / `writeF64` of `wire/cbor.ts`. A Python float and a JavaScript number are the
64 bits of a double. `struct.pack` and `DataView.setFloat32` round to nearest, ties to even; past the largest number `struct.pack`
raises, and `setFloat32` and `Math.fround` give an infinity.
-/

namespace BrainSdk.Cbor

open Library

/-- The bits of a double. -/
abbrev Double : Type := BitVec 64

/-- The sign bit of a double, as 0 or 1. -/
def Double.sign (x : Double) : Nat := x.toNat / Format.binary64.signBit

/-- The bits of a double but the sign. -/
def Double.abs (x : Double) : Nat := x.toNat % Format.binary64.signBit

/-- The double with these fields. -/
def Double.mk (sign abs : Nat) : Double := BitVec.ofNat 64 (sign * Format.binary64.signBit + abs)

def Double.isNaN (x : Double) : Prop := Format.binary64.inf < x.abs
def Double.isInf (x : Double) : Prop := x.abs = Format.binary64.inf
def Double.isFinite (x : Double) : Prop := x.abs < Format.binary64.inf

instance (x : Double) : Decidable x.isNaN := inferInstanceAs (Decidable (_ < _))
instance (x : Double) : Decidable x.isInf := inferInstanceAs (Decidable (_ = _))
instance (x : Double) : Decidable x.isFinite := inferInstanceAs (Decidable (_ < _))

/-- `x == y` of Python floats, and `x === y` of JavaScript numbers: zeros are equal, a NaN equals nothing. -/
def Double.eq (x y : Double) : Bool := !decide x.isNaN && !decide y.isNaN && (decide (x = y) || decide (x.abs = 0 ∧ y.abs = 0))

/-- The magnitude of a finite double. -/
def Double.magnitude (x : Double) : Nat := Format.binary64.magnitude x.abs

/-- The double that a narrower format's bits stand for. -/
def widen (F : Format) (bits : Nat) : Double :=
  let abs := bits % F.signBit
  .mk (bits / F.signBit)
    (if abs < F.inf then Format.binary64.round (F.magnitude abs)
     else Format.binary64.inf + (abs - F.inf) * 2 ^ (Format.binary64.fraction - F.fraction))

end BrainSdk.Cbor

namespace BrainSdk.Python

open Library Cbor

/-- `OverflowError`. -/
structure OverflowError where
  message : String
  deriving DecidableEq, Repr

/-- `struct.pack` of a finite float in a narrower format of `n` bytes. -/
def structPack (F : Format) (n : Nat) (code : String) (value : Double) : Except OverflowError Bytes :=
  if F.round value.magnitude < F.inf then .ok (toBytesBE n (value.sign * F.signBit + F.round value.magnitude))
  else .error ⟨s!"float too large to pack with {code} format"⟩

/-- `struct.unpack(..)[0]`. -/
def structUnpack (F : Format) (data : Bytes) : Double := widen F (fromBytesBE data)

/-- `_shortest_float_bytes` with the packed single in hand: the single, or the double. The `OverflowError` of packing the single is
not caught. -/
def shortestFloatBytes.single (value : Double) : Except OverflowError Bytes → Except OverflowError Bytes
  | .ok single =>
    if (structUnpack .binary32 single).eq value then .ok (0xFA :: single) else .ok (0xFB :: toBytesBE 8 value.toNat)
  | .error e => .error e

/-- `_shortest_float_bytes` with the packed half in hand: the half, or what single precision comes to. The `OverflowError` of packing
the half is caught. -/
def shortestFloatBytes.half (value : Double) : Except OverflowError Bytes → Except OverflowError Bytes
  | .ok half =>
    if (structUnpack .binary16 half).eq value then .ok (0xF9 :: half)
    else shortestFloatBytes.single value (structPack .binary32 4 "f" value)
  | .error _ => shortestFloatBytes.single value (structPack .binary32 4 "f" value)

/-- `_shortest_float_bytes`. -/
def shortestFloatBytes (value : Double) : Except OverflowError Bytes :=
  if ¬value.isNaN ∧ ¬value.isInf then shortestFloatBytes.half value (structPack .binary16 2 "e" value)
  else .ok (0xFB :: toBytesBE 8 value.toNat)

end BrainSdk.Python

namespace BrainSdk.TypeScript

open Library Cbor

/-- The bits that `setFloat32` stores. -/
def float32Bits (value : Double) : Nat :=
  value.sign * Format.binary32.signBit +
    (if value.isFinite then min (Format.binary32.round value.magnitude) Format.binary32.inf
     else if value.isInf then Format.binary32.inf
     else Format.binary32.inf + 2 ^ (Format.binary32.fraction - 1))

/-- `Math.fround`. -/
def fround (value : Double) : Double := widen .binary32 (float32Bits value)

/-- `toHalfBitsExact`. The numbers stay below 2^16, where the 32-bit operators are those of naturals. -/
def toHalfBitsExact (value : Double) : Option Nat :=
  let bits := value.toNat
  let sign := (bits >>> 63) &&& 1
  let exp := (bits >>> 52) &&& 0x7FF
  let mant := bits &&& 0xFFFFFFFFFFFFF
  if exp = 0 ∧ mant = 0 then some (sign <<< 15)
  else
    let unbiased : Int := exp - 1023
    if unbiased < -14 ∨ unbiased > 15 then none
    else if mant &&& ((1 <<< 42) - 1) ≠ 0 then none
    else
      let halfMant := mant >>> 42
      let halfExp := (unbiased + 15).toNat
      some ((sign <<< 15) ||| (halfExp <<< 10) ||| halfMant)

/-- `writeHalf`. -/
def writeHalf (bits : Nat) : Bytes := [0xF9, UInt8.ofNat ((bits >>> 8) &&& 0xFF), UInt8.ofNat (bits &&& 0xFF)]

/-- `writeSingle`. -/
def writeSingle (value : Double) : Bytes := 0xFA :: toBytesBE 4 (float32Bits value)

/-- `writeDouble`. -/
def writeDouble (value : Double) : Bytes := 0xFB :: toBytesBE 8 value.toNat

/-- `writeF32`. -/
def writeF32 (value : Double) : Bytes := (toHalfBitsExact value).elim (writeSingle value) writeHalf

/-- `writeF64`. -/
def writeF64 (value : Double) : Bytes :=
  (toHalfBitsExact value).elim (if (fround value).eq value then writeSingle value else writeDouble value) writeHalf

end BrainSdk.TypeScript
