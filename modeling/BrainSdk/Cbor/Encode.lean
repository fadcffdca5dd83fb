import Mathlib.Data.Nat.Digits.Defs
import BrainSdk.Cbor.Float
import BrainSdk.Cbor.Scan

/-!
# Writing CBOR

The value models of the two SDKs and their encoders. `toCbor` of `wire/cbor.ts` is written out: `Writer`, `writeInteger`, `writeValue`.
`to_cbor` of `wire/cbor.py` hands its value to the third-party `cbor2`, which is a parameter here with the four documented properties
that the SDK relies on: shortest heads, definite lengths, maps in insertion order, and a bare float as a double.
-/

namespace BrainSdk.Cbor

open Library

/-- A head in its shortest form: the initial byte, and the argument in as many bytes as it needs. -/
def shortestHead (major arg : Nat) : Bytes :=
  if arg < 24 then [UInt8.ofNat (major * 32 + arg)]
  else if arg < 2 ^ 8 then UInt8.ofNat (major * 32 + 24) :: toBytesBE 1 arg
  else if arg < 2 ^ 16 then UInt8.ofNat (major * 32 + 25) :: toBytesBE 2 arg
  else if arg < 2 ^ 32 then UInt8.ofNat (major * 32 + 26) :: toBytesBE 4 arg
  else UInt8.ofNat (major * 32 + 27) :: toBytesBE 8 arg

/-- What is written for each element, end to end. -/
def concatM {α ε : Type} (write : α → Except ε Bytes) : List α → Except ε Bytes
  | [] => .ok []
  | x :: xs => do return (← write x) ++ (← concatM write xs)

end BrainSdk.Cbor

namespace BrainSdk.Python

open Library Cbor

/-- The Python values that `to_cbor` is given. `floatField` is an `F32` or an `F64` around its value. -/
inductive Value where
  | none
  | bool (b : Bool)
  | int (n : Int)
  | float (x : Double)
  | str (s : String)
  | bytes (b : Bytes)
  | list (items : List Value)
  | dict (entries : List (String × Value))
  | floatField (x : Double)

/-- `cbor2.dumps(value, default=..)` in its default mode, and what its documentation says of it. -/
structure Cbor2 where
  dumps : (Double → Except OverflowError Bytes) → Value → Except OverflowError Bytes
  bool_eq : ∀ hook b, dumps hook (.bool b) = .ok [if b then 0xF5 else 0xF4]
  uint_eq : ∀ hook (n : Nat), n < 2 ^ 64 → dumps hook (.int n) = .ok (shortestHead 0 n)
  nint_eq : ∀ hook (n : Nat), n < 2 ^ 64 → dumps hook (.int (-1 - n)) = .ok (shortestHead 1 n)
  float_eq : ∀ hook (x : Double), x.isFinite → dumps hook (.float x) = .ok (0xFB :: toBytesBE 8 x.toNat)
  bytes_eq : ∀ hook b, dumps hook (.bytes b) = .ok (shortestHead 2 b.length ++ b)
  str_eq : ∀ hook s, dumps hook (.str s) = .ok (shortestHead 3 (utf8 s).length ++ utf8 s)
  list_eq : ∀ hook items, dumps hook (.list items) = (concatM (dumps hook) items).map (shortestHead 4 items.length ++ ·)
  dict_eq : ∀ hook entries, dumps hook (.dict entries) =
    (concatM (fun e => (dumps hook e.2).map ((shortestHead 3 (utf8 e.1).length ++ utf8 e.1) ++ ·)) entries).map
      (shortestHead 5 entries.length ++ ·)
  hook_eq : ∀ hook x, dumps hook (.floatField x) = hook x

/-- `to_cbor`. Its hook is `_default_hook`. -/
def toCbor (C : Cbor2) (value : Value) : Except OverflowError Bytes := C.dumps shortestFloatBytes value

end BrainSdk.Python

namespace BrainSdk.TypeScript

open Library Cbor

/-- The value tree that `toCbor` walks. A `number` is the bits of a double; a `Map` keeps its entries in insertion order. -/
inductive Value where
  | null
  | undefined
  | boolean (b : Bool)
  | bigint (n : Int)
  | number (x : Double)
  | string (s : String)
  | uint8Array (bytes : Bytes)
  | f32 (value : Double)
  | f64 (value : Double)
  | array (items : List Value)
  | map (entries : List (String × Value))

/-- `pushHead`. -/
def pushHead (major arg : Nat) : Bytes :=
  let m := major <<< 5
  if arg < 24 then [UInt8.ofNat (m ||| arg)]
  else if arg ≤ 0xFF then [UInt8.ofNat (m ||| 24), UInt8.ofNat arg]
  else if arg ≤ 0xFFFF then [UInt8.ofNat (m ||| 25), UInt8.ofNat ((arg >>> 8) &&& 0xFF), UInt8.ofNat (arg &&& 0xFF)]
  else if arg ≤ 0xFFFFFFFF then
    [UInt8.ofNat (m ||| 26), UInt8.ofNat ((arg >>> 24) &&& 0xFF), UInt8.ofNat ((arg >>> 16) &&& 0xFF),
      UInt8.ofNat ((arg >>> 8) &&& 0xFF), UInt8.ofNat (arg &&& 0xFF)]
  else UInt8.ofNat (m ||| 27) :: [56, 48, 40, 32, 24, 16, 8, 0].map (fun shift => UInt8.ofNat ((arg >>> shift) &&& 0xFF))

/-- `writeBignum`: tag 2 and the big-endian bytes. -/
def writeBignum (n : Nat) : Bytes :=
  let bytes := (Nat.digits 256 n).reverse.map UInt8.ofNat
  let bytes := if bytes.length = 0 then [0] else bytes
  pushHead 6 2 ++ pushHead 2 bytes.length ++ bytes

/-- `writeInteger`. -/
def writeInteger (n : Int) : Except CborError Bytes :=
  if n ≥ 0 then
    if n ≤ 2 ^ 64 - 1 then .ok (pushHead 0 n.toNat) else .ok (writeBignum n.toNat)
  else if -1 - n ≤ 2 ^ 64 - 1 then .ok (pushHead 1 (-1 - n).toNat)
  else .error ⟨s!"integer out of representable range: {n}"⟩

/-- The binary logarithm of one, in the unit of a double's magnitude. -/
def oneExponent : Nat := 1074

/-- `Number.isInteger`. -/
def isInteger (x : Double) : Prop := x.isFinite ∧ x.magnitude % 2 ^ oneExponent = 0

instance (x : Double) : Decidable (isInteger x) := inferInstanceAs (Decidable (_ ∧ _))

/-- `BigInt` of an integral number. -/
def bigInt (x : Double) : Int :=
  if x.sign = 0 then (x.magnitude / 2 ^ oneExponent : Nat) else -(x.magnitude / 2 ^ oneExponent : Nat)

mutual

/-- `writeValue`. -/
def writeValue : Value → Except CborError Bytes
  | .null => .ok [0xF6]
  | .undefined => .ok [0xF6]
  | .boolean b => .ok [if b then 0xF5 else 0xF4]
  | .bigint n => writeInteger n
  | .number x => if isInteger x then writeInteger (bigInt x) else .ok (writeF64 x)
  | .string s => .ok (pushHead 3 (utf8 s).length ++ utf8 s)
  | .uint8Array bytes => .ok (pushHead 2 bytes.length ++ bytes)
  | .f32 x => .ok (writeF32 x)
  | .f64 x => .ok (writeF64 x)
  | .array items => (writeItems items).map (pushHead 4 items.length ++ ·)
  | .map entries => (writeEntries entries).map (pushHead 5 entries.length ++ ·)

/-- The loop over an array. -/
def writeItems : List Value → Except CborError Bytes
  | [] => .ok []
  | x :: xs => do return (← writeValue x) ++ (← writeItems xs)

/-- The loop over a map. -/
def writeEntries : List (String × Value) → Except CborError Bytes
  | [] => .ok []
  | (k, v) :: rest => do return pushHead 3 (utf8 k).length ++ utf8 k ++ (← writeValue v) ++ (← writeEntries rest)

end

/-- `toCbor`. -/
def toCbor (value : Value) : Except CborError Bytes := writeValue value

end BrainSdk.TypeScript
