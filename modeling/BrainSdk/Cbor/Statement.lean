import BrainSdk.Cbor.Encode

/-!
# Statement objects

The object of a statement, and the value that each SDK hands to its CBOR encoder for it: `StatementValue` and `StatementObject` of
`wire/types.py`, `encodeStatementValue` and `encodeStatementObject` of `wire/types.ts`. Both tag a variant from the outside, by a map of
one entry.
-/

namespace BrainSdk.Cbor

open Library

/-- A scalar object value. `blob` is the bytes of the server's `Vec<u8>`. -/
inductive StatementValue where
  | text (value : String)
  | integer (value : Int)
  | float (value : Double)
  | bool (value : Bool)
  | unixNanos (value : Int)
  | blob (value : Bytes)

/-- A statement object. -/
inductive StatementObject where
  | entityRef (id : Bytes)
  | value (v : StatementValue)
  | memoryRef (id : Bytes)
  | statementRef (id : Bytes)

/-- The integers that CBOR writes without a tag. -/
def Untagged (n : Int) : Prop := -2 ^ 64 ≤ n ∧ n ≤ 2 ^ 64 - 1

/-- The scalars of a statement: integers that need no tag, finite floats. -/
def StatementValue.InRange : StatementValue → Prop
  | .integer n => Untagged n
  | .unixNanos n => Untagged n
  | .float x => x.isFinite
  | .text _ => True
  | .bool _ => True
  | .blob _ => True

/-- The objects of a statement. -/
def StatementObject.InRange : StatementObject → Prop
  | .value v => v.InRange
  | .entityRef _ => True
  | .memoryRef _ => True
  | .statementRef _ => True

end BrainSdk.Cbor

namespace BrainSdk.Python

open Library Cbor

/-- `StatementValue.to_cbor_value`. The `Float` branch gives a bare float. -/
def StatementValue.toCborValue : StatementValue → Value
  | .text s => .dict [("Text", .str s)]
  | .integer n => .dict [("Integer", .int n)]
  | .float x => .dict [("Float", .float x)]
  | .bool b => .dict [("Bool", .bool b)]
  | .unixNanos n => .dict [("UnixNanos", .int n)]
  | .blob bytes => .dict [("Blob", .list (bytes.map (fun b => .int b.toNat)))]

/-- `StatementObject.to_cbor_value`. -/
def StatementObject.toCborValue : StatementObject → Value
  | .value v => .dict [("Value", StatementValue.toCborValue v)]
  | .entityRef id => .dict [("EntityRef", .bytes id)]
  | .memoryRef id => .dict [("MemoryRef", .bytes id)]
  | .statementRef id => .dict [("StatementRef", .bytes id)]

end BrainSdk.Python

namespace BrainSdk.TypeScript

open Library Cbor

/-- The number that a byte of an `Uint8Array` reads as. -/
def byteNumber (b : UInt8) : Value := .number (.mk 0 (Format.binary64.round (b.toNat * 2 ^ oneExponent)))

/-- `encodeStatementValue`. -/
def encodeStatementValue : StatementValue → Value
  | .text s => .map [("Text", .string s)]
  | .integer n => .map [("Integer", .bigint n)]
  | .float x => .map [("Float", .f64 x)]
  | .bool b => .map [("Bool", .boolean b)]
  | .unixNanos n => .map [("UnixNanos", .bigint n)]
  | .blob bytes => .map [("Blob", .array (bytes.map byteNumber))]

/-- `encodeStatementObject`. -/
def encodeStatementObject : StatementObject → Value
  | .entityRef id => .map [("EntityRef", .uint8Array id)]
  | .value v => .map [("Value", encodeStatementValue v)]
  | .memoryRef id => .map [("MemoryRef", .uint8Array id)]
  | .statementRef id => .map [("StatementRef", .uint8Array id)]

end BrainSdk.TypeScript
