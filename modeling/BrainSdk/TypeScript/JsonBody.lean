import Mathlib.Data.Nat.Digits.Defs
import Mathlib.Data.Nat.Log
import BrainSdk.Cbor.Encode
import BrainSdk.TypeScript.Json

/-!
# JSON bodies

The rest of `http/json.ts`: `stringifyJsonWithBigInts` over what `JSON.stringify` makes of a string and of a number, the keys in snake
case on the way out and in camel case on the way in, and the fields that are `bigint`s however small they arrive.
-/

namespace BrainSdk.TypeScript.Json

open Library Library.Json Cbor

/-! ### `JSON.stringify` of a number -/

/-- The decimal digits of a natural, most significant first. -/
def decimal (n : Nat) : Units := if n = 0 then [zero] else (Nat.digits 10 n).reverse.map (fun d => 0x30 + UInt16.ofNat d)

def zeros (n : Nat) : Units := List.replicate n zero

/-- The literal of `s * 10 ^ q`, as `Number::toString` lays out its digits. -/
def layout (negative : Bool) (s : Nat) (q : Int) : Number :=
  let ds := decimal s
  let n := ds.length + q
  if 0 ≤ q ∧ n ≤ 21 then ⟨negative, ds ++ zeros q.toNat, [], []⟩
  else if 0 < n ∧ n ≤ 21 then ⟨negative, ds.take n.toNat, dot :: ds.drop n.toNat, []⟩
  else if -6 < n ∧ n ≤ 0 then ⟨negative, [zero], dot :: (zeros (-n).toNat ++ ds), []⟩
  else ⟨negative, ds.take 1, if ds.length = 1 then [] else dot :: ds.drop 1,
    0x65 :: (if n - 1 < 0 then minus else 0x2B) :: decimal (n - 1).natAbs⟩

/-- The exponent of ten that a magnitude is below. -/
def decimalExponent (M : Nat) : Int :=
  if 2 ^ oneExponent ≤ M then (Nat.log 10 (M / 2 ^ oneExponent) + 1 : Nat) else -(Nat.log 10 ((2 ^ oneExponent - 1) / M) : Nat)

/-- The two numbers of so many digits next to a magnitude, the nearer one first. -/
def candidates (negative : Bool) (M k : Nat) : List Number :=
  let q := decimalExponent M - k
  let p := M * 10 ^ (-q).toNat
  let r := 2 ^ oneExponent * 10 ^ q.toNat
  let below := p / r
  if 2 * (p % r) ≤ r then [layout negative below q, layout negative (below + 1) q]
  else [layout negative (below + 1) q, layout negative below q]

/-- `Number::toString` of a finite number that is not zero, as a literal: of the fewest digits that come back as the number. 17 digits are
enough; behind them stand all the digits that the number has. -/
def shortestLiteral (x : Double) : Number :=
  let negative := x.sign = 1
  (((List.range 17).flatMap (fun k => candidates negative x.magnitude (k + 1))).find? (fun n => numberValue n = x)).getD
    (layout negative (x.magnitude * 5 ^ oneExponent) (-oneExponent))

/-- `Number::toString`. -/
def numberText (x : Double) : Units := if x.abs = 0 then [zero] else (shortestLiteral x).literal

/-! ### `JSON.stringify` of a string -/

def isLead (c : UInt16) : Bool := 0xD800 ≤ c && c ≤ 0xDBFF

def isTrail (c : UInt16) : Bool := 0xDC00 ≤ c && c ≤ 0xDFFF

/-- A hexadecimal digit in lower case. -/
def hexDigit (n : UInt16) : UInt16 := if n < 10 then 0x30 + n else 0x57 + n

/-- `UnicodeEscape`. -/
def unicodeEscape (c : UInt16) : Units :=
  [backslash, letterU, hexDigit (c / 0x1000), hexDigit (c / 0x100 % 0x10), hexDigit (c / 0x10 % 0x10), hexDigit (c % 0x10)]

/-- A character of a string that is no surrogate. -/
def quoteUnit (c : UInt16) : Units :=
  if c = 0x08 then [backslash, 0x62]
  else if c = 0x09 then [backslash, 0x74]
  else if c = 0x0A then [backslash, 0x6E]
  else if c = 0x0C then [backslash, 0x66]
  else if c = 0x0D then [backslash, 0x72]
  else if c = quote then [backslash, quote]
  else if c = backslash then [backslash, backslash]
  else if c < 0x20 then unicodeEscape c
  else [c]

/-- The source of a string: a surrogate on its own is escaped. -/
def quoteUnits : Units → Units
  | [] => []
  | [c] => if isLead c || isTrail c then unicodeEscape c else quoteUnit c
  | c :: d :: rest =>
    if isLead c && isTrail d then c :: d :: quoteUnits rest
    else (if isLead c || isTrail c then unicodeEscape c else quoteUnit c) ++ quoteUnits (d :: rest)

/-- `JSON.stringify(s)`. -/
def stringifyString (s : Units) : Units := quote :: (quoteUnits s ++ [quote])

/-! ### `stringifyJsonWithBigInts` -/

/-- `n.toString()`. -/
def bigintText (n : Int) : Units := if n < 0 then minus :: decimal n.natAbs else decimal n.natAbs

/-- Whether a key is an array index: a numeral below 2^32 - 1. -/
def isArrayIndex (key : Units) : Bool :=
  key ≠ [] ∧ key.all isDigit ∧ (key.head? = some zero → key.length = 1) ∧ digitsValue key < 2 ^ 32 - 1

/-- The order of `Object.entries`: array indices by their number, then the other keys in the order of their creation. -/
def ownOrder {α : Type} (entries : List (Units × α)) : List (Units × α) :=
  (entries.filter (fun e => isArrayIndex e.1)).mergeSort (fun a b => digitsValue a.1 ≤ digitsValue b.1) ++
    entries.filter (fun e => ¬isArrayIndex e.1)

/-- `parts.join(",")`. -/
def join (parts : List Units) : Units := List.intercalate [comma] parts

mutual

/-- `stringifyJsonWithBigInts`. -/
def stringify : Value → Units
  | .null => units "null"
  | .undefined => units "null"
  | .boolean b => units (if b then "true" else "false")
  | .number x => if x.isFinite then numberText x else units "null"
  | .bigint n => bigintText n
  | .string s => stringifyString s
  | .array items => openBracket :: (join (stringifyItems items) ++ [closeBracket])
  | .object properties => openBrace :: (join ((ownOrder (stringifyProperties properties)).flatMap Prod.snd) ++ [closeBrace])

def stringifyItems : List Value → List Units
  | [] => []
  | v :: items => stringify v :: stringifyItems items

/-- The part of each property; one that is undefined has none. -/
def stringifyProperties : List (Units × Value) → List (Units × List Units)
  | [] => []
  | (k, .undefined) :: properties => (k, []) :: stringifyProperties properties
  | (k, v) :: properties => (k, [stringifyString k ++ colon :: stringify v]) :: stringifyProperties properties

end

/-! ### Keys -/

def underscore : UInt16 := 0x5F

def isUpper (c : UInt16) : Bool := 0x41 ≤ c && c ≤ 0x5A

def isLower (c : UInt16) : Bool := 0x61 ≤ c && c ≤ 0x7A

/-- `c.toLowerCase()` of an ASCII character. Keys are ASCII here. -/
def toLower (c : UInt16) : UInt16 := if isUpper c then c + 0x20 else c

/-- `c.toUpperCase()` of an ASCII character. -/
def toUpper (c : UInt16) : UInt16 := if isLower c then c - 0x20 else c

/-- `key.replace(/([a-z0-9])([A-Z])/g, "$1_$2")`. -/
def splitWords : Units → Units
  | [] => []
  | [c] => [c]
  | c :: d :: rest =>
    if (isLower c || isDigit c) && isUpper d then c :: underscore :: d :: splitWords rest else c :: splitWords (d :: rest)

/-- `snakeCase`. -/
def snakeCase (key : Units) : Units := (splitWords key).map toLower

/-- `key.replace(/_([a-z0-9])/g, (_m, c) => c.toUpperCase())`. -/
def camelCase : Units → Units
  | [] => []
  | [c] => [c]
  | c :: d :: rest =>
    if c = underscore ∧ (isLower d || isDigit d) = true then toUpper d :: camelCase rest else c :: camelCase (d :: rest)

/-- `out[key] = value` of a plain object. An assignment to `__proto__` creates no property. -/
def assign (out : List (Units × Value)) (key : Units) (value : Value) : List (Units × Value) :=
  if key = units "__proto__" then out else setProperty out key value

/-- The assignments in a row. -/
def assignAll (entries : List (Units × Value)) : List (Units × Value) := entries.foldl (fun out e => assign out e.1 e.2) []

mutual

/-- `toSnakeKeys`. -/
def toSnakeKeys : Value → Value
  | .array items => .array (snakeItems items)
  | .object properties => .object (assignAll ((ownOrder (snakeProperties properties)).map (fun e => (snakeCase e.1, e.2))))
  | v => v

def snakeItems : List Value → List Value
  | [] => []
  | v :: items => toSnakeKeys v :: snakeItems items

/-- Each property under its old key. -/
def snakeProperties : List (Units × Value) → List (Units × Value)
  | [] => []
  | (k, v) :: properties => (k, toSnakeKeys v) :: snakeProperties properties

end

/-! ### Wide fields -/

/-- `isWideField`. -/
def isWideField (key : Units) : Bool :=
  (units "UnixNanos").isSuffixOf key || key == units "sessionId" || key == units "session" || key == units "lsn" ||
    key == units "fromLsn" || key == units "finalLsn"

/-- `widen`. -/
def widen : Value → Value
  | .number x => if isInteger x then .bigint (bigInt x) else .number x
  | v => v

/-- The value under a key. -/
def lookup (properties : List (Units × Value)) (key : Units) : Option Value := (properties.find? (fun e => e.1 = key)).map Prod.snd

/-- `WIDE_STATEMENT_VALUE_TYPES`. -/
def wideStatementValueTypes : List Units := [units "integer", units "unix_nanos"]

/-- The value of a statement, by the type beside it. -/
def widenStatementValue (out : List (Units × Value)) : List (Units × Value) :=
  match lookup out (units "type"), lookup out (units "value") with
  | some (.string type), some (.number x) =>
    if type ∈ wideStatementValueTypes then setProperty out (units "value") (widen (.number x)) else out
  | _, _ => out

mutual

/-- `toCamelKeys`. -/
def toCamelKeys : Value → Value
  | .array items => .array (camelItems items)
  | .object properties =>
    .object (widenStatementValue (assignAll ((ownOrder (camelProperties properties)).map (fun e => (camelCase e.1, e.2)))))
  | v => v

def camelItems : List Value → List Value
  | [] => []
  | v :: items => toCamelKeys v :: camelItems items

/-- The items of `sessions`. -/
def camelSessions : List Value → List Value
  | [] => []
  | .number x :: items => widen (.number x) :: camelSessions items
  | v :: items => toCamelKeys v :: camelSessions items

/-- Each property under its old key. -/
def camelProperties : List (Units × Value) → List (Units × Value)
  | [] => []
  | (k, .array items) :: properties =>
    (k, if isWideField (camelCase k) then .array items
      else if camelCase k = units "sessions" then .array (camelSessions items)
      else .array (camelItems items)) :: camelProperties properties
  | (k, v) :: properties => (k, if isWideField (camelCase k) then widen v else toCamelKeys v) :: camelProperties properties

end

/-- `decodeJsonBody`. -/
def decodeJsonBody (text : Units) : Except SyntaxError Value := (parseJsonWithBigInts text).map toCamelKeys

end BrainSdk.TypeScript.Json
