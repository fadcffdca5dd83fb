import BrainSdk.Cbor.Float
import BrainSdk.Library.Json

/-!
# Exact integers in JSON

`parseJsonWithBigInts` of `http/json.ts`, in front of `JSON.parse`: a scan rewrites each integer past the safe range as a tagged string,
and a reviver turns the tagged strings into `bigint`s. A JavaScript string is its UTF-16 code units.
-/

namespace BrainSdk.TypeScript.Json

open Library Library.Json Cbor

/-! ### `JSON.parse` -/

/-- The JavaScript values of a body. An array has no holes. An object keeps its own properties in the order in which they were created, one
for each key. -/
inductive Value where
  | null
  | undefined
  | boolean (b : Bool)
  | number (x : Double)
  | bigint (n : Int)
  | string (s : Units)
  | array (items : List Value)
  | object (properties : List (Units × Value))

/-- What `JSON.parse` and `BigInt` throw. The message is the engine's. -/
inductive SyntaxError where
  | syntaxError
  deriving DecidableEq, Repr

/-- A property is created behind the others, or keeps its place with the new value. -/
def setProperty : List (Units × Value) → Units → Value → List (Units × Value)
  | [], key, value => [(key, value)]
  | (k, v) :: rest, key, value => if k = key then (k, value) :: rest else (k, v) :: setProperty rest key value

/-- The number that digits spell. -/
def digitsValue (ds : Units) : Nat := ds.foldl (fun n c => 10 * n + (c - 0x30).toNat) 0

/-- The integer part of a literal, with its sign. -/
def intValue (n : Number) : Int := if n.negative then -(digitsValue n.int : Int) else digitsValue n.int

/-- The exponent of a literal, 0 if it has none. -/
def exponentValue (n : Number) : Int :=
  match n.exp.drop 1 with
  | [] => 0
  | s :: ds => if s = minus then -(digitsValue ds : Int) else if isSign s then digitsValue ds else digitsValue (s :: ds)

/-- The digits behind the point. -/
def fractionDigits (n : Number) : Units := n.frac.drop 1

/-- The number of a literal: the double nearest to its value, or an infinity past the largest. -/
def numberValue (n : Number) : Double :=
  let mantissa := digitsValue (n.int ++ fractionDigits n)
  let power := exponentValue n - (fractionDigits n).length
  let bits := Format.binary64.roundDiv (mantissa * 10 ^ power.toNat * 2 ^ 1074) (10 ^ (-power).toNat)
  .mk (if n.negative then 1 else 0) (min bits Format.binary64.inf)

mutual

/-- The value of a text: what each number literal comes to is given. The last of the members with a key is the one that stays. -/
def evaluate (number : Number → Value) : Tree → Value
  | .null => .null
  | .bool b => .boolean b
  | .number n => number n
  | .string v => .string v
  | .array items => .array (evaluateItems number items)
  | .object members => .object (evaluateMembers number members [])

def evaluateItems (number : Number → Value) : List Tree → List Value
  | [] => []
  | t :: items => evaluate number t :: evaluateItems number items

def evaluateMembers (number : Number → Value) : List (Units × Tree) → List (Units × Value) → List (Units × Value)
  | [], properties => properties
  | (k, t) :: members, properties => evaluateMembers number members (setProperty properties k (evaluate number t))

end

/-- Each literal as a `number`. -/
def numberOf (n : Number) : Value := .number (numberValue n)

/-- `JSON.parse(text)`. -/
def jsonParse (text : Units) : Except SyntaxError Value := (parse text).elim (.error .syntaxError) (fun t => .ok (evaluate numberOf t))

mutual

/-- `JSON.parse(text, reviver)` behind the parse: the reviver is given each value, from the leaves up, and what it returns is put in its
place. This reviver looks at no key. -/
def internalize (reviver : Value → Except SyntaxError Value) : Value → Except SyntaxError Value
  | .array items => do
    let items ← internalizeItems reviver items
    reviver (.array items)
  | .object properties => do
    let properties ← internalizeProperties reviver properties
    reviver (.object properties)
  | v => reviver v

def internalizeItems (reviver : Value → Except SyntaxError Value) : List Value → Except SyntaxError (List Value)
  | [] => .ok []
  | v :: items => do
    let v ← internalize reviver v
    let items ← internalizeItems reviver items
    return v :: items

def internalizeProperties (reviver : Value → Except SyntaxError Value) :
    List (Units × Value) → Except SyntaxError (List (Units × Value))
  | [] => .ok []
  | (k, v) :: properties => do
    let v ← internalize reviver v
    let properties ← internalizeProperties reviver properties
    return (k, v) :: properties

end

/-! ### Strings and integers of JavaScript -/

/-- `text.slice(a, b)`. -/
def slice (text : Units) (a b : Nat) : Units := (text.take b).drop a

/-- `text.includes(s)`. -/
def includes (text s : Units) : Bool := text.tails.any (fun t => s.isPrefixOf t)

/-- `/[0-9]{16}/.test(text)`. -/
def hasLongDigits (text : Units) : Bool := text.tails.any (fun t => 16 ≤ (t.takeWhile isDigit).length)

/-- `BigInt(s)` of a decimal literal. Nothing else is given to it. -/
def parseBigInt : Units → Option Int
  | [] => some 0
  | c :: s =>
    if c = minus then if s ≠ [] ∧ s.all isDigit then some (-(digitsValue s : Int)) else none
    else if (c :: s).all isDigit then some (digitsValue (c :: s)) else none

/-! ### The scan -/

/-- `MAX_SAFE`. -/
def maxSafe : Int := 2 ^ 53 - 1

/-- `TAG`. -/
def tag : Units := [0x00, 0x6E]

/-- `TAG_SOURCE`. -/
def tagSource : Units := quote :: units "\\u0000n"

/-- The source of a string that begins with NUL: a quote and its escape. -/
def nulSource : Units := quote :: units "\\u0000"

/-- The loop of `isKeyPosition`, over what follows the string. -/
def isKeyPosition.scan : Units → Bool
  | [] => false
  | c :: rest => if isSpace c then isKeyPosition.scan rest else c == colon

/-- `isKeyPosition`. -/
def isKeyPosition (text : Units) (stop : Nat) : Bool := isKeyPosition.scan (text.drop stop)

/-- The loop of `endOfString`, over what follows the quote, at a place of the text. The last character ends the text, whatever it is. -/
def endOfString.scan : Units → Nat → Nat
  | [], i => i
  | [_], i => i + 1
  | c :: d :: rest, i =>
    if c = backslash then endOfString.scan rest (i + 2)
    else if c = quote then i + 1
    else endOfString.scan (d :: rest) (i + 1)

/-- `endOfString`. -/
def endOfString (text : Units) (start : Nat) : Nat := endOfString.scan (text.drop (start + 1)) (start + 1)

/-- `isUnsafeInteger`. A literal of the grammar is one that `BigInt` reads. -/
def isUnsafeInteger (literal : Units) : Bool :=
  let digits := if literal.head? = some minus then literal.length - 1 else literal.length
  if digits < 16 then false
  else (parseBigInt literal).elim false (fun value => value > maxSafe ∨ value < -maxSafe)

/-- The variables of the scan. -/
structure Scan where
  out : Units
  cut : Nat
  rewrote : Bool
  i : Nat
  deriving DecidableEq, Repr

/-- One turn of the scan, at a character of the text. -/
def Scan.turn (text : Units) (s : Scan) (c : UInt16) : Scan :=
  if c = quote then
    let stop := endOfString text s.i
    if nulSource.isPrefixOf (text.drop s.i) ∧ ¬isKeyPosition text stop then
      { out := s.out ++ (slice text s.cut s.i ++ tagSource ++ slice text (s.i + 1) stop), cut := stop, rewrote := true, i := stop }
    else { s with i := stop }
  else if c = minus ∨ isDigit c then
    match takeNumber (text.drop s.i) with
    | none => { s with i := s.i + 1 }
    | some m =>
      let literal := m.1.literal
      if m.1.frac = [] ∧ m.1.exp = [] ∧ isUnsafeInteger literal then
        { out := s.out ++ (slice text s.cut s.i ++ tagSource ++ literal ++ [quote]), cut := s.i + literal.length, rewrote := true,
          i := s.i + literal.length }
      else { s with i := s.i + literal.length }
  else { s with i := s.i + 1 }

/-- The scan, at so many turns. -/
def Scan.loop (text : Units) : Nat → Scan → Scan
  | 0, s => s
  | turns + 1, s => text[s.i]?.elim s (fun c => Scan.loop text turns (s.turn text c))

/-- The scan of a text. Each turn moves on, so there are turns enough. -/
def scan (text : Units) : Scan := Scan.loop text text.length ⟨[], 0, false, 0⟩

/-- The reviver. -/
def reviver : Value → Except SyntaxError Value
  | .string s =>
    if tag.isPrefixOf s then
      let rest := s.drop tag.length
      if rest.head? = some 0 then .ok (.string rest) else (parseBigInt rest).elim (.error .syntaxError) (fun n => .ok (.bigint n))
    else .ok (.string s)
  | v => .ok v

/-- `parseJsonWithBigInts`. -/
def parseJsonWithBigInts (text : Units) : Except SyntaxError Value :=
  if ¬hasLongDigits text ∧ ¬includes text (units "\\u0000") then jsonParse text
  else
    let s := scan text
    if ¬s.rewrote then jsonParse text
    else do
      let v ← jsonParse (s.out ++ text.drop s.cut)
      internalize reviver v

end BrainSdk.TypeScript.Json
