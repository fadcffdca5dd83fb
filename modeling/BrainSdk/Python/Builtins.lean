import BrainSdk.Cbor.Float

/-!
# `int`

What `int` makes of a string and of a float. Of the decimal digits of Unicode those of ASCII.
-/

namespace BrainSdk.Http

/-- Cut off at both ends what `blank` names. -/
def strip (blank : Char → Bool) (s : List Char) : List Char := ((s.dropWhile blank).reverse.dropWhile blank).reverse

/-- What decimal digits spell. -/
def ofDigits (digits : List Nat) : Nat := digits.foldl (fun n d => n * 10 + d) 0

def digitValue (c : Char) : Nat := c.toNat - '0'.toNat

end BrainSdk.Http

namespace BrainSdk.Python

open Cbor Http

/-- The white space of Latin-1 that `str.strip` cuts off, and `int`. -/
def isSpace (c : Char) : Bool :=
  (9 ≤ c.toNat && c.toNat ≤ 13) || (28 ≤ c.toNat && c.toNat ≤ 32) || c.toNat = 0x85 || c.toNat = 0xA0

/-- Decimal digits, where a single underscore may stand between two of them. -/
def intDigits : List Char → Option (List Nat)
  | [] => none
  | c :: rest =>
    if c.isDigit then
      match rest with
      | [] => some [digitValue c]
      | '_' :: rest => (intDigits rest).map (digitValue c :: ·)
      | c' :: rest => (intDigits (c' :: rest)).map (digitValue c :: ·)
    else none

/-- `int(s)` of a decimal literal, or `none` for a `ValueError`. No more than 4300 digits are converted. -/
def parseInt (s : List Char) : Option Int :=
  let (negative, digits) := match s with
    | '-' :: rest => (true, rest)
    | '+' :: rest => (false, rest)
    | s => (false, s)
  (intDigits digits).bind (fun ds =>
    if ds.length ≤ 4300 then some (if negative then -(ofDigits ds : Int) else ofDigits ds) else none)

/-- `int(x)` of a finite float: its fraction is cut off. -/
def truncate (x : Double) : Int :=
  let n : Nat := x.magnitude / 2 ^ 1074
  if x.sign = 1 then -(n : Int) else n

end BrainSdk.Python
