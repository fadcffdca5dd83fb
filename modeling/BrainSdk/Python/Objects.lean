import BrainSdk.Cbor.Encode
import BrainSdk.Python.Builtins

/-!
# Decoded values

What the payload classes of `wire/types.py` ask of the value that `cbor2.loads` gave, whatever it is: a class with one operation for each
use, and the values that a peer of the SDK's own kind sends as its instance. Each use can raise, and what it raises is none of the
exceptions of the SDK.
-/

namespace BrainSdk.Python

open Library Cbor

/-- What the payload codec can raise. -/
inductive PyException where
  | cborError (message : String)
  | trailingBytesError (message : String)
  | raggedVectorError (message : String)
  | typeError (message : String)
  | keyError (key : String)
  | valueError (message : String)
  | attributeError (message : String)
  | overflowError (message : String)
  | other (name : String)
  deriving DecidableEq, Repr

/-- `isinstance(e, CborError)`. -/
def PyException.isCborError : PyException → Bool
  | .cborError _ => true
  | .trailingBytesError _ => true
  | .raggedVectorError _ => true
  | _ => false

/-- What the payload classes do with a decoded value. The keys of a mapping have a hash. -/
class PyObject (O : Type) where
  /-- `v is None` -/
  isNone : O → Bool
  /-- `isinstance(v, dict)` -/
  isDict : O → Bool
  /-- `v[key]` -/
  subscript : O → String → Except PyException O
  /-- `v.get(key)`; `none` is the default. -/
  get : O → String → Except PyException (Option O)
  /-- `v.items()`, in a row -/
  items : O → Except PyException (List (O × O))
  /-- `list(v)` -/
  list : O → Except PyException (List O)
  /-- `v == text` -/
  equals : O → String → Bool
  /-- `int(v)` -/
  int : O → Except PyException O
  /-- a string literal -/
  ofString : String → O
  /-- an integer literal -/
  ofInt : Int → O
  /-- `type(v).__name__` -/
  typeName : O → String
  /-- `repr(v)` -/
  repr : O → String
  subscript_error : ∀ v key e, subscript v key = .error e → e.isCborError = false
  items_error : ∀ v e, items v = .error e → e.isCborError = false
  list_error : ∀ v e, list v = .error e → e.isCborError = false

namespace Value

/-- `type(v).__name__`. -/
def typeName : Value → String
  | .none => "NoneType"
  | .bool _ => "bool"
  | .int _ => "int"
  | .float _ => "float"
  | .str _ => "str"
  | .bytes _ => "bytes"
  | .list _ => "list"
  | .dict _ => "dict"
  | .floatField _ => "F64"

/-- The value under a key. -/
def lookup (entries : List (String × Value)) (key : String) : Option Value := (entries.find? (fun e => e.1 = key)).map Prod.snd

/-- `v[key]`. -/
def subscript : Value → String → Except PyException Value
  | .dict entries, key => (lookup entries key).elim (.error (.keyError key)) .ok
  | .str _, _ => .error (.typeError "string indices must be integers, not 'str'")
  | .bytes _, _ => .error (.typeError "byte indices must be integers or slices, not str")
  | .list _, _ => .error (.typeError "list indices must be integers or slices, not str")
  | v, _ => .error (.typeError s!"'{typeName v}' object is not subscriptable")

/-- `v.get(key)`. -/
def get : Value → String → Except PyException (Option Value)
  | .dict entries, key => .ok (lookup entries key)
  | v, _ => .error (.attributeError s!"'{typeName v}' object has no attribute 'get'")

/-- `v.items()`. -/
def items : Value → Except PyException (List (Value × Value))
  | .dict entries => .ok (entries.map (fun e => (.str e.1, e.2)))
  | v => .error (.attributeError s!"'{typeName v}' object has no attribute 'items'")

/-- `list(v)`. -/
def listOf : Value → Except PyException (List Value)
  | .list items => .ok items
  | .dict entries => .ok (entries.map (fun e => .str e.1))
  | .str s => .ok (s.toList.map (fun c => .str (String.singleton c)))
  | .bytes b => .ok (b.map (fun b => .int b.toNat))
  | v => .error (.typeError s!"'{typeName v}' object is not iterable")

/-- `v == text`. -/
def equals : Value → String → Bool
  | .str s, text => s = text
  | _, _ => false

/-- `int(s)`; `quoted` is how the error shows the literal. -/
def intOfText (quoted : String) (s : List Char) : Except PyException Value :=
  match parseInt (Http.strip isSpace s) with
  | Option.some n => .ok (.int n)
  | Option.none => .error (.valueError s!"invalid literal for int() with base 10: {quoted}")

/-- `int(v)`. -/
def intOf : Value → Except PyException Value
  | .int n => .ok (.int n)
  | .bool b => .ok (.int (if b then 1 else 0))
  | .float x =>
    if x.isNaN then .error (.valueError "cannot convert float NaN to integer")
    else if x.isInf then .error (.overflowError "cannot convert float infinity to integer")
    else .ok (.int (truncate x))
  | .str s => intOfText s!"'{s}'" s.toList
  | .bytes b =>
    let text := b.map (fun b => Char.ofNat b.toNat)
    intOfText s!"b'{String.ofList text}'" text
  | v => .error (.typeError s!"int() argument must be a string, a bytes-like object or a real number, not '{typeName v}'")

/-- `repr(v)` of a string; other values are not shown in an error. -/
def repr : Value → String
  | .str s => s!"'{s}'"
  | v => typeName v

end Value

instance : PyObject Value where
  isNone | .none => true | _ => false
  isDict | .dict _ => true | _ => false
  subscript := Value.subscript
  get := Value.get
  items := Value.items
  list := Value.listOf
  equals := Value.equals
  int := Value.intOf
  ofString := .str
  ofInt := .int
  typeName := Value.typeName
  repr := Value.repr
  subscript_error v key e h := by
    unfold Value.subscript at h
    split at h
    · rename_i entries
      rcases hfound : Value.lookup entries key with - | x
      · rw [hfound] at h
        rw [← Except.error.inj h]
        rfl
      · rw [hfound] at h
        cases h
    all_goals
      rw [← Except.error.inj h]
      rfl
  items_error v e h := by
    unfold Value.items at h
    split at h
    · cases h
    · rw [← Except.error.inj h]
      rfl
  list_error v e h := by
    unfold Value.listOf at h
    split at h
    · cases h
    · cases h
    · cases h
    · cases h
    · rw [← Except.error.inj h]
      rfl

end BrainSdk.Python
