import Mathlib.Data.List.Basic

/-!
# HTTP errors

`BrainHttpError` of the three HTTP clients and how each reads the body of a failed response: `from_body` of `http/error.rs`, the body
half of `_error_from` of `http/client.py`, `parseErrorBody` of `http/client.ts`. Both shapes a server sends are read: the edge's
`error` envelope and the gateway's problem document. The JSON parser is the caller's to give.
-/

namespace BrainSdk.Http

/-- A parsed JSON document. A number is its literal. -/
inductive Json where
  | null
  | bool (b : Bool)
  | number (literal : String)
  | string (s : String)
  | array (items : List Json)
  | object (entries : List (String × Json))

namespace Json

/-- The member of an object under a key. -/
def get (key : String) : Json → Option Json
  | .object entries => (entries.find? (fun e => e.1 = key)).map Prod.snd
  | _ => none

def asStr : Json → Option String
  | .string s => some s
  | _ => none

def asArray : Json → Option (List Json)
  | .array items => some items
  | _ => none

def isObject : Json → Bool
  | .object _ => true
  | _ => false

def isNull : Json → Bool
  | .null => true
  | _ => false

/-- A member that is a string. -/
def getStr (key : String) (j : Json) : Option String := (j.get key).bind asStr

end Json

/-- `FieldError`: one field of a validation failure. -/
structure FieldError where
  field : String
  code : Option String
  message : String
  deriving DecidableEq, Repr

/-- An entry of `errors[]` with both a field and a message; any other is dropped. -/
def fieldError (e : Json) : Option FieldError := do
  return { field := ← e.getStr "field", code := e.getStr "code", message := ← e.getStr "message" }

/-- The fields of a validation failure, named one after the other. -/
def joinFieldErrors (fieldErrors : List FieldError) : String :=
  "; ".intercalate (fieldErrors.map (fun e => e.field ++ ": " ++ e.message))

end BrainSdk.Http

namespace BrainSdk.Rust

open Http

/-- `BrainHttpError`. -/
structure BrainHttpError where
  status : Nat
  code : String
  message : String
  fieldErrors : List FieldError

/-- `BrainHttpError::transport`. -/
def BrainHttpError.transport (message : String) : BrainHttpError := ⟨0, "transport", message, []⟩

/-- `parse_field_errors`. -/
def parseFieldErrors (errors : Option Json) : List FieldError := ((errors.bind Json.asArray).getD []).filterMap fieldError

/-- `BrainHttpError::from_body`, with what `serde_json` made of the body. -/
def BrainHttpError.fromBody (status : Nat) (body : String) (parsed : Option Json) : BrainHttpError :=
  let code := "http_error"
  let message := s!"HTTP {status}"
  match parsed with
  | some v =>
    match (v.get "error").filter Json.isObject with
    | some err => ⟨status, (err.getStr "code").getD code, (err.getStr "message").getD message, []⟩
    | none =>
      match v.getStr "code" with
      | some c =>
        let message := ((v.getStr "detail").or (v.getStr "title")).getD message
        let fieldErrors := parseFieldErrors (v.get "errors")
        ⟨status, c, if fieldErrors.isEmpty then message else joinFieldErrors fieldErrors, fieldErrors⟩
      | none => ⟨status, code, message, []⟩
  | none => ⟨status, code, if body = "" then message else body, []⟩

end BrainSdk.Rust

namespace BrainSdk.Python

open Http

/-- `BrainHttpError`. `code` and `message` of an `error` envelope are whatever JSON the server put there. `retryAfter` is a
`Retry-After` hint in the unit `α` of the caller. -/
structure BrainHttpError (α : Type) where
  status : Nat
  code : Json
  message : Json
  fieldErrors : List FieldError
  retryAfter : Option α

/-- `BrainHttpError(0, "transport", message)`. -/
def BrainHttpError.transport {α : Type} (message : String) : BrainHttpError α := ⟨0, .string "transport", .string message, [], none⟩

/-- `_field_errors`. -/
def fieldErrors (raw : Option Json) : List FieldError := ((raw.bind Json.asArray).getD []).filterMap fieldError

/-- The error of a response with this status, from what the body parsed to, if it was read, decoded and parsed. -/
def errorFromBody {α : Type} (status : Nat) (payload : Option Json) (retryAfter : Option α) : BrainHttpError α :=
  let code := Json.string "http_error"
  let message := Json.string s!"HTTP {status}"
  match payload with
  | none => ⟨status, code, message, [], retryAfter⟩
  | some payload =>
    match (payload.get "error").filter Json.isObject with
    | some err => ⟨status, (err.get "code").getD code, (err.get "message").getD message, [], retryAfter⟩
    | none =>
      match payload.getStr "code" with
      | some c =>
        let message := (((payload.getStr "detail").or (payload.getStr "title")).map Json.string).getD message
        let fieldErrors := fieldErrors (payload.get "errors")
        ⟨status, .string c, if fieldErrors.isEmpty then message else .string (joinFieldErrors fieldErrors), fieldErrors, retryAfter⟩
      | none => ⟨status, code, message, [], retryAfter⟩

end BrainSdk.Python

namespace BrainSdk.TypeScript

open Http

/-- `BrainHttpError`. The `code` of an `error` envelope is whatever JSON the server put there. -/
structure BrainHttpError where
  status : Nat
  code : Json
  message : String
  fieldErrors : List FieldError

/-- What `parseErrorBody` returns. The `message` of an `error` envelope too is whatever JSON the server put there. -/
structure ErrorBody where
  code : Json
  message : Json
  fieldErrors : List FieldError

/-- A truthy value that `typeof` calls an object. -/
def isObjectLike : Json → Bool
  | .object _ => true
  | .array _ => true
  | _ => false

/-- `value ?? default`, where a missing member is `undefined`. -/
def coalesce (value : Option Json) (default : Json) : Json :=
  match value with
  | none => default
  | some .null => default
  | some v => v

/-- `parseErrorBody`, with what `JSON.parse` made of the text. A `null` among `errors` makes the reading of its fields throw, after
`code` and `message` are set. -/
def parseErrorBody (status : Nat) (text : String) (parsed : Option Json) : ErrorBody :=
  let code := Json.string "http_error"
  let message := Json.string (if text = "" then s!"HTTP {status}" else text)
  match parsed with
  | none => ⟨code, message, []⟩
  | some parsed =>
    match (parsed.get "error").filter isObjectLike with
    | some nested => ⟨coalesce (nested.get "code") code, coalesce (nested.get "message") message, []⟩
    | none =>
      match parsed.getStr "code" with
      | some c =>
        let message := (((parsed.getStr "detail").or (parsed.getStr "title")).map Json.string).getD message
        let errors := ((parsed.get "errors").bind Json.asArray).getD []
        let fieldErrors := if errors.any Json.isNull then [] else errors.filterMap fieldError
        ⟨.string c, if fieldErrors.isEmpty then message else .string (joinFieldErrors fieldErrors), fieldErrors⟩
      | none => ⟨code, message, []⟩

section

variable (numberText : String → String)

mutual

/-- `ToString` of a parsed document, or the message of the `TypeError` it throws. An object has the `toString` of every object unless it
has a member of that name, which is no function; then its `valueOf` returns no primitive either. -/
def toText : Json → Except String String
  | .null => .ok "null"
  | .bool b => .ok (if b then "true" else "false")
  | .number literal => .ok (numberText literal)
  | .string s => .ok s
  | .array items => (elementTexts items).map (",".intercalate ·)
  | .object entries =>
    if entries.any (fun e => e.1 = "toString") then .error "Cannot convert object to primitive value" else .ok "[object Object]"

/-- What `join` writes for the elements of an array; for a `null` it is nothing. -/
def elementTexts : List Json → Except String (List String)
  | [] => .ok []
  | item :: rest => (if item.isNull then .ok "" else toText item).bind fun text => (elementTexts rest).map (text :: ·)

end

/-- `new BrainHttpError(status, code, message, { fieldErrors })`: the constructor of `Error` makes the message a string. -/
def BrainHttpError.new (status : Nat) (body : ErrorBody) : Except String BrainHttpError :=
  (toText numberText body.message).map (⟨status, body.code, ·, body.fieldErrors⟩)

end

/-- A document that can be made a string: no object that this comes to has a member `toString`. -/
inductive Coercible : Json → Prop where
  | null : Coercible .null
  | bool (b : Bool) : Coercible (.bool b)
  | number (literal : String) : Coercible (.number literal)
  | string (s : String) : Coercible (.string s)
  | array {items : List Json} (h : ∀ item ∈ items, Coercible item) : Coercible (.array items)
  | object {entries : List (String × Json)} (h : ∀ e ∈ entries, e.1 ≠ "toString") : Coercible (.object entries)

section

variable {numberText : String → String}

mutual

theorem toText_ok_iff : ∀ j, (∃ text, toText numberText j = .ok text) ↔ Coercible j
  | .null => iff_of_true ⟨_, rfl⟩ .null
  | .bool b => iff_of_true ⟨_, rfl⟩ (.bool b)
  | .number literal => iff_of_true ⟨_, rfl⟩ (.number literal)
  | .string s => iff_of_true ⟨_, rfl⟩ (.string s)
  | .array items => by
    have harray : Coercible (.array items) ↔ ∀ item ∈ items, Coercible item := ⟨fun | .array h => h, .array⟩
    rw [harray, ← elementTexts_ok_iff items]
    unfold toText
    cases elementTexts numberText items with
    | ok texts => exact iff_of_true ⟨_, rfl⟩ ⟨texts, rfl⟩
    | error e => exact iff_of_false (fun ⟨_, h⟩ => nomatch h) (fun ⟨_, h⟩ => nomatch h)
  | .object entries => by
    unfold toText
    by_cases hmember : entries.any (fun e => e.1 = "toString") = true
    · rw [if_pos hmember]
      obtain ⟨e, he, hname⟩ := List.any_eq_true.1 hmember
      exact iff_of_false (fun ⟨_, h⟩ => nomatch h) (fun | .object h => h e he (of_decide_eq_true hname))
    · rw [if_neg hmember]
      refine iff_of_true ⟨_, rfl⟩ (.object fun e he hname => hmember ?_)
      exact List.any_eq_true.2 ⟨e, he, decide_eq_true hname⟩

theorem elementTexts_ok_iff : ∀ items, (∃ texts, elementTexts numberText items = .ok texts) ↔ ∀ item ∈ items, Coercible item
  | [] => iff_of_true ⟨[], by rw [elementTexts]⟩ nofun
  | item :: rest => by
    have hitem : (∃ text, (if item.isNull then .ok "" else toText numberText item) = .ok text) ↔ Coercible item := by
      rw [← toText_ok_iff item]
      cases item with
      | null => exact iff_of_true ⟨_, rfl⟩ ⟨_, by rw [toText]⟩
      | _ => exact Iff.rfl
    rw [List.forall_mem_cons, ← hitem, ← elementTexts_ok_iff rest, elementTexts]
    cases (if item.isNull then Except.ok "" else toText numberText item) with
    | error e => exact iff_of_false (fun ⟨_, h⟩ => nomatch h) (fun ⟨⟨_, h⟩, _⟩ => nomatch h)
    | ok text =>
      cases elementTexts numberText rest with
      | error e => exact iff_of_false (fun ⟨_, h⟩ => nomatch h) (fun ⟨_, _, h⟩ => nomatch h)
      | ok texts => exact iff_of_true ⟨_, rfl⟩ ⟨⟨_, rfl⟩, _, rfl⟩

end

/-- The error of a failed response can be built exactly if its message can be made a string, and it carries the status. -/
theorem new_cases (numberText : String → String) (status : Nat) (body : ErrorBody) :
    (∃ err, BrainHttpError.new numberText status body = .ok err ∧ err.status = status ∧ Coercible body.message) ∨
    ∃ thrown, BrainHttpError.new numberText status body = .error thrown ∧ ¬Coercible body.message := by
  rw [← @toText_ok_iff numberText body.message]
  unfold BrainHttpError.new
  cases toText numberText body.message with
  | ok text => exact .inl ⟨_, rfl, rfl, text, rfl⟩
  | error thrown => exact .inr ⟨thrown, rfl, fun ⟨_, h⟩ => nomatch h⟩

end

end BrainSdk.TypeScript
