import BrainSdk.Python.Payloads

/-!
# The payload codec

`encode_payload` and `decode_payload` of `wire/types.py`, over `to_cbor` and `from_cbor` of `wire/cbor.py`. What `cbor2.loads` gives or
raises is a parameter.
-/

namespace BrainSdk.Python.Types

open Library Cbor

/-- `str(e)`. -/
def PyException.str : PyException → String
  | .cborError message => message
  | .trailingBytesError message => message
  | .raggedVectorError message => message
  | .typeError message => message
  | .keyError key => s!"'{key}'"
  | .valueError message => message
  | .attributeError message => message
  | .overflowError message => message
  | .other name => name

/-! ### Decoding -/

section

variable {O : Type} [PyObject O] (loads : Bytes → Except PyException O)

/-- `from_cbor_prefix`. The scanner raises a `CborError`, and what `cbor2` raises is turned into one. -/
def fromCborPrefix (data : Bytes) : Except PyException (O × Nat) :=
  match cborItemEnd data 0 with
  | .error e => .error (.cborError e.message)
  | .ok consumed =>
    match loads (slice data 0 consumed) with
    | .error exc => .error (.cborError s!"CBOR decode failed: {PyException.str exc}")
    | .ok value => .ok (value, consumed)

omit [PyObject O] in
theorem fromCborPrefix_ok {loads : Bytes → Except PyException O} {data : Bytes} {consumed : Nat} {v : O}
    (hend : cborItemEnd data 0 = .ok consumed) (hloads : loads (slice data 0 consumed) = .ok v) :
    fromCborPrefix loads data = .ok (v, consumed) := by
  unfold fromCborPrefix
  rw [hend]
  dsimp only
  rw [hloads]

omit [PyObject O] in
/-- What is no item, or is none to `cbor2`, comes to a `CborError`. -/
theorem fromCborPrefix_cases (loads : Bytes → Except PyException O) (data : Bytes) :
    (∃ consumed v, cborItemEnd data 0 = .ok consumed ∧ loads (slice data 0 consumed) = .ok v) ∨
    ∃ message, fromCborPrefix loads data = .error (.cborError message) := by
  unfold fromCborPrefix
  rcases cborItemEnd data 0 with e | consumed
  · exact .inr ⟨_, rfl⟩
  · dsimp only
    rcases hloads : loads (slice data 0 consumed) with e | v
    · exact .inr ⟨_, rfl⟩
    · exact .inl ⟨consumed, v, rfl, hloads⟩

/-- `from_cbor`. -/
def fromCbor (data : Bytes) : Except PyException O := do
  let r ← fromCborPrefix loads data
  if r.2 ≠ data.length then .error (.trailingBytesError s!"{data.length - r.2} trailing bytes after CBOR payload") else return r.1

theorem slice_all (data : Bytes) : slice data 0 data.length = data := by
  unfold slice
  rw [List.take_length, List.drop_zero]

omit [PyObject O] in
theorem fromCbor_ok {loads : Bytes → Except PyException O} {data : Bytes} {v : O} (hend : cborItemEnd data 0 = .ok data.length)
    (hloads : loads data = .ok v) : fromCbor loads data = .ok v := by
  have hslice : loads (slice data 0 data.length) = .ok v := by rwa [slice_all]
  unfold fromCbor
  rw [fromCborPrefix_ok hend hslice]
  simp only [bind, Except.bind, ne_eq, not_true_eq_false, if_false]
  rfl

omit [PyObject O] in
/-- Bytes behind the item come to a `TrailingBytesError`. -/
theorem fromCbor_trailing {loads : Bytes → Except PyException O} {data : Bytes} {consumed : Nat} {v : O}
    (hread : fromCborPrefix loads data = .ok (v, consumed)) (hlen : consumed ≠ data.length) :
    ∃ message, fromCbor loads data = .error (.trailingBytesError message) := by
  unfold fromCbor
  rw [hread]
  simp only [bind, Except.bind, ne_eq, hlen, not_false_eq_true, if_true]
  exact ⟨_, rfl⟩

/-- `_as_map`. -/
def asMap (value : O) : Except PyException O :=
  if PyObject.isDict value then .ok value
  else .error (.typeError s!"payload must be a CBOR map, got {PyObject.typeName value}")

/-- `decode_payload` of a class other than `EncodeVectorDirectRequest`. -/
def decodePayload {T : Type} (fromMap : O → Except PyException T) (data : Bytes) : Except PyException T := do
  let value ← fromCbor loads data
  let m ← asMap value
  fromMap m

/-- The 4 bytes of a `<f`. -/
def unpackSingle (data : Bytes) : Double := structUnpack .binary32 data.reverse

/-- `struct.unpack(f"<{count}f", data)`. -/
def unpackSingles (data : Bytes) : Nat → List Double
  | 0 => []
  | count + 1 => unpackSingle (data.take 4) :: unpackSingles (data.drop 4) count

/-- `le_bytes_to_f32_list`. -/
def leBytesToF32List (data : Bytes) : Except PyException (List Double) :=
  if data.length % 4 ≠ 0 then .error (.raggedVectorError s!"vector section is {data.length} bytes, not a multiple of 4")
  else .ok (unpackSingles data (data.length / 4))

/-- `decode_payload(EncodeVectorDirectRequest, data)`. -/
def decodeVectorPayload (data : Bytes) : Except PyException (EncodeVectorDirectRequest O) := do
  let r ← fromCborPrefix loads data
  let m ← asMap r.1
  let vec ← EncodeVectorDirectRequest.fromMap m
  let vector ← leBytesToF32List (data.drop r.2)
  return { vec with vector := vector }

end

/-! ### Encoding -/

/-- An `OverflowError` among the exceptions. -/
def overflow {α : Type} (r : Except OverflowError α) : Except PyException α := r.mapError (fun e => .overflowError e.message)

/-- `struct.pack("<f", x)` of a finite float. -/
def packSingle (x : Double) : Except PyException Bytes := (overflow (structPack .binary32 4 "f" x)).map List.reverse

/-- `round_f32` of a finite float: an `F32` around the float rounded to single precision. -/
def roundF32 : Value → Except PyException Value
  | .float x => (packSingle x).map (fun data => .floatField (unpackSingle data))
  | v => .error (.typeError s!"required argument is not a float, got {Value.typeName v}")

/-- `self.name`. -/
def getAttribute (c : PlainClass) (values : Instance Value) (name : String) : Except PyException Value :=
  (((c.attributes.map Prod.fst).zip values).find? (fun a => a.1 = name)).elim
    (.error (.attributeError s!"object has no attribute '{name}'")) (fun a => .ok a.2)

/-- What an entry of a `to_map` does to the attribute. -/
def MapEntry.write (e : MapEntry) (value : Value) : Except PyException Value := if e.rounded then roundF32 value else .ok value

/-- `to_map` of a class of plain attributes. -/
def PlainClass.toMapOf (c : PlainClass) (values : Instance Value) : Except PyException Value := do
  let entries ← c.toMap.mapM (fun e => do
    let value ← getAttribute c values e.attr
    let value ← e.write value
    return (e.key, value))
  return .dict entries

/-- `to_cbor_value` of a variant name with an instance of a class. -/
def Tagged.toCborValue (t : Tagged Value) : Except PyException Value := do
  let body ← t.body.toMapOf t.value
  match t.variant with
  | .str variant => return .dict [(variant, body)]
  | v => .error (.typeError s!"a variant is a string, got {Value.typeName v}")

/-- `None if v is None else v.to_map()`. -/
def noneOr {α : Type} (toMap : α → Except PyException Value) (v : Option α) : Except PyException Value := v.elim (.ok .none) toMap

/-- `SubscriptionEvent.to_map`. -/
def SubscriptionEvent.toMap (e : SubscriptionEvent Value) : Except PyException Value := do
  let salience ← roundF32 e.salience
  let graph_payload ← noneOr Tagged.toCborValue e.graph_payload
  let edge_payload ← noneOr edgeEventPayload.toMapOf e.edge_payload
  let stage_payload ← noneOr Tagged.toCborValue e.stage_payload
  return .dict [
    ("event_type", e.event_type),
    ("memory_id", e.memory_id),
    ("session_id", e.session_id),
    ("text", e.text),
    ("kind", e.kind),
    ("salience", salience),
    ("timestamp_unix_nanos", e.timestamp_unix_nanos),
    ("lsn", e.lsn),
    ("graph_payload", graph_payload),
    ("edge_payload", edge_payload),
    ("stage_kind", e.stage_kind),
    ("stage_outcome", e.stage_outcome),
    ("stage_payload", stage_payload)]

/-- `if v`, of an integer. -/
def truthy : Value → Bool
  | .int n => n ≠ 0
  | _ => true

/-- `ActAs.to_map`. -/
def ActAs.toMap (a : ActAs Value) : Except PyException Value :=
  .ok (.dict ([("namespace", a.namespace_), ("space", a.space)] ++ (if truthy a.grant then [("grant", a.grant)] else [])))

/-- `EncodeVectorDirectRequest.to_map`. -/
def EncodeVectorDirectRequest.toMap (x : EncodeVectorDirectRequest Value) : Except PyException Value := do
  let salience_hint ← roundF32 x.salience_hint
  let edges ← x.edges.mapM edgeRequest.toMapOf
  let act_as ← x.act_as.elim (.ok []) (fun a => a.toMap.map (fun m => [("act_as", m)]))
  return .dict ([
    ("text", x.text),
    ("model_fingerprint", x.model_fingerprint),
    ("session_id", x.session_id),
    ("kind", x.kind),
    ("salience_hint", salience_hint),
    ("edges", .list edges),
    ("request_id", x.request_id),
    ("txn_id", x.txn_id),
    ("deduplicate", x.deduplicate)] ++ act_as)

/-- `f32_list_to_le_bytes`. -/
def f32ListToLeBytes : List Double → Except PyException Bytes
  | [] => .ok []
  | x :: xs => do return (← packSingle x) ++ (← f32ListToLeBytes xs)

/-- `to_cbor`. -/
def toCborBytes (C : Cbor2) (value : Value) : Except PyException Bytes := overflow (toCbor C value)

/-- `encode_payload(event)`. -/
def SubscriptionEvent.encodePayload (C : Cbor2) (e : SubscriptionEvent Value) : Except PyException Bytes := do
  let m ← e.toMap
  toCborBytes C m

/-- `encode_payload(request)`. -/
def EncodeVectorDirectRequest.encodePayload (C : Cbor2) (x : EncodeVectorDirectRequest Value) : Except PyException Bytes := do
  let m ← x.toMap
  let cbor ← toCborBytes C m
  let section_ ← f32ListToLeBytes x.vector
  return cbor ++ section_

end BrainSdk.Python.Types
