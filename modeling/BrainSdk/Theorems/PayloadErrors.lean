import BrainSdk.Python.Codec

/-!
# What decoding a payload raises

The scanner and `cbor2` raise a `CborError`, or are made to. What is built on the decoded value is built without a check, so where the
value does not have the shape of the payload type, the exception is that of the object: `decode_payload` keeps to `CborError` exactly on
the data that holds a value of the shape, or no value.
-/

namespace BrainSdk.Python.Types

open Library Cbor PyObject

/-! ### Computations that raise -/

/-- The computation returns, or raises a `CborError`. -/
def Stays {α : Type} (r : Except PyException α) : Prop := ∀ e, r = .error e → e.isCborError = true

/-- No `CborError` is raised. -/
def NoCborError {α : Type} (r : Except PyException α) : Prop := ∀ e, r = .error e → e.isCborError = false

def Returns {α : Type} (r : Except PyException α) : Prop := ∃ x, r = .ok x

theorem NoCborError.ok {α : Type} (x : α) : NoCborError (.ok x) := fun _ h => by cases h

theorem NoCborError.error {α : Type} {e : PyException} (h : e.isCborError = false) : NoCborError (.error e : Except PyException α) :=
  fun _ he => by rwa [← Except.error.inj he]

theorem NoCborError.bind {α β : Type} {r : Except PyException α} {f : α → Except PyException β} (hr : NoCborError r)
    (hf : ∀ x, NoCborError (f x)) : NoCborError (r >>= f) := by
  intro e h
  rcases r with e' | x
  · exact hr e (congrArg Except.error (Except.error.inj h))
  · exact hf x e h

theorem returns_ok {α : Type} (x : α) : Returns (.ok x : Except PyException α) := ⟨x, rfl⟩

theorem returns_bind {α β : Type} (r : Except PyException α) (f : α → Except PyException β) :
    Returns (r >>= f) ↔ ∃ x, r = .ok x ∧ Returns (f x) := by
  rcases r with e | x
  · refine iff_of_false ?_ ?_
    · rintro ⟨y, hy⟩
      cases hy
    · rintro ⟨y, hy, -⟩
      cases hy
  · refine ⟨fun h => ⟨x, rfl, h⟩, ?_⟩
    rintro ⟨y, hy, h⟩
    rwa [← Except.ok.inj hy] at h

/-- Without `CborError`s, staying is returning. -/
theorem NoCborError.stays_iff {α : Type} {r : Except PyException α} (h : NoCborError r) : Stays r ↔ Returns r := by
  rcases r with e | x
  · have hforeign := h e rfl
    refine iff_of_false ?_ ?_
    · intro hstays
      rw [hstays e rfl] at hforeign
      cases hforeign
    · rintro ⟨y, hy⟩
      cases hy
  · exact iff_of_true (fun e he => by cases he) ⟨x, rfl⟩

section

variable {O : Type} [PyObject O]

/-! ### Shapes -/

/-- `m[key]` returns. -/
def HasKey (m : O) (key : String) : Prop := Returns (subscript m key)

/-- `m[key]` returns for every key. -/
def HasKeys (m : O) (keys : List String) : Prop := ∀ key ∈ keys, HasKey m key

/-- What is under the key has the shape. -/
def Under (m : O) (key : String) (shape : O → Prop) : Prop := ∃ v, subscript m key = .ok v ∧ shape v

/-- `None`, or of the shape. -/
def NoneOr (shape : O → Prop) (v : O) : Prop := isNone v = true ∨ shape v

/-- A mapping of one entry. -/
def SingleEntry (shape : O → O → Prop) (v : O) : Prop := ∃ variant value, items v = .ok [(variant, value)] ∧ shape variant value

/-- A variant of the table, with the keys of its class. -/
def TaggedShape (types : List (String × PlainClass)) : O → Prop :=
  SingleEntry (fun variant value => ∃ t, types.find? (fun t => equals variant t.1) = some t ∧ HasKeys value t.2.fromMap)

/-- A variant with its value, which is iterable where the variant holds a list. -/
def ScalarShape (listVariant : String) : O → Prop :=
  SingleEntry (fun variant value => equals variant listVariant = true → Returns (PyObject.list value))

/-- A statement object. -/
def ObjectShape : O → Prop := SingleEntry (fun variant value => equals variant "Value" = true → ScalarShape "Blob" value)

/-- The three payload types. -/
inductive PayloadType where
  | errorResponse
  | statementGetResponse
  | subscriptionEvent
  deriving DecidableEq, Repr

/-- The class of a payload type. -/
def PayloadType.Class (O : Type) : PayloadType → Type
  | .errorResponse => ErrorResponse O
  | .statementGetResponse => StatementGetResponse O
  | .subscriptionEvent => SubscriptionEvent O

/-- The `from_map` of a payload type. -/
def PayloadType.fromMap : (T : PayloadType) → O → Except PyException (T.Class O)
  | .errorResponse => ErrorResponse.fromMap
  | .statementGetResponse => StatementGetResponse.fromMap
  | .subscriptionEvent => SubscriptionEvent.fromMap

/-- The shape of an error response. -/
def ErrorShape (m : O) : Prop :=
  HasKeys m ["code", "category", "message", "retry_after_ms"] ∧
    Under m "details" (NoneOr (fun details => HasKeys details errorDetails.fromMap))

/-- The shape of a statement. -/
def StatementShape (m : O) : Prop :=
  HasKeys m ["statement_id", "kind", "subject", "subject_pending_audit_id", "predicate", "confidence", "extractor_id",
    "extracted_at_unix_nanos", "schema_version", "valid_from_unix_nanos", "valid_to_unix_nanos", "event_at_unix_nanos", "version",
    "superseded_by", "supersedes", "chain_root", "tombstoned", "tombstoned_at_unix_nanos", "tombstone_reason", "flags", "is_stateful"] ∧
    Under m "object" ObjectShape ∧ Under m "evidence" (ScalarShape "Inline")

/-- The shape of a subscription event. -/
def EventShape (m : O) : Prop :=
  HasKeys m ["event_type", "memory_id", "session_id", "text", "kind", "salience", "timestamp_unix_nanos", "lsn", "stage_kind",
    "stage_outcome"] ∧
    Under m "graph_payload" (NoneOr (TaggedShape graphEventTypes)) ∧
    Under m "edge_payload" (NoneOr (fun edge => HasKeys edge edgeEventPayload.fromMap)) ∧
    Under m "stage_payload" (NoneOr (TaggedShape stageTypes))

/-- The shape of a payload type: a dict with the keys that its `from_map` reads, and below them what it builds on. -/
def PayloadType.Shape (T : PayloadType) (v : O) : Prop :=
  isDict v = true ∧
    match T with
    | .errorResponse => ErrorShape v
    | .statementGetResponse => Under v "statement" StatementShape ∧ HasKey v "returned_via_supersession"
    | .subscriptionEvent => EventShape v

/-! ### When the builders return -/

theorem returns_map {α β : Type} (r : Except PyException α) (f : α → β) : Returns (r.map f) ↔ Returns r := by
  rcases r with e | x
  · refine iff_of_false ?_ ?_ <;>
    · rintro ⟨y, hy⟩
      cases hy
  · exact iff_of_true ⟨f x, rfl⟩ ⟨x, rfl⟩

theorem returns_fields (c : PlainClass) (m : O) : Returns (c.fromMapOf m) ↔ HasKeys m c.fromMap := by
  unfold PlainClass.fromMapOf HasKeys
  induction c.fromMap with
  | nil => exact iff_of_true ⟨[], rfl⟩ (fun key hkey => absurd hkey List.not_mem_nil)
  | cons key keys ih =>
    rw [List.mapM_cons, returns_bind, List.forall_mem_cons]
    constructor
    · rintro ⟨x, hx, h⟩
      rw [returns_bind] at h
      obtain ⟨xs, hxs, -⟩ := h
      exact ⟨⟨x, hx⟩, ih.1 ⟨xs, hxs⟩⟩
    · rintro ⟨⟨x, hx⟩, h⟩
      obtain ⟨xs, hxs⟩ := ih.2 h
      exact ⟨x, hx, (returns_bind _ _).2 ⟨xs, hxs, returns_ok _⟩⟩

/-- An entry is unpacked from a mapping of one. -/
theorem single_eq_ok {v : O} {entry : O × O} : single v = .ok entry ↔ items v = .ok [entry] := by
  unfold single
  rcases items v with e | entries
  · simp only [Except.bind]
    exact iff_of_false (fun h => by cases h) (fun h => by cases h)
  · simp only [Except.bind]
    rcases entries with - | ⟨first, - | ⟨second, rest⟩⟩ <;> simp

theorem returns_single {β : Type} (v : O) (f : O × O → Except PyException β) :
    Returns (single v >>= f) ↔ SingleEntry (fun variant value => Returns (f (variant, value))) v := by
  rw [returns_bind]
  constructor
  · rintro ⟨⟨variant, value⟩, hentry, h⟩
    exact ⟨variant, value, single_eq_ok.1 hentry, h⟩
  · rintro ⟨variant, value, hitems, h⟩
    exact ⟨(variant, value), single_eq_ok.2 hitems, h⟩

theorem returns_optional {α : Type} (build : O → Except PyException α) (v : O) :
    Returns (optional build v) ↔ NoneOr (fun v => Returns (build v)) v := by
  unfold optional NoneOr
  by_cases h : isNone v = true
  · rw [if_pos h]
    exact iff_of_true (returns_ok _) (.inl h)
  · rw [if_neg h, returns_map, or_iff_right h]

/-- A field that is built on. -/
theorem returns_under {α : Type} (m : O) (key : String) (build : O → Except PyException α) :
    Returns ((subscript m key).bind build) ↔ Under m key (fun v => Returns (build v)) := returns_bind _ _

theorem returns_tagged (types : List (String × PlainClass)) (what : String) (v : O) :
    Returns (Tagged.fromCborValue types what v) ↔ TaggedShape types v := by
  unfold Tagged.fromCborValue TaggedShape
  rw [returns_single]
  have hclass : ∀ (variant : O) (t : String × PlainClass),
      classOf types what variant = .ok t ↔ types.find? (fun t => equals variant t.1) = some t := by
    intro variant t
    unfold classOf
    generalize types.find? (fun t => equals variant t.1) = found
    rcases found with - | found
    · exact iff_of_false (fun h => by cases h) (fun h => by cases h)
    · rw [Option.elim_some, Except.ok.injEq, Option.some.injEq]
  have hbuild : ∀ variant value : O,
      Returns (do
        let t ← classOf types what variant
        let value ← t.2.fromMapOf value
        return (⟨ofString t.1, t.2, value⟩ : Tagged O)) ↔
      ∃ t, types.find? (fun t => equals variant t.1) = some t ∧ HasKeys value t.2.fromMap := by
    intro variant value
    rw [returns_bind]
    refine exists_congr (fun t => ?_)
    rw [hclass, ← returns_fields, returns_bind]
    refine and_congr_right (fun _ => ?_)
    exact ⟨fun ⟨x, hx, _⟩ => ⟨x, hx⟩, fun ⟨x, hx⟩ => ⟨x, hx, returns_ok _⟩⟩
  unfold SingleEntry
  simp only [hbuild]

theorem returns_pure {α : Type} (x : α) : Returns (pure x : Except PyException α) ↔ True := iff_true_intro (returns_ok x)

theorem exists_ok {α : Type} (r : Except PyException α) : (∃ x, r = .ok x) ↔ Returns r := Iff.rfl

theorem returns_if {α : Type} {b : Bool} {r : Except PyException α} {x : α} :
    Returns (if b = true then r else pure x) ↔ (b = true → Returns r) := by
  rcases b with - | -
  · exact iff_of_true (returns_ok x) (fun h => by cases h)
  · exact ⟨fun h _ => h, fun h => h rfl⟩

theorem returns_scalar (listVariant : String) (literal : O → O) (v : O) :
    Returns (do
      let entry ← single v
      if equals entry.1 listVariant then return .list listVariant (← PyObject.list entry.2)
      else return (.other (literal entry.1) entry.2 : Scalar O)) ↔ ScalarShape listVariant v := by
  unfold ScalarShape
  rw [returns_single]
  unfold SingleEntry
  simp only [returns_if, returns_bind, returns_pure, and_true, exists_ok]

theorem returns_statementObject (v : O) : Returns (StatementObject.fromCborValue v) ↔ ObjectShape v := by
  unfold StatementObject.fromCborValue ObjectShape
  rw [returns_single]
  unfold SingleEntry
  simp only [returns_if, returns_bind, returns_pure, and_true, exists_ok]
  have hscalar : ∀ value : O, Returns (statementValueFromCborValue value) ↔ ScalarShape "Blob" value := returns_scalar "Blob" id
  simp only [hscalar]

theorem returns_evidenceRef (v : O) : Returns (evidenceRefFromCborValue v) ↔ ScalarShape "Inline" v :=
  returns_scalar "Inline" (fun _ => ofString "Overflow") v

theorem hasKeys_cons (m : O) (key : String) (keys : List String) : HasKeys m (key :: keys) ↔ HasKey m key ∧ HasKeys m keys :=
  List.forall_mem_cons

theorem hasKeys_nil (m : O) : HasKeys m [] ↔ True := iff_true_intro (fun _ hkey => absurd hkey List.not_mem_nil)

theorem returns_errorResponse (m : O) : Returns (ErrorResponse.fromMap m) ↔ ErrorShape m := by
  unfold ErrorResponse.fromMap ErrorShape
  simp only [returns_bind, returns_pure, and_true, exists_and_right, exists_ok, returns_under, returns_optional, returns_fields,
    hasKeys_cons, hasKeys_nil, HasKey]
  tauto

theorem returns_statementView (m : O) : Returns (StatementView.fromMap m) ↔ StatementShape m := by
  unfold StatementView.fromMap StatementShape
  simp only [returns_bind, returns_pure, and_true, exists_and_right, exists_ok, returns_under, returns_statementObject,
    returns_evidenceRef, hasKeys_cons, hasKeys_nil, HasKey]
  tauto

theorem returns_statementGetResponse (m : O) :
    Returns (StatementGetResponse.fromMap m) ↔ Under m "statement" StatementShape ∧ HasKey m "returned_via_supersession" := by
  unfold StatementGetResponse.fromMap
  simp only [returns_bind, returns_pure, and_true, exists_and_right, exists_ok, returns_under, returns_statementView, HasKey]

theorem returns_subscriptionEvent (m : O) : Returns (SubscriptionEvent.fromMap m) ↔ EventShape m := by
  have hgraph : ∀ v : O, Returns (graphEventFromCborValue v) ↔ TaggedShape graphEventTypes v := returns_tagged graphEventTypes _
  have hstage : ∀ v : O, Returns (stageFromCborValue v) ↔ TaggedShape stageTypes v := returns_tagged stageTypes _
  unfold SubscriptionEvent.fromMap EventShape
  simp only [returns_bind, returns_pure, and_true, exists_and_right, exists_ok, returns_under, returns_optional, returns_fields, hgraph,
    hstage, hasKeys_cons, hasKeys_nil, HasKey]
  tauto

/-! ### What the builders raise -/

theorem noCborError_subscript (m : O) (key : String) : NoCborError (subscript m key) := fun e h => subscript_error m key e h

theorem noCborError_list (v : O) : NoCborError (PyObject.list v) := fun e h => list_error v e h

theorem noCborError_fields (c : PlainClass) (m : O) : NoCborError (c.fromMapOf m) := by
  unfold PlainClass.fromMapOf
  induction c.fromMap with
  | nil => exact .ok _
  | cons key keys ih =>
    rw [List.mapM_cons]
    exact (noCborError_subscript m key).bind (fun _ => ih.bind (fun _ => .ok _))

theorem noCborError_single (v : O) : NoCborError (single v) := by
  have hitems : NoCborError (items v) := fun e h => items_error v e h
  refine hitems.bind (fun entries => ?_)
  rcases entries with - | ⟨first, - | ⟨second, rest⟩⟩
  · exact .error rfl
  · exact .ok _
  · exact .error rfl

theorem noCborError_optional {α : Type} {build : O → Except PyException α} (h : ∀ v, NoCborError (build v)) (v : O) :
    NoCborError (optional build v) := by
  unfold optional
  split
  · exact .ok _
  · intro e he
    rcases hb : build v with e' | x
    · rw [hb] at he
      exact h v e (by rw [hb]; exact congrArg Except.error (Except.error.inj he))
    · rw [hb] at he
      cases he

theorem noCborError_tagged (types : List (String × PlainClass)) (what : String) (v : O) :
    NoCborError (Tagged.fromCborValue types what v) := by
  have hclass : ∀ variant : O, NoCborError (classOf types what variant) := by
    intro variant
    unfold classOf
    generalize types.find? (fun t => equals variant t.1) = found
    rcases found with - | found
    · exact .error rfl
    · exact .ok _
  exact (noCborError_single v).bind (fun _ => (hclass _).bind (fun _ => (noCborError_fields _ _).bind (fun _ => .ok _)))

theorem noCborError_scalar (listVariant : String) (literal : O → O) (v : O) :
    NoCborError (do
      let entry ← single v
      if equals entry.1 listVariant then return .list listVariant (← PyObject.list entry.2)
      else return (.other (literal entry.1) entry.2 : Scalar O)) := by
  refine (noCborError_single v).bind (fun entry => ?_)
  split
  · exact (noCborError_list _).bind (fun _ => .ok _)
  · exact .ok _

theorem noCborError_statementObject (v : O) : NoCborError (StatementObject.fromCborValue v) := by
  refine (noCborError_single v).bind (fun entry => ?_)
  split
  · exact (noCborError_scalar "Blob" id entry.2).bind (fun _ => .ok _)
  · exact .ok _

/-- No builder raises a `CborError`. -/
theorem noCborError_fromMap (T : PayloadType) (m : O) : NoCborError (T.fromMap m) := by
  have hfield : ∀ (m : O) (key : String), NoCborError (subscript m key) := noCborError_subscript
  have hunder : ∀ {α : Type} {build : O → Except PyException α}, (∀ v, NoCborError (build v)) → ∀ (m : O) (key : String),
      NoCborError ((subscript m key).bind build) := fun h m key => (hfield m key).bind h
  have hview : ∀ m : O, NoCborError (StatementView.fromMap m) := by
    intro m
    unfold StatementView.fromMap
    have hobject := hunder noCborError_statementObject m "object"
    have hevidence := hunder (noCborError_scalar "Inline" (fun _ => ofString "Overflow")) m "evidence"
    repeat' first
      | exact .ok _
      | exact hobject
      | exact hevidence
      | exact hfield _ _
      | refine NoCborError.bind ?_ (fun _ => ?_)
  cases T with
  | errorResponse =>
    have hdetails := hunder (noCborError_optional (noCborError_fields errorDetails)) m "details"
    exact (hfield _ _).bind (fun _ => (hfield _ _).bind (fun _ => (hfield _ _).bind (fun _ => hdetails.bind (fun _ =>
      (hfield _ _).bind (fun _ => .ok _)))))
  | statementGetResponse => exact (hunder hview m "statement").bind (fun _ => (hfield _ _).bind (fun _ => .ok _))
  | subscriptionEvent =>
    have hgraph := hunder (noCborError_optional (noCborError_tagged graphEventTypes "graph event")) m "graph_payload"
    have hedge := hunder (noCborError_optional (noCborError_fields edgeEventPayload)) m "edge_payload"
    have hstage := hunder (noCborError_optional (noCborError_tagged stageTypes "stage payload")) m "stage_payload"
    unfold PayloadType.fromMap SubscriptionEvent.fromMap
    repeat' first
      | exact .ok _
      | exact hgraph
      | exact hedge
      | exact hstage
      | exact hfield _ _
      | refine NoCborError.bind ?_ (fun _ => ?_)

/-! ### Decoding -/

/-- The data is one item, and `cbor2` gives the value for it. -/
def Holds (loads : Bytes → Except PyException O) (data : Bytes) (v : O) : Prop :=
  cborItemEnd data 0 = .ok data.length ∧ loads data = .ok v

omit [PyObject O] in
/-- `from_cbor` gives the value that the data holds, or raises a `CborError`. -/
theorem fromCbor_cases (loads : Bytes → Except PyException O) (data : Bytes) :
    (∃ v, Holds loads data v ∧ fromCbor loads data = .ok v) ∨
    (∀ v, ¬Holds loads data v) ∧ ∃ e, fromCbor loads data = .error e ∧ e.isCborError = true := by
  rcases fromCborPrefix_cases loads data with ⟨consumed, v, hend, hloads⟩ | ⟨message, he⟩
  · by_cases hlen : consumed = data.length
    · subst hlen
      rw [slice_all] at hloads
      exact .inl ⟨v, ⟨hend, hloads⟩, fromCbor_ok hend hloads⟩
    · obtain ⟨message, he⟩ := fromCbor_trailing (fromCborPrefix_ok hend hloads) hlen
      exact .inr ⟨fun v' h => hlen (Except.ok.inj (hend.symm.trans h.1)), _, he, rfl⟩
  · refine .inr ⟨fun v h => ?_, .cborError message, ?_, rfl⟩
    · rw [fromCborPrefix_ok h.1 (by rw [slice_all]; exact h.2)] at he
      cases he
    · unfold fromCbor
      rw [he]
      rfl

/-- For each of the three payload types and every byte string, whatever `cbor2` gives or raises, `decode_payload` returns or raises a
`CborError` exactly when the value that the data holds, if it holds one, has the shape of the type. -/
theorem decode_payload_stays_iff (loads : Bytes → Except PyException O) (T : PayloadType) (data : Bytes) :
    Stays (decodePayload loads T.fromMap data) ↔ ∀ v, Holds loads data v → T.Shape v := by
  rcases fromCbor_cases loads data with ⟨v, hholds, hv⟩ | ⟨hnone, e, he, hcbor⟩
  · have honly : (∀ v, Holds loads data v → T.Shape v) ↔ T.Shape v := by
      refine ⟨fun h => h v hholds, fun h v' hv' => ?_⟩
      rwa [← Except.ok.inj (hholds.2.symm.trans hv'.2)]
    have hdecode : decodePayload loads T.fromMap data = (asMap v >>= T.fromMap) := by
      unfold decodePayload
      rw [hv]
      rfl
    have hmap : NoCborError (asMap v) := by
      unfold asMap
      split
      · exact .ok _
      · exact .error rfl
    have hshape : Returns (asMap v >>= T.fromMap) ↔ T.Shape v := by
      unfold asMap PayloadType.Shape
      by_cases hdict : isDict v = true
      · rw [if_pos hdict, and_iff_right hdict]
        cases T with
        | errorResponse => exact returns_errorResponse v
        | statementGetResponse => exact returns_statementGetResponse v
        | subscriptionEvent => exact returns_subscriptionEvent v
      · rw [if_neg hdict]
        exact iff_of_false (fun ⟨x, hx⟩ => by cases hx) (fun h => hdict h.1)
    rw [honly, hdecode, (hmap.bind (noCborError_fromMap T)).stays_iff, hshape]
  · refine iff_of_true ?_ (fun v hv => absurd hv (hnone v))
    intro e' he'
    unfold decodePayload at he'
    rw [he] at he'
    rwa [← Except.error.inj he']

end

/-- A `cbor2` that knows the empty map. -/
def emptyMapLoads (data : Bytes) : Except PyException Value :=
  if data = [0xA0] then .ok (.dict []) else .error (.other "CBORDecodeError")

/-- An empty map is none of the three payloads, and a `KeyError` escapes. -/
theorem decode_payload_key_error :
    (∃ key, decodePayload emptyMapLoads PayloadType.errorResponse.fromMap [0xA0] = .error (.keyError key)) ∧
    (∃ key, decodePayload emptyMapLoads PayloadType.statementGetResponse.fromMap [0xA0] = .error (.keyError key)) ∧
    (∃ key, decodePayload emptyMapLoads PayloadType.subscriptionEvent.fromMap [0xA0] = .error (.keyError key)) ∧
    ∀ T : PayloadType, ¬Stays (decodePayload emptyMapLoads T.fromMap [0xA0]) := by
  have herror : decodePayload emptyMapLoads PayloadType.errorResponse.fromMap [0xA0] = .error (.keyError "code") := rfl
  have hstatement : decodePayload emptyMapLoads PayloadType.statementGetResponse.fromMap [0xA0] = .error (.keyError "statement") := rfl
  have hevent : decodePayload emptyMapLoads PayloadType.subscriptionEvent.fromMap [0xA0] = .error (.keyError "event_type") := rfl
  refine ⟨⟨_, herror⟩, ⟨_, hstatement⟩, ⟨_, hevent⟩, fun T hstays => ?_⟩
  cases T with
  | errorResponse => exact absurd (hstays _ herror) (by decide)
  | statementGetResponse => exact absurd (hstays _ hstatement) (by decide)
  | subscriptionEvent => exact absurd (hstays _ hevent) (by decide)

end BrainSdk.Python.Types
