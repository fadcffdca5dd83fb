import BrainSdk.Python.Objects

/-!
# Payload classes

The dataclasses of `wire/types.py` that an ERROR frame, a statement, a subscription event and a direct-vector encode are made of, with
their `to_map` and `from_map`. A `from_map` reads each key it names and passes the values on as they are, so an attribute may hold any
object. A class of plain attributes is three lists: the attributes in the order of the constructor, what `to_map` writes, and the keys
that `from_map` reads.
-/

namespace BrainSdk.Python.Types

open Library Cbor

/-! ### Classes of plain attributes -/

/-- The annotation of an attribute. -/
inductive Annotation where
  | int
  | float
  | str
  | bytes
  | bool
  | optional (a : Annotation)
  deriving DecidableEq, Repr

/-- An entry of the dict of a `to_map`: a key, the attribute under it, and whether `round_f32` is applied to it. -/
structure MapEntry where
  key : String
  attr : String
  rounded : Bool
  deriving DecidableEq, Repr

/-- `"name": self.name`. -/
def plain (name : String) : MapEntry := ⟨name, name, false⟩

/-- `"name": round_f32(self.name)`. -/
def rounded (name : String) : MapEntry := ⟨name, name, true⟩

/-- A dataclass of plain attributes. -/
structure PlainClass where
  attributes : List (String × Annotation)
  toMap : List MapEntry
  fromMap : List String
  deriving DecidableEq, Repr

/-- `ErrorDetails`. -/
def errorDetails : PlainClass where
  attributes := [("field", .optional .str), ("expected", .optional .str), ("actual", .optional .str)]
  toMap := [plain "field", plain "expected", plain "actual"]
  fromMap := ["field", "expected", "actual"]

/-- `EdgeRequest`. -/
def edgeRequest : PlainClass where
  attributes := [("target", .int), ("kind", .int), ("weight", .float)]
  toMap := [plain "target", plain "kind", rounded "weight"]
  fromMap := ["target", "kind", "weight"]

/-- `StageAutoEdgePayload`. -/
def stageAutoEdgePayload : PlainClass where
  attributes := [("edges_written", .int)]
  toMap := [plain "edges_written"]
  fromMap := ["edges_written"]

/-- `StageTemporalEdgePayload`. -/
def stageTemporalEdgePayload : PlainClass where
  attributes := [("edges_written", .int)]
  toMap := [plain "edges_written"]
  fromMap := ["edges_written"]

/-- `StageHypePayload`. -/
def stageHypePayload : PlainClass where
  attributes := [("questions_written", .int), ("cost_micro_usd", .int), ("error_message", .str)]
  toMap := [plain "questions_written", plain "cost_micro_usd", plain "error_message"]
  fromMap := ["questions_written", "cost_micro_usd", "error_message"]

/-- `StageExtractorPayload`. -/
def stageExtractorPayload : PlainClass where
  attributes := [("entity_count", .int), ("statement_count", .int), ("relation_count", .int), ("audit_status", .int), ("error_message", .str)]
  toMap := [plain "entity_count", plain "statement_count", plain "relation_count", plain "audit_status", plain "error_message"]
  fromMap := ["entity_count", "statement_count", "relation_count", "audit_status", "error_message"]

/-- `EdgeEventPayload`. -/
def edgeEventPayload : PlainClass where
  attributes := [("from_kind", .int), ("from_id", .bytes), ("to_kind", .int), ("to_id", .bytes), ("edge_kind_tag", .int),
    ("edge_kind_byte", .int), ("relation_type_id", .optional .int), ("weight", .float), ("relation_id", .optional .bytes),
    ("superseded_relation_id", .optional .bytes), ("origin", .int)]
  toMap := [plain "from_kind", plain "from_id", plain "to_kind", plain "to_id", plain "edge_kind_tag", plain "edge_kind_byte",
    plain "relation_type_id", rounded "weight", plain "relation_id", plain "superseded_relation_id", plain "origin"]
  fromMap := ["from_kind", "from_id", "to_kind", "to_id", "edge_kind_tag", "edge_kind_byte", "relation_type_id", "weight", "relation_id",
    "superseded_relation_id", "origin"]

/-- `EntityCreatedEvent`. -/
def entityCreatedEvent : PlainClass where
  attributes := [("entity_id", .bytes), ("entity_type_id", .int), ("canonical_name", .str)]
  toMap := [plain "entity_id", plain "entity_type_id", plain "canonical_name"]
  fromMap := ["entity_id", "entity_type_id", "canonical_name"]

/-- `EntityUpdatedEvent`. -/
def entityUpdatedEvent : PlainClass where
  attributes := [("entity_id", .bytes), ("entity_type_id", .int), ("canonical_name", .str), ("embedding_version_changed", .bool)]
  toMap := [plain "entity_id", plain "entity_type_id", plain "canonical_name", plain "embedding_version_changed"]
  fromMap := ["entity_id", "entity_type_id", "canonical_name", "embedding_version_changed"]

/-- `EntityRenamedEvent`. -/
def entityRenamedEvent : PlainClass where
  attributes := [("entity_id", .bytes), ("old_canonical_name", .str), ("new_canonical_name", .str), ("old_moved_to_alias", .bool)]
  toMap := [plain "entity_id", plain "old_canonical_name", plain "new_canonical_name", plain "old_moved_to_alias"]
  fromMap := ["entity_id", "old_canonical_name", "new_canonical_name", "old_moved_to_alias"]

/-- `EntityMergedEvent`. -/
def entityMergedEvent : PlainClass where
  attributes := [("survivor", .bytes), ("merged", .bytes), ("audit_id", .bytes), ("confidence", .float), ("statements_rerouted", .int),
    ("relations_rerouted", .int)]
  toMap := [plain "survivor", plain "merged", plain "audit_id", rounded "confidence", plain "statements_rerouted",
    plain "relations_rerouted"]
  fromMap := ["survivor", "merged", "audit_id", "confidence", "statements_rerouted", "relations_rerouted"]

/-- `EntityUnmergedEvent`. -/
def entityUnmergedEvent : PlainClass where
  attributes := [("restored_entity_id", .bytes), ("from_survivor", .bytes), ("audit_id", .bytes)]
  toMap := [plain "restored_entity_id", plain "from_survivor", plain "audit_id"]
  fromMap := ["restored_entity_id", "from_survivor", "audit_id"]

/-- `EntityTombstonedEvent`. -/
def entityTombstonedEvent : PlainClass where
  attributes := [("entity_id", .bytes), ("reason", .str)]
  toMap := [plain "entity_id", plain "reason"]
  fromMap := ["entity_id", "reason"]

/-- `StatementCreatedEvent`. -/
def statementCreatedEvent : PlainClass where
  attributes := [("statement_id", .bytes), ("kind", .int), ("subject", .bytes), ("predicate", .str), ("confidence", .float)]
  toMap := [plain "statement_id", plain "kind", plain "subject", plain "predicate", rounded "confidence"]
  fromMap := ["statement_id", "kind", "subject", "predicate", "confidence"]

/-- `StatementSupersededEvent`. -/
def statementSupersededEvent : PlainClass where
  attributes := [("old_statement_id", .bytes), ("new_statement_id", .bytes), ("chain_root", .bytes)]
  toMap := [plain "old_statement_id", plain "new_statement_id", plain "chain_root"]
  fromMap := ["old_statement_id", "new_statement_id", "chain_root"]

/-- `StatementTombstonedEvent`. -/
def statementTombstonedEvent : PlainClass where
  attributes := [("statement_id", .bytes), ("reason", .str)]
  toMap := [plain "statement_id", plain "reason"]
  fromMap := ["statement_id", "reason"]

/-- `RelationCreatedEvent`. `from` is a keyword, so the attribute under the key has another name. -/
def relationCreatedEvent : PlainClass where
  attributes := [("relation_id", .bytes), ("relation_type", .str), ("from_", .bytes), ("to", .bytes)]
  toMap := [plain "relation_id", plain "relation_type", ⟨"from", "from_", false⟩, plain "to"]
  fromMap := ["relation_id", "relation_type", "from", "to"]

/-- `RelationSupersededEvent`. -/
def relationSupersededEvent : PlainClass where
  attributes := [("old_relation_id", .bytes), ("new_relation_id", .bytes)]
  toMap := [plain "old_relation_id", plain "new_relation_id"]
  fromMap := ["old_relation_id", "new_relation_id"]

/-- `RelationTombstonedEvent`. -/
def relationTombstonedEvent : PlainClass where
  attributes := [("relation_id", .bytes), ("reason", .str)]
  toMap := [plain "relation_id", plain "reason"]
  fromMap := ["relation_id", "reason"]

/-- `SchemaUpdatedEvent`. -/
def schemaUpdatedEvent : PlainClass where
  attributes := [("namespace", .str), ("from_version", .int), ("to_version", .int), ("backward_compatible", .bool)]
  toMap := [plain "namespace", plain "from_version", plain "to_version", plain "backward_compatible"]
  fromMap := ["namespace", "from_version", "to_version", "backward_compatible"]

/-- `_GRAPH_EVENT_TYPES`. -/
def graphEventTypes : List (String × PlainClass) :=
  [("EntityCreated", entityCreatedEvent), ("EntityUpdated", entityUpdatedEvent), ("EntityRenamed", entityRenamedEvent),
    ("EntityMerged", entityMergedEvent), ("EntityUnmerged", entityUnmergedEvent), ("EntityTombstoned", entityTombstonedEvent),
    ("StatementCreated", statementCreatedEvent), ("StatementSuperseded", statementSupersededEvent),
    ("StatementTombstoned", statementTombstonedEvent), ("RelationCreated", relationCreatedEvent),
    ("RelationSuperseded", relationSupersededEvent), ("RelationTombstoned", relationTombstonedEvent),
    ("SchemaUpdated", schemaUpdatedEvent)]

/-- The branches of `StagePayload.from_cbor_value`, in their order. -/
def stageTypes : List (String × PlainClass) :=
  [("AutoEdge", stageAutoEdgePayload), ("TemporalEdge", stageTemporalEdgePayload), ("Extractor", stageExtractorPayload),
    ("Hype", stageHypePayload)]

/-! ### `from_map` -/

section

variable {O : Type} [PyObject O]

open PyObject

/-- An instance of a class of plain attributes: what each attribute holds, in the order of the constructor. -/
abbrev Instance (O : Type) : Type := List O

/-- `from_map` of a class of plain attributes. The arguments are evaluated in their order. -/
def PlainClass.fromMapOf (c : PlainClass) (m : O) : Except PyException (Instance O) := c.fromMap.mapM (subscript m)

/-- `((variant, value),) = v.items()`. -/
def single (v : O) : Except PyException (O × O) :=
  (items v).bind (fun entries =>
    match entries with
    | [] => .error (.valueError "not enough values to unpack (expected 1, got 0)")
    | [entry] => .ok entry
    | _ => .error (.valueError "too many values to unpack (expected 1)"))

/-- `None if v is None else build(v)`. -/
def optional {α : Type} (build : O → Except PyException α) (v : O) : Except PyException (Option α) :=
  if isNone v then .ok none else (build v).map some

/-- A variant name with an instance of a class: `GraphEventPayload` and `StagePayload`. -/
structure Tagged (O : Type) where
  variant : O
  body : PlainClass
  value : Instance O

/-- The class of a variant. -/
def classOf (types : List (String × PlainClass)) (what : String) (variant : O) : Except PyException (String × PlainClass) :=
  (types.find? (fun t => equals variant t.1)).elim (.error (.valueError s!"unknown {what} variant {PyObject.repr variant}")) .ok

/-- The `from_cbor_value` of both: the class is looked up by the variant. -/
def Tagged.fromCborValue (types : List (String × PlainClass)) (what : String) (v : O) : Except PyException (Tagged O) := do
  let entry ← single v
  let t ← classOf types what entry.1
  let value ← t.2.fromMapOf entry.2
  return ⟨ofString t.1, t.2, value⟩

/-- `GraphEventPayload.from_cbor_value`. The variant equals the key it was found by. -/
def graphEventFromCborValue (v : O) : Except PyException (Tagged O) := Tagged.fromCborValue graphEventTypes "graph event" v

/-- `StagePayload.from_cbor_value`. -/
def stageFromCborValue (v : O) : Except PyException (Tagged O) := Tagged.fromCborValue stageTypes "stage payload" v

/-- `SubscriptionEvent`. -/
structure SubscriptionEvent (O : Type) where
  event_type : O
  memory_id : O
  session_id : O
  text : O
  kind : O
  salience : O
  timestamp_unix_nanos : O
  lsn : O
  graph_payload : Option (Tagged O)
  edge_payload : Option (Instance O)
  stage_kind : O
  stage_outcome : O
  stage_payload : Option (Tagged O)

/-- `SubscriptionEvent.from_map`. -/
def SubscriptionEvent.fromMap (m : O) : Except PyException (SubscriptionEvent O) := do
  let event_type ← subscript m "event_type"
  let memory_id ← subscript m "memory_id"
  let session_id ← subscript m "session_id"
  let text ← subscript m "text"
  let kind ← subscript m "kind"
  let salience ← subscript m "salience"
  let timestamp_unix_nanos ← subscript m "timestamp_unix_nanos"
  let lsn ← subscript m "lsn"
  let graph_payload ← (subscript m "graph_payload").bind (optional graphEventFromCborValue)
  let edge_payload ← (subscript m "edge_payload").bind (optional edgeEventPayload.fromMapOf)
  let stage_kind ← subscript m "stage_kind"
  let stage_outcome ← subscript m "stage_outcome"
  let stage_payload ← (subscript m "stage_payload").bind (optional stageFromCborValue)
  return ⟨event_type, memory_id, session_id, text, kind, salience, timestamp_unix_nanos, lsn, graph_payload, edge_payload, stage_kind,
    stage_outcome, stage_payload⟩

/-- `ErrorResponse`. -/
structure ErrorResponse (O : Type) where
  code : O
  category : O
  message : O
  details : Option (Instance O)
  retry_after_ms : O

/-- `ErrorResponse.from_map`. -/
def ErrorResponse.fromMap (m : O) : Except PyException (ErrorResponse O) := do
  let code ← subscript m "code"
  let category ← subscript m "category"
  let message ← subscript m "message"
  let details ← (subscript m "details").bind (optional errorDetails.fromMapOf)
  let retry_after_ms ← subscript m "retry_after_ms"
  return ⟨code, category, message, details, retry_after_ms⟩

/-- `StatementValue`, and `EvidenceRef`: a list for one variant, and any object for the others. -/
inductive Scalar (O : Type) where
  | list (variant : String) (items : List O)
  | other (variant : O) (value : O)

/-- `StatementValue.from_cbor_value`. -/
def statementValueFromCborValue (v : O) : Except PyException (Scalar O) := do
  let entry ← single v
  if equals entry.1 "Blob" then return .list "Blob" (← PyObject.list entry.2) else return .other entry.1 entry.2

/-- `EvidenceRef.from_cbor_value`. -/
def evidenceRefFromCborValue (v : O) : Except PyException (Scalar O) := do
  let entry ← single v
  if equals entry.1 "Inline" then return .list "Inline" (← PyObject.list entry.2) else return .other (ofString "Overflow") entry.2

/-- `StatementObject`. -/
inductive StatementObject (O : Type) where
  | value (v : Scalar O)
  | other (variant : O) (value : O)

/-- `StatementObject.from_cbor_value`. -/
def StatementObject.fromCborValue (v : O) : Except PyException (StatementObject O) := do
  let entry ← single v
  if equals entry.1 "Value" then return .value (← statementValueFromCborValue entry.2) else return .other entry.1 entry.2

/-- `StatementView`. -/
structure StatementView (O : Type) where
  statement_id : O
  kind : O
  subject : O
  subject_pending_audit_id : O
  predicate : O
  object : StatementObject O
  confidence : O
  evidence : Scalar O
  extractor_id : O
  extracted_at_unix_nanos : O
  schema_version : O
  valid_from_unix_nanos : O
  valid_to_unix_nanos : O
  event_at_unix_nanos : O
  version : O
  superseded_by : O
  supersedes : O
  chain_root : O
  tombstoned : O
  tombstoned_at_unix_nanos : O
  tombstone_reason : O
  flags : O
  is_stateful : O

/-- `StatementView.from_map`. -/
def StatementView.fromMap (m : O) : Except PyException (StatementView O) := do
  let statement_id ← subscript m "statement_id"
  let kind ← subscript m "kind"
  let subject ← subscript m "subject"
  let subject_pending_audit_id ← subscript m "subject_pending_audit_id"
  let predicate ← subscript m "predicate"
  let object ← (subscript m "object").bind StatementObject.fromCborValue
  let confidence ← subscript m "confidence"
  let evidence ← (subscript m "evidence").bind evidenceRefFromCborValue
  let extractor_id ← subscript m "extractor_id"
  let extracted_at_unix_nanos ← subscript m "extracted_at_unix_nanos"
  let schema_version ← subscript m "schema_version"
  let valid_from_unix_nanos ← subscript m "valid_from_unix_nanos"
  let valid_to_unix_nanos ← subscript m "valid_to_unix_nanos"
  let event_at_unix_nanos ← subscript m "event_at_unix_nanos"
  let version ← subscript m "version"
  let superseded_by ← subscript m "superseded_by"
  let supersedes ← subscript m "supersedes"
  let chain_root ← subscript m "chain_root"
  let tombstoned ← subscript m "tombstoned"
  let tombstoned_at_unix_nanos ← subscript m "tombstoned_at_unix_nanos"
  let tombstone_reason ← subscript m "tombstone_reason"
  let flags ← subscript m "flags"
  let is_stateful ← subscript m "is_stateful"
  return ⟨statement_id, kind, subject, subject_pending_audit_id, predicate, object, confidence, evidence, extractor_id,
    extracted_at_unix_nanos, schema_version, valid_from_unix_nanos, valid_to_unix_nanos, event_at_unix_nanos, version, superseded_by,
    supersedes, chain_root, tombstoned, tombstoned_at_unix_nanos, tombstone_reason, flags, is_stateful⟩

/-- `StatementGetResponse`. -/
structure StatementGetResponse (O : Type) where
  statement : StatementView O
  returned_via_supersession : O

/-- `StatementGetResponse.from_map`. -/
def StatementGetResponse.fromMap (m : O) : Except PyException (StatementGetResponse O) := do
  let statement ← (subscript m "statement").bind StatementView.fromMap
  let returned_via_supersession ← subscript m "returned_via_supersession"
  return ⟨statement, returned_via_supersession⟩

/-- `ActAs`. -/
structure ActAs (O : Type) where
  namespace_ : O
  space : O
  grant : O

/-- `ActAs.from_map`. -/
def ActAs.fromMap (m : O) : Except PyException (ActAs O) := do
  let namespace_ ← subscript m "namespace"
  let space ← subscript m "space"
  let grant ← (get m "grant").bind (fun grant => PyObject.int (grant.getD (ofInt 0)))
  return ⟨namespace_, space, grant⟩

/-- `EncodeVectorDirectRequest`. The vector is a list of floats. -/
structure EncodeVectorDirectRequest (O : Type) where
  text : O
  model_fingerprint : O
  session_id : O
  kind : O
  salience_hint : O
  edges : List (Instance O)
  request_id : O
  txn_id : O
  deduplicate : O
  vector : List Double
  act_as : Option (ActAs O)

/-- `EncodeVectorDirectRequest.from_map`. The vector stays at its default. -/
def EncodeVectorDirectRequest.fromMap (m : O) : Except PyException (EncodeVectorDirectRequest O) := do
  let act_as ← get m "act_as"
  let text ← subscript m "text"
  let model_fingerprint ← subscript m "model_fingerprint"
  let session_id ← subscript m "session_id"
  let kind ← subscript m "kind"
  let salience_hint ← subscript m "salience_hint"
  let edges ← (subscript m "edges").bind (fun edges => (PyObject.list edges).bind (fun edges => edges.mapM edgeRequest.fromMapOf))
  let request_id ← subscript m "request_id"
  let txn_id ← subscript m "txn_id"
  let deduplicate ← subscript m "deduplicate"
  let act_as ← act_as.elim (.ok none) (optional ActAs.fromMap)
  return ⟨text, model_fingerprint, session_id, kind, salience_hint, edges, request_id, txn_id, deduplicate, [], act_as⟩

end

end BrainSdk.Python.Types
