import BrainSdk.Cbor.Requests
import BrainSdk.Python.Codec

/-!
# Requests of the Python SDK

The `to_map` methods of `wire/types.py`, and `encode_payload` over them.
-/

namespace BrainSdk.Python.Requests

open Library Cbor BrainSdk.Requests BrainSdk.Python.Types

/-! ### Attributes -/

/-- `list(..)` of integers. -/
def intList (ns : List Nat) : Value := .list (ns.map (fun n : Nat => .int n))

/-- `list(..)` of integers that are a `number` to TypeScript. -/
def countList (ns : List Count) : Value := .list (ns.map (fun n : Count => .int n.val))

/-- `list(..)` of a `bytes`. -/
def byteList (bytes : Bytes) : Value := .list (bytes.map (fun b => .int b.toNat))

/-- An attribute that may be `None`. -/
def nullable {α : Type} (f : α → Value) (v : Option α) : Value := v.elim .none f

/-- The attributes of an `ActAs`. -/
def actAs (a : BrainSdk.Requests.ActAs) : Types.ActAs Value := ⟨.str a.namespace_, .str a.space, .int a.grant.val⟩

/-- The entry of `act_as`, when there is one. -/
def actAsEntry (a : Option BrainSdk.Requests.ActAs) : Except PyException (List (String × Value)) :=
  a.elim (.ok []) (fun a => (actAs a).toMap.map (fun m => [("act_as", m)]))

/-- `HelloCapabilities.to_map`. -/
def HelloCapabilities.toMap (c : HelloCapabilities) : Value :=
  .dict [
    ("streaming", .bool c.streaming),
    ("compression_zstd", .bool c.compressionZstd),
    ("server_push", .bool c.serverPush)]

/-- `AuthCredentials.to_cbor_value`. -/
def AuthCredentials.toCborValue : AuthCredentials → Value
  | .token token => .dict [("Token", byteList token)]
  | .mtls certFingerprint assertedSubject =>
    .dict [("Mtls", .dict [("cert_fingerprint", .bytes certFingerprint), ("asserted_subject", .str assertedSubject)])]

/-- The variant name of a statement kind, or the dict of a custom one. -/
def StatementKind.toCborValue : StatementKind → Value
  | .fact => .str "Fact"
  | .preference => .str "Preference"
  | .event => .str "Event"
  | .attribute => .str "Attribute"
  | .relation => .str "Relation"
  | .directive => .str "Directive"
  | .custom byte => .dict [("Custom", .int byte.val)]

/-- `EvidenceRef.to_cbor_value`. -/
def EvidenceRef.toCborValue : EvidenceRef → Value
  | .inline ids => .dict [("Inline", .list (ids.map Value.bytes))]
  | .overflow id => .dict [("Overflow", .bytes id)]

/-- The name of a scope. -/
def RecallScope.name : RecallScope → String
  | .space => "Space"
  | .namespace_ => "Namespace"

/-- The reason of a CANCEL_STREAM. -/
def CancellationReason.toCborValue : CancellationReason → Value
  | .clientUnneeded => .str "ClientUnneeded"
  | .timeout => .str "Timeout"
  | .other text => .dict [("Other", .str text)]

/-- `SimilarityFilter.to_map`. -/
def SimilarityFilter.toMap (f : SimilarityFilter) : Except PyException Value := do
  let threshold ← roundF32 (.float f.threshold)
  return .dict [("reference_memory_id", .int f.referenceMemoryId), ("threshold", threshold)]

/-- `SubscriptionFilter.to_map`. -/
def SubscriptionFilter.toMap (f : SubscriptionFilter) : Except PyException Value := do
  let similar_to ← noneOr SimilarityFilter.toMap f.similarTo
  return .dict [
    ("session_filter", nullable intList f.sessionFilter),
    ("kinds", nullable countList f.kinds),
    ("similar_to", similar_to),
    ("spaces", nullable (fun spaces => .list (spaces.map Value.bytes)) f.spaces),
    ("memory_ids", nullable intList f.memoryIds)]

/-! ### Requests -/

/-- `HelloPayload.to_map`. -/
def HelloPayload.toMap (p : HelloPayload) : Value :=
  .dict [
    ("client_id", .str p.clientId),
    ("supported_versions", countList p.supportedVersions),
    ("capabilities", HelloCapabilities.toMap p.capabilities),
    ("client_connection_token", nullable .bytes p.clientConnectionToken)]

/-- `AuthPayload.to_map`. -/
def AuthPayload.toMap (p : AuthPayload) : Value :=
  .dict [("method", .int p.method.val), ("credentials", AuthCredentials.toCborValue p.credentials)]

/-- `ByeRequest.to_map`. -/
def ByeRequest.toMap (p : ByeRequest) : Value := .dict [("reason", nullable .str p.reason)]

/-- `PingRequest.to_map`. -/
def PingRequest.toMap (p : PingRequest) : Value := .dict [("client_timestamp_unix_nanos", .int p.clientTimestampUnixNanos)]

/-- `ClientPongRequest.to_map`. -/
def ClientPongRequest.toMap (p : ClientPongRequest) : Value :=
  .dict [
    ("server_timestamp_unix_nanos", .int p.serverTimestampUnixNanos),
    ("client_timestamp_unix_nanos", .int p.clientTimestampUnixNanos)]

/-- `EncodeRequest.to_map`. -/
def EncodeRequest.toMap (p : EncodeRequest) : Except PyException Value := do
  let act_as ← actAsEntry p.actAs
  return .dict ([
    ("text", .str p.text),
    ("session_id", .int p.sessionId),
    ("request_id", .bytes p.requestId),
    ("txn_id", nullable .bytes p.txnId),
    ("occurred_at_unix_nanos", nullable (fun n : Nat => .int n) p.occurredAtUnixNanos)] ++ act_as ++
    (if p.wait.val ≠ 0 then [("wait", .int p.wait.val)] else []) ++
    (if p.allowDuplicates then [("allow_duplicates", .bool p.allowDuplicates)] else []))

/-- The attributes of an `EncodeVectorDirectRequest`. -/
def vectorDirect (p : BrainSdk.Requests.EncodeVectorDirectRequest) : Types.EncodeVectorDirectRequest Value where
  text := .str p.text
  model_fingerprint := .bytes p.modelFingerprint
  session_id := .int p.sessionId
  kind := .int p.kind.val
  salience_hint := .float p.salienceHint
  edges := p.edges.map (fun e => [.int e.target, .int e.kind.val, .float e.weight])
  request_id := .bytes p.requestId
  txn_id := nullable .bytes p.txnId
  deduplicate := .bool p.deduplicate
  vector := p.vector.map Subtype.val
  act_as := p.actAs.map actAs

/-- `RecallRequest.to_map`. -/
def RecallRequest.toMap (p : RecallRequest) : Except PyException Value := do
  let confidence_threshold ← roundF32 (.float p.confidenceThreshold)
  let salience_floor ← roundF32 (.float p.salienceFloor)
  let act_as ← actAsEntry p.actAs
  return .dict ([
    ("cue_text", .str p.cueText),
    ("subject_name", .str p.subjectName),
    ("max_results", .int p.maxResults.val),
    ("confidence_threshold", confidence_threshold),
    ("session_filter", nullable intList p.sessionFilter),
    ("age_bound_unix_nanos", nullable (fun n : Nat => .int n) p.ageBoundUnixNanos),
    ("as_of_record_time_unix_nanos", nullable (fun n : Nat => .int n) p.asOfRecordTimeUnixNanos),
    ("kind_filter", nullable countList p.kindFilter),
    ("salience_floor", salience_floor),
    ("include_edges", .bool p.includeEdges),
    ("include_graph", .bool p.includeGraph),
    ("include_text", .bool p.includeText),
    ("request_id", nullable .bytes p.requestId),
    ("txn_id", nullable .bytes p.txnId),
    ("trace", .bool p.trace)] ++ act_as ++ [("scope", .str (RecallScope.name p.scope))])

/-- `ForgetRequest.to_map`. -/
def ForgetRequest.toMap (p : ForgetRequest) : Except PyException Value := do
  let act_as ← actAsEntry p.actAs
  return .dict ([
    ("memory_id", .int p.memoryId),
    ("mode", .int p.mode.val),
    ("request_id", .bytes p.requestId),
    ("txn_id", nullable .bytes p.txnId)] ++ act_as)

/-- `MemoryListRequest.to_map`. -/
def MemoryListRequest.toMap (p : MemoryListRequest) : Except PyException Value := do
  let salience_min ← roundF32 (.float p.salienceMin)
  let salience_max ← roundF32 (.float p.salienceMax)
  let act_as ← actAsEntry p.actAs
  return .dict ([
    ("sort", .int p.sort.val),
    ("dir", .int p.dir.val),
    ("limit", .int p.limit.val),
    ("cursor", byteList p.cursor),
    ("kinds", countList p.kinds),
    ("include_tombstoned", .bool p.includeTombstoned),
    ("time_axis", .int p.timeAxis.val),
    ("from_unix_nanos", .int p.fromUnixNanos),
    ("to_unix_nanos", .int p.toUnixNanos),
    ("salience_min", salience_min),
    ("salience_max", salience_max),
    ("text_contains", .str p.textContains)] ++ act_as)

/-- `EntityCreateRequest.to_map`. -/
def EntityCreateRequest.toMap (p : EntityCreateRequest) : Except PyException Value := do
  let act_as ← actAsEntry p.actAs
  return .dict ([
    ("entity_type_id", .int p.entityTypeId.val),
    ("canonical_name", .str p.canonicalName),
    ("aliases", .list (p.aliases.map Value.str)),
    ("attributes_blob", byteList p.attributesBlob),
    ("session_id", .int p.sessionId),
    ("request_id", .bytes p.requestId)] ++ act_as)

/-- `StatementCreateRequest.to_map`. -/
def StatementCreateRequest.toMap (p : StatementCreateRequest) : Except PyException Value := do
  let confidence ← roundF32 (.float p.confidence)
  let act_as ← actAsEntry p.actAs
  return .dict ([
    ("kind", StatementKind.toCborValue p.kind),
    ("subject", .bytes p.subject),
    ("predicate", .str p.predicate),
    ("object", Python.StatementObject.toCborValue p.object),
    ("confidence", confidence),
    ("evidence", EvidenceRef.toCborValue p.evidence),
    ("extractor_id", .int p.extractorId.val),
    ("valid_from_unix_nanos", .int p.validFromUnixNanos),
    ("valid_to_unix_nanos", .int p.validToUnixNanos),
    ("event_at_unix_nanos", .int p.eventAtUnixNanos),
    ("schema_version", .int p.schemaVersion.val),
    ("session_id", .int p.sessionId),
    ("request_id", .bytes p.requestId)] ++ act_as)

/-- `RelationCreateRequest.to_map`. -/
def RelationCreateRequest.toMap (p : RelationCreateRequest) : Except PyException Value := do
  let confidence ← roundF32 (.float p.confidence)
  let act_as ← actAsEntry p.actAs
  return .dict ([
    ("relation_type", .str p.relationType),
    ("from_entity", .bytes p.fromEntity),
    ("to_entity", .bytes p.toEntity),
    ("properties_blob", byteList p.propertiesBlob),
    ("evidence", EvidenceRef.toCborValue p.evidence),
    ("extractor_id", .int p.extractorId.val),
    ("confidence", confidence),
    ("valid_from_unix_nanos", .int p.validFromUnixNanos),
    ("valid_to_unix_nanos", .int p.validToUnixNanos),
    ("session_id", .int p.sessionId),
    ("request_id", .bytes p.requestId)] ++ act_as)

/-- `LinkRequest.to_map`. -/
def LinkRequest.toMap (p : LinkRequest) : Except PyException Value := do
  let weight ← roundF32 (.float p.weight)
  let act_as ← actAsEntry p.actAs
  return .dict ([
    ("source", .int p.source),
    ("target", .int p.target),
    ("kind", .int p.kind.val),
    ("weight", weight),
    ("request_id", .bytes p.requestId),
    ("txn_id", nullable .bytes p.txnId)] ++ act_as)

/-- `UnlinkRequest.to_map`. -/
def UnlinkRequest.toMap (p : UnlinkRequest) : Except PyException Value := do
  let act_as ← actAsEntry p.actAs
  return .dict ([
    ("source", .int p.source),
    ("target", .int p.target),
    ("kind", .int p.kind.val),
    ("request_id", .bytes p.requestId),
    ("txn_id", nullable .bytes p.txnId)] ++ act_as)

/-- `CancelStreamRequest.to_map`. -/
def CancelStreamRequest.toMap (p : CancelStreamRequest) : Value :=
  .dict [("target_stream_id", .int p.targetStreamId.val), ("reason", CancellationReason.toCborValue p.reason)]

/-- `SubscribeRequest.to_map`. -/
def SubscribeRequest.toMap (p : SubscribeRequest) : Except PyException Value := do
  let filter ← SubscriptionFilter.toMap p.filter
  let act_as ← actAsEntry p.actAs
  return .dict ([
    ("filter", filter),
    ("include_history", .bool p.includeHistory),
    ("from_lsn", nullable (fun n : Nat => .int n) p.fromLsn),
    ("max_inflight", .int p.maxInflight.val)] ++ act_as)

/-- `UnsubscribeRequest.to_map`. -/
def UnsubscribeRequest.toMap (p : UnsubscribeRequest) : Value := .dict [("target_stream_id", .int p.targetStreamId.val)]

/-- `to_map` of each class. -/
def toMap : Request → Except PyException Value
  | .hello p => .ok (HelloPayload.toMap p)
  | .auth p => .ok (AuthPayload.toMap p)
  | .bye p => .ok (ByeRequest.toMap p)
  | .ping p => .ok (PingRequest.toMap p)
  | .clientPong p => .ok (ClientPongRequest.toMap p)
  | .encode p => EncodeRequest.toMap p
  | .encodeVectorDirect p => (vectorDirect p).toMap
  | .recall_ p => RecallRequest.toMap p
  | .forget p => ForgetRequest.toMap p
  | .memoryList p => MemoryListRequest.toMap p
  | .entityCreate p => EntityCreateRequest.toMap p
  | .statementCreate p => StatementCreateRequest.toMap p
  | .relationCreate p => RelationCreateRequest.toMap p
  | .link p => LinkRequest.toMap p
  | .unlink p => UnlinkRequest.toMap p
  | .cancelStream p => .ok (CancelStreamRequest.toMap p)
  | .subscribe p => SubscribeRequest.toMap p
  | .unsubscribe p => .ok (UnsubscribeRequest.toMap p)

/-- `encode_payload(request)`. A direct vector has its section behind the map. -/
def encodePayload (C : Cbor2) : Request → Except PyException Bytes
  | .encodeVectorDirect p => (vectorDirect p).encodePayload C
  | r => (toMap r).bind (toCborBytes C)

end BrainSdk.Python.Requests
