import BrainSdk.Cbor.Requests

/-!
# Requests of the TypeScript SDK

The `encode..` functions of `wire/types.ts`, and `f32ToLeBytes` of `wire/cbor.ts`. A `Map` keeps its entries in insertion order, and no key
is set twice.
-/

namespace BrainSdk.TypeScript.Requests

open Library Cbor BrainSdk.Requests

/-! ### Fields -/

/-- The number of an integer. -/
def number (n : Nat) : Value := .number (.mk 0 (Format.binary64.round (n * 2 ^ oneExponent)))

/-- A list of `bigint`. -/
def bigints (ns : List Nat) : Value := .array (ns.map (fun n : Nat => .bigint n))

/-- A list of `number`. -/
def numbers (ns : List Count) : Value := .array (ns.map (fun n : Count => number n.val))

/-- `Array.from` of a `Uint8Array`. -/
def arrayFrom (bytes : Bytes) : Value := .array (bytes.map byteNumber)

/-- A field that may be `null`. -/
def nullable {α : Type} (f : α → Value) (v : Option α) : Value := v.elim .null f

/-- `encodeActAs`. -/
def encodeActAs (a : ActAs) : Value :=
  .map ([("namespace", .string a.namespace_), ("space", .string a.space)] ++
    (if a.grant.val ≠ 0 then [("grant", number a.grant.val)] else []))

/-- `requestMapWithActAs`. -/
def requestMapWithActAs (entries : List (String × Value)) (actAs : Option ActAs) : List (String × Value) :=
  entries ++ actAs.elim [] (fun a => [("act_as", encodeActAs a)])

/-- `encodeCapabilities`. -/
def encodeCapabilities (c : HelloCapabilities) : Value :=
  .map [("streaming", .boolean c.streaming), ("compression_zstd", .boolean c.compressionZstd), ("server_push", .boolean c.serverPush)]

/-- `encodeCredentials`. -/
def encodeCredentials : AuthCredentials → Value
  | .token token => .map [("Token", arrayFrom token)]
  | .mtls certFingerprint assertedSubject =>
    .map [("Mtls", .map [("cert_fingerprint", .uint8Array certFingerprint), ("asserted_subject", .string assertedSubject)])]

/-- `encodeEdge`. -/
def encodeEdge (e : EdgeRequest) : Value :=
  .map [("target", .bigint e.target), ("kind", number e.kind.val), ("weight", .f32 e.weight)]

/-- `encodeStatementKind`. -/
def encodeStatementKind : StatementKind → Value
  | .fact => .string "Fact"
  | .preference => .string "Preference"
  | .event => .string "Event"
  | .attribute => .string "Attribute"
  | .relation => .string "Relation"
  | .directive => .string "Directive"
  | .custom byte => .map [("Custom", number byte.val)]

/-- `encodeEvidence`. -/
def encodeEvidence : EvidenceRef → Value
  | .inline ids => .map [("Inline", .array (ids.map Value.uint8Array))]
  | .overflow id => .map [("Overflow", .uint8Array id)]

/-- `RecallScopeWire`. -/
def scopeName : RecallScope → String
  | .space => "Space"
  | .namespace_ => "Namespace"

/-- The reason of a CANCEL_STREAM. -/
def cancellationReason : CancellationReason → Value
  | .clientUnneeded => .string "ClientUnneeded"
  | .timeout => .string "Timeout"
  | .other text => .map [("Other", .string text)]

/-- `encodeSubscriptionFilter`. -/
def encodeSubscriptionFilter (f : SubscriptionFilter) : Value :=
  .map [
    ("session_filter", nullable bigints f.sessionFilter),
    ("kinds", nullable numbers f.kinds),
    ("similar_to", nullable (fun s : SimilarityFilter =>
      .map [("reference_memory_id", .bigint s.referenceMemoryId), ("threshold", .f32 s.threshold)]) f.similarTo),
    ("spaces", nullable (fun spaces => .array (spaces.map Value.uint8Array)) f.spaces),
    ("memory_ids", nullable bigints f.memoryIds)]

/-- `f32ToLeBytes`. -/
def f32ToLeBytes (values : List Double) : Bytes := values.flatMap (fun x => (toBytesBE 4 (float32Bits x)).reverse)

/-! ### Requests -/

/-- `encodeHello`. -/
def encodeHello (p : HelloPayload) : Except CborError Bytes :=
  toCbor (.map [
    ("client_id", .string p.clientId),
    ("supported_versions", numbers p.supportedVersions),
    ("capabilities", encodeCapabilities p.capabilities),
    ("client_connection_token", nullable .uint8Array p.clientConnectionToken)])

/-- `encodeAuth`. -/
def encodeAuth (p : AuthPayload) : Except CborError Bytes :=
  toCbor (.map [("method", number p.method.val), ("credentials", encodeCredentials p.credentials)])

/-- `encodeBye`. -/
def encodeBye (p : ByeRequest) : Except CborError Bytes := toCbor (.map [("reason", nullable .string p.reason)])

/-- `encodePing`. -/
def encodePing (p : PingRequest) : Except CborError Bytes :=
  toCbor (.map [("client_timestamp_unix_nanos", .bigint p.clientTimestampUnixNanos)])

/-- `encodeClientPong`. -/
def encodeClientPong (p : ClientPongRequest) : Except CborError Bytes :=
  toCbor (.map [
    ("server_timestamp_unix_nanos", .bigint p.serverTimestampUnixNanos),
    ("client_timestamp_unix_nanos", .bigint p.clientTimestampUnixNanos)])

/-- `encodeEncode`. -/
def encodeEncode (p : EncodeRequest) : Except CborError Bytes :=
  let map := requestMapWithActAs [
    ("text", .string p.text),
    ("session_id", .bigint p.sessionId),
    ("request_id", .uint8Array p.requestId),
    ("txn_id", nullable .uint8Array p.txnId),
    ("occurred_at_unix_nanos", nullable (fun n : Nat => .bigint n) p.occurredAtUnixNanos)] p.actAs
  let map := if p.wait.val ≠ 0 then map ++ [("wait", number p.wait.val)] else map
  let map := if p.allowDuplicates then map ++ [("allow_duplicates", .boolean true)] else map
  toCbor (.map map)

/-- `encodeEncodeVectorDirect`. -/
def encodeEncodeVectorDirect (p : EncodeVectorDirectRequest) : Except CborError Bytes := do
  let cbor ← toCbor (.map (requestMapWithActAs [
    ("text", .string p.text),
    ("model_fingerprint", .uint8Array p.modelFingerprint),
    ("session_id", .bigint p.sessionId),
    ("kind", number p.kind.val),
    ("salience_hint", .f32 p.salienceHint),
    ("edges", .array (p.edges.map encodeEdge)),
    ("request_id", .uint8Array p.requestId),
    ("txn_id", nullable .uint8Array p.txnId),
    ("deduplicate", .boolean p.deduplicate)] p.actAs))
  return cbor ++ f32ToLeBytes (p.vector.map Subtype.val)

/-- `encodeRecall`. -/
def encodeRecall (p : RecallRequest) : Except CborError Bytes :=
  let map := requestMapWithActAs [
    ("cue_text", .string p.cueText),
    ("subject_name", .string p.subjectName),
    ("max_results", number p.maxResults.val),
    ("confidence_threshold", .f32 p.confidenceThreshold),
    ("session_filter", nullable bigints p.sessionFilter),
    ("age_bound_unix_nanos", nullable (fun n : Nat => .bigint n) p.ageBoundUnixNanos),
    ("as_of_record_time_unix_nanos", nullable (fun n : Nat => .bigint n) p.asOfRecordTimeUnixNanos),
    ("kind_filter", nullable numbers p.kindFilter),
    ("salience_floor", .f32 p.salienceFloor),
    ("include_edges", .boolean p.includeEdges),
    ("include_graph", .boolean p.includeGraph),
    ("include_text", .boolean p.includeText),
    ("request_id", nullable .uint8Array p.requestId),
    ("txn_id", nullable .uint8Array p.txnId),
    ("trace", .boolean p.trace)] p.actAs
  toCbor (.map (map ++ [("scope", .string (scopeName p.scope))]))

/-- `encodeForget`. -/
def encodeForget (p : ForgetRequest) : Except CborError Bytes :=
  toCbor (.map (requestMapWithActAs [
    ("memory_id", .bigint p.memoryId),
    ("mode", number p.mode.val),
    ("request_id", .uint8Array p.requestId),
    ("txn_id", nullable .uint8Array p.txnId)] p.actAs))

/-- `encodeMemoryList`. -/
def encodeMemoryList (p : MemoryListRequest) : Except CborError Bytes :=
  toCbor (.map (requestMapWithActAs [
    ("sort", number p.sort.val),
    ("dir", number p.dir.val),
    ("limit", number p.limit.val),
    ("cursor", arrayFrom p.cursor),
    ("kinds", numbers p.kinds),
    ("include_tombstoned", .boolean p.includeTombstoned),
    ("time_axis", number p.timeAxis.val),
    ("from_unix_nanos", .bigint p.fromUnixNanos),
    ("to_unix_nanos", .bigint p.toUnixNanos),
    ("salience_min", .f32 p.salienceMin),
    ("salience_max", .f32 p.salienceMax),
    ("text_contains", .string p.textContains)] p.actAs))

/-- `encodeEntityCreate`. -/
def encodeEntityCreate (p : EntityCreateRequest) : Except CborError Bytes :=
  toCbor (.map (requestMapWithActAs [
    ("entity_type_id", number p.entityTypeId.val),
    ("canonical_name", .string p.canonicalName),
    ("aliases", .array (p.aliases.map Value.string)),
    ("attributes_blob", arrayFrom p.attributesBlob),
    ("session_id", .bigint p.sessionId),
    ("request_id", .uint8Array p.requestId)] p.actAs))

/-- `statementCreateMap`. -/
def statementCreateMap (p : StatementCreateRequest) : List (String × Value) :=
  requestMapWithActAs [
    ("kind", encodeStatementKind p.kind),
    ("subject", .uint8Array p.subject),
    ("predicate", .string p.predicate),
    ("object", encodeStatementObject p.object),
    ("confidence", .f32 p.confidence),
    ("evidence", encodeEvidence p.evidence),
    ("extractor_id", number p.extractorId.val),
    ("valid_from_unix_nanos", .bigint p.validFromUnixNanos),
    ("valid_to_unix_nanos", .bigint p.validToUnixNanos),
    ("event_at_unix_nanos", .bigint p.eventAtUnixNanos),
    ("schema_version", number p.schemaVersion.val),
    ("session_id", .bigint p.sessionId),
    ("request_id", .uint8Array p.requestId)] p.actAs

/-- `encodeStatementCreate`. -/
def encodeStatementCreate (p : StatementCreateRequest) : Except CborError Bytes := toCbor (.map (statementCreateMap p))

/-- `relationCreateMap`. -/
def relationCreateMap (p : RelationCreateRequest) : List (String × Value) :=
  requestMapWithActAs [
    ("relation_type", .string p.relationType),
    ("from_entity", .uint8Array p.fromEntity),
    ("to_entity", .uint8Array p.toEntity),
    ("properties_blob", arrayFrom p.propertiesBlob),
    ("evidence", encodeEvidence p.evidence),
    ("extractor_id", number p.extractorId.val),
    ("confidence", .f32 p.confidence),
    ("valid_from_unix_nanos", .bigint p.validFromUnixNanos),
    ("valid_to_unix_nanos", .bigint p.validToUnixNanos),
    ("session_id", .bigint p.sessionId),
    ("request_id", .uint8Array p.requestId)] p.actAs

/-- `encodeRelationCreate`. -/
def encodeRelationCreate (p : RelationCreateRequest) : Except CborError Bytes := toCbor (.map (relationCreateMap p))

/-- `encodeLink`. -/
def encodeLink (p : LinkRequest) : Except CborError Bytes :=
  toCbor (.map (requestMapWithActAs [
    ("source", .bigint p.source),
    ("target", .bigint p.target),
    ("kind", number p.kind.val),
    ("weight", .f32 p.weight),
    ("request_id", .uint8Array p.requestId),
    ("txn_id", nullable .uint8Array p.txnId)] p.actAs))

/-- `encodeUnlink`. -/
def encodeUnlink (p : UnlinkRequest) : Except CborError Bytes :=
  toCbor (.map (requestMapWithActAs [
    ("source", .bigint p.source),
    ("target", .bigint p.target),
    ("kind", number p.kind.val),
    ("request_id", .uint8Array p.requestId),
    ("txn_id", nullable .uint8Array p.txnId)] p.actAs))

/-- `encodeCancelStream`. -/
def encodeCancelStream (p : CancelStreamRequest) : Except CborError Bytes :=
  toCbor (.map [("target_stream_id", number p.targetStreamId.val), ("reason", cancellationReason p.reason)])

/-- `encodeSubscribe`. -/
def encodeSubscribe (p : SubscribeRequest) : Except CborError Bytes :=
  toCbor (.map (requestMapWithActAs [
    ("filter", encodeSubscriptionFilter p.filter),
    ("include_history", .boolean p.includeHistory),
    ("from_lsn", nullable (fun n : Nat => .bigint n) p.fromLsn),
    ("max_inflight", number p.maxInflight.val)] p.actAs))

/-- `encodeUnsubscribe`. -/
def encodeUnsubscribe (p : UnsubscribeRequest) : Except CborError Bytes :=
  toCbor (.map [("target_stream_id", number p.targetStreamId.val)])

/-- The encoder of each request. -/
def encode : Request → Except CborError Bytes
  | .hello p => encodeHello p
  | .auth p => encodeAuth p
  | .bye p => encodeBye p
  | .ping p => encodePing p
  | .clientPong p => encodeClientPong p
  | .encode p => encodeEncode p
  | .encodeVectorDirect p => encodeEncodeVectorDirect p
  | .recall_ p => encodeRecall p
  | .forget p => encodeForget p
  | .memoryList p => encodeMemoryList p
  | .entityCreate p => encodeEntityCreate p
  | .statementCreate p => encodeStatementCreate p
  | .relationCreate p => encodeRelationCreate p
  | .link p => encodeLink p
  | .unlink p => encodeUnlink p
  | .cancelStream p => encodeCancelStream p
  | .subscribe p => encodeSubscribe p
  | .unsubscribe p => encodeUnsubscribe p

end BrainSdk.TypeScript.Requests
