import BrainSdk.Cbor.Statement

/-!
# Requests

Requests of a session, of memories and of the graph, as the classes of `wire/types.py` and the interfaces of `wire/types.ts` have them.
An attribute has one type in both: an `int` that is a `bigint` is a natural number, and an `int` that is a `number` is one that a double
has exactly.
-/

namespace BrainSdk.Requests

open Library Cbor

/-- The integers from 0 on that a `number` has exactly. -/
abbrev Count : Type := Fin (2 ^ 53)

/-- The floats that are neither infinite nor a NaN. -/
abbrev Finite : Type := { x : Double // x.isFinite }

/-- `HelloCapabilities`. -/
structure HelloCapabilities where
  streaming : Bool
  compressionZstd : Bool
  serverPush : Bool

/-- `HelloPayload`. -/
structure HelloPayload where
  clientId : String
  supportedVersions : List Count
  capabilities : HelloCapabilities
  clientConnectionToken : Option Bytes

/-- `AuthCredentials`. -/
inductive AuthCredentials where
  | token (token : Bytes)
  | mtls (certFingerprint : Bytes) (assertedSubject : String)

/-- `AuthPayload`. -/
structure AuthPayload where
  method : Count
  credentials : AuthCredentials

/-- `ByeRequest`. -/
structure ByeRequest where
  reason : Option String

/-- `PingRequest`. -/
structure PingRequest where
  clientTimestampUnixNanos : Nat

/-- `ClientPongRequest`. -/
structure ClientPongRequest where
  serverTimestampUnixNanos : Nat
  clientTimestampUnixNanos : Nat

/-- `ActAs`. A grant that is left out is 0. -/
structure ActAs where
  namespace_ : String
  space : String
  grant : Count

/-- `EdgeRequest`. -/
structure EdgeRequest where
  target : Nat
  kind : Count
  weight : Finite

/-- `EncodeRequest`. A `wait` that is left out is `Ack`, which is 0. -/
structure EncodeRequest where
  text : String
  sessionId : Nat
  requestId : Bytes
  txnId : Option Bytes
  occurredAtUnixNanos : Option Nat
  actAs : Option ActAs
  wait : Count
  allowDuplicates : Bool

/-- `EncodeVectorDirectRequest`. -/
structure EncodeVectorDirectRequest where
  text : String
  vector : List Finite
  modelFingerprint : Bytes
  sessionId : Nat
  kind : Count
  salienceHint : Finite
  edges : List EdgeRequest
  requestId : Bytes
  txnId : Option Bytes
  deduplicate : Bool
  actAs : Option ActAs

/-- `RecallScope`. -/
inductive RecallScope where
  | space
  | namespace_

/-- `RecallRequest`. -/
structure RecallRequest where
  cueText : String
  subjectName : String
  maxResults : Count
  confidenceThreshold : Finite
  sessionFilter : Option (List Nat)
  ageBoundUnixNanos : Option Nat
  asOfRecordTimeUnixNanos : Option Nat
  kindFilter : Option (List Count)
  salienceFloor : Finite
  includeEdges : Bool
  includeGraph : Bool
  includeText : Bool
  requestId : Option Bytes
  txnId : Option Bytes
  trace : Bool
  actAs : Option ActAs
  scope : RecallScope

/-- `ForgetRequest`. -/
structure ForgetRequest where
  memoryId : Nat
  mode : Count
  requestId : Bytes
  txnId : Option Bytes
  actAs : Option ActAs

/-- `MemoryListRequest`. -/
structure MemoryListRequest where
  sort : Count
  dir : Count
  limit : Count
  cursor : Bytes
  kinds : List Count
  includeTombstoned : Bool
  timeAxis : Count
  fromUnixNanos : Nat
  toUnixNanos : Nat
  salienceMin : Finite
  salienceMax : Finite
  textContains : String
  actAs : Option ActAs

/-- `EntityCreateRequest`. -/
structure EntityCreateRequest where
  entityTypeId : Count
  canonicalName : String
  aliases : List String
  attributesBlob : Bytes
  sessionId : Nat
  requestId : Bytes
  actAs : Option ActAs

/-- `StatementKind`. -/
inductive StatementKind where
  | fact
  | preference
  | event
  | attribute
  | relation
  | directive
  | custom (byte : Count)

/-- `EvidenceRef`. -/
inductive EvidenceRef where
  | inline (ids : List Bytes)
  | overflow (id : Bytes)

/-- `StatementCreateRequest`. -/
structure StatementCreateRequest where
  kind : StatementKind
  subject : Bytes
  predicate : String
  object : { o : StatementObject // o.InRange }
  confidence : Finite
  evidence : EvidenceRef
  extractorId : Count
  validFromUnixNanos : Nat
  validToUnixNanos : Nat
  eventAtUnixNanos : Nat
  schemaVersion : Count
  sessionId : Nat
  requestId : Bytes
  actAs : Option ActAs

/-- `RelationCreateRequest`. -/
structure RelationCreateRequest where
  relationType : String
  fromEntity : Bytes
  toEntity : Bytes
  propertiesBlob : Bytes
  evidence : EvidenceRef
  extractorId : Count
  confidence : Finite
  validFromUnixNanos : Nat
  validToUnixNanos : Nat
  sessionId : Nat
  requestId : Bytes
  actAs : Option ActAs

/-- `LinkRequest`. -/
structure LinkRequest where
  source : Nat
  target : Nat
  kind : Count
  weight : Finite
  requestId : Bytes
  txnId : Option Bytes
  actAs : Option ActAs

/-- `UnlinkRequest`. -/
structure UnlinkRequest where
  source : Nat
  target : Nat
  kind : Count
  requestId : Bytes
  txnId : Option Bytes
  actAs : Option ActAs

/-- `CancellationReason`. -/
inductive CancellationReason where
  | clientUnneeded
  | timeout
  | other (text : String)

/-- `CancelStreamRequest`. -/
structure CancelStreamRequest where
  targetStreamId : Count
  reason : CancellationReason

/-- `SimilarityFilter`. -/
structure SimilarityFilter where
  referenceMemoryId : Nat
  threshold : Finite

/-- `SubscriptionFilter`. -/
structure SubscriptionFilter where
  sessionFilter : Option (List Nat)
  kinds : Option (List Count)
  similarTo : Option SimilarityFilter
  spaces : Option (List Bytes)
  memoryIds : Option (List Nat)

/-- `SubscribeRequest`. -/
structure SubscribeRequest where
  filter : SubscriptionFilter
  includeHistory : Bool
  fromLsn : Option Nat
  maxInflight : Count
  actAs : Option ActAs

/-- `UnsubscribeRequest`. -/
structure UnsubscribeRequest where
  targetStreamId : Count

/-- A request of either SDK. -/
inductive Request where
  | hello (p : HelloPayload)
  | auth (p : AuthPayload)
  | bye (p : ByeRequest)
  | ping (p : PingRequest)
  | clientPong (p : ClientPongRequest)
  | encode (p : EncodeRequest)
  | encodeVectorDirect (p : EncodeVectorDirectRequest)
  | recall_ (p : RecallRequest)
  | forget (p : ForgetRequest)
  | memoryList (p : MemoryListRequest)
  | entityCreate (p : EntityCreateRequest)
  | statementCreate (p : StatementCreateRequest)
  | relationCreate (p : RelationCreateRequest)
  | link (p : LinkRequest)
  | unlink (p : UnlinkRequest)
  | cancelStream (p : CancelStreamRequest)
  | subscribe (p : SubscribeRequest)
  | unsubscribe (p : UnsubscribeRequest)

end BrainSdk.Requests
