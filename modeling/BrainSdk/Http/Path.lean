import BrainSdk.Library.UrlPath

/-!
# Ids in paths

The routes of the HTTP tier that have ids of the caller in their path, how each client writes an id there, and the path of the request
that goes out: `pathId` of `http/client.ts` and `segment` of `http/client.rs`, and after them the URL parser of `fetch` and `reqwest`.
-/

namespace BrainSdk.Http

open Library

/-- A piece of a route: a fixed segment, or the first or second id of the call. -/
inductive Piece where
  | literal (s : String)
  | id (slot : Fin 2)
  deriving DecidableEq

/-- The routes with ids. -/
inductive IdRoute where
  | memoryInspect
  | entity
  | entityTraverse
  | entityRelations
  | entityRename
  | entityMerge
  | entityUnmerge
  | relation
  | relationSupersede
  | statement
  | statementSupersede
  | statementRetract
  | statementHistory
  | dropSchema

/-- The segments of a route. -/
def IdRoute.pieces : IdRoute → List Piece
  | .memoryInspect => [.literal "v1", .literal "memories", .id 0, .literal "inspect"]
  | .entity => [.literal "v1", .literal "entities", .id 0]
  | .entityTraverse => [.literal "v1", .literal "entities", .id 0, .literal "traverse"]
  | .entityRelations => [.literal "v1", .literal "entities", .id 0, .literal "relations"]
  | .entityRename => [.literal "v1", .literal "entities", .id 0, .literal "rename"]
  | .entityMerge => [.literal "v1", .literal "entities", .id 0, .literal "merge"]
  | .entityUnmerge => [.literal "v1", .literal "entities", .id 0, .literal "unmerge"]
  | .relation => [.literal "v1", .literal "relations", .id 0]
  | .relationSupersede => [.literal "v1", .literal "relations", .id 0, .literal "supersede"]
  | .statement => [.literal "v1", .literal "statements", .id 0]
  | .statementSupersede => [.literal "v1", .literal "statements", .id 0, .literal "supersede"]
  | .statementRetract => [.literal "v1", .literal "statements", .id 0, .literal "retract"]
  | .statementHistory => [.literal "v1", .literal "statements", .id 0, .literal "history"]
  | .dropSchema => [.literal "v1", .literal "schema", .id 0, .id 1]

/-- A piece as it is written, with a client's way of writing an id. -/
def Piece.render (writeId : String → List Char) (ids : Fin 2 → String) : Piece → Segment
  | .literal s => s.toList
  | .id slot => writeId (ids slot)

/-- The path that a client puts after its base URL. -/
def IdRoute.text (route : IdRoute) (writeId : String → List Char) (ids : Fin 2 → String) : List Char :=
  '/' :: slashed (route.pieces.map (Piece.render writeId ids))

/-- The path of the request. `base` is the path of the base URL, which the first `/` of the text closes. -/
def requestPath (base : List Segment) (text : List Char) : List Segment := pathState base [] (text.drop 1)

end BrainSdk.Http

namespace BrainSdk.TypeScript

open Library Http

/-- The characters that `encodeURIComponent` leaves as they are. -/
def isUriUnescaped (c : Char) : Bool :=
  ('A' ≤ c && c ≤ 'Z') || ('a' ≤ c && c ≤ 'z') || ('0' ≤ c && c ≤ '9') || c ∈ ['-', '_', '.', '!', '~', '*', Char.ofNat 0x27, '(', ')']

/-- `encodeURIComponent`. -/
def encodeURIComponent (s : String) : List Char :=
  s.toList.flatMap (fun c => if isUriUnescaped c then [c] else (String.utf8EncodeChar c).flatMap percentByte)

/-- `pathId`. -/
def pathId (id : String) : List Char := encodeURIComponent id

end BrainSdk.TypeScript

namespace BrainSdk.Rust

open Library Http

/-- The bytes that `segment` leaves as they are. -/
def isUnreserved (b : UInt8) : Bool :=
  (0x41 ≤ b && b ≤ 0x5A) || (0x61 ≤ b && b ≤ 0x7A) || (0x30 ≤ b && b ≤ 0x39) || b = 0x2D || b = 0x5F || b = 0x7E

/-- `segment`. -/
def segment (value : String) : List Char :=
  (utf8 value).flatMap (fun b => if isUnreserved b then [Char.ofNat b.toNat] else percentByte b)

end BrainSdk.Rust
