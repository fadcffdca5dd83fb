import BrainSdk.Http.FeedLemmas
import BrainSdk.Theorems.SseParsers

/-!
# A feed in two ways of cutting it

Calls on a feed come to the same however the stream is cut into chunks: the same frames in the same order, the same end, and the same last
event id after each call.
-/

namespace BrainSdk.Http

open Library

/-- A decoder in streaming mode gives in parts what it gives in one piece. -/
def Streams (D : TypeScript.TextDecoder) (whole : Bytes → Text) : Prop :=
  ∀ chunks : List Bytes, (D.texts D.init chunks).flatten = whole chunks.flatten

/-- The reads of a body that comes in chunks, and then ends or fails. -/
def bodyReads (failure : Option String) (chunks : List Bytes) : List (Read UInt8) := chunks.map .ok ++ lastReads failure

/-- The reads of the decoded text. -/
theorem reads_bodyReads (D : TypeScript.TextDecoder) (failure : Option String) (s : D.State) (chunks : List Bytes) :
    D.reads s (bodyReads failure chunks) = (D.texts s chunks).map .ok ++ lastReads failure := by
  induction chunks generalizing s with
  | nil => cases failure <;> rfl
  | cons chunk chunks ih =>
    have hcons : bodyReads failure (chunk :: chunks) = .ok chunk :: bodyReads failure chunks := rfl
    rw [hcons, TypeScript.TextDecoder.reads, ih, TypeScript.TextDecoder.texts, List.map_cons, List.cons_append]

/-- The Python feed, from its stream. -/
theorem feedCalls_python (decode : Bytes → Text) (decodes : Frame → Bool) (n : Nat) (failure : Option String) {chunks : List Bytes}
    (hchunks : [] ∉ chunks) :
    Python.feedCalls decode decodes n (bodyReads failure chunks) =
      lineCalls lineBuffer Python.feedEnds decodes n (newLines (Python.sseLine decode) lineBuffer failure chunks.flatten) :=
  calls_newFeed _ _ n (fun _ => hchunks) failure

/-- The Rust feed. -/
theorem feedCalls_rust (decode : Bytes → Text) (decodes : Frame → Bool) (n : Nat) (failure : Option String) (chunks : List Bytes) :
    Rust.feedCalls decode decodes n (bodyReads failure chunks) =
      lineCalls Rust.joinedBuffer Rust.feedEnds decodes n (newLines (Rust.sseLine decode) Rust.joinedBuffer failure chunks.flatten) := by
  have hE : ¬Rust.feedEnds.onEmpty = true := by decide
  exact calls_newFeed _ _ n (fun h => absurd h hE) failure

/-- The TypeScript feed. -/
theorem feedCalls_typeScript {D : TypeScript.TextDecoder} {whole : Bytes → Text} (hD : Streams D whole) (decodes : Frame → Bool) (n : Nat)
    (failure : Option String) (chunks : List Bytes) :
    TypeScript.feedCalls D decodes n (bodyReads failure chunks) =
      lineCalls lineBuffer TypeScript.feedEnds decodes n (newLines TypeScript.sseLine lineBuffer failure (whole chunks.flatten)) := by
  have hE : ¬TypeScript.feedEnds.onEmpty = true := by decide
  unfold TypeScript.feedCalls
  rw [reads_bodyReads, calls_newFeed _ _ n (fun h => absurd h hE) failure, hD]

/-- For every stream and every two ways of cutting it into chunks that are not empty, any number of calls on the feed come to the same, and
leave the same last event id after each. -/
theorem calls_chunk_free {chunks chunks' : List Bytes} (hstream : chunks.flatten = chunks'.flatten) (hchunks : [] ∉ chunks)
    (hchunks' : [] ∉ chunks') {D : TypeScript.TextDecoder} {whole : Bytes → Text} (hD : Streams D whole)
    (decodePython decodeRust : Bytes → Text) (decodesPython decodesRust decodesTypeScript : Frame → Bool) (failure : Option String)
    (n : Nat) :
    Python.feedCalls decodePython decodesPython n (bodyReads failure chunks) =
        Python.feedCalls decodePython decodesPython n (bodyReads failure chunks') ∧
      Rust.feedCalls decodeRust decodesRust n (bodyReads failure chunks) =
        Rust.feedCalls decodeRust decodesRust n (bodyReads failure chunks') ∧
      TypeScript.feedCalls D decodesTypeScript n (bodyReads failure chunks) =
        TypeScript.feedCalls D decodesTypeScript n (bodyReads failure chunks') := by
  refine ⟨?_, ?_, ?_⟩
  · rw [feedCalls_python _ _ n failure hchunks, feedCalls_python _ _ n failure hchunks', hstream]
  · rw [feedCalls_rust, feedCalls_rust, hstream]
  · rw [feedCalls_typeScript hD, feedCalls_typeScript hD, hstream]

/-- A decoder that keeps nothing back gives in parts what it gives in one piece. -/
theorem streams_ascii : Streams asciiDecoders.typeScript (List.map toChar) := by
  intro chunks
  induction chunks with
  | nil => rfl
  | cons chunk chunks ih =>
    rw [TypeScript.TextDecoder.texts, List.flatten_cons, List.flatten_cons, List.map_append]
    exact congrArg _ ih

/-- An event in one piece, and cut inside a field name and between a carriage return and its line feed. -/
def wholeEvent : List Bytes := [utf8 "event: stored\r\nid: 7\ndata: 1\n\n"]

def cutEvent : List Bytes := [utf8 "event: sto", utf8 "red\r", utf8 "\ni", utf8 "d: 7\ndata: 1\n\n"]

theorem calls_chunk_free_cut :
    Python.feedCalls (List.map toChar) (fun _ => true) 2 (bodyReads none cutEvent) =
        Python.feedCalls (List.map toChar) (fun _ => true) 2 (bodyReads none wholeEvent) ∧
      Rust.feedCalls (List.map toChar) (fun _ => true) 2 (bodyReads none cutEvent) =
        Rust.feedCalls (List.map toChar) (fun _ => true) 2 (bodyReads none wholeEvent) ∧
      TypeScript.feedCalls asciiDecoders.typeScript (fun _ => true) 2 (bodyReads none cutEvent) =
        TypeScript.feedCalls asciiDecoders.typeScript (fun _ => true) 2 (bodyReads none wholeEvent) :=
  calls_chunk_free (by decide +kernel) (by decide +kernel) (by decide +kernel) streams_ascii _ _ _ _ _ none 2

end BrainSdk.Http
