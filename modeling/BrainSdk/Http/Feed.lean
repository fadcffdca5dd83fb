import BrainSdk.Http.SseLemmas

/-!
# Calls on a change feed

`__next__` of `http/sse.py`, `next` of `http/sse.rs` and the iterator of `http/sse.ts`, call after call: a call gives the first frame that
is whole, reading on as long as there is none. The three differ in what ends a feed for good.
-/

namespace BrainSdk.Http

open Library

/-- What a read of the response comes to: what has come, or the text of an error. -/
abbrev Read (α : Type) : Type := Except String (List α)

/-- What a call comes to: an item, the error of a frame that does not decode, the end of the feed, or the error of a read. -/
inductive Given where
  | item (frame : Frame)
  | undecodable (frame : Frame)
  | stop
  | failed (message : String)
  deriving DecidableEq, Repr

/-- What ends a feed for good besides the end of the body: whether an empty read is that end, whether a read that fails ends the feed, and
whether a frame that does not decode does. -/
structure Ends where
  onEmpty : Bool
  onFailure : Bool
  onUndecodable : Bool

/-- A feed between two calls. After the reads that are still to come, the body has ended. -/
structure Feed (α Data : Type) where
  sub : Subscription α Data
  reads : List (Read α)
  done : Bool

/-- How the loop of a call ends. -/
inductive Pulled where
  | frame (frame : Frame)
  | stop
  | failed (message : String)

section

variable {α Data : Type} [DecidableEq α] (R : LineReader α) (B : DataBuffer Data) (E : Ends) (decodes : Frame → Bool)

/-- The loop of a call: a whole frame of the buffer, else a read. -/
def pull (sub : Subscription α Data) (reads : List (Read α)) : Pulled × Subscription α Data × List (Read α) :=
  match takeFrame R B sub, reads with
  | (some frame, sub'), reads => (.frame frame, sub', reads)
  | (none, sub'), [] => (.stop, sub', [])
  | (none, sub'), .error message :: reads => (.failed message, sub', reads)
  | (none, sub'), .ok chunk :: reads =>
    if E.onEmpty = true ∧ chunk = [] then (.stop, sub', reads) else pull { sub' with buf := sub'.buf ++ chunk } reads

/-- A call. `decodes` is whether the JSON of a frame decodes. -/
def call (s : Feed α Data) : Given × Feed α Data :=
  if s.done then (.stop, s)
  else
    match pull R B E s.sub s.reads with
    | (.frame frame, sub, reads) =>
      if decodes frame then (.item frame, { s with sub := sub, reads := reads })
      else (.undecodable frame, { sub := sub, reads := reads, done := E.onUndecodable })
    -- a closed response has no more to read
    | (.stop, sub, _) => (.stop, { sub := sub, reads := [], done := true })
    | (.failed message, sub, reads) => (.failed message, { sub := sub, reads := reads, done := E.onFailure })

/-- Calls one after the other: what each comes to, with the last event id after it. -/
def calls : Nat → Feed α Data → List (Given × Option Text)
  | 0, _ => []
  | n + 1, s =>
    let r := call R B E decodes s
    (r.1, r.2.sub.fields.lastId) :: calls n r.2

/-- A feed before its first call. -/
def newFeed (reads : List (Read α)) : Feed α Data := { sub := newSubscription B, reads := reads, done := false }

end

end BrainSdk.Http

namespace BrainSdk.Python

open Library Http

/-- `__next__` raises what a read raises and what `_decode` raises, and closes the response at an empty read. -/
def feedEnds : Ends := { onEmpty := true, onFailure := false, onUndecodable := false }

/-- Calls of `__next__` on the feed of a response. -/
def feedCalls (decode : Bytes → Text) (decodes : Frame → Bool) (n : Nat) (reads : List (Read UInt8)) : List (Given × Option Text) :=
  calls (sseLine decode) lineBuffer feedEnds decodes n (newFeed lineBuffer reads)

end BrainSdk.Python

namespace BrainSdk.Rust

open Library Http

/-- `next` sets `done` at a read that fails and at the end of the stream. -/
def feedEnds : Ends := { onEmpty := false, onFailure := true, onUndecodable := false }

/-- Calls of `next` on the feed of a response. -/
def feedCalls (decode : Bytes → Text) (decodes : Frame → Bool) (n : Nat) (reads : List (Read UInt8)) : List (Given × Option Text) :=
  calls (sseLine decode) joinedBuffer feedEnds decodes n (newFeed joinedBuffer reads)

end BrainSdk.Rust

namespace BrainSdk.TypeScript

open Library Http

/-- A generator that throws is done. -/
def feedEnds : Ends := { onEmpty := false, onFailure := true, onUndecodable := true }

/-- The reads with their chunks decoded. -/
def TextDecoder.reads (D : TextDecoder) (s : D.State) : List (Read UInt8) → List (Read Char)
  | [] => []
  | .error message :: reads => .error message :: D.reads s reads
  | .ok chunk :: reads => .ok (D.decode s chunk).1 :: D.reads (D.decode s chunk).2 reads

/-- Calls of `next` on the iterator of a feed. -/
def feedCalls (D : TextDecoder) (decodes : Frame → Bool) (n : Nat) (reads : List (Read UInt8)) : List (Given × Option Text) :=
  calls sseLine lineBuffer feedEnds decodes n (newFeed lineBuffer (D.reads D.init reads))

end BrainSdk.TypeScript
