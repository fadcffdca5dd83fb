import BrainSdk.Library.Bytes
import BrainSdk.Library.Lines

/-!
# The change feed

The parsers of Server-Sent Events: `_take_frame` of `http/sse.py`, `take_frame` of `http/sse.rs`, `takeFrame` of `http/sse.ts`, and the
loop that reads the stream around them. The three are the same line by line and differ in two places: how they cut carriage returns off a
line, and how they keep the data lines of an event until it is dispatched. The Python and the Rust parser split bytes and decode a line,
the TypeScript one splits decoded text.
-/

namespace BrainSdk.Http

open Library

/-- A line, a field or a value. -/
abbrev Text : Type := List Char

/-- One dispatched frame, before its JSON is decoded. -/
structure Frame where
  event : Option Text
  data : Text
  deriving DecidableEq, Repr

/-- How a parser reads a line: where it ends, and its text. -/
structure LineReader (α : Type) where
  newline : α
  strip : List α → List α
  text : List α → Text

/-- How a parser keeps the data lines of an event. -/
structure DataBuffer (Data : Type) where
  empty : Data
  isEmpty : Data → Bool
  push : Data → Text → Data
  join : Data → Text

/-- The fields of a subscription that the lines set. -/
structure Fields (Data : Type) where
  event : Option Text
  data : Data
  lastId : Option Text

/-- The text before the first colon, and the text after it. -/
def partition (line : Text) : Text × Text := (line.takeWhile (· ≠ ':'), (line.dropWhile (· ≠ ':')).drop 1)

/-- A value without the one space that may stand before it. -/
def removeSpace : Text → Text
  | ' ' :: value => value
  | value => value

section

variable {Data : Type} (B : DataBuffer Data)

/-- What a line does to the fields, and the frame that it dispatches. -/
def onLine (s : Fields Data) (line : Text) : Option Frame × Fields Data :=
  if line = [] then
    if B.isEmpty s.data then (none, { s with event := none })
    else (some { event := s.event, data := B.join s.data }, { s with event := none, data := B.empty })
  else if line.head? = some ':' then (none, s)
  else
    let field := (partition line).1
    let value := removeSpace (partition line).2
    if field = "event".toList then (none, { s with event := some value })
    else if field = "id".toList then (none, { s with lastId := some value })
    else if field = "data".toList then (none, { s with data := B.push s.data value })
    else (none, s)

end

/-- A subscription: the fields, and what has been read and not yet parsed. -/
structure Subscription (α Data : Type) where
  fields : Fields Data
  buf : List α

section

variable {α Data : Type} [DecidableEq α] (R : LineReader α) (B : DataBuffer Data)

/-- The `while` loop of `take_frame`: line after line, to the first frame. `line` is what has been looked at of the first line. -/
def takeFrame.loop (s : Fields Data) (line : List α) : List α → Option Frame × Subscription α Data
  | [] => (none, ⟨s, line⟩)
  | a :: rest =>
    if a = R.newline then
      match onLine B s (R.text (R.strip line)) with
      | (some frame, s') => (some frame, ⟨s', rest⟩)
      | (none, s') => takeFrame.loop s' [] rest
    else takeFrame.loop s (line ++ [a]) rest

/-- `take_frame`. -/
def takeFrame (sub : Subscription α Data) : Option Frame × Subscription α Data := takeFrame.loop R B sub.fields [] sub.buf

/-- Frames from the buffer until there is none, at most `n`. -/
def drain : Nat → Subscription α Data → List Frame × Subscription α Data
  | 0, sub => ([], sub)
  | n + 1, sub =>
    match takeFrame R B sub with
    | (none, sub') => ([], sub')
    | (some frame, sub') =>
      let r := drain n sub'
      (frame :: r.1, r.2)

/-- The feed to its end: all frames of the buffer before every read. -/
def readAll (sub : Subscription α Data) : List (List α) → List Frame × Subscription α Data
  | [] => drain R B (sub.buf.length + 1) sub
  | chunk :: chunks =>
    let r := drain R B (sub.buf.length + 1) sub
    let r' := readAll { r.2 with buf := r.2.buf ++ chunk } chunks
    (r.1 ++ r'.1, r'.2)

/-- A new subscription. -/
def newSubscription : Subscription α Data := ⟨⟨none, B.empty, none⟩, []⟩

/-- What a feed comes to: its frames, and the last event id at its end. -/
def feed (chunks : List (List α)) : List Frame × Option Text :=
  let r := readAll R B (newSubscription B) chunks
  (r.1, r.2.fields.lastId)

end

/-- Data lines in a list. -/
def lineBuffer : DataBuffer (List Text) :=
  { empty := []
    isEmpty := List.isEmpty
    push := fun data value => data ++ [value]
    join := fun data => List.intercalate ['\n'] data }

/-- Cut off the last symbol if it is `cr`. -/
def stripOne {α : Type} [DecidableEq α] (cr : α) (line : List α) : List α := if line.getLast? = some cr then line.dropLast else line

end BrainSdk.Http

namespace BrainSdk.Python

open Library Http

/-- `raw.rstrip(b"\r").decode("utf-8", "replace")`, with the decoder as a parameter. -/
def sseLine (decode : Bytes → Text) : LineReader UInt8 :=
  { newline := 0x0A
    strip := fun raw => (raw.reverse.dropWhile (· = 0x0D)).reverse
    text := decode }

/-- `Subscription` of `http/sse.py` over the chunks of a response. -/
def sseFeed (decode : Bytes → Text) (chunks : List Bytes) : List Frame × Option Text := feed (sseLine decode) lineBuffer chunks

end BrainSdk.Python

namespace BrainSdk.Rust

open Library Http

/-- The line of `take_frame`, with `String::from_utf8_lossy` as a parameter. -/
def sseLine (decode : Bytes → Text) : LineReader UInt8 :=
  { newline := 0x0A
    strip := stripOne 0x0D
    text := decode }

/-- Data lines in one string. -/
def joinedBuffer : DataBuffer Text :=
  { empty := []
    isEmpty := List.isEmpty
    push := fun data value => if data.isEmpty then value else data ++ '\n' :: value
    join := fun data => data }

/-- `Subscription` of `http/sse.rs` over the chunks of a response. -/
def sseFeed (decode : Bytes → Text) (chunks : List Bytes) : List Frame × Option Text := feed (sseLine decode) joinedBuffer chunks

end BrainSdk.Rust

namespace BrainSdk.TypeScript

open Library Http

/-- A `TextDecoder` in streaming mode. -/
structure TextDecoder where
  State : Type
  init : State
  decode : State → Bytes → Text × State

/-- The texts of the chunks, as they are read. -/
def TextDecoder.texts (D : TextDecoder) (s : D.State) : List Bytes → List Text
  | [] => []
  | chunk :: chunks => (D.decode s chunk).1 :: D.texts (D.decode s chunk).2 chunks

/-- The line of `takeFrame`. -/
def sseLine : LineReader Char :=
  { newline := '\n'
    strip := stripOne '\r'
    text := fun line => line }

/-- `Subscription` of `http/sse.ts` over the chunks of a response. -/
def sseFeed (D : TextDecoder) (chunks : List Bytes) : List Frame × Option Text := feed sseLine lineBuffer (D.texts D.init chunks)

end BrainSdk.TypeScript
