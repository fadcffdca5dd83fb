import BrainSdk.Http.Client

/-!
# Calls that store a memory

`encode` and `encode_vector` of the three HTTP clients. All three mark them idempotent, so they are retried. The TypeScript client draws a
key for each call and puts it on every attempt; the other two put none.
-/

namespace BrainSdk.Http

open Library

/-- A call as it goes out: what attempt `n` sends, the loop that decides on the next attempt, and what comes of each attempt. -/
structure Call (Body Outcome Wait Result : Type) where
  request : Nat → Request Body
  loop : Loop Outcome Wait Result
  outcomes : Nat → Outcome

/-- The verbs that store a memory. -/
inductive WriteVerb where
  | encode
  | encodeVector

/-- The route of a verb. -/
def WriteVerb.path : WriteVerb → String
  | .encode => "/v1/memories"
  | .encodeVector => "/v1/memories/vector"

end BrainSdk.Http

namespace BrainSdk.Rust

open Library Http

/-- A call of `encode` or `encode_vector` by some client, and what comes of its attempts. -/
structure WriteCall (Body R : Type) where
  base : String
  apiKey : String
  policy : HttpRetryPolicy
  libs : HttpLibraries R
  verb : WriteVerb
  input : Body
  outcomes : Nat → Exchange

/-- `encode` and `encode_vector`. -/
def WriteCall.send {Body R : Type} (c : WriteCall Body R) : Http.Call Body Exchange Duration (Except Panic (Except BrainHttpError R)) :=
  { request := fun _ => sendOnce.request c.base c.apiKey "POST" c.verb.path (some c.input)
    loop := sendWithQuery c.libs (c.base ++ c.verb.path) c.policy true
    outcomes := c.outcomes }

end BrainSdk.Rust

namespace BrainSdk.Python

open Library Cbor Http

/-- A call of `encode` or `encode_vector` by some client, and what comes of its attempts. -/
structure WriteCall (Body : Type) where
  base : String
  apiKey : String
  policy : HttpRetryPolicy
  libs : HttpLibraries
  verb : WriteVerb
  input : Body
  outcomes : Nat → Exchange

/-- `encode` and `encode_vector`. -/
def WriteCall.send {Body : Type} (c : WriteCall Body) : Http.Call Body Exchange Double (Except Raised Json) :=
  { request := fun _ => requestOnce.request c.base c.apiKey "POST" c.verb.path (some c.input)
    loop := request c.libs (c.base ++ c.verb.path) c.policy true
    outcomes := c.outcomes }

end BrainSdk.Python

namespace BrainSdk.TypeScript

open Library Http

/-- A call of `encode` or `encodeVector` by some client, and what comes of its attempts. -/
structure WriteCall (Body T : Type) where
  base : String
  apiKey : String
  policy : HttpRetryPolicy
  libs : HttpLibraries T
  verb : WriteVerb
  input : Body
  outcomes : Nat → Exchange

/-- What one call of `newIdempotencyKey` draws: a UUID where `crypto.randomUUID` is there, the time and two random numbers as texts. -/
structure Draw where
  randomUUID : Option String
  now : String
  random1 : String
  random2 : String

/-- The key that a draw comes to. -/
def Draw.key (d : Draw) : String := d.randomUUID.getD (d.now ++ "-" ++ d.random1 ++ d.random2)

/-- `newIdempotencyKey`. The state counts the draws made so far in the process. -/
def newIdempotencyKey (draws : Nat → Draw) : StateM Nat String := fun drawn => ((draws drawn).key, drawn + 1)

/-- `requestWithRetry` of a call, with the key among the extra headers. -/
def WriteCall.sendWith {Body T : Type} (c : WriteCall Body T) (key : String) :
    Http.Call Body Exchange (Option String) (Except HttpThrown (Option T)) :=
  { request := fun _ => requestOnce.request c.base c.apiKey "POST" c.verb.path (some c.input) [("idempotency-key", key)]
    loop := requestWithRetry c.libs (c.base ++ c.verb.path) c.policy
    outcomes := c.outcomes }

/-- `encode` and `encodeVector`: the key is drawn once, before the first attempt. -/
def WriteCall.send {Body T : Type} (draws : Nat → Draw) (c : WriteCall Body T) :
    StateM Nat (Http.Call Body Exchange (Option String) (Except HttpThrown (Option T))) := do
  let key ← newIdempotencyKey draws
  return c.sendWith key

end BrainSdk.TypeScript
