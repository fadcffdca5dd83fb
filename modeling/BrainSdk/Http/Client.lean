import BrainSdk.Http.Retry
import BrainSdk.Library.Retry

/-!
# The HTTP clients

One attempt of a call and the loop around it: `send_once` and `send_with_query` of `http/client.rs`, `_request_once` and `_request` of
`http/client.py`, `requestOnce` and `requestWithRetry` of `http/client.ts`. What comes of an attempt is an exchange, as the HTTP library
reports it after it has followed redirects: the request fails, or a response comes with a status, a `Retry-After` header and a body that
is received whole or breaks off.
-/

namespace BrainSdk.Http

/-- A request as the SDK hands it to the HTTP library. -/
structure Request (Body : Type) where
  method : String
  url : String
  headers : List (String × String)
  body : Option Body

/-- The value of a header. -/
def Request.header {Body : Type} (request : Request Body) (name : String) : Option String :=
  (request.headers.find? (fun h => h.1 = name)).map Prod.snd

/-- A status that says the request was served. -/
def isSuccess (status : Nat) : Bool := 200 ≤ status && status < 300

end BrainSdk.Http

namespace BrainSdk.Rust

open Library Http

/-- What comes of an attempt. A failure is the text of the `reqwest` error. -/
inductive Exchange where
  | failed (error : String)
  | response (status : Nat) (retryAfter : Option Bytes) (body : Except String Bytes)

/-- What the client takes from its libraries: the lossy decoding of a body, `serde_json` to a JSON document, and `serde_json` to the
result type of the verb. -/
structure HttpLibraries (R : Type) where
  text : Bytes → String
  parse : String → Option Json
  decode : String → Except String R

section

variable {R : Type} (libs : HttpLibraries R) (url : String)

/-- `send_once` with the text of a successful response. -/
def sendOnce.success (text : String) : Except (BrainHttpError × Option Duration) R :=
  (libs.decode text).mapError (fun e => (.transport s!"decode {url} response: {e}", none))

/-- `send_once`, from the exchange on. -/
def sendOnce : Exchange → Except (BrainHttpError × Option Duration) R
  | .failed e => .error (.transport s!"request to {url} failed: {e}", none)
  | .response _ _ (.error e) => .error (.transport s!"read body from {url}: {e}", none)
  | .response status retryAfter (.ok body) =>
    let text := libs.text body
    if isSuccess status then sendOnce.success libs url text
    else .error (.fromBody status text (libs.parse text), parseRetryAfter retryAfter)

/-- The `match` of `send_with_query` on what an attempt returned. -/
def sendWithQuery.next (policy : HttpRetryPolicy) (idempotent : Bool) (attempt : Nat) :
    Except (BrainHttpError × Option Duration) R → Decision Duration (Except Panic (Except BrainHttpError R))
  | .ok value => .done (.ok (.ok value))
  | .error (err, retryAfter) =>
    if idempotent && policy.shouldRetry attempt err then
      match policy.backoff (UInt32.ofNat attempt) retryAfter with
      | .ok wait => .again wait
      | .error panic => .done (.error panic)
    else .done (.ok (.error err))

/-- `send_with_query`. -/
def sendWithQuery (policy : HttpRetryPolicy) (idempotent : Bool) : Loop Exchange Duration (Except Panic (Except BrainHttpError R)) :=
  fun attempt exchange => sendWithQuery.next policy idempotent attempt (sendOnce libs url exchange)

end

/-- The request that `send_once` builds. `json` sets the content type. -/
def sendOnce.request {Body : Type} (base apiKey method path : String) (body : Option Body) : Request Body :=
  { method := method
    url := base ++ path
    headers := ("authorization", "Bearer " ++ apiKey) :: (if body.isSome then [("content-type", "application/json")] else [])
    body := body }

end BrainSdk.Rust

namespace BrainSdk.Python

open Library Cbor Http

/-- What `urlopen` and `read` raise, by the arm of `_request_once` that catches it. No arm catches an `HTTPException`. -/
inductive Failure where
  | urlError (reason : String)
  | osError (message : String)
  | valueError (message : String)
  | httpException (message : String)

/-- What comes of an attempt. -/
inductive Exchange where
  | failed (error : Failure)
  | response (status : Nat) (retryAfter : Option String) (body : Except Failure Bytes)

/-- What the client takes from the standard library: `json.loads`, the text of a `UnicodeDecodeError`, and `time.sleep`. -/
structure HttpLibraries where
  loads : String → Except Exception Json
  unicodeError : Bytes → String
  sleep : Double → Except Exception Unit

/-- What leaves `_request_once`. -/
inductive Raised where
  | brainHttpError (e : BrainHttpError Double)
  | other (e : Exception)

/-- `bytes.decode()`. -/
def decode (bytes : Bytes) : Option String := String.fromUTF8? ⟨bytes.toArray⟩

/-- The `except` arms of `_request_once` for what is no `HTTPError`. -/
def caught (url : String) : Failure → Raised
  | .urlError reason => .brainHttpError (.transport s!"request to {url} failed: {reason}")
  | .osError message => .brainHttpError (.transport s!"request to {url} failed: {message}")
  | .valueError message => .brainHttpError (.transport s!"request to {url} failed: {message}")
  | .httpException message => .other ⟨"HTTPException", message⟩

section

variable (libs : HttpLibraries) (url : String)

/-- `_error_from`. What goes wrong while the body is read, decoded or parsed is ignored; what goes wrong in `_parse_retry_after` is not. -/
def errorFrom (status : Nat) (retryAfter : Option String) (body : Except Failure Bytes) : Raised :=
  let payload := (body.toOption.bind decode).bind (fun text => (libs.loads text).toOption)
  match parseRetryAfter retryAfter with
  | .ok hint => .brainHttpError (errorFromBody status payload hint)
  | .error e => .other e

/-- `_request_once` with the body of a successful response decoded, or not. A `UnicodeDecodeError` is a `ValueError`. -/
def requestOnce.success (body : Bytes) : Option String → Except Raised Json
  | none => .error (caught url (.valueError (libs.unicodeError body)))
  | some text => if text = "" then .ok (.object []) else (libs.loads text).mapError .other

/-- `_request_once`, from the exchange on. `urlopen` raises an `HTTPError` for every status that is no success. -/
def requestOnce : Exchange → Except Raised Json
  | .failed e => .error (caught url e)
  | .response status retryAfter body =>
    if isSuccess status then
      match body with
      | .error e => .error (caught url e)
      | .ok bytes => requestOnce.success libs url bytes (decode bytes)
    else .error (errorFrom libs status retryAfter body)

/-- `time.sleep(delay)` and the next attempt. -/
def request.pause : Except Exception Double → Decision Double (Except Raised Json)
  | .error e => .done (.error (.other e))
  | .ok delay =>
    match libs.sleep delay with
    | .error e => .done (.error (.other e))
    | .ok () => .again delay

/-- The `try` of `_request` on what an attempt returned or raised. -/
def request.next (policy : HttpRetryPolicy) (idempotent : Bool) (attempt : Nat) :
    Except Raised Json → Decision Double (Except Raised Json)
  | .ok value => .done (.ok value)
  | .error (.other e) => .done (.error (.other e))
  | .error (.brainHttpError err) =>
    if idempotent && policy.shouldRetry attempt err then request.pause libs (policy.backoff attempt err.retryAfter)
    else .done (.error (.brainHttpError err))

/-- `_request`. -/
def request (policy : HttpRetryPolicy) (idempotent : Bool) : Loop Exchange Double (Except Raised Json) :=
  fun attempt exchange => request.next libs policy idempotent attempt (requestOnce libs url exchange)

end

/-- The request that `_request_once` builds. -/
def requestOnce.request {Body : Type} (base apiKey method path : String) (body : Option Body) : Request Body :=
  { method := method
    url := base ++ path
    headers := ("authorization", "Bearer " ++ apiKey) :: (if body.isSome then [("content-type", "application/json")] else [])
    body := body }

end BrainSdk.Python

namespace BrainSdk.TypeScript

open Library Cbor Http

/-- What comes of an attempt. The texts are of what `fetch` and `res.text()` throw. -/
inductive Exchange where
  | failed (thrown : String)
  | response (status : Nat) (retryAfter : Option String) (text : Except String String)

/-- What reads a body: `JSON.parse` for that of a failure, with the text of a number by its literal, and `decodeJsonBody` for that of a
success. -/
structure HttpLibraries (T : Type) where
  parse : String → Option Json
  numberText : String → String
  decodeJsonBody : String → Except String T

/-- What `requestOnce` throws. A `BrainHttpError` goes with the header that its `retryAfterMs` is read from. -/
inductive HttpThrown where
  | brainHttpError (e : BrainHttpError) (retryAfter : Option String)
  | other (message : String)

section

variable {T : Type} (libs : HttpLibraries T) (url : String)

/-- What `requestOnce` throws over a failed response: its error, or the `TypeError` of building that. -/
def requestOnce.failure (status : Nat) (retryAfter : Option String) (text : String) : HttpThrown :=
  match BrainHttpError.new libs.numberText status (parseErrorBody status text (libs.parse text)) with
  | .ok err => .brainHttpError err retryAfter
  | .error thrown => .other thrown

/-- `requestOnce`, from the exchange on. An empty body is `undefined`. What `res.text()` and `decodeJsonBody` throw is not caught. -/
def requestOnce : Exchange → Except HttpThrown (Option T)
  | .failed thrown => .error (.brainHttpError ⟨0, .string "transport", s!"request to {url} failed: {thrown}", []⟩ none)
  | .response _ _ (.error thrown) => .error (.other thrown)
  | .response status retryAfter (.ok text) =>
    if isSuccess status then
      if text = "" then .ok none else ((libs.decodeJsonBody text).mapError .other).map some
    else .error (requestOnce.failure libs status retryAfter text)

/-- The `try` of `requestWithRetry` on what an attempt returned or threw. The wait is computed from the header. -/
def requestWithRetry.next (policy : HttpRetryPolicy) (attempt : Nat) :
    Except HttpThrown (Option T) → Decision (Option String) (Except HttpThrown (Option T))
  | .ok value => .done (.ok value)
  | .error (.other message) => .done (.error (.other message))
  | .error (.brainHttpError err retryAfter) =>
    if policy.shouldRetry attempt err then .again retryAfter else .done (.error (.brainHttpError err retryAfter))

/-- `requestWithRetry`. -/
def requestWithRetry (policy : HttpRetryPolicy) : Loop Exchange (Option String) (Except HttpThrown (Option T)) :=
  fun attempt exchange => requestWithRetry.next policy attempt (requestOnce libs url exchange)

end

/-- `headers[name] = value`: in place where the object has the property, else at its end. -/
def assign (name value : String) (headers : List (String × String)) : List (String × String) :=
  if headers.any (fun h => h.1 = name) then headers.map (fun h => if h.1 = name then (name, value) else h) else headers ++ [(name, value)]

/-- The request that `requestOnce` builds. -/
def requestOnce.request {Body : Type} (base apiKey method path : String) (body : Option Body) (extraHeaders : List (String × String)) :
    Request Body :=
  let headers := assign "authorization" ("Bearer " ++ apiKey) extraHeaders
  { method := method
    url := base ++ path
    headers := if body.isSome then assign "content-type" "application/json" headers else headers
    body := body }

end BrainSdk.TypeScript
