import BrainSdk.Http.ClientLemmas
import BrainSdk.TypeScript.JsonBody

/-!
# The waits of the HTTP clients

`backoffMs` and `parseRetryAfter` of `http/client.ts`, and where the waits of the Python and the TypeScript client lie: none is longer
than the longest delay of the policy, and only a negative hint of the server makes one negative.
-/

namespace BrainSdk.TypeScript

open Library Library.Json Cbor Http

/-- `HttpRetryPolicy`, with its delays. -/
structure HttpRetryTiming extends HttpRetryPolicy where
  baseDelayMs : Double
  maxDelayMs : Double

/-- `Math.min(x, y)`: a NaN wins, and `-0` is less than `0`. -/
def mathMin (x y : Double) : Double :=
  if x.isNaN then x else if y.isNaN then y else if x.lt y ∨ x.key = y.key ∧ x.sign = 1 then x else y

/-- `backoffMs`. From the 1025th attempt on `2 ** (attempt - 1)` is an infinity. -/
def HttpRetryTiming.backoffMs (policy : HttpRetryTiming) (attempt : Nat) (retryAfterMs : Option Double) : Double :=
  match retryAfterMs with
  | some ms => mathMin ms policy.maxDelayMs
  | none =>
    if policy.baseDelayMs.le 0 then 0
    else if attempt - 1 < 1024 then mathMin (policy.baseDelayMs.scale (attempt - 1)) policy.maxDelayMs
    else mathMin (.mk 0 Format.binary64.inf) policy.maxDelayMs

/-- The white space that `trim` cuts off; a header is Latin-1. -/
def isTrimmed (c : Char) : Bool := (9 ≤ c.toNat && c.toNat ≤ 13) || c.toNat = 32 || c.toNat = 0xA0

/-- `Number.parseInt(text, 10)` of a trimmed text, or `none` for a NaN: the digits at its front, behind a sign if it has one. -/
def parseInt : Units → Option Double
  | [] => none
  | c :: rest =>
    let digits := (if isSign c then rest else c :: rest).takeWhile isDigit
    if digits = [] then none else some (Json.numberValue ⟨c = minus, digits, [], []⟩)

/-- `parseRetryAfter`. -/
def parseRetryAfter (header : Option String) : Option Double := do
  let raw ← header
  let text := (strip isTrimmed raw.toList).map (fun c => UInt16.ofNat c.toNat)
  let secs ← parseInt text
  if secs.isFinite ∧ Json.numberText secs = text then some (secs.times 1000) else none

section

variable {T : Type} (libs : HttpLibraries T) (url : String)

/-- A verb: `requestWithRetry` with the waits it computes, or `requestOnce`. -/
def sendVerb (policy : HttpRetryTiming) (idempotent : Bool) : Loop Exchange Double (Except HttpThrown (Option T)) :=
  fun attempt exchange =>
    if idempotent then
      match requestWithRetry libs url policy.toHttpRetryPolicy attempt exchange with
      | .again retryAfter => .again (policy.backoffMs attempt (parseRetryAfter retryAfter))
      | .done result => .done result
    else .done (requestOnce libs url exchange)

end

end BrainSdk.TypeScript

namespace BrainSdk.Python

open Library Cbor Http

/-- A hint is the float of the integer in the header. -/
theorem hint_of_float {toFloat : Int → Option Double} {e : Exception} {seconds : Option Int} {x : Double}
    (h : (match seconds with
      | none => Except.ok none
      | some n =>
        match toFloat n with
        | some x => .ok (some x)
        | none => .error e) = .ok (some x)) : ∃ n, toFloat n = some x := by
  split at h
  · cases h
  · rename_i n
    split at h
    · rename_i hx
      cases h
      exact ⟨n, hx⟩
    · cases h

/-- The hint of a header, with the conversion kept folded: its steps are numbers of a thousand bits. -/
theorem parseRetryAfter_float {header : Option String} {x : Double} (h : parseRetryAfter header = .ok (some x)) :
    ∃ n, Double.ofInt? n = some x := by
  unfold parseRetryAfter at h
  generalize Double.ofInt? = toFloat at h ⊢
  exact hint_of_float h

theorem parseRetryAfter_not_nan {header : Option String} {hint : Option Double} (h : parseRetryAfter header = .ok hint) :
    ∀ x, hint = some x → ¬x.isNaN := by
  rintro x rfl
  obtain ⟨n, hn⟩ := parseRetryAfter_float h
  rcases Double.ofInt_cases n with ⟨-, y, hy, hnan⟩ | ⟨-, hno⟩
  · obtain rfl := Option.some.inj (hn.symm.trans hy)
    exact hnan
  · cases hn.symm.trans hno

/-- The delay is no longer than the longest of the policy, and negative exactly with the hint. -/
theorem backoff_bounds {policy : HttpRetryPolicy} (hbase : Double.le 0 policy.baseDelay = true) (hmax : Double.le 0 policy.maxDelay = true)
    {attempt : Nat} {hint : Option Double} (hhint : ∀ x, hint = some x → ¬x.isNaN) {delay : Double}
    (h : policy.backoff attempt hint = .ok delay) :
    delay.le policy.maxDelay = true ∧ (Double.le 0 delay = true ↔ ∀ x, hint = some x → Double.le 0 x = true) := by
  cases hint with
  | some x =>
    cases h
    obtain ⟨hle, hnonneg⟩ := pyMin_bounds (hhint x rfl) hmax
    exact ⟨hle, hnonneg.trans ⟨fun hx _ hy => Option.some.inj hy ▸ hx, fun hx => hx x rfl⟩⟩
  | none =>
    unfold HttpRetryPolicy.backoff at h
    dsimp only at h
    split at h
    · cases h
      exact ⟨hmax, iff_of_true (by decide) nofun⟩
    · rename_i hpos
      split at h
      · cases h
        have hscaled := Double.scale_nonneg hbase hpos (attempt - 1)
        obtain ⟨hle, hnonneg⟩ := pyMin_bounds (Double.zero_le_iff.1 hscaled).1 hmax
        exact ⟨hle, iff_of_true (hnonneg.2 hscaled) nofun⟩
      · cases h

end BrainSdk.Python

namespace BrainSdk.TypeScript

open Library Cbor Http

theorem mathMin_bounds {x y : Double} (hx : ¬x.isNaN) (hy : Double.le 0 y = true) :
    (mathMin x y).le y = true ∧ (Double.le 0 (mathMin x y) = true ↔ Double.le 0 x = true) := by
  obtain ⟨hynan, hykey⟩ := Double.zero_le_iff.1 hy
  unfold mathMin
  rw [if_neg hx, if_neg hynan]
  by_cases hlt : x.lt y = true ∨ x.key = y.key ∧ x.sign = 1
  · rw [if_pos hlt]
    refine ⟨Double.le_iff.2 ⟨hx, hynan, ?_⟩, Iff.rfl⟩
    rcases hlt with hlt | ⟨heq, -⟩
    · exact Int.le_of_lt (Double.lt_iff.1 hlt).2.2
    · exact Int.le_of_eq heq
  · rw [if_neg hlt]
    refine ⟨Double.le_iff.2 ⟨hynan, hynan, Int.le_refl _⟩, iff_of_true hy ?_⟩
    refine Double.zero_le_iff.2 ⟨hx, ?_⟩
    by_contra hneg
    exact hlt (.inl (Double.lt_iff.2 ⟨hx, hynan, by omega⟩))

theorem times_not_nan {x : Double} (hx : ¬x.isNaN) (n : Nat) : ¬(x.times n).isNaN := by
  unfold Double.times
  split
  · exact Double.mk_not_nan x.sign_lt (Nat.min_le_right _ _)
  · exact hx

/-- No hint is a NaN. -/
theorem parseRetryAfter_not_nan {header : Option String} {ms : Double} (h : parseRetryAfter header = some ms) : ¬ms.isNaN := by
  unfold parseRetryAfter at h
  obtain ⟨raw, -, h⟩ := Option.bind_eq_some_iff.1 h
  obtain ⟨secs, -, h⟩ := Option.bind_eq_some_iff.1 h
  split at h
  · rename_i hsecs
    cases h
    exact times_not_nan (Nat.not_lt_of_le (Nat.le_of_lt hsecs.1)) 1000
  · cases h

/-- The delay is no longer than the longest of the policy, and negative exactly with the hint. -/
theorem backoffMs_bounds {policy : HttpRetryTiming} (hbase : Double.le 0 policy.baseDelayMs = true)
    (hmax : Double.le 0 policy.maxDelayMs = true) {hint : Option Double} (hhint : ∀ x, hint = some x → ¬x.isNaN) (attempt : Nat) :
    (policy.backoffMs attempt hint).le policy.maxDelayMs = true ∧
      (Double.le 0 (policy.backoffMs attempt hint) = true ↔ ∀ x, hint = some x → Double.le 0 x = true) := by
  cases hint with
  | some x =>
    obtain ⟨hle, hnonneg⟩ := mathMin_bounds (hhint x rfl) hmax
    exact ⟨hle, hnonneg.trans ⟨fun hx _ hy => Option.some.inj hy ▸ hx, fun hx => hx x rfl⟩⟩
  | none =>
    unfold HttpRetryTiming.backoffMs
    dsimp only
    split
    · exact ⟨hmax, iff_of_true (by decide) nofun⟩
    · rename_i hpos
      have hproduct : ∀ x : Double, Double.le 0 x = true → (mathMin x policy.maxDelayMs).le policy.maxDelayMs = true ∧
          (Double.le 0 (mathMin x policy.maxDelayMs) = true ↔ ∀ y, none = some y → Double.le 0 y = true) := by
        intro x hx
        obtain ⟨hle, hnonneg⟩ := mathMin_bounds (Double.zero_le_iff.1 hx).1 hmax
        exact ⟨hle, iff_of_true (hnonneg.2 hx) nofun⟩
      split
      · exact hproduct _ (Double.scale_nonneg hbase hpos (attempt - 1))
      · exact hproduct _ (Double.mk_nonneg (Nat.le_refl _))

end BrainSdk.TypeScript
