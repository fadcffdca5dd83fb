import BrainSdk.Http.Delays

/-!
# The law of the request loop

A verb of an HTTP client sends no more attempts than its policy allows and a verb that is not idempotent sends one, it waits between
attempts no longer than the policy says, and it ends with the body of a success or with a `BrainHttpError`. Where the two clients fail
it, something of the server's gets past the `except` arms: in Python a connection that breaks off in the body, a body that is no JSON or
a `Retry-After` that `float`, `**` or `time.sleep` refuses, in TypeScript a body that breaks off or is no JSON, and a message that is no
string and cannot be made one.
-/

namespace BrainSdk.Http

open Library

/-- What a verb does, run by run: `within` says how many attempts are allowed, `admissible` which waits, and `surfaces` what may come of
the last attempt. -/
structure RequestLaw {Outcome Wait Result : Type} (L : Loop Outcome Wait Result) (idempotent : Bool) (within : Nat → Prop)
    (admissible : Wait → Prop) (surfaces : Outcome → Result → Prop) (outcomes : Nat → Outcome) : Prop where
  attempts : ∀ n, L.Sends outcomes n → within (n + 1)
  once : idempotent = false → ∀ n, L.Sends outcomes n → n = 0
  waits : ∀ n wait, L.Sends outcomes n → L (n + 1) (outcomes n) = .again wait → admissible wait
  ends : ∃ n result, L.Sends outcomes n ∧ L (n + 1) (outcomes n) = .done result
  final : ∀ n result, L.Sends outcomes n → L (n + 1) (outcomes n) = .done result → surfaces (outcomes n) result

/-- What the law says of one attempt. -/
def StepLaw {Outcome Wait Result : Type} (L : Loop Outcome Wait Result) (within : Nat → Prop) (admissible : Wait → Prop)
    (surfaces : Outcome → Result → Prop) (attempt : Nat) (o : Outcome) : Prop :=
  (∀ wait, L attempt o = .again wait → within (attempt + 1) ∧ admissible wait) ∧
    ∀ result, L attempt o = .done result → surfaces o result

/-- The law of a run from what it says of each attempt, where one attempt is allowed and a verb that is not idempotent makes no other. -/
theorem requestLaw_iff {Outcome Wait Result : Type} {L : Loop Outcome Wait Result} {idempotent : Bool} {within : Nat → Prop}
    {admissible : Wait → Prop} {surfaces : Outcome → Result → Prop} {T : Nat → Outcome → Prop} (hone : within 1)
    (hT : ∀ n o, L.Again n o → T n o ∧ idempotent = true)
    (hG : ∀ n o, StepLaw L within admissible surfaces n o → T n o → L.Again n o) (outcomes : Nat → Outcome) :
    RequestLaw L idempotent within admissible surfaces outcomes ↔
      (∃ n, ¬T (n + 1) (outcomes n)) ∧
        ∀ n, (∀ k < n, T (k + 1) (outcomes k)) → StepLaw L within admissible surfaces (n + 1) (outcomes n) := by
  rw [← Loop.all_iff (fun n o h => (hT n o h).1) hG]
  constructor
  · intro h
    have hsteps : ∀ n, L.Sends outcomes n → StepLaw L within admissible surfaces (n + 1) (outcomes n) := by
      intro n hn
      refine ⟨fun wait hwait => ⟨?_, h.waits n wait hn hwait⟩, fun result hdone => h.final n result hn hdone⟩
      exact h.attempts (n + 1) (Loop.sends_succ.2 ⟨hn, wait, hwait⟩)
    obtain ⟨n, result, hn, hdone⟩ := h.ends
    refine ⟨⟨n, fun ht => ?_⟩, hsteps⟩
    obtain ⟨wait, hwait⟩ := hG _ _ (hsteps n hn) ht
    exact nomatch hdone.symm.trans hwait
  · rintro ⟨⟨m, hm⟩, hsteps⟩
    constructor
    case attempts =>
      intro n hn
      cases n with
      | zero => exact hone
      | succ n =>
        obtain ⟨hn, wait, hwait⟩ := Loop.sends_succ.1 hn
        exact ((hsteps n hn).1 wait hwait).1
    case once =>
      intro hid n hn
      cases n with
      | zero => rfl
      | succ n => exact absurd (hT _ _ (Loop.sends_succ.1 hn).2).2 (by simp [hid])
    case waits => exact fun n wait hn hwait => ((hsteps n hn).1 wait hwait).2
    case ends => exact Loop.ends_iff.2 ⟨m, fun hagain => hm (hT _ _ hagain).1⟩
    case final => exact fun n result hn hdone => (hsteps n hn).2 result hdone

end BrainSdk.Http

namespace BrainSdk.Python

open Library Cbor Http

section

variable (libs : HttpLibraries) (url : String) (policy : HttpRetryPolicy) (idempotent : Bool)

/-- What may come of the last attempt: the decoded body of a success, `{}` if it is empty, or a `BrainHttpError`. -/
def Surfaces (x : Exchange) : Except Raised Json → Prop
  | .ok value => ∃ status retryAfter bytes text, x = .response status retryAfter (.ok bytes) ∧ isSuccess status = true ∧
      decode bytes = some text ∧ if text = "" then value = .object [] else libs.loads text = .ok value
  | .error (.brainHttpError _) => True
  | .error (.other _) => False

/-- The law for a verb: at most `max(1, max_attempts)` attempts, and waits between 0 and `max_delay`. -/
def Lawful (outcomes : Nat → Exchange) : Prop :=
  RequestLaw (request libs url policy idempotent) idempotent (fun n => (n : Int) ≤ max 1 policy.maxAttempts)
    (fun wait => Double.le 0 wait = true ∧ wait.le policy.maxDelay = true) (Surfaces libs) outcomes

/-- The verb is to be tried again: it is idempotent, attempts are left and the failure is one to retry. -/
def Exchange.Retried (attempt : Nat) (x : Exchange) : Prop :=
  (attempt < policy.maxAttempts ∧ (x.Transient ∨ x.Undecodable)) ∧ idempotent = true

/-- Nothing but a `BrainHttpError` is raised over the exchange: what fails is not an `HTTPException`, the body of a success is JSON if it
is UTF-8 and not empty, and a `Retry-After` is within the range of `float`. -/
def Exchange.Answered : Exchange → Prop
  | .failed e => e.IsCaught
  | .response status retryAfter body =>
    if isSuccess status then
      match body with
      | .error e => e.IsCaught
      | .ok bytes => ∀ text, decode bytes = some text → text ≠ "" → ∃ value, libs.loads text = .ok value
    else ∃ hint, parseRetryAfter retryAfter = .ok hint

/-- The wait before the next attempt: its hint is not negative, it can be computed, and `time.sleep` takes it. -/
def Pauses (attempt : Nat) (x : Exchange) : Prop :=
  ∃ hint delay, x.hint = .ok hint ∧ (∀ h, hint = some h → Double.le 0 h = true) ∧ policy.backoff attempt hint = .ok delay ∧
    libs.sleep delay = .ok ()

/-- The exchange is one that the loop can deal with. -/
def Handled (attempt : Nat) (x : Exchange) : Prop :=
  x.Answered libs ∧ (x.Retried policy idempotent attempt → Pauses libs policy attempt x)

end

variable {libs : HttpLibraries} {url : String} {policy : HttpRetryPolicy} {idempotent : Bool}

/-- A failure comes to a transport error, which is retried, or is not caught. -/
theorem caught_cases (url : String) (e : Failure) :
    (∃ err, caught url e = .brainHttpError err ∧ e.IsCaught ∧ err.retryAfter = none ∧
      HttpRetryPolicy.isRetryableStatus err.status = true) ∨
    ∃ o, caught url e = .other o ∧ ¬e.IsCaught := by
  cases e with
  | httpException message => exact .inr ⟨_, rfl, fun h => h⟩
  | urlError reason => exact .inl ⟨_, rfl, trivial, rfl, rfl⟩
  | osError message => exact .inl ⟨_, rfl, trivial, rfl, rfl⟩
  | valueError message => exact .inl ⟨_, rfl, trivial, rfl, rfl⟩

theorem hint_failure {status : Nat} (hs : ¬isSuccess status = true) (retryAfter : Option String) (body : Except Failure Bytes) :
    Exchange.hint (.response status retryAfter body) = parseRetryAfter retryAfter := if_neg hs

theorem answered_failure {status : Nat} (hs : ¬isSuccess status = true) (retryAfter : Option String) (body : Except Failure Bytes) :
    Exchange.Answered libs (.response status retryAfter body) ↔ ∃ hint, parseRetryAfter retryAfter = .ok hint := by
  unfold Exchange.Answered
  dsimp only
  rw [if_neg hs]

/-- The text of a success is decoded, or `json.loads` raises what nothing catches. -/
theorem loaded_cases (libs : HttpLibraries) (url : String) (bytes : Bytes) (text : String) :
    (∃ value, requestOnce.success libs url bytes (some text) = .ok value ∧
      if text = "" then value = .object [] else libs.loads text = .ok value) ∨
    ∃ e, requestOnce.success libs url bytes (some text) = .error (.other e) ∧ text ≠ "" ∧ libs.loads text = .error e := by
  unfold requestOnce.success
  dsimp only
  by_cases ht : text = ""
  · simp only [ht, if_true]
    exact .inl ⟨_, rfl, rfl⟩
  · simp only [ht, if_false]
    cases hl : libs.loads text with
    | ok value => exact .inl ⟨value, rfl, rfl⟩
    | error e => exact .inr ⟨e, rfl, ht, rfl⟩

/-- What an attempt comes to: a success, a `BrainHttpError` that is retried as the exchange is, or something else. -/
theorem requestOnce_cases (libs : HttpLibraries) (url : String) (x : Exchange) :
    (∃ value, requestOnce libs url x = .ok value ∧ Surfaces libs x (.ok value) ∧ x.Answered libs ∧
      ¬(x.Transient ∨ x.Undecodable)) ∨
    (∃ err, requestOnce libs url x = .error (.brainHttpError err) ∧ x.Answered libs ∧ x.hint = .ok err.retryAfter ∧
      (HttpRetryPolicy.isRetryableStatus err.status = true ↔ x.Transient ∨ x.Undecodable)) ∨
    (∃ e, requestOnce libs url x = .error (.other e) ∧ ¬x.Answered libs) := by
  cases x with
  | failed e =>
    rcases caught_cases url e with ⟨err, herr, hc, hhint, hret⟩ | ⟨o, ho, hc⟩
    · exact .inr (.inl ⟨err, congrArg _ herr, hc, congrArg _ hhint.symm, iff_of_true hret (.inl hc)⟩)
    · exact .inr (.inr ⟨o, congrArg _ ho, hc⟩)
  | response status retryAfter body =>
    by_cases hs : isSuccess status = true
    · have hhint : Exchange.hint (.response status retryAfter body) = .ok none := if_pos hs
      rw [hhint]
      cases body with
      | error e =>
        simp only [requestOnce, Exchange.Transient, Exchange.Undecodable, Exchange.Answered, hs, if_true]
        rcases caught_cases url e with ⟨err, herr, hc, hhint, hret⟩ | ⟨o, ho, hc⟩
        · exact .inr (.inl ⟨err, congrArg _ herr, hc, congrArg _ hhint.symm, iff_of_true hret (.inl ⟨e, rfl, hc⟩)⟩)
        · exact .inr (.inr ⟨o, congrArg _ ho, hc⟩)
      | ok bytes =>
        have hwhole : ¬∃ e, (.ok bytes : Except Failure Bytes) = .error e ∧ e.IsCaught := by
          rintro ⟨_, he, -⟩
          cases he
        simp only [requestOnce, Exchange.Transient, Exchange.Undecodable, Exchange.Answered, hs, if_true, hwhole, false_or, true_and]
        cases hd : decode bytes with
        | none =>
          exact .inr (.inl ⟨_, rfl, (by simp), rfl, iff_of_true rfl rfl⟩)
        | some text =>
          rcases loaded_cases libs url bytes text with ⟨value, hvalue, hbody⟩ | ⟨e, he, hne, hl⟩
          · refine .inl ⟨value, hvalue, ⟨status, retryAfter, bytes, text, rfl, hs, hd, hbody⟩, ?_, by simp⟩
            rintro _ ⟨⟩ hne
            rw [if_neg hne] at hbody
            exact ⟨value, hbody⟩
          · refine .inr (.inr ⟨e, he, fun h => ?_⟩)
            obtain ⟨value, hvalue⟩ := h text rfl hne
            cases hl.symm.trans hvalue
    · have hundec : ¬Exchange.Undecodable (.response status retryAfter body) := by
        cases body with
        | error e => exact fun h => h
        | ok bytes => exact fun h => hs h.1
      rw [hint_failure hs, answered_failure hs]
      simp only [requestOnce, Exchange.Transient, hundec, or_false, hs, Bool.false_eq_true, if_false, errorFrom]
      cases hp : parseRetryAfter retryAfter with
      | error e => exact .inr (.inr ⟨e, rfl, by simp⟩)
      | ok hint =>
        refine .inr (.inl ⟨_, rfl, ⟨hint, rfl⟩, ?_, ?_⟩)
        · rw [(errorFromBody_fields _ _ _).2]
        · rw [(errorFromBody_fields _ _ _).1]

/-- The hint of an exchange is no NaN. -/
theorem hint_not_nan {x : Exchange} {hint : Option Double} (h : x.hint = .ok hint) : ∀ y, hint = some y → ¬y.isNaN := by
  cases x with
  | failed e =>
    cases h
    exact nofun
  | response status retryAfter body =>
    unfold Exchange.hint at h
    dsimp only at h
    split at h
    · cases h
      exact nofun
    · exact parseRetryAfter_not_nan h

/-- Of a `BrainHttpError` that is to be retried: the pause is lawful exactly if it can be made and the hint is not negative. -/
theorem pause_lawful_iff (hbase : Double.le 0 policy.baseDelay = true) (hmax : Double.le 0 policy.maxDelay = true) {n : Nat}
    {x : Exchange} {hint : Option Double} (hhint : x.hint = .ok hint) {P : Prop} (hP : P) :
    ((∀ wait, request.pause libs (policy.backoff n hint) = .again wait →
        P ∧ Double.le 0 wait = true ∧ wait.le policy.maxDelay = true) ∧
      ∀ result, request.pause libs (policy.backoff n hint) = .done result → Surfaces libs x result) ↔ Pauses libs policy n x := by
  have hpauses : Pauses libs policy n x ↔ ∃ delay, policy.backoff n hint = .ok delay ∧ libs.sleep delay = .ok () ∧
      ∀ h, hint = some h → Double.le 0 h = true := by
    unfold Pauses
    rw [hhint]
    constructor
    · rintro ⟨_, delay, ⟨⟩, hnonneg, hdelay, hsleep⟩
      exact ⟨delay, hdelay, hsleep, hnonneg⟩
    · rintro ⟨delay, hdelay, hsleep, hnonneg⟩
      exact ⟨hint, delay, rfl, hnonneg, hdelay, hsleep⟩
  rw [hpauses]
  cases hb : policy.backoff n hint with
  | error e => exact iff_of_false (fun h => h.2 _ rfl) (fun ⟨_, h, _⟩ => nomatch h)
  | ok delay =>
    obtain ⟨hle, hnonneg⟩ := backoff_bounds hbase hmax (hint_not_nan hhint) hb
    unfold request.pause
    dsimp only
    cases hs : libs.sleep delay with
    | error e =>
      refine iff_of_false (fun h => h.2 _ rfl) ?_
      rintro ⟨_, ⟨⟩, h, -⟩
      exact nomatch hs.symm.trans h
    | ok u =>
      constructor
      · intro h
        exact ⟨delay, rfl, hs, hnonneg.1 (h.1 delay rfl).2.1⟩
      · rintro ⟨_, ⟨⟩, -, h⟩
        refine ⟨?_, fun _ h => nomatch h⟩
        rintro _ ⟨⟩
        exact ⟨hP, hnonneg.2 h, hle⟩

/-- An attempt is lawful exactly if the loop can deal with its exchange. -/
theorem stepLaw_iff (hbase : Double.le 0 policy.baseDelay = true) (hmax : Double.le 0 policy.maxDelay = true) (n : Nat) (x : Exchange) :
    StepLaw (request libs url policy idempotent) (fun n => (n : Int) ≤ max 1 policy.maxAttempts)
      (fun wait => Double.le 0 wait = true ∧ wait.le policy.maxDelay = true) (Surfaces libs) n x ↔
        Handled libs policy idempotent n x := by
  unfold StepLaw request Handled
  rcases requestOnce_cases libs url x with ⟨value, hv, hsurf, hans, hno⟩ | ⟨err, herr, hans, hhint, hret⟩ | ⟨e, he, hans⟩
  · rw [hv]
    refine iff_of_true ⟨(fun _ h => nomatch h), ?_⟩ ⟨hans, fun h => absurd h.1.2 hno⟩
    rintro _ ⟨⟩
    exact hsurf
  · rw [herr]
    have hretried : x.Retried policy idempotent n ↔ (idempotent && policy.shouldRetry n err) = true := by
      unfold Exchange.Retried HttpRetryPolicy.shouldRetry
      rw [← hret, Bool.and_eq_true, Bool.and_eq_true, decide_eq_true_eq]
      exact and_comm
    rw [hretried]
    unfold request.next
    dsimp only
    by_cases hr : (idempotent && policy.shouldRetry n err) = true
    · have hlt := (hretried.2 hr).1.1
      rw [if_pos hr, pause_lawful_iff hbase hmax hhint (by omega)]
      exact ⟨fun h => ⟨hans, fun _ => h⟩, fun h => h.2 hr⟩
    · rw [if_neg hr]
      refine iff_of_true ⟨(fun _ h => nomatch h), ?_⟩ ⟨hans, fun h => absurd h hr⟩
      rintro _ ⟨⟩
      trivial
  · rw [he]
    exact iff_of_false (fun h => h.2 _ rfl) (fun h => hans h.1)

/-- Only an exchange to be tried again is. -/
theorem retried_of_again {n : Nat} {x : Exchange} (h : (request libs url policy idempotent).Again n x) : x.Retried policy idempotent n := by
  cases idempotent with
  | true =>
    rcases (request_again libs url policy n x).1 h with ⟨hlt, ht, -⟩ | ⟨hlt, hu, -⟩
    · exact ⟨⟨hlt, .inl ht⟩, rfl⟩
    · exact ⟨⟨hlt, .inr hu⟩, rfl⟩
  | false =>
    obtain ⟨wait, hwait⟩ := h
    unfold request at hwait
    rcases requestOnce_cases libs url x with ⟨value, hv, -⟩ | ⟨err, herr, -⟩ | ⟨e, he, -⟩
    · rw [hv] at hwait
      cases hwait
    · rw [herr] at hwait
      cases hwait
    · rw [he] at hwait
      cases hwait

theorem again_of_handled {n : Nat} {x : Exchange} (h : Handled libs policy idempotent n x) (hr : x.Retried policy idempotent n) :
    (request libs url policy idempotent).Again n x := by
  obtain ⟨⟨hlt, hkind⟩, rfl⟩ := hr
  obtain ⟨hint, delay, hhint, -, hdelay, hsleep⟩ := h.2 ⟨⟨hlt, hkind⟩, rfl⟩
  have hwaits : Waits libs policy n x := ⟨hint, delay, hhint, hdelay, hsleep⟩
  exact (request_again libs url policy n x).2 (hkind.imp (fun ht => ⟨hlt, ht, hwaits⟩) (fun hu => ⟨hlt, hu, hwaits⟩))

/-- The Python client keeps the law exactly where it can deal with every exchange that comes after exchanges to be tried again only. -/
theorem lawful_iff (hbase : Double.le 0 policy.baseDelay = true) (hmax : Double.le 0 policy.maxDelay = true) (outcomes : Nat → Exchange) :
    Lawful libs url policy idempotent outcomes ↔
      ∀ n, (∀ k < n, (outcomes k).Retried policy idempotent (k + 1)) → Handled libs policy idempotent (n + 1) (outcomes n) := by
  have hends : ∃ n, ¬(outcomes n).Retried policy idempotent (n + 1) := ⟨policy.maxAttempts.toNat, fun h => by have := h.1.1; omega⟩
  unfold Lawful
  rw [requestLaw_iff (T := fun n x => x.Retried policy idempotent n) (by simp)
    (fun n x h => ⟨retried_of_again h, (retried_of_again h).2⟩) (fun n x h => again_of_handled ((stepLaw_iff hbase hmax n x).1 h))]
  simp only [stepLaw_iff hbase hmax, hends, true_and]

end BrainSdk.Python

namespace BrainSdk.TypeScript

open Library Cbor Http

section

variable {T : Type} (libs : HttpLibraries T) (url : String) (policy : HttpRetryTiming) (idempotent : Bool)

/-- What may come of the last attempt: the decoded body of a success, `undefined` if it is empty, or a `BrainHttpError`. -/
def Surfaces (x : Exchange) : Except HttpThrown (Option T) → Prop
  | .ok value => ∃ status retryAfter text, x = .response status retryAfter (.ok text) ∧ isSuccess status = true ∧
      if text = "" then value = none else ∃ v, libs.decodeJsonBody text = .ok v ∧ value = some v
  | .error (.brainHttpError _ _) => True
  | .error (.other _) => False

/-- No more than `max(1, maxAttempts)`. -/
def Within (policy : HttpRetryTiming) (attempts : Nat) : Prop := attempts ≤ 1 ∨ Double.natLe attempts policy.maxAttempts = true

/-- The law for a verb: at most `max(1, maxAttempts)` attempts, and delays between 0 and `maxDelayMs`. -/
def Lawful (outcomes : Nat → Exchange) : Prop :=
  RequestLaw (sendVerb libs url policy idempotent) idempotent (Within policy)
    (fun wait => Double.le 0 wait = true ∧ wait.le policy.maxDelayMs = true) (Surfaces libs) outcomes

/-- The request fails, or the status says to try again. -/
def Exchange.Transient : Exchange → Prop
  | .failed _ => True
  | .response _ _ (.error _) => False
  | .response status _ (.ok _) => isSuccess status = false ∧ (status = 0 ∨ status = 503 ∨ status = 429)

/-- The verb is to be tried again: it is idempotent, attempts are left and the failure is one to retry. -/
def Exchange.Retried (attempt : Nat) (x : Exchange) : Prop :=
  (Double.natLt attempt policy.maxAttempts = true ∧ x.Transient) ∧ idempotent = true

/-- Nothing but a `BrainHttpError` is thrown over the exchange: the body does not break off, that of a success can be decoded if it is
not empty, and the message that the body of a failure gives can be made a string. -/
def Exchange.Answered : Exchange → Prop
  | .failed _ => True
  | .response _ _ (.error _) => False
  | .response status _ (.ok text) =>
    if isSuccess status then text ≠ "" → ∃ v, libs.decodeJsonBody text = .ok v
    else Coercible (parseErrorBody status text (libs.parse text)).message

/-- The header that the delay is computed from. -/
def Exchange.retryAfter : Exchange → Option String
  | .failed _ => none
  | .response _ retryAfter _ => retryAfter

/-- Another attempt is allowed, which it is not where less than a whole one is left, and the hint is not negative. -/
def Pauses (attempt : Nat) (x : Exchange) : Prop :=
  Double.natLe (attempt + 1) policy.maxAttempts = true ∧ ∀ ms, parseRetryAfter x.retryAfter = some ms → Double.le 0 ms = true

/-- The exchange is one that the loop can deal with. -/
def Handled (attempt : Nat) (x : Exchange) : Prop :=
  x.Answered libs ∧ (x.Retried policy idempotent attempt → Pauses policy attempt x)

end

variable {T : Type} {libs : HttpLibraries T} {url : String} {policy : HttpRetryTiming} {idempotent : Bool}

/-- What an attempt comes to: a success, a `BrainHttpError` that is retried as the exchange is, or something else. -/
theorem requestOnce_cases (libs : HttpLibraries T) (url : String) (x : Exchange) :
    (∃ value, requestOnce libs url x = .ok value ∧ Surfaces libs x (.ok value) ∧ x.Answered libs ∧ ¬x.Transient) ∨
    (∃ err, requestOnce libs url x = .error (.brainHttpError err x.retryAfter) ∧ x.Answered libs ∧
      ((err.status = 0 ∨ err.status = 503 ∨ err.status = 429) ↔ x.Transient)) ∨
    (∃ message, requestOnce libs url x = .error (.other message) ∧ ¬x.Answered libs) := by
  cases x with
  | failed thrown => exact .inr (.inl ⟨_, rfl, trivial, iff_of_true (.inl rfl) trivial⟩)
  | response status retryAfter body =>
    cases body with
    | error thrown => exact .inr (.inr ⟨thrown, rfl, fun h => h⟩)
    | ok text =>
      by_cases hs : isSuccess status = true
      · have hno : ¬Exchange.Transient (.response status retryAfter (.ok text)) := fun h => Bool.false_ne_true (h.1.symm.trans hs)
        unfold requestOnce Exchange.Answered
        dsimp only
        rw [if_pos hs, if_pos hs]
        by_cases ht : text = ""
        · refine .inl ⟨none, if_pos ht, ⟨status, retryAfter, text, rfl, hs, by rw [if_pos ht]⟩, fun hne => absurd ht hne, hno⟩
        · rw [if_neg ht]
          cases hd : libs.decodeJsonBody text with
          | ok v =>
            refine .inl ⟨some v, rfl, ⟨status, retryAfter, text, rfl, hs, ?_⟩, fun _ => ⟨v, rfl⟩, hno⟩
            rw [if_neg ht]
            exact ⟨v, hd, rfl⟩
          | error message =>
            refine .inr (.inr ⟨message, rfl, fun h => ?_⟩)
            obtain ⟨v, hv⟩ := h ht
            cases hv
      · unfold requestOnce Exchange.Answered requestOnce.failure
        dsimp only
        rw [if_neg hs, if_neg hs]
        rcases new_cases libs.numberText status (parseErrorBody status text (libs.parse text)) with ⟨err, herr, hstatus, hmessage⟩ |
          ⟨thrown, hthrown, hmessage⟩
        · rw [herr]
          refine .inr (.inl ⟨err, rfl, hmessage, ?_⟩)
          rw [hstatus]
          exact ⟨fun h => ⟨Bool.eq_false_iff.2 hs, h⟩, fun h => h.2⟩
        · rw [hthrown]
          exact .inr (.inr ⟨thrown, rfl, hmessage⟩)

/-- Of an idempotent verb: the exchange is retried exactly with its error, after the delay that the header comes to. -/
theorem sendVerb_error {attempt : Nat} {x : Exchange} {err : BrainHttpError}
    (h : requestOnce libs url x = .error (.brainHttpError err x.retryAfter)) :
    sendVerb libs url policy true attempt x =
      if policy.shouldRetry attempt err then .again (policy.backoffMs attempt (parseRetryAfter x.retryAfter))
      else .done (.error (.brainHttpError err x.retryAfter)) := by
  simp only [sendVerb, requestWithRetry, h, requestWithRetry.next, if_true]
  by_cases hr : policy.shouldRetry attempt err = true
  · simp only [hr, if_true]
  · simp only [hr, Bool.false_eq_true, if_false]

theorem sendVerb_final {attempt : Nat} {x : Exchange} {r : Except HttpThrown (Option T)} (h : requestOnce libs url x = r)
    (hr : idempotent = true → ∀ err retryAfter, r ≠ .error (.brainHttpError err retryAfter)) :
    sendVerb libs url policy idempotent attempt x = .done r := by
  cases idempotent with
  | false => simp only [sendVerb, h, Bool.false_eq_true, if_false]
  | true =>
    simp only [sendVerb, requestWithRetry, h, if_true]
    cases r with
    | ok value => rfl
    | error thrown =>
      cases thrown with
      | other message => rfl
      | brainHttpError err retryAfter => exact absurd rfl (hr rfl err retryAfter)

theorem retried_iff {attempt : Nat} {x : Exchange} {err : BrainHttpError}
    (h : (err.status = 0 ∨ err.status = 503 ∨ err.status = 429) ↔ x.Transient) :
    x.Retried policy idempotent attempt ↔ policy.shouldRetry attempt err = true ∧ idempotent = true := by
  unfold Exchange.Retried HttpRetryPolicy.shouldRetry
  rw [← h]
  simp only [Bool.and_eq_true, Bool.or_eq_true, decide_eq_true_eq, or_assoc]

/-- Every exchange to be tried again is where its error can be built, and no other. -/
theorem sendVerb_again (attempt : Nat) (x : Exchange) :
    (sendVerb libs url policy idempotent).Again attempt x ↔ x.Retried policy idempotent attempt ∧ x.Answered libs := by
  unfold Loop.Again
  rcases requestOnce_cases libs url x with ⟨value, hv, -, -, hno⟩ | ⟨err, herr, hans, hret⟩ | ⟨message, he, hans⟩
  · rw [sendVerb_final hv (fun _ _ _ h => nomatch h)]
    exact iff_of_false (fun ⟨_, h⟩ => nomatch h) (fun h => hno h.1.1.2)
  · rw [retried_iff hret, and_iff_left hans]
    cases idempotent with
    | false =>
      have hdone : sendVerb libs url policy false attempt x = .done (.error (.brainHttpError err x.retryAfter)) :=
        sendVerb_final herr (fun h => nomatch h)
      rw [hdone]
      exact iff_of_false (fun ⟨_, h⟩ => nomatch h) (fun h => nomatch h.2)
    | true =>
      rw [sendVerb_error herr]
      by_cases hr : policy.shouldRetry attempt err = true
      · rw [if_pos hr]
        exact iff_of_true ⟨_, rfl⟩ ⟨hr, rfl⟩
      · rw [if_neg hr]
        exact iff_of_false (fun ⟨_, h⟩ => nomatch h) (fun h => hr h.1)
  · rw [sendVerb_final he (fun _ _ _ h => nomatch h)]
    exact iff_of_false (fun ⟨_, h⟩ => nomatch h) (fun h => hans h.2)

theorem again_of_stepLaw {within : Nat → Prop} {admissible : Double → Prop} {n : Nat} {x : Exchange}
    (h : StepLaw (sendVerb libs url policy idempotent) within admissible (Surfaces libs) n x) (hr : x.Retried policy idempotent n) :
    (sendVerb libs url policy idempotent).Again n x := by
  refine (sendVerb_again n x).2 ⟨hr, ?_⟩
  rcases requestOnce_cases libs url x with ⟨value, -, -, hans, -⟩ | ⟨err, -, hans, -⟩ | ⟨message, he, -⟩
  · exact hans
  · exact hans
  · exact (h.2 _ (sendVerb_final he (fun _ _ _ h => nomatch h))).elim

/-- An attempt is lawful exactly if the loop can deal with its exchange. -/
theorem stepLaw_iff (hbase : Double.le 0 policy.baseDelayMs = true) (hmax : Double.le 0 policy.maxDelayMs = true) (n : Nat) (x : Exchange) :
    StepLaw (sendVerb libs url policy idempotent) (Within policy)
      (fun wait => Double.le 0 wait = true ∧ wait.le policy.maxDelayMs = true) (Surfaces libs) (n + 1) x ↔
        Handled libs policy idempotent (n + 1) x := by
  unfold StepLaw Handled
  rcases requestOnce_cases libs url x with ⟨value, hv, hsurf, hans, hno⟩ | ⟨err, herr, hans, hret⟩ | ⟨message, he, hans⟩
  · rw [sendVerb_final hv (fun _ _ _ h => nomatch h)]
    refine iff_of_true ⟨(fun _ h => nomatch h), ?_⟩ ⟨hans, fun h => absurd h.1.2 hno⟩
    rintro _ ⟨⟩
    exact hsurf
  · rw [retried_iff hret]
    by_cases hr : policy.shouldRetry (n + 1) err = true ∧ idempotent = true
    · obtain ⟨hshould, rfl⟩ := hr
      obtain ⟨hle, hnonneg⟩ := backoffMs_bounds hbase hmax (fun _ h => parseRetryAfter_not_nan h) (n + 1)
      rw [sendVerb_error herr, if_pos hshould]
      have hwithin : Within policy (n + 1 + 1) ↔ Double.natLe (n + 1 + 1) policy.maxAttempts = true := or_iff_right (by omega)
      constructor
      · intro h
        obtain ⟨hin, hpos, -⟩ := h.1 _ rfl
        exact ⟨hans, fun _ => ⟨hwithin.1 hin, hnonneg.1 hpos⟩⟩
      · rintro ⟨-, h⟩
        obtain ⟨hin, hpos⟩ := h ⟨hshould, rfl⟩
        refine ⟨?_, fun _ h => nomatch h⟩
        rintro _ ⟨⟩
        exact ⟨hwithin.2 hin, hnonneg.2 hpos, hle⟩
    · have hdone : sendVerb libs url policy idempotent (n + 1) x = .done (.error (.brainHttpError err x.retryAfter)) := by
        cases idempotent with
        | false => exact sendVerb_final herr (fun h => nomatch h)
        | true => rw [sendVerb_error herr, if_neg fun h => hr ⟨h, rfl⟩]
      rw [hdone]
      refine iff_of_true ⟨(fun _ h => nomatch h), ?_⟩ ⟨hans, fun h => absurd h hr⟩
      rintro _ ⟨⟩
      trivial
  · rw [sendVerb_final he (fun _ _ _ h => nomatch h)]
    exact iff_of_false (fun h => h.2 _ rfl) (fun h => hans h.1)

/-- The TypeScript client keeps the law exactly where some exchange is not to be tried again, and it can deal with every exchange that
comes after exchanges to be tried again only. -/
theorem lawful_iff (hbase : Double.le 0 policy.baseDelayMs = true) (hmax : Double.le 0 policy.maxDelayMs = true)
    (outcomes : Nat → Exchange) :
    Lawful libs url policy idempotent outcomes ↔
      (∃ n, ¬(outcomes n).Retried policy idempotent (n + 1)) ∧
        ∀ n, (∀ k < n, (outcomes k).Retried policy idempotent (k + 1)) → Handled libs policy idempotent (n + 1) (outcomes n) := by
  unfold Lawful
  rw [requestLaw_iff (T := fun n x => x.Retried policy idempotent n) (.inl (Nat.le_refl 1))
    (fun n x h => ⟨((sendVerb_again n x).1 h).1, ((sendVerb_again n x).1 h).1.2⟩) (fun n x h => again_of_stepLaw h)]
  simp only [stepLaw_iff hbase hmax]

end BrainSdk.TypeScript

namespace BrainSdk.TypeScript

open Library Cbor Http

variable {policy : HttpRetryTiming} {idempotent : Bool}

/-- A finite number of attempts is used up. -/
theorem not_retried_of_finite (h : ¬policy.maxAttempts.isInf) (outcomes : Nat → Exchange) :
    ∃ n, ¬(outcomes n).Retried policy idempotent (n + 1) := by
  refine ⟨policy.maxAttempts.magnitude, fun hr => ?_⟩
  have hlt := hr.1.1
  simp only [Double.natLt, Bool.and_eq_true, Bool.or_eq_true, decide_eq_true_eq, h, false_or] at hlt
  have hpos : 0 < 2 ^ 1074 := by positivity
  generalize 2 ^ 1074 = unit at hlt hpos
  have hmul := Nat.le_mul_of_pos_right (policy.maxAttempts.magnitude + 1) hpos
  omega

end BrainSdk.TypeScript

namespace BrainSdk.Http

open Library Cbor

/-- The waits of the default policies: a tenth of a second, and two seconds. -/
def defaultPython : Python.HttpRetryPolicy := ⟨3, 0x3FB999999999999A#64, 0x4000000000000000#64⟩

def defaultTypeScript : TypeScript.HttpRetryTiming := ⟨⟨0x4008000000000000#64⟩, 0x4059000000000000#64, 0x409F400000000000#64⟩

/-- `time.sleep` over what takes no time: it refuses negative numbers and NaNs. -/
def sleepShort (delay : Double) : Except Python.Exception Unit :=
  if Double.le 0 delay then .ok () else .error ⟨"ValueError", "sleep length must be non-negative"⟩

/-- `whoami` over the default policies does not keep the law where the edge breaks off in the body of a success, where it says 503 and
`Retry-After: -5`, and, in TypeScript, where it says 200 over a page of HTML or 400 over an error whose message is `{"toString":0}`. -/
theorem request_unlawful :
    ¬Python.Lawful ⟨fun _ => .ok .null, fun _ => "", sleepShort⟩ "http://127.0.0.1:8080/v1/whoami" defaultPython true
        (fun _ => .response 200 none (.error (.httpException "IncompleteRead(3 bytes read, 7 more expected)"))) ∧
    ¬Python.Lawful ⟨fun _ => .ok .null, fun _ => "", sleepShort⟩ "http://127.0.0.1:8080/v1/whoami" defaultPython true
        (fun _ => .response 503 (some "-5") (.ok [])) ∧
    ¬TypeScript.Lawful (T := Unit) ⟨fun _ => none, id, fun _ => .error "Unexpected token '<'"⟩ "http://127.0.0.1:8080/v1/whoami"
        defaultTypeScript true (fun _ => .response 200 none (.ok "<html>")) ∧
    ¬TypeScript.Lawful (T := Unit) ⟨fun _ => some (.object [("error", .object [("message", .object [("toString", .number "0")])])]), id,
        fun _ => .ok ()⟩ "http://127.0.0.1:8080/v1/whoami" defaultTypeScript true
        (fun _ => .response 400 none (.ok "\x7b\"error\":\x7b\"message\":\x7b\"toString\":0\x7d\x7d\x7d")) := by
  refine ⟨fun h => ?_, fun h => ?_, fun h => ?_, fun h => ?_⟩
  · rw [Python.lawful_iff (by decide +kernel) (by decide +kernel)] at h
    exact (h 0 nofun).1
  · rw [Python.lawful_iff (by decide +kernel) (by decide +kernel)] at h
    have htransient : Python.Exchange.Transient (.response 503 (some "-5") (.ok [])) := rfl
    obtain ⟨hint, delay, hhint, hnonneg, -⟩ := (h 0 nofun).2 ⟨⟨by decide, .inl htransient⟩, rfl⟩
    have hread : Python.parseRetryAfter (some "-5") = .ok (some 0xC014000000000000#64) := by decide +kernel
    rw [Python.hint_failure (by decide), hread] at hhint
    cases hhint
    exact absurd (hnonneg _ rfl) (by decide +kernel)
  · rw [TypeScript.lawful_iff (by decide +kernel) (by decide +kernel)] at h
    obtain ⟨_, hv⟩ := (h.2 0 nofun).1 (by decide)
    cases hv
  · rw [TypeScript.lawful_iff (by decide +kernel) (by decide +kernel)] at h
    have hmessage : TypeScript.Coercible (.object [("toString", .number "0")]) := (h.2 0 nofun).1
    cases hmessage with
    | object hmember => exact hmember _ (List.mem_singleton.2 rfl) rfl

/-- Exactly when the verbs of the two clients keep the law, over every policy whose delays are not negative: in Python where every exchange
that comes after exchanges to be tried again only is one that the loop can deal with; in TypeScript where besides some exchange is not to
be tried again, as is always so where `maxAttempts` is not infinite. -/
theorem lawful_iff_handled {T : Type} (pyLibs : Python.HttpLibraries) (tsLibs : TypeScript.HttpLibraries T) (url : String)
    (pyPolicy : Python.HttpRetryPolicy) (tsPolicy : TypeScript.HttpRetryTiming) (idempotent : Bool) (x : Nat → Python.Exchange)
    (y : Nat → TypeScript.Exchange) (hpyBase : Double.le 0 pyPolicy.baseDelay = true) (hpyMax : Double.le 0 pyPolicy.maxDelay = true)
    (htsBase : Double.le 0 tsPolicy.baseDelayMs = true) (htsMax : Double.le 0 tsPolicy.maxDelayMs = true) :
    (Python.Lawful pyLibs url pyPolicy idempotent x ↔
      ∀ n, (∀ k < n, (x k).Retried pyPolicy idempotent (k + 1)) → Python.Handled pyLibs pyPolicy idempotent (n + 1) (x n)) ∧
    (TypeScript.Lawful tsLibs url tsPolicy idempotent y ↔
      (∃ n, ¬(y n).Retried tsPolicy idempotent (n + 1)) ∧
        ∀ n, (∀ k < n, (y k).Retried tsPolicy idempotent (k + 1)) → TypeScript.Handled tsLibs tsPolicy idempotent (n + 1) (y n)) ∧
    (¬tsPolicy.maxAttempts.isInf → ∃ n, ¬(y n).Retried tsPolicy idempotent (n + 1)) :=
  ⟨Python.lawful_iff hpyBase hpyMax x, TypeScript.lawful_iff htsBase htsMax y, fun h => TypeScript.not_retried_of_finite h y⟩

/-- `whoami` over the default policies keeps the law where the edge says 503 and `Retry-After: 1`, and then 204. -/
theorem lawful_iff_handled_busy :
    Python.Lawful ⟨fun _ => .ok .null, fun _ => "", sleepShort⟩ "http://127.0.0.1:8080/v1/whoami" defaultPython true
        (fun n => if n = 0 then .response 503 (some "1") (.ok []) else .response 204 none (.ok [])) ∧
      TypeScript.Lawful (T := Unit) ⟨fun _ => none, id, fun _ => .ok ()⟩ "http://127.0.0.1:8080/v1/whoami" defaultTypeScript true
        (fun n => if n = 0 then .response 503 (some "1") (.ok "") else .response 204 none (.ok "")) := by
  have hall := lawful_iff_handled (T := Unit) ⟨fun _ => .ok .null, fun _ => "", sleepShort⟩ ⟨fun _ => none, id, fun _ => .ok ()⟩
    "http://127.0.0.1:8080/v1/whoami" defaultPython defaultTypeScript true
    (fun n => if n = 0 then .response 503 (some "1") (.ok []) else .response 204 none (.ok []))
    (fun n => if n = 0 then .response 503 (some "1") (.ok "") else .response 204 none (.ok ""))
    (by decide +kernel) (by decide +kernel) (by decide +kernel) (by decide +kernel)
  refine ⟨hall.1.2 fun n _ => ?_, hall.2.1.2 ⟨⟨1, fun h => ?_⟩, fun n _ => ?_⟩⟩
  · cases n with
    | zero =>
      have hread : Python.parseRetryAfter (some "1") = .ok (some 0x3FF0000000000000#64) := by decide +kernel
      have hdelay : defaultPython.backoff 1 (some 0x3FF0000000000000#64) = .ok 0x3FF0000000000000#64 := by decide +kernel
      refine ⟨(Python.answered_failure (by decide) _ _).2 ⟨_, hread⟩, fun _ => ⟨_, _, ?_, ?_, hdelay, by decide +kernel⟩⟩
      · exact (Python.hint_failure (by decide) _ _).trans hread
      · rintro _ ⟨⟩
        decide +kernel
    | succ n =>
      have hdecode : Python.decode [] = some "" := by decide
      refine ⟨fun text htext hne => absurd ?_ hne, fun h => ?_⟩
      · exact Option.some.inj (htext.symm.trans hdecode)
      · rcases h.1.2 with ⟨e, he, -⟩ | ⟨-, he⟩
        · cases he
        · exact absurd he (by decide)
  · exact absurd h.1.2.1 (by decide)
  · cases n with
    | zero =>
      have hread : TypeScript.parseRetryAfter (some "1") = some 0x408F400000000000#64 := by decide +kernel
      refine ⟨.string _, fun _ => ⟨by decide +kernel, fun ms hms => ?_⟩⟩
      have hheader : TypeScript.Exchange.retryAfter (.response 503 (some "1") (.ok "")) = some "1" := rfl
      simp only [if_true, hheader, hread, Option.some.injEq] at hms
      rw [← hms]
      decide +kernel
    | succ n => exact ⟨fun hne => absurd rfl hne, fun h => absurd h.1.2.1 (by decide)⟩

end BrainSdk.Http
