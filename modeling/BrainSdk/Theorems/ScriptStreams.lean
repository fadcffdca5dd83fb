import BrainSdk.Theorems.Pump
import BrainSdk.TypeScript.Ownership
import BrainSdk.Wire.Responses

/-!
# What the TypeScript connection gives its requests

The sink of a request holds the frames of its stream since the call, in order, behind those that the call has collected. So a call that
returns has a complete response of its own stream, one that is told of a failed connection never had one, and one that is left on a failed
connection comes to what its frames make of it once it goes on.
-/

namespace BrainSdk.TypeScript

open Library Wire

variable {ε υ : Type}

/-- The calls that collect a response on a stream of their own. -/
def Verb.collects : Verb → Bool
  | .request | .unsubscribe _ => true
  | _ => false

/-- What the socket and its peer can make a connection fail with. -/
def Thrown.fromTransport : Thrown → Bool
  | .connectionClosed _ | .transportError _ => true
  | _ => false

/-- How a call ends, by the frames of its stream and the error that the connection has failed with. -/
def Answers (Γ : Ctx ε υ) (got : List Frame) (closed : Option Thrown) : Outcome ε υ → Prop
  | .returned resp => IsResponse resp ∧ resp <+: got
  | .unsubscribed r =>
    ∃ f, f.opcode = opUnsubscribeResp ∧ f.isEos = true ∧ Γ.decodeUnsubscribeResponse f.payload = .ok r ∧ [f] <+: got
  | .rejected (.serverError r) =>
    ∃ pre f, Unfinished pre ∧ f.opcode = opError ∧ Γ.decodeError f.payload = .ok r ∧ pre ++ [f] <+: got
  | .rejected e => e.fromTransport = true → Unfinished got ∧ closed = some e
  | .event _ | .null => False

/-- What the call `c` has made of the frames of its stream. -/
def Call.Given (Γ : Ctx ε υ) (got : List Frame) (closed : Option Thrown) (c : Nat) (call : Call ε υ) : Prop :=
  match call.pc with
  | .writing | .written => call.frames = [] ∧ call.sink = ⟨got, none, closed⟩
  | .awaiting => Unfinished call.frames ∧ call.frames = got ∧ call.sink = ⟨[], some c, none⟩ ∧ closed = none
  | .got f => Unfinished call.frames ∧ ∃ rest, call.frames ++ f :: rest = got ∧ call.sink = ⟨rest, none, closed⟩
  | .threw e => Answers Γ got closed (.rejected e)
  | .done o => Answers Γ got closed o
  | .opened => False

/-- The call `c` with the frames of its stream since it began; until it is done its route is its own. -/
structure Follows (Γ : Ctx ε υ) (got : List Frame) (s : State ε υ) (c : Nat) (call : Call ε υ) : Prop where
  get : s.calls[c]? = some call
  collects : call.args.verb.collects = true
  id : call.streamId ≠ 0
  route : s.closedError = none → (∀ o, call.pc ≠ .done o) → s.routes.lookup call.streamId = some c
  given : call.Given Γ got s.closedError c

/-! ### Frames and outcomes -/

theorem answers_rejected {Γ : Ctx ε υ} {got : List Frame} {closed : Option Thrown} {e : Thrown} (hs : ∀ r, e ≠ .serverError r)
    (h : e.fromTransport = true → Unfinished got ∧ closed = some e) : Answers Γ got closed (.rejected e) := by
  cases e with
  | serverError r => exact absurd rfl (hs r)
  | _ => exact h

/-- More frames, while the connection has not failed. -/
theorem Answers.mono {Γ : Ctx ε υ} {got got' : List Frame} {o : Outcome ε υ} (h : Answers Γ got none o) (hp : got <+: got') :
    Answers Γ got' none o := by
  cases o with
  | returned resp => exact ⟨h.1, h.2.trans hp⟩
  | unsubscribed r =>
    obtain ⟨f, ho, he, hdec, hpre⟩ := h
    exact ⟨f, ho, he, hdec, hpre.trans hp⟩
  | rejected e =>
    cases e with
    | serverError r =>
      obtain ⟨pre, f, hu, ho, hdec, hpre⟩ := h
      exact ⟨pre, f, hu, ho, hdec, hpre.trans hp⟩
    | _ =>
      intro ht
      cases (h ht).2
  | event _ | null => exact h.elim

/-- The connection fails with an error of its own. -/
theorem Answers.fail {Γ : Ctx ε υ} {got : List Frame} {o : Outcome ε υ} (h : Answers Γ got none o) (e : Thrown) :
    Answers Γ got (some e) o := by
  cases o with
  | returned resp => exact h
  | unsubscribed r => exact h
  | rejected e' =>
    cases e' with
    | serverError r => exact h
    | _ =>
      intro ht
      cases (h ht).2
  | event _ | null => exact h.elim

theorem answers_error (Γ : Ctx ε υ) {got pre : List Frame} {closed : Option Thrown} {f : Frame} (hu : Unfinished pre)
    (ho : f.opcode = opError) (hp : pre ++ [f] <+: got) : Answers Γ got closed (.rejected (errorOf Γ f.payload)) := by
  unfold errorOf
  split
  · rename_i r hdec
    exact ⟨pre, f, hu, ho, hdec, hp⟩
  · exact answers_rejected (by simp) (fun ht => by cases ht)

/-- What a call makes of a complete response. -/
theorem answers_result (Γ : Ctx ε υ) {got resp : List Frame} {closed : Option Thrown} (h : IsResponse resp) (hp : resp <+: got)
    (a : Args) : Answers Γ got closed (a.result Γ resp) := by
  unfold Args.result
  split
  · unfold unsubscribeResult
    split
    · rename_i f
      split
      · exact answers_rejected (by simp) (fun ht => by cases ht)
      · rename_i ho
        split
        · rename_i r hdec
          obtain ⟨pre, last, heq, -, -, he⟩ := h
          have hlast : [f] = [] ++ [f] := rfl
          rw [hlast] at heq
          obtain ⟨-, hf⟩ := List.append_inj' heq rfl
          cases hf
          exact ⟨f, by simpa using ho, he, hdec, hp⟩
        · exact answers_rejected (by simp) (fun ht => by cases ht)
    · exact answers_rejected (by simp) (fun ht => by cases ht)
  · exact ⟨h, hp⟩

/-! ### A step of the call itself -/

/-- A call that asks its sink for the next frame. -/
theorem given_next {Γ : Ctx ε υ} {got queue frames : List Frame} {closed : Option Thrown} {c : Nat} {call : Call ε υ}
    (hsink : call.sink = ⟨queue, none, closed⟩) (hu : Unfinished frames) (hgot : frames ++ queue = got)
    (hs : ∀ r, closed ≠ some (.serverError r)) :
    ({ call with frames := frames, sink := (call.sink.next c).1, pc := pcAfterNext (call.sink.next c).2 } : Call ε υ).Given
      Γ got closed c := by
  rw [hsink]
  rcases queue with - | ⟨f, rest⟩
  · rw [List.append_nil] at hgot
    cases closed with
    | none => exact ⟨hu, hgot, rfl, rfl⟩
    | some e => exact answers_rejected (fun r heq => hs r (by rw [heq])) (fun _ => ⟨hgot ▸ hu, rfl⟩)
  · exact ⟨hu, rest, hgot, rfl⟩

/-- A step of the call itself. -/
theorem Goes.given {Γ : Ctx ε υ} {got : List Frame} {closed : Option Thrown} {c : Nat} {call call' : Call ε υ} (h : Goes Γ c call call')
    (hg : call.Given Γ got closed c) (hv : call.args.verb.collects = true) (hs : ∀ r, closed ≠ some (.serverError r)) :
    call'.Given Γ got closed c := by
  cases h with
  | written hpc =>
    rw [Call.Given, hpc] at hg
    exact hg
  | writeFailed hpc message =>
    intro ht
    cases ht
  | subscribed hpc hverb =>
    rw [hverb] at hv
    cases hv
  | await hpc _ =>
    rw [Call.Given, hpc] at hg
    obtain ⟨hframes, hsink⟩ := hg
    have hu : Unfinished call.frames := by
      rw [hframes]
      exact unfinished_nil
    exact given_next hsink hu (by rw [hframes]; rfl) hs
  | timeout hpc d =>
    intro ht
    cases ht
  | rejected hpc =>
    rw [Call.Given, hpc] at hg
    exact hg
  | @error f hpc ho =>
    rw [Call.Given, hpc] at hg
    obtain ⟨hu, rest, hgot, -⟩ := hg
    exact answers_error Γ hu ho ⟨rest, by rw [← hgot]; simp⟩
  | @last f hpc ho he =>
    rw [Call.Given, hpc] at hg
    obtain ⟨hu, rest, hgot, -⟩ := hg
    exact answers_result Γ ⟨call.frames, f, rfl, hu, ho, he⟩ ⟨rest, by rw [← hgot]; simp⟩ call.args
  | @more f hpc ho he =>
    rw [Call.Given, hpc] at hg
    obtain ⟨hu, rest, hgot, hsink⟩ := hg
    exact given_next hsink (hu.snoc ho he) (by rw [← hgot]; simp) hs
  | event hno _ o =>
    cases hverb : call.args.verb with
    | nextEvent target =>
      rw [hverb] at hv
      cases hv
    | _ =>
      rw [hverb] at hno
      cases hno

/-! ### Frames and failures -/

/-- The call `c` after its sink became `k`; it is settled when it is the waiter. -/
def Call.fed (c : Nat) (k : StreamSink) (r : Except Thrown Frame) (call : Call ε υ) : Call ε υ :=
  if call.sink.waiter = some c then ({ call with sink := k } : Call ε υ).settle r else { call with sink := k }

/-- A call that does not wait is not moved, whatever its sink holds. -/
theorem fed_of_ne_awaiting {call : Call ε υ} (h : call.pc ≠ .awaiting) (c : Nat) (k : StreamSink) (r : Except Thrown Frame) :
    call.fed c k r = { call with sink := k } := by
  unfold Call.fed
  split
  · unfold Call.settle
    cases hpc : call.pc with
    | awaiting => exact absurd hpc h
    | _ => rfl
  · rfl

/-- A frame on the sink of a call that has its route. -/
theorem given_push {Γ : Ctx ε υ} {got : List Frame} {c : Nat} {call : Call ε υ} {f : Frame} (h : call.Given Γ got none c) :
    (call.fed c (call.sink.push f).1 (.ok f)).Given Γ (got ++ [f]) none c := by
  have hpre : got <+: got ++ [f] := List.prefix_append _ _
  unfold Call.Given at h
  cases hpc : call.pc with
  | writing | written =>
    rw [hpc] at h
    obtain ⟨hframes, hsink⟩ := h
    rw [fed_of_ne_awaiting (by rw [hpc]; simp), Call.Given]
    simp only [hpc]
    exact ⟨hframes, by rw [hsink]; rfl⟩
  | awaiting =>
    rw [hpc] at h
    obtain ⟨hu, hgot, hsink, -⟩ := h
    have hw : call.sink.waiter = some c := by rw [hsink]
    rw [Call.fed, if_pos hw]
    simp only [Call.settle, hpc, Call.Given]
    exact ⟨hu, [], by rw [hgot], by rw [hsink]; rfl⟩
  | got g =>
    rw [hpc] at h
    obtain ⟨hu, rest, hgot, hsink⟩ := h
    rw [fed_of_ne_awaiting (by rw [hpc]; simp), Call.Given]
    simp only [hpc]
    exact ⟨hu, rest ++ [f], by rw [← hgot]; simp, by rw [hsink]; rfl⟩
  | threw e =>
    rw [hpc] at h
    rw [fed_of_ne_awaiting (by rw [hpc]; simp), Call.Given]
    simp only [hpc]
    exact Answers.mono h hpre
  | done o =>
    rw [hpc] at h
    rw [fed_of_ne_awaiting (by rw [hpc]; simp), Call.Given]
    simp only [hpc]
    exact Answers.mono h hpre
  | opened =>
    rw [hpc] at h
    exact h.elim

/-- A call whose sink is failed, or that is done. `closed` is what the connection had failed with by then as far as this sink knows. -/
theorem given_fail {Γ : Ctx ε υ} {got : List Frame} {c : Nat} {call : Call ε υ} {e : Thrown} (hs : ∀ r, e ≠ .serverError r)
    (h : call.Given Γ got none c ∨ call.Given Γ got (some e) c) :
    (call.fed c (call.sink.fail e).1 (.error e)).Given Γ got (some e) c := by
  unfold Call.Given at h
  cases hpc : call.pc with
  | writing | written =>
    rw [hpc] at h
    rw [fed_of_ne_awaiting (by rw [hpc]; simp), Call.Given]
    simp only [hpc]
    rcases h with ⟨hframes, hsink⟩ | ⟨hframes, hsink⟩ <;> exact ⟨hframes, by rw [hsink]; rfl⟩
  | awaiting =>
    rw [hpc] at h
    rcases h with ⟨hu, hgot, hsink, -⟩ | ⟨-, -, -, hno⟩
    · have hw : call.sink.waiter = some c := by rw [hsink]
      rw [Call.fed, if_pos hw]
      simp only [Call.settle, hpc, Call.Given]
      exact answers_rejected hs (fun _ => ⟨hgot ▸ hu, rfl⟩)
    · cases hno
  | got g =>
    rw [hpc] at h
    rw [fed_of_ne_awaiting (by rw [hpc]; simp), Call.Given]
    simp only [hpc]
    rcases h with ⟨hu, rest, hgot, hsink⟩ | ⟨hu, rest, hgot, hsink⟩ <;> exact ⟨hu, rest, hgot, by rw [hsink]; rfl⟩
  | threw e' =>
    rw [hpc] at h
    rw [fed_of_ne_awaiting (by rw [hpc]; simp), Call.Given]
    simp only [hpc]
    exact h.elim (fun h => h.fail e) id
  | done o =>
    rw [hpc] at h
    rw [fed_of_ne_awaiting (by rw [hpc]; simp), Call.Given]
    simp only [hpc]
    exact h.elim (fun h => h.fail e) id
  | opened =>
    rw [hpc] at h
    exact (h.elim id id).elim

theorem sends_of_collects {v : Verb} (h : v.collects = true) : v.sends = true := by
  cases v with
  | nextEvent target => cases h
  | _ => rfl

theorem fed_fields (c : Nat) (k : StreamSink) (r : Except Thrown Frame) (call : Call ε υ) :
    (call.fed c k r).args = call.args ∧ (call.fed c k r).streamId = call.streamId := by
  unfold Call.fed Call.settle
  split
  · split <;> exact ⟨rfl, rfl⟩
  · exact ⟨rfl, rfl⟩

theorem getElem?_feed_self {calls : List (Call ε υ)} {c : Nat} {call : Call ε υ} (hc : calls[c]? = some call) (k : StreamSink)
    (r : Except Thrown Frame) : (feed calls c call k r)[c]? = some (call.fed c k r) := by
  rw [getElem?_feed hc, if_pos rfl]
  rfl

/-- The sink of another call has nothing to do with a call that collects its response. -/
theorem getElem?_feed_other {calls : List (Call ε υ)} {taken : Nat} {closed : Option Thrown} (hT : Tidy calls taken closed) {c d : Nat}
    {call other : Call ε υ} (hc : calls[c]? = some call) (hd : calls[d]? = some other) (hv : call.args.verb.collects = true)
    (hne : c ≠ d) (k : StreamSink) (r : Except Thrown Frame) : (feed calls d other k r)[c]? = some call := by
  have hw : other.sink.waiter ≠ some c := by
    intro hw
    rcases hT.waiter d c other hd hw with heq | ⟨x, hx, hno⟩
    · exact hne heq
    · obtain rfl := Option.some.inj (hc.symm.trans hx)
      rw [sends_of_collects hv] at hno
      cases hno
  rw [getElem?_feed hd, if_neg hne, hc, Option.map_some, if_neg hw]

/-- The loop of `failAll`: a call that has its route, or is done. -/
theorem given_failSinks {Γ : Ctx ε υ} {got : List Frame} {taken c : Nat} {e : Thrown} (hs : ∀ r, e ≠ .serverError r) (ids : List Nat)
    {calls : List (Call ε υ)} {call : Call ε υ} (hT : Tidy calls taken (some e)) (hc : calls[c]? = some call)
    (hv : call.args.verb.collects = true)
    (h : call.Given Γ got none c ∧ (c ∈ ids ∨ ∃ o, call.pc = .done o) ∨ call.Given Γ got (some e) c) :
    ∃ call', (ids.foldl (failSink e) calls)[c]? = some call' ∧ call'.args = call.args ∧ call'.streamId = call.streamId ∧
      call'.Given Γ got (some e) c := by
  induction ids generalizing calls call with
  | nil =>
    refine ⟨call, hc, rfl, rfl, ?_⟩
    rcases h with ⟨hg, hmem | ⟨o, hpc⟩⟩ | hg
    · cases hmem
    · rw [Call.Given, hpc] at hg ⊢
      exact hg.fail e
    · exact hg
  | cons d ids ih =>
    rw [List.foldl_cons]
    have hT' : Tidy (failSink e calls d) taken (some e) := Tidy.failSinks [d] hT
    by_cases hcd : c = d
    · subst hcd
      rw [failSink_eq hc] at hT' ⊢
      obtain ⟨hargs, hid⟩ := fed_fields c (call.sink.fail e).1 (.error e) call
      have hgiven := given_fail hs (h.imp And.left id)
      obtain ⟨call', hc', hargs', hid', hg'⟩ := ih hT' (getElem?_feed_self hc _ _) (by rw [hargs]; exact hv) (.inr hgiven)
      exact ⟨call', hc', hargs'.trans hargs, hid'.trans hid, hg'⟩
    · have hc' : (failSink e calls d)[c]? = some call := by
        rcases hd : calls[d]? with - | other
        · unfold failSink
          rw [hd]
          exact hc
        · rw [failSink_eq hd]
          exact getElem?_feed_other hT hc hd hv hcd _ _
      refine ih hT' hc' hv (h.imp (fun hg => ⟨hg.1, ?_⟩) id)
      exact hg.2.imp (fun hmem => (List.mem_cons.1 hmem).resolve_left hcd) id

/-! ### Every change -/

/-- A call that goes on by itself, and collects its response, was not done. -/
theorem Goes.not_done {Γ : Ctx ε υ} {c : Nat} {call call' : Call ε υ} (h : Goes Γ c call call')
    (hv : call.args.verb.collects = true) (o : Outcome ε υ) : call.pc ≠ .done o := by
  cases h with
  | event hno _ _ =>
    rw [sends_of_collects hv] at hno
    cases hno
  | written hpc | writeFailed hpc _ | subscribed hpc _ | await hpc _ | timeout hpc _ | rejected hpc | error hpc _ | last hpc _ _
  | more hpc _ _ =>
    rw [hpc]
    simp

theorem Follows.not_opened {Γ : Ctx ε υ} {got : List Frame} {s : State ε υ} {c : Nat} {call : Call ε υ} (h : Follows Γ got s c call) :
    call.pc ≠ .opened := by
  intro hpc
  have hg := h.given
  rw [Call.Given, hpc] at hg
  exact hg

/-- A frame that the table of an open connection is asked for. -/
theorem Follows.dispatch {Γ : Ctx ε υ} {got : List Frame} {s : State ε υ} {c : Nat} {call : Call ε υ} (h : Follows Γ got s c call)
    (hI : Inv s) (hO : Orderly s) (hn : s.taken ≤ 2 ^ 31) (hopen : s.closedError = none) (f : Frame) :
    ∃ call', call'.args = call.args ∧ call'.streamId = call.streamId ∧
      Follows Γ (got ++ onStream call.streamId [f]) (s.dispatch f) c call' := by
  have hgiven := h.given
  rw [hopen] at hgiven
  unfold State.dispatch
  by_cases hid : f.streamId = call.streamId
  · have hone : onStream call.streamId [f] = [f] := by simp [onStream, hid]
    rw [hone, hid]
    rcases hl : s.routes.lookup call.streamId with - | d
    · -- a call that has lost its route is done
      have hdone : ∃ o, call.pc = .done o := by
        by_contra hno
        push Not at hno
        rw [h.route hopen hno] at hl
        cases hl
      obtain ⟨o, hpc⟩ := hdone
      refine ⟨call, rfl, rfl, h.get, h.collects, h.id, fun _ hno => absurd hpc (hno o), ?_⟩
      rw [hopen]
      rw [Call.Given, hpc] at hgiven ⊢
      exact hgiven.mono (List.prefix_append _ _)
    · obtain ⟨other, ho, hoid, -⟩ := hI.routed _ d hl
      obtain rfl : d = c := hO.calls.same_id hn h.get ho h.id hoid
      obtain ⟨hargs, hsid⟩ := fed_fields d (call.sink.push f).1 (.ok f) call
      simp only [h.get]
      rw [(push_waiter call.sink f).2]
      refine ⟨call.fed d (call.sink.push f).1 (.ok f), hargs, hsid, getElem?_feed_self h.get _ _, by rw [hargs]; exact h.collects,
        by rw [hsid]; exact h.id, fun _ _ => by rw [hsid]; exact hl, ?_⟩
      rw [hopen]
      exact given_push hgiven
  · have hnone : onStream call.streamId [f] = [] := by simp [onStream, hid]
    rw [hnone, List.append_nil]
    rcases hl : s.routes.lookup f.streamId with - | d
    · exact ⟨call, rfl, rfl, h⟩
    · obtain ⟨other, ho, hoid, -⟩ := hI.routed _ d hl
      have hne : c ≠ d := by
        rintro rfl
        obtain rfl := Option.some.inj (h.get.symm.trans ho)
        exact hid hoid.symm
      simp only [ho]
      rw [(push_waiter other.sink f).2]
      exact ⟨call, rfl, rfl, getElem?_feed_other hO.calls h.get ho h.collects hne _ _, h.collects, h.id, h.route, h.given⟩

/-- The connection fails. -/
theorem Follows.failAll {Γ : Ctx ε υ} {got : List Frame} {s : State ε υ} {c : Nat} {call : Call ε υ} {e : Thrown}
    (h : Follows Γ got s c call) (hO : Orderly s) (he : ∀ r, e ≠ .serverError r) :
    ∃ call', call'.args = call.args ∧ call'.streamId = call.streamId ∧ Follows Γ got (s.failAll e) c call' := by
  rcases failAll_cases hO e with ⟨e₀, hcl, hcl', hcalls⟩ | ⟨hcl, hcl', hcalls⟩
  · refine ⟨call, rfl, rfl, by rw [hcalls]; exact h.get, h.collects, h.id, fun hno => ?_, ?_⟩
    · rw [hcl'] at hno
      cases hno
    · rw [hcl', ← hcl]
      exact h.given
  · have hT := hO.calls
    have hgiven := h.given
    rw [hcl] at hT hgiven
    have hT' : Tidy s.calls s.taken (some e) :=
      ⟨hT.subscribes, hT.ids, hT.distinct, hT.waiter, fun d x e' hd he' => by cases hT.failure d x e' hd he'⟩
    have hroute : c ∈ s.routes.tasks ∨ ∃ o, call.pc = .done o := by
      by_cases hdone : ∃ o, call.pc = .done o
      · exact .inr hdone
      · push Not at hdone
        exact .inl (Routes.mem_tasks.2 ⟨_, h.route hcl hdone⟩)
    obtain ⟨call', hc', hargs, hid, hg⟩ := given_failSinks he s.routes.tasks hT' h.get h.collects (.inl ⟨hgiven, hroute⟩)
    refine ⟨call', hargs, hid, by rw [hcalls]; exact hc', by rw [hargs]; exact h.collects, by rw [hid]; exact h.id,
      fun hno => ?_, by rw [hcl']; exact hg⟩
    rw [hcl'] at hno
    cases hno

/-- Each change keeps a call with the frames of its stream. -/
theorem Follows.change {Γ : Ctx ε υ} {got fs : List Frame} {s s' : State ε υ} {c : Nat} {call : Call ε υ} (h : Follows Γ got s c call)
    (hI : Inv s) (hO : Orderly s) (hn : s'.taken ≤ 2 ^ 31) (hch : Change Γ s fs s') :
    ∃ call', call'.args = call.args ∧ call'.streamId = call.streamId ∧ Follows Γ (got ++ onStream call.streamId fs) s' c call' := by
  have hle := hch.taken_le
  have hlt : c < s.calls.length := (List.getElem?_eq_some_iff.1 h.get).1
  cases hch with
  | aside buf out closed uncaught =>
    rw [onStream_nil, List.append_nil]
    exact ⟨call, rfl, rfl, h.get, h.collects, h.id, h.route, h.given⟩
  | @goes d x x' hd hg =>
    rw [onStream_nil, List.append_nil]
    by_cases hdc : c = d
    · subst hdc
      obtain rfl := Option.some.inj (h.get.symm.trans hd)
      obtain ⟨hargs, hid, -⟩ := hg.stays s.calls s.closedError
      refine ⟨x', hargs, hid, getElem?_set_self_of_some hd _, by rw [hargs]; exact h.collects, by rw [hid]; exact h.id, ?_, ?_⟩
      · intro hopen _
        rw [hid]
        exact h.route hopen (hg.not_done h.collects)
      · exact hg.given h.given h.collects hO.stored
    · refine ⟨call, rfl, rfl, ?_, h.collects, h.id, h.route, h.given⟩
      rw [State.setCall, getElem?_set_of_some hd, if_neg hdc]
      exact h.get
  | @subscription d sub hd hpc ended sink hf hw =>
    rw [onStream_nil, List.append_nil]
    have hdc : c ≠ d := by
      rintro rfl
      obtain rfl := Option.some.inj (h.get.symm.trans hd)
      exact h.not_opened hpc
    refine ⟨call, rfl, rfl, ?_, h.collects, h.id, h.route, h.given⟩
    rw [State.setCall, getElem?_set_of_some hd, if_neg hdc]
    exact h.get
  | @erase d x hd hpc id hx =>
    rw [onStream_nil, List.append_nil]
    refine ⟨call, rfl, rfl, h.get, h.collects, h.id, ?_, h.given⟩
    intro hopen hno
    rw [Routes.lookup_erase_eq]
    split
    · rename_i hid
      obtain rfl := hO.calls.same_id hn h.get hd h.id (hx.trans hid.symm)
      obtain rfl := Option.some.inj (h.get.symm.trans hd)
      rcases hpc with hpc | ⟨o, hpc⟩
      · exact absurd hpc h.not_opened
      · exact absurd hpc (hno o)
    · exact h.route hopen hno
  | added args pc hpc ht =>
    rw [onStream_nil, List.append_nil]
    refine ⟨call, rfl, rfl, ?_, h.collects, h.id, h.route, h.given⟩
    rw [List.getElem?_append_left hlt]
    exact h.get
  | send args hv hopen =>
    rw [onStream_nil, List.append_nil]
    obtain ⟨pc, out, -, heq⟩ := send_eq hopen args
    rw [heq] at hn hle ⊢
    refine ⟨call, rfl, rfl, ?_, h.collects, h.id, ?_, h.given⟩
    · rw [List.getElem?_append_left hlt]
      exact h.get
    · intro _ hno
      have hkey : call.streamId ≠ if args.verb.isOp then s.nextStreamId else handshakeStreamId := by
        split
        · rename_i hop
          dsimp only at hn
          rw [if_pos hop] at hn
          obtain ⟨hid, hord⟩ := hO.calls.ids c call h.get h.id
          rw [hid, hI.counter]
          intro heq
          have := idAt_inj (by omega) (by omega) heq
          omega
        · exact h.id
      rw [Routes.lookup_insert_eq, if_neg hkey]
      exact h.route hopen hno
  | dispatch f =>
    by_cases hopen : s.closedError = none
    · rw [if_pos hopen]
      exact h.dispatch hI hO (by omega) hopen f
    · rw [if_neg hopen, onStream_nil, List.append_nil]
      have hnone := hO.cleared hopen f.streamId
      refine ⟨call, rfl, rfl, ?_⟩
      unfold State.dispatch
      rw [hnone]
      exact h
  | failAll e he =>
    rw [onStream_nil, List.append_nil]
    exact h.failAll hO he

theorem Follows.changes {Γ : Ctx ε υ} {got fs : List Frame} {s s' : State ε υ} {c : Nat} {call : Call ε υ} (h : Follows Γ got s c call)
    (hs : Inv s ∧ Orderly s) (hn : s'.taken ≤ 2 ^ 31) (hch : Changes Γ s fs s') :
    ∃ call', call'.args = call.args ∧ call'.streamId = call.streamId ∧ Follows Γ (got ++ onStream call.streamId fs) s' c call' := by
  induction hch generalizing got call with
  | refl s =>
    rw [onStream_nil, List.append_nil]
    exact ⟨call, rfl, rfl, h⟩
  | cons hc hrest ih =>
    obtain ⟨call₁, hargs₁, hid₁, h₁⟩ := h.change hs.1 hs.2 (Nat.le_trans hrest.taken_le hn) hc
    obtain ⟨call', hargs, hid, h'⟩ := ih h₁ ⟨hs.1.change hc, hs.2.change hs.1 hc⟩ hn
    refine ⟨call', hargs.trans hargs₁, hid.trans hid₁, ?_⟩
    rw [hid₁, List.append_assoc, ← onStream_append] at h'
    exact h'

/-! ### Every run -/

/-- The frames that a run looks up, from a state on, in the table of the open connection. -/
def inbound (Γ : Ctx ε υ) (m : Nat) (s : State ε υ) (tr : List Action) : List Frame := (mux Γ m).outputs (heard Γ) s tr

theorem Follows.exec {Γ : Ctx ε υ} {m : Nat} {got : List Frame} {s s' : State ε υ} {c : Nat} {call : Call ε υ} {tr : List Action}
    (h : Follows Γ got s c call) (hs : Inv s ∧ Orderly s) (hr : (mux Γ m).exec s tr = some s') (hn : s'.taken ≤ 2 ^ 31) :
    ∃ call', call'.args = call.args ∧ call'.streamId = call.streamId ∧
      Follows Γ (got ++ onStream call.streamId (inbound Γ m s tr)) s' c call' := by
  induction tr generalizing s got call with
  | nil =>
    cases hr
    exact ⟨call, rfl, rfl, by rw [inbound, Machine.outputs, onStream_nil, List.append_nil]; exact h⟩
  | cons a tr ih =>
    obtain ⟨s₁, hst, hrest⟩ := Option.bind_eq_some_iff.1 hr
    have hst' : step Γ s a = some s₁ := hst
    have hch := step_changes hs.2.calls.subscribes hst'
    have hs₁ := hch.kept hs
    have hle : s₁.taken ≤ s'.taken := by
      refine (Machine.exec_invariant (M := mux Γ m) (P := fun t => (Inv t ∧ Orderly t) ∧ s₁.taken ≤ t.taken) ?_
        ⟨hs₁, Nat.le_refl _⟩ hrest).2
      intro t b t' ht hst
      have hch' := step_changes ht.1.2.calls.subscribes hst
      exact ⟨hch'.kept ht.1, Nat.le_trans ht.2 hch'.taken_le⟩
    obtain ⟨call₁, hargs₁, hid₁, h₁⟩ := h.changes hs (Nat.le_trans hle hn) hch
    obtain ⟨call', hargs, hid, h'⟩ := ih h₁ hs₁ hrest
    refine ⟨call', hargs.trans hargs₁, hid.trans hid₁, ?_⟩
    rw [hid₁, List.append_assoc, ← onStream_append] at h'
    rw [inbound, Machine.outputs, hst, Option.elim_some]
    exact h'

/-- A call that takes up an open connection. -/
theorem follows_send {Γ : Ctx ε υ} {s : State ε υ} {args : Args} (hI : Inv s) (hopen : s.closedError = none)
    (hv : args.verb.collects = true) :
    ∃ call, call.args = args ∧ call.streamId = idAt s.taken ∧ Follows Γ [] (s.send args) s.calls.length call := by
  have hop : args.verb.isOp = true := by
    cases hverb : args.verb with
    | request | unsubscribe target => rfl
    | _ =>
      rw [hverb] at hv
      cases hv
  have hsend : ∃ (pc : Pc ε υ) (out : List Bytes), (pc = .writing ∨ ∃ e, pc = .threw e ∧ e.fromTransport = false ∧
      ∀ r, e ≠ .serverError r) ∧ s.send args =
      { s with
        nextStreamId := nextStreamIdAfter s.nextStreamId
        taken := s.taken + 1
        routes := s.routes.insert s.nextStreamId s.calls.length
        calls := s.calls ++ [Call.begin args s.nextStreamId s.taken pc]
        out := out } := by
    unfold State.send
    rw [hopen]
    simp only [hop, if_true]
    refine ⟨_, _, ?_, rfl⟩
    cases hw : writeFrame s.maxPayloadSize args.opcode s.nextStreamId args.payload with
    | ok bytes => exact .inl rfl
    | error e =>
      refine .inr ⟨e, rfl, ?_⟩
      unfold writeFrame at hw
      split at hw
      · cases hw
        exact ⟨rfl, by simp⟩
      · split at hw
        · cases hw
          exact ⟨rfl, by simp⟩
        · cases hw
  obtain ⟨pc, out, hpc, heq⟩ := hsend
  rw [heq]
  refine ⟨Call.begin args s.nextStreamId s.taken pc, rfl, hI.counter, ?_, hv, ?_, ?_, ?_⟩
  · simp
  · change s.nextStreamId ≠ 0
    rw [hI.counter]
    exact idAt_ne_zero _
  · intro _ _
    exact AList.lookup_insert _
  · rcases hpc with rfl | ⟨e, rfl, ht, hs⟩
    · exact ⟨rfl, by rw [hopen]; rfl⟩
    · refine answers_rejected hs (fun h => ?_)
      rw [ht] at h
      cases h

/-- In every run, a call that collects its response, with the frames of its stream since it began. -/
theorem follows_runs {Γ : Ctx ε υ} {m : Nat} {pre post : List Action} {args : Args} {s₀ s : State ε υ} (hpre : (mux Γ m).Runs pre s₀)
    (hr : (mux Γ m).exec s₀ (.call args :: post) = some s) (hv : args.verb.collects = true) (hopen : s₀.closedError = none)
    (hn : s.taken ≤ 2 ^ 31) :
    ∃ call, call.args.verb = args.verb ∧ call.streamId = idAt s₀.taken ∧
      Follows Γ (onStream (idAt s₀.taken) (inbound Γ m s₀ (.call args :: post))) s s₀.calls.length call := by
  have hs := orderly_runs hpre
  obtain ⟨s₁, hst, hrest⟩ := Option.bind_eq_some_iff.1 hr
  obtain ⟨args', hverb, rfl⟩ := step_call_sends hst (sends_of_collects hv)
  obtain ⟨call₁, hargs₁, hid₁, h₁⟩ := follows_send (Γ := Γ) hs.1 hopen (by rw [hverb]; exact hv)
  have hs₁ : Inv (s₀.send args') ∧ Orderly (s₀.send args') :=
    (step_changes hs.2.calls.subscribes (show step Γ s₀ (.call args) = _ from hst)).kept hs
  obtain ⟨call, hargs, hid, h⟩ := h₁.exec hs₁ hrest hn
  refine ⟨call, by rw [hargs, hargs₁, hverb], hid.trans hid₁, ?_⟩
  rw [hid₁, List.nil_append] at h
  rw [inbound, Machine.outputs, hst, Option.elim_some, heard_of_ne_data (by simp), List.nil_append]
  exact h

/-! ### The frames and the bytes -/

/-- Unless `onData` has thrown, the frames looked up are those decoded from all that the socket has delivered, heartbeats aside; on a
failed connection they are the first of them. -/
theorem inbound_received {Γ : Ctx ε υ} {m : Nat} {tr : List Action} {s : State ε υ} (hr : (mux Γ m).Runs tr s) :
    s.uncaught = none → inbound Γ m (State.init m) tr <+: (framesReceived tr).filter looksUp ∧
    (s.closedError = none → inbound Γ m (State.init m) tr = (framesReceived tr).filter looksUp ∧
      pumpDecoder.Splits (received tr) (framesReceived tr) s.buf) := by
  refine Machine.Runs.rec_on (P := fun tr s => s.uncaught = none → inbound Γ m (State.init m) tr <+: (framesReceived tr).filter looksUp ∧
    (s.closedError = none → inbound Γ m (State.init m) tr = (framesReceived tr).filter looksUp ∧
      pumpDecoder.Splits (received tr) (framesReceived tr) s.buf)) ?_ ?_ hr
  · intro _
    have hframes : framesReceived [] = [] := by
      rw [framesReceived]
      exact congrArg Prod.fst (pumpDecoder.decodeAll_short (show pumpDecoder.decode [] = .short from rfl))
    rw [hframes]
    exact ⟨List.prefix_refl _, fun _ => ⟨rfl, .nil⟩⟩
  · intro tr s a s' hrun ih hst huncaught
    have hsnoc : inbound Γ m (State.init m) (tr ++ [a]) = inbound Γ m (State.init m) tr ++ heard Γ s a := hrun.outputs_snoc _ hst
    have hframes : framesReceived tr <+: framesReceived (tr ++ [a]) := by
      rw [framesReceived, framesReceived, received_snoc]
      exact Incremental.decodeAll_isPre _ _
    rw [hsnoc]
    by_cases ha : ∃ chunk now, a = .data chunk now
    · obtain ⟨chunk, now, rfl⟩ := ha
      obtain rfl : s' = s.onData Γ chunk now := by
        change (if s.socketClosed then none else some (s.onData Γ chunk now)) = some s' at hst
        split at hst
        · cases hst
        · exact (Option.some.inj hst).symm
      have hdrains := drains_onData Γ s chunk now
      obtain ⟨hbefore, hno⟩ := hdrains.uncaught.1 huncaught
      obtain ⟨hpre, hexact⟩ := ih hbefore
      by_cases hopen : s.closedError = none
      · obtain ⟨heq, hsplits⟩ := hexact hopen
        have hall : framesReceived (tr ++ [.data chunk now]) = framesReceived tr ++ (pumpDecoder.decodeAll (s.buf ++ chunk)).1 := by
          rw [framesReceived, received_snoc]
          exact congrArg Prod.fst (hsplits.decodeAll_append chunk)
        have hheard : heard Γ s (.data chunk now) = ((pumpDecoder.decodeAll (s.buf ++ chunk)).1).filter looksUp := by
          rw [heard, if_pos hopen, record_data hno, List.map_map]
          simp [Function.comp_def]
        have hnow : inbound Γ m (State.init m) tr ++ heard Γ s (.data chunk now) =
            (framesReceived (tr ++ [.data chunk now])).filter looksUp := by rw [hall, List.filter_append, heq, hheard]
        refine ⟨by rw [hnow], fun hopen' => ⟨hnow, ?_⟩⟩
        rcases hend : (pumpDecoder.decodeAll (s.buf ++ chunk)).2 with - | k
        · rw [hall, received_snoc]
          exact (hsplits.extend chunk).trans (hdrains.of_whole hno hend).1
        · exact absurd hopen' (hdrains.of_malformed hno hend).2.2
      · have hheard : heard Γ s (.data chunk now) = [] := if_neg hopen
        rw [hheard, List.append_nil]
        refine ⟨hpre.trans (hframes.filter _), fun hopen' => absurd ?_ hopen⟩
        exact hdrains.changes.open_before hopen'
    · have hno : ∀ chunk now, a ≠ .data chunk now := fun chunk now h => ha ⟨chunk, now, h⟩
      have hquiet := step_quiet hst hno
      obtain ⟨hpre, hexact⟩ := ih (hquiet.uncaught.symm.trans huncaught)
      have hbytes : a.bytes = [] := by
        cases a with
        | data chunk now => exact absurd rfl (hno chunk now)
        | _ => rfl
      have hsame : received (tr ++ [a]) = received tr := by rw [received_snoc, hbytes, List.append_nil]
      rw [heard_of_ne_data hno, List.append_nil, framesReceived, hsame, hquiet.buf]
      refine ⟨hpre, fun hopen' => hexact ?_⟩
      by_contra hfailed
      exact hquiet.closedError hfailed hopen'

/-! ### What a run gives its calls -/

/-- In every run that takes at most `2 ^ 31` stream ids, a call of `request`, or the request of an `unsubscribe`, on an open
connection: when it returns, it returns the complete response at the front of the frames of its stream since then; an error
of the server is that of the first ERROR frame behind an unfinished response; when the transport has failed it, its response
never was complete; and as long as it waits, it has collected all the frames of its stream and the connection is open. Unless
`onData` has thrown, these frames are among those decoded from what the socket has delivered, from the first on, and all of them while
the connection is open. -/
theorem script_responses_demultiplexed (Γ : Ctx ε υ) (m : Nat) {pre post : List Action} {args : Args} {s₀ s : State ε υ}
    (hpre : (mux Γ m).Runs pre s₀) (hr : (mux Γ m).exec s₀ (.call args :: post) = some s) (hv : args.verb.collects = true)
    (hopen : s₀.closedError = none) (hn : s.taken ≤ 2 ^ 31) :
    ∃ call, s.calls[s₀.calls.length]? = some call ∧ call.args.verb = args.verb ∧ call.streamId = idAt s₀.taken ∧
      ∃ got, got = onStream (idAt s₀.taken) (inbound Γ m s₀ (.call args :: post)) ∧
      (∀ resp, call.pc = .done (.returned resp) → IsResponse resp ∧ resp <+: got) ∧
      (∀ r, call.pc = .done (.unsubscribed r) → ∃ f, f.opcode = opUnsubscribeResp ∧ f.isEos = true ∧
        Γ.decodeUnsubscribeResponse f.payload = .ok r ∧ [f] <+: got) ∧
      (∀ r, call.pc = .done (.rejected (.serverError r)) → ∃ unfinished f, Unfinished unfinished ∧ f.opcode = opError ∧
        Γ.decodeError f.payload = .ok r ∧ unfinished ++ [f] <+: got) ∧
      (∀ e, call.pc = .done (.rejected e) → e.fromTransport = true → Unfinished got ∧ s.closedError = some e) ∧
      (call.pc = .awaiting → call.frames = got ∧ Unfinished got ∧ s.closedError = none) ∧
      (s.uncaught = none → inbound Γ m (State.init m) pre ++ inbound Γ m s₀ (.call args :: post) <+:
        (framesReceived (pre ++ .call args :: post)).filter looksUp) ∧
      (s.uncaught = none → s.closedError = none → inbound Γ m (State.init m) pre ++ inbound Γ m s₀ (.call args :: post) =
        (framesReceived (pre ++ .call args :: post)).filter looksUp) := by
  obtain ⟨call, hverb, hid, hF⟩ := follows_runs hpre hr hv hopen hn
  have hgiven := hF.given
  have hrun : (mux Γ m).Runs (pre ++ .call args :: post) s := hpre.append hr
  have hall : inbound Γ m (State.init m) (pre ++ .call args :: post) =
      inbound Γ m (State.init m) pre ++ inbound Γ m s₀ (.call args :: post) := Machine.outputs_append _ hpre _
  have hreceived := inbound_received hrun
  rw [hall] at hreceived
  refine ⟨call, hF.get, hverb, hid, _, rfl, ?_, ?_, ?_, ?_, ?_, fun hu => (hreceived hu).1, fun hu h => ((hreceived hu).2 h).1⟩
  · intro resp hpc
    rw [Call.Given, hpc] at hgiven
    exact hgiven
  · intro r hpc
    rw [Call.Given, hpc] at hgiven
    exact hgiven
  · intro r hpc
    rw [Call.Given, hpc] at hgiven
    exact hgiven
  · intro e hpc ht
    rw [Call.Given, hpc] at hgiven
    cases e with
    | connectionClosed message => exact hgiven ht
    | transportError message => exact hgiven ht
    | _ => cases ht
  · intro hpc
    rw [Call.Given, hpc] at hgiven
    obtain ⟨hu, hgot, -, hcl⟩ := hgiven
    exact ⟨hgot, hgot ▸ hu, hcl⟩

/-- An answer on stream 1, and its bytes. -/
def scriptAnswer : Frame := ⟨opPong, flagEos, 1, [7]⟩

def scriptBytes : Bytes := (encodeFrame opPong 1 flagEos [7]).toOption.getD []

/-- A request whose answer comes in two chunks. -/
def scriptAnswered : List Action :=
  [.writeDone 0, .resume 0, .data (scriptBytes.take 20) 0, .data (scriptBytes.drop 20) 0, .resume 0]

/-- It returns its answer, which is all of its stream. -/
theorem scriptAnswered_demultiplexed : ∃ s : State Unit Unit,
    (mux Ctx.refusing maxPayloadBytes).exec (State.init maxPayloadBytes) (.call ⟨.request, opPing, [], none⟩ :: scriptAnswered) = some s ∧
    IsResponse [scriptAnswer] ∧ [scriptAnswer] <+: onStream 1 (inbound Ctx.refusing maxPayloadBytes (State.init maxPayloadBytes)
      (.call ⟨.request, opPing, [], none⟩ :: scriptAnswered)) := by
  have hcheck : ((mux Ctx.refusing maxPayloadBytes).exec (State.init maxPayloadBytes)
      (.call ⟨.request, opPing, [], none⟩ :: scriptAnswered)).any (fun s : State Unit Unit => s.taken == 1 && (s.calls[0]?).any
        (fun call => match call.pc with | .done (.returned resp) => decide (resp = [scriptAnswer]) | _ => false)) = true := by
    decide +kernel
  obtain ⟨s, hr, hcheck⟩ := (Option.any_eq_true _ _).1 hcheck
  rw [Bool.and_eq_true, beq_iff_eq] at hcheck
  obtain ⟨htaken, hcheck⟩ := hcheck
  obtain ⟨call, hc, hcheck⟩ := (Option.any_eq_true _ _).1 hcheck
  have hpc : call.pc = .done (.returned [scriptAnswer]) := by
    split at hcheck
    · rename_i resp hpc
      rw [hpc, of_decide_eq_true hcheck]
    · cases hcheck
  have hpre : (mux Ctx.refusing maxPayloadBytes).Runs [] (State.init maxPayloadBytes) := rfl
  obtain ⟨call', hc', -, -, got, hgot, hreturned, -⟩ :=
    script_responses_demultiplexed Ctx.refusing maxPayloadBytes hpre hr rfl rfl (by rw [htaken]; decide)
  obtain rfl := Option.some.inj (hc.symm.trans hc')
  have hid : idAt (State.init maxPayloadBytes : State Unit Unit).taken = 1 := by decide
  rw [hgot, hid] at hreturned
  exact ⟨s, hr, hreturned [scriptAnswer] hpc⟩

/-! ### A failed connection -/

/-- What a call makes of the frames behind those it has collected, when the connection has failed with `e`. -/
def verdict (Γ : Ctx ε υ) (a : Args) (e : Thrown) : List Frame → List Frame → Outcome ε υ :=
  Wire.verdict (fun payload => .rejected (errorOf Γ payload)) (a.result Γ) (.rejected e)

/-- The call `c` is done with `o` after at most so many steps of its own. -/
def Settles (Γ : Ctx ε υ) (m c : Nat) (s : State ε υ) (turns : Nat) (o : Outcome ε υ) : Prop :=
  (mux Γ m).Settles (.resume c) turns s (fun s' => ∃ call', s'.calls[c]? = some call' ∧ call'.pc = .done o)

theorem step_resume {Γ : Ctx ε υ} (m : Nat) {s : State ε υ} {c : Nat} {call : Call ε υ} (hc : s.calls[c]? = some call) :
    (mux Γ m).step s (.resume c) = s.resume Γ c call := by
  change s.calls[c]?.bind (fun call => s.resume Γ c call) = _
  rw [hc, Option.bind_some]

/-- Where a call that collects goes on. -/
theorem resume_of_collects (Γ : Ctx ε υ) (s : State ε υ) (c : Nat) {call : Call ε υ} (hv : call.args.verb.collects = true) :
    (call.pc = .written → s.resume Γ c call = some (s.awaitOwn c call)) ∧
    (∀ f, call.pc = .got f → s.resume Γ c call = some (s.collect Γ c call f)) ∧
    (∀ e, call.pc = .threw e → s.resume Γ c call = some (s.finish c call (.rejected e))) := by
  unfold State.resume
  refine ⟨?_, ?_, ?_⟩
  · intro hpc
    rw [hpc]
    cases hverb : call.args.verb <;> first | rfl | (rw [hverb] at hv; cases hv)
  · intro f hpc
    rw [hpc]
    cases hverb : call.args.verb <;> first | rfl | (rw [hverb] at hv; cases hv)
  · intro e hpc
    rw [hpc]
    cases hverb : call.args.verb <;> first | rfl | (rw [hverb] at hv; cases hv)

theorem settles_of_finish {Γ : Ctx ε υ} {m c : Nat} {s : State ε υ} {call call' : Call ε υ} {o : Outcome ε υ}
    (hc : s.calls[c]? = some call) (hst : (mux Γ m).step s (.resume c) = some (s.finish c call' o)) : Settles Γ m c s 1 o := by
  have hget : (s.finish c call' o).calls[c]? = some { call' with pc := .done o } := getElem?_set_self_of_some hc _
  exact Machine.settles_of_step hst ⟨_, hget, rfl⟩

theorem settles_of_threw (Γ : Ctx ε υ) (m : Nat) {c : Nat} {s : State ε υ} {call : Call ε υ} {e : Thrown} (hc : s.calls[c]? = some call)
    (hv : call.args.verb.collects = true) (hpc : call.pc = .threw e) : Settles Γ m c s 1 (.rejected e) :=
  settles_of_finish hc ((step_resume m hc).trans ((resume_of_collects Γ s c hv).2.2 e hpc))

/-- A call that asks its sink for the next frame on a failed connection; `hgot` is for a call with the first frame of the sink in hand. -/
theorem settles_of_next {Γ : Ctx ε υ} {m c : Nat} {s : State ε υ} {call call₀ : Call ε υ} {e : Thrown} {queue : List Frame}
    (hc : s.calls[c]? = some call₀) (hv : call.args.verb.collects = true) (hsink : call.sink = ⟨queue, none, some e⟩)
    (hgot : ∀ f rest, queue = f :: rest → ∀ (t : State ε υ) (call' : Call ε υ), t.calls[c]? = some call' → call'.args = call.args →
      call'.frames = call.frames → call'.pc = .got f → call'.sink = ⟨rest, none, some e⟩ →
      Settles Γ m c t (rest.length + 2) (verdict Γ call.args e call.frames queue)) :
    Settles Γ m c (s.awaitOwn c call) (queue.length + 1) (verdict Γ call.args e call.frames queue) := by
  have hc' : (s.awaitOwn c call).calls[c]? =
      some { call with sink := (call.sink.next c).1, pc := pcAfterNext (call.sink.next c).2 } := getElem?_set_self_of_some hc _
  rcases queue with - | ⟨f, rest⟩
  · refine settles_of_threw Γ m hc' hv ?_
    rw [hsink]
    rfl
  · refine hgot f rest rfl _ _ hc' rfl rfl ?_ ?_ <;> rw [hsink] <;> rfl

/-- A call with a frame in hand, on a failed connection; `hmore` is for a frame that leaves the response unfinished. -/
theorem settles_of_collect {Γ : Ctx ε υ} {m c : Nat} {e : Thrown} {rest : List Frame} {s : State ε υ} {call : Call ε υ} {f : Frame}
    (hc : s.calls[c]? = some call) (hv : call.args.verb.collects = true) (hpc : call.pc = .got f)
    (hmore : Settles Γ m c (s.awaitOwn c { call with frames := call.frames ++ [f] }) (rest.length + 1)
      (verdict Γ call.args e (call.frames ++ [f]) rest)) :
    Settles Γ m c s (rest.length + 2) (verdict Γ call.args e call.frames (f :: rest)) := by
  have hst := (step_resume m hc).trans ((resume_of_collects Γ s c hv).2.1 f hpc)
  rw [State.collect] at hst
  rw [verdict, Wire.verdict]
  by_cases ho : f.opcode = opError
  · rw [if_pos ho] at hst ⊢
    exact Machine.Settles.mono (settles_of_finish hc hst) (by omega)
  · rw [if_neg ho] at hst ⊢
    dsimp only at hst
    split
    · rename_i he
      rw [if_pos he] at hst
      exact Machine.Settles.mono (settles_of_finish hc hst) (by omega)
    · rename_i he
      rw [if_neg he] at hst
      exact Machine.Settles.succ hst hmore

/-- A call with a frame in hand, on a failed connection, comes to what the frames make of it. -/
theorem settles_of_got (Γ : Ctx ε υ) (m : Nat) {c : Nat} {e : Thrown} (rest : List Frame) {s : State ε υ} {call : Call ε υ} {f : Frame}
    (hc : s.calls[c]? = some call) (hv : call.args.verb.collects = true) (hpc : call.pc = .got f)
    (hsink : call.sink = ⟨rest, none, some e⟩) : Settles Γ m c s (rest.length + 2) (verdict Γ call.args e call.frames (f :: rest)) := by
  -- by induction on the frames that are still in the sink
  induction rest generalizing s call f with
  | nil =>
    refine settles_of_collect hc hv hpc ?_
    refine settles_of_next hc hv hsink ?_
    intro g rest h
    cases h
  | cons g rest ih =>
    refine settles_of_collect hc hv hpc ?_
    refine settles_of_next hc hv hsink ?_
    intro g' rest' heq t call' ht hargs hframes hpc' hsink'
    obtain ⟨rfl, rfl⟩ := List.cons.inj heq
    have hsettles := ih ht (by rw [hargs]; exact hv) hpc' hsink'
    rw [hargs, hframes] at hsettles
    exact hsettles

/-- A call that has sent its frame when the connection has failed comes to what the frames of its stream make of it. -/
theorem Follows.settles {Γ : Ctx ε υ} {m c : Nat} {got : List Frame} {s : State ε υ} {call : Call ε υ} {e : Thrown}
    (h : Follows Γ got s c call) (he : s.closedError = some e) (hpc : call.pc = .written ∨ ∃ f, call.pc = .got f) :
    Settles Γ m c s (call.sink.frames.length + 2) (verdict Γ call.args e [] got) := by
  have hgiven := h.given
  rw [he] at hgiven
  rcases hpc with hpc | ⟨f, hpc⟩
  · rw [Call.Given, hpc] at hgiven
    obtain ⟨hframes, hsink⟩ := hgiven
    have hst := (step_resume m h.get).trans ((resume_of_collects Γ s c h.collects).1 hpc)
    have hnext : Settles Γ m c (s.awaitOwn c call) (got.length + 1) (verdict Γ call.args e call.frames got) := by
      refine settles_of_next h.get h.collects hsink ?_
      intro f rest heq t call' ht hargs hframes' hpc' hsink'
      have hsettles := settles_of_got Γ m rest ht (by rw [hargs]; exact h.collects) hpc' hsink'
      rw [hargs, hframes', ← heq] at hsettles
      exact hsettles
    rw [hframes] at hnext
    rw [hsink]
    exact Machine.Settles.succ hst hnext
  · rw [Call.Given, hpc] at hgiven
    obtain ⟨hu, rest, hgot, hsink⟩ := hgiven
    have hsettles := settles_of_got Γ m rest h.get h.collects hpc hsink
    have hverdict := verdict_append (fun payload => .rejected (errorOf Γ payload)) (call.args.result Γ) (.rejected e) hu [] (f :: rest)
    rw [List.nil_append, hgot] at hverdict
    rw [hsink, verdict, hverdict]
    exact hsettles

/-- Once the connection has failed, in a run that takes at most `2 ^ 31` stream ids, no request waits. One that has sent its frame is done
after steps of its own, with what the frames of its stream make of it, so a response that was complete is still returned; one whose write
is still under way comes to the same once the write succeeds, and is rejected with the error of the write once it fails; and a call that
begins with sending a frame is refused with the stored error. -/
theorem script_no_stranded_call (Γ : Ctx ε υ) (m : Nat) {pre post : List Action} {args : Args} {s₀ s : State ε υ} {e : Thrown}
    (hpre : (mux Γ m).Runs pre s₀) (hr : (mux Γ m).exec s₀ (.call args :: post) = some s) (hv : args.verb.collects = true)
    (hopen : s₀.closedError = none) (hn : s.taken ≤ 2 ^ 31) (he : s.closedError = some e) :
    (∃ call, s.calls[s₀.calls.length]? = some call ∧ call.pc ≠ .awaiting ∧
      ∃ got, got = onStream (idAt s₀.taken) (inbound Γ m s₀ (.call args :: post)) ∧
      (call.pc = .written ∨ (∃ f, call.pc = .got f) →
        Settles Γ m s₀.calls.length s (call.sink.frames.length + 2) (verdict Γ call.args e [] got)) ∧
      (call.pc = .writing → ∃ s₁, step Γ s (.writeDone s₀.calls.length) = some s₁ ∧
        Settles Γ m s₀.calls.length s₁ (call.sink.frames.length + 2) (verdict Γ call.args e [] got)) ∧
      (∀ message, call.pc = .writing → ∃ s₁, step Γ s (.writeFailed s₀.calls.length message) = some s₁ ∧
        Settles Γ m s₀.calls.length s₁ 1 (.rejected (.nodeError message))) ∧
      (∀ e', call.pc = .threw e' → Settles Γ m s₀.calls.length s 1 (.rejected e'))) ∧
    ∀ (later : Args) (s' : State ε υ), later.verb.sends = true → step Γ s (.call later) = some s' → ∃ args', args'.verb = later.verb ∧
      s' = { s with calls := s.calls ++ [Call.begin args' handshakeStreamId s.taken (.done (.rejected e))] } := by
  obtain ⟨call, -, -, hF⟩ := follows_runs hpre hr hv hopen hn
  have hgiven := hF.given
  refine ⟨⟨call, hF.get, ?_, _, rfl, fun hpc => hF.settles he hpc, ?_, ?_,
    fun e' hpc => settles_of_threw Γ m hF.get hF.collects hpc⟩, ?_⟩
  · intro hpc
    rw [Call.Given, hpc, he] at hgiven
    cases hgiven.2.2.2
  case refine_4 =>
    intro later s' hsends hst
    obtain ⟨args', hverb, rfl⟩ := step_call_sends hst hsends
    exact ⟨args', hverb, send_of_failed he args'⟩
  · intro hpc
    have hst : step Γ s (.writeDone s₀.calls.length) = some (s.setCall s₀.calls.length { call with pc := .written }) := by
      simp only [step, hF.get, Option.bind_some, hpc]
    refine ⟨_, hst, ?_⟩
    rw [Call.Given, hpc] at hgiven
    have hF' : Follows Γ (onStream (idAt s₀.taken) (inbound Γ m s₀ (.call args :: post)))
        (s.setCall s₀.calls.length { call with pc := .written }) s₀.calls.length { call with pc := .written } := by
      refine ⟨getElem?_set_self_of_some hF.get _, hF.collects, hF.id, fun hno _ => ?_, hgiven⟩
      rw [show s.closedError = none from hno] at he
      cases he
    exact hF'.settles (m := m) he (.inl rfl)
  · intro message hpc
    have hst : step Γ s (.writeFailed s₀.calls.length message) =
        some (s.setCall s₀.calls.length { call with pc := .threw (.nodeError message) }) := by
      simp only [step, hF.get, Option.bind_some, hpc]
    have hget : (s.setCall s₀.calls.length { call with pc := .threw (.nodeError message) }).calls[s₀.calls.length]? =
        some { call with pc := .threw (.nodeError message) } := getElem?_set_self_of_some hF.get _
    exact ⟨_, hst, settles_of_threw Γ m hget hF.collects rfl⟩

/-- A request whose answer has come when the socket closes. -/
def scriptClosed : List Action := [.writeDone 0, .resume 0, .data scriptBytes 0, .socketClose]

/-- The request still returns its answer. -/
theorem scriptClosed_settles : ∃ s : State Unit Unit, ∃ k ≤ 2, ∃ s' call',
    (mux Ctx.refusing maxPayloadBytes).exec (State.init maxPayloadBytes) (.call ⟨.request, opPing, [], none⟩ :: scriptClosed) = some s ∧
    (mux Ctx.refusing maxPayloadBytes).exec s (List.replicate k (.resume 0)) = some s' ∧ s'.calls[0]? = some call' ∧
    ∃ a : Args, a.verb = .request ∧ call'.pc = .done (verdict Ctx.refusing a (.connectionClosed "connection closed by peer") []
      (onStream 1 (inbound Ctx.refusing maxPayloadBytes (State.init maxPayloadBytes)
        (.call ⟨.request, opPing, [], none⟩ :: scriptClosed)))) := by
  have hcheck : ((mux Ctx.refusing maxPayloadBytes).exec (State.init maxPayloadBytes)
      (.call ⟨.request, opPing, [], none⟩ :: scriptClosed)).any (fun s : State Unit Unit => s.taken == 1 &&
        s.closedError == some (.connectionClosed "connection closed by peer") && (s.calls[0]?).any (fun call =>
          call.args.verb == .request && call.sink.frames == [] && match call.pc with | .got f => f == scriptAnswer | _ => false)) =
      true := by
    decide +kernel
  obtain ⟨s, hr, hcheck⟩ := (Option.any_eq_true _ _).1 hcheck
  simp only [Bool.and_eq_true, beq_iff_eq] at hcheck
  obtain ⟨⟨htaken, he⟩, hcheck⟩ := hcheck
  obtain ⟨call, hc, hcheck⟩ := (Option.any_eq_true _ _).1 hcheck
  simp only [Bool.and_eq_true, beq_iff_eq] at hcheck
  obtain ⟨⟨hverb, hframes⟩, hcheck⟩ := hcheck
  have hpc : ∃ f, call.pc = .got f := by
    split at hcheck
    · exact ⟨_, ‹_›⟩
    · cases hcheck
  have hpre : (mux Ctx.refusing maxPayloadBytes).Runs [] (State.init maxPayloadBytes) := rfl
  obtain ⟨⟨call', hc', -, got, hgot, hsettles, -⟩, -⟩ :=
    script_no_stranded_call Ctx.refusing maxPayloadBytes hpre hr rfl rfl (by rw [htaken]; decide) he
  obtain rfl := Option.some.inj (hc.symm.trans hc')
  have hid : idAt (State.init maxPayloadBytes : State Unit Unit).taken = 1 := by decide
  rw [hgot, hid, hframes] at hsettles
  obtain ⟨k, hk, s', hexec, x, hx, hdone⟩ := hsettles (.inr hpc)
  exact ⟨s, k, hk, s', x, hr, hexec, hx, call.args, hverb, hdone⟩

end BrainSdk.TypeScript
