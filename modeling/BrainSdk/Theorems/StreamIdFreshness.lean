import BrainSdk.Python.Invariant
import BrainSdk.Rust.Invariant
import BrainSdk.TypeScript.Invariant

/-!
# Freshness of stream ids

None of the three allocators looks at the route table. An id comes round again every `2 ^ 31` allocations, so the id handed out is
the key of a live route exactly when the call of that route took its own id a multiple of `2 ^ 31` allocations ago.
-/

namespace BrainSdk

open Library

/-- An id for an op stream: odd, and in the range of a `u32`. -/
def IsOpStreamId (id : Nat) : Prop := id % 2 = 1 ∧ 1 ≤ id ∧ id ≤ 2 ^ 32 - 1

/-- After `taken` allocations, no call with a route in the table took its id a multiple of `2 ^ 31` allocations ago. `turn c` is how
many ids were taken before that of call `c`, if it has taken one. -/
def NotLapped (taken : Nat) (routes : Routes Nat) (turn : Nat → Option Nat) : Prop :=
  ∀ (k c n : Nat), routes.lookup k = some c → turn c = some n → (taken - n) % 2 ^ 31 ≠ 0

/-- The id of turn `taken` is fresh exactly when no route was lapped, where every route has the id of its call's turn, or stream 0. -/
theorem idAt_fresh_iff {taken : Nat} {routes : Routes Nat} {turn : Nat → Option Nat}
    (hr : ∀ k c, routes.lookup k = some c → (∃ n, turn c = some n ∧ k = idAt n ∧ n < taken) ∨ (turn c = none ∧ k = 0)) :
    routes.lookup (idAt taken) = none ↔ NotLapped taken routes turn := by
  constructor
  · intro hfresh k c n hk hn hlap
    rcases hr k c hk with ⟨n', hn', rfl, hlt⟩ | ⟨hnone, -⟩
    · obtain rfl : n = n' := Option.some.inj (hn.symm.trans hn')
      have hsame : idAt taken = idAt n := (idAt_eq_iff taken n).2 (by omega)
      rw [hsame, hk] at hfresh
      cases hfresh
    · exact nomatch hn.symm.trans hnone
  · intro hlap
    rcases hk : routes.lookup (idAt taken) with - | c
    · rfl
    · rcases hr _ c hk with ⟨n, hn, heq, hlt⟩ | ⟨-, h0⟩
      · have hmod := (idAt_eq_iff taken n).1 heq
        exact absurd (by omega) (hlap _ c n hk hn)
      · exact absurd h0 (idAt_ne_zero taken)

theorem idAt_isOpStreamId (n : Nat) : IsOpStreamId (idAt n) := ⟨idAt_odd n, idAt_range n⟩

/-- The turn of call `c` of a Python connection. -/
def Python.turn {ε : Type} (s : Python.State ε) (c : Nat) : Option Nat :=
  s.calls[c]?.bind (fun call => if call.args.verb.isOp then some call.ordinal else none)

/-- The turn of task `c` of a Rust connection. -/
def Rust.turn {ε υ : Type} (s : Rust.State ε υ) (c : Nat) : Option Nat :=
  s.tasks[c]?.bind (fun task => if task.args.verb = .requestOnConnection then none else some task.ordinal)

/-- The turn of call `c` of a TypeScript connection. -/
def TypeScript.turn {ε υ : Type} (s : TypeScript.State ε υ) (c : Nat) : Option Nat :=
  s.calls[c]?.bind (fun call => if call.args.verb.isOp then some call.ordinal else none)

theorem Python.fresh_iff {ε : Type} {s : Python.State ε} (hs : Python.Inv s) :
    s.routes.lookup s.nextStreamId = none ↔ NotLapped s.taken s.routes (Python.turn s) := by
  rw [hs.counter]
  refine idAt_fresh_iff ?_
  intro k c hk
  obtain ⟨call, hc, hreg, rfl⟩ := hs.routed k c hk
  have hok := hs.ok c call hc
  have hpc : call.pc ≠ .starting := by
    intro hpc
    have := hok.placed.entered hreg
    rw [hpc] at this
    cases this
  cases hv : call.args.verb.isOp with
  | true =>
    obtain ⟨hid, hlt⟩ := hok.op hv hpc
    exact .inl ⟨call.ordinal, by simp [Python.turn, hc, hv], hid, hlt⟩
  | false => exact .inr ⟨by simp [Python.turn, hc, hv], (hok.conn hv).1⟩

theorem Rust.fresh_iff {ε υ : Type} {s : Rust.State ε υ} (hs : Rust.Inv s) :
    s.routes.lookup s.nextStreamId.toNat = none ↔ NotLapped s.taken s.routes (Rust.turn s) := by
  rw [hs.counter]
  refine idAt_fresh_iff ?_
  intro k c hk
  obtain ⟨task, hc, rfl, hent⟩ := hs.routed k c hk
  have hok := hs.ok c task hc
  by_cases hv : task.args.verb = .requestOnConnection
  · refine .inr ⟨by simp [Rust.turn, hc, hv], ?_⟩
    rw [(hok.conn hv).1]
    rfl
  · obtain ⟨hid, hlt⟩ := hok.op hv (Rust.pc_ne_starting_of_entered hent)
    exact .inl ⟨task.ordinal, by simp [Rust.turn, hc, hv], hid, hlt⟩

theorem TypeScript.fresh_iff {ε υ : Type} {s : TypeScript.State ε υ} (hs : TypeScript.Inv s) :
    s.routes.lookup s.nextStreamId = none ↔ NotLapped s.taken s.routes (TypeScript.turn s) := by
  rw [hs.counter]
  refine idAt_fresh_iff ?_
  intro k c hk
  obtain ⟨call, hc, rfl, hok⟩ := hs.routed k c hk
  cases hv : call.args.verb.isOp with
  | true =>
    obtain ⟨hid, hlt⟩ := hok.op hv
    exact .inl ⟨call.ordinal, by simp [TypeScript.turn, hc, hv], hid, hlt⟩
  | false => exact .inr ⟨by simp [TypeScript.turn, hc, hv], hok.conn hv⟩

/-- In every run of each mux, long enough for the counter to wrap or not: the id a call is handed is odd and in the range of a `u32`,
and it is the id of no route in the table exactly when no route was lapped. -/
theorem stream_id_fresh_iff {ε υ : Type} (m : Nat) :
    (∀ (Γ : Python.Ctx ε) (tr : List Python.Action) (s s' : Python.State ε) (c : Nat),
      (Python.mux Γ m).Runs tr s → Python.step Γ s (.takeStreamId c) = some s' →
      ∃ call, s'.calls[c]? = some call ∧ IsOpStreamId call.streamId ∧
        (s.routes.lookup call.streamId = none ↔ NotLapped s.taken s.routes (Python.turn s))) ∧
    (∀ (Γ : Rust.Ctx ε υ) (tr : List Rust.Action) (s s' : Rust.State ε υ) (c : Nat),
      (Rust.mux Γ m).Runs tr s → Rust.step Γ s (.allocStreamId c) = some s' →
      ∃ task, s'.tasks[c]? = some task ∧ IsOpStreamId task.streamId.toNat ∧
        (s.routes.lookup task.streamId.toNat = none ↔ NotLapped s.taken s.routes (Rust.turn s))) ∧
    (∀ (Γ : TypeScript.Ctx ε υ) (tr : List TypeScript.Action) (s s' : TypeScript.State ε υ)
      (args : TypeScript.Args), (TypeScript.mux Γ m).Runs tr s → TypeScript.step Γ s (.call args) = some s' →
      args.verb.isOp = true → s.closedError = none →
      ∃ call, s'.calls[s.calls.length]? = some call ∧ IsOpStreamId call.streamId ∧
        (s.routes.lookup call.streamId = none ↔ NotLapped s.taken s.routes (TypeScript.turn s))) := by
  refine ⟨?_, ?_, ?_⟩
  · intro Γ tr s s' c hr hst
    have hs := Python.inv_runs hr
    have h := Python.step_effect hst
    cases h with
    | take hc hpc =>
      refine ⟨_, getElem?_set_self_of_some hc _, ?_, Python.fresh_iff hs⟩
      dsimp only
      rw [hs.counter]
      exact idAt_isOpStreamId s.taken
    | move _ _ hm => cases hm
  · intro Γ tr s s' c hr hst
    have hs := Rust.inv_runs hr
    have h := Rust.step_effect hst
    cases h with
    | alloc hc hpc =>
      refine ⟨_, getElem?_set_self_of_some hc _, ?_, Rust.fresh_iff hs⟩
      dsimp only
      rw [hs.counter]
      exact idAt_isOpStreamId s.taken
    | move _ hm => cases hm
  · intro Γ tr s s' args hr hst hop hopen
    have hs := TypeScript.inv_runs hr
    have hsends : args.verb.sends = true := by
      cases hv : args.verb with
      | nextEvent target =>
        rw [hv] at hop
        cases hop
      | _ => rfl
    obtain ⟨args', hv', rfl⟩ := TypeScript.step_call_sends hst hsends
    have hop' : args'.verb.isOp = true := by
      rw [hv']
      exact hop
    obtain ⟨pc, out, -, heq⟩ := TypeScript.send_eq hopen args'
    refine ⟨_, by rw [heq, getElem?_concat, if_pos rfl], ?_, ?_⟩
    · rw [TypeScript.Call.begin, if_pos hop', hs.counter]
      exact idAt_isOpStreamId s.taken
    · rw [TypeScript.Call.begin, if_pos hop']
      exact TypeScript.fresh_iff hs

/-- A request with no payload. -/
def Python.emptyRequest : Python.Args := ⟨.request, 0x21, [], none⟩

/-- A subscription whose SUBSCRIBE frame is about to be written, on stream 1. -/
def Python.openRoute : List Python.Action :=
  [.start ⟨.subscribe, Wire.opSubscribeReq, [], none⟩, .takeStreamId 0, .register 0]

/-- The second id of a Python connection is fresh beside the route of the first, and so are the first ids of the other two. -/
theorem first_ids_fresh :
    (∃ (s : Python.State Unit) (call : Python.Call Unit),
      (Python.mux Python.Ctx.refusing Wire.maxPayloadBytes).Runs
        (Python.openRoute ++ [.start Python.emptyRequest]) s ∧
      IsOpStreamId call.streamId ∧
      (s.routes.lookup call.streamId = none ↔ NotLapped s.taken s.routes (Python.turn s))) ∧
    (∃ (s : Rust.State Unit Unit) (task : Rust.Task Unit Unit),
      (Rust.mux Rust.Ctx.refusing Wire.maxPayloadBytes).Runs [.start ⟨.request, 0x21, [], none⟩] s ∧
      IsOpStreamId task.streamId.toNat ∧
      (s.routes.lookup task.streamId.toNat = none ↔ NotLapped s.taken s.routes (Rust.turn s))) ∧
    (∃ (s : TypeScript.State Unit Unit) (call : TypeScript.Call Unit Unit),
      (TypeScript.mux TypeScript.Ctx.refusing Wire.maxPayloadBytes).Runs [] s ∧ IsOpStreamId call.streamId ∧
      (s.routes.lookup call.streamId = none ↔ NotLapped s.taken s.routes (TypeScript.turn s))) := by
  have h := stream_id_fresh_iff (ε := Unit) (υ := Unit) Wire.maxPayloadBytes
  refine ⟨?_, ?_, ?_⟩
  · obtain ⟨call, -, hid, hfresh⟩ := h.1 Python.Ctx.refusing
      (Python.openRoute ++ [Python.Action.start Python.emptyRequest]) _ _ 1 rfl rfl
    exact ⟨_, call, rfl, hid, hfresh⟩
  · obtain ⟨task, -, hid, hfresh⟩ := h.2.1 Rust.Ctx.refusing
      [Rust.Action.start ⟨.request, 0x21, [], none⟩] _ _ 0 rfl rfl
    exact ⟨_, task, rfl, hid, hfresh⟩
  · obtain ⟨call, -, hid, hfresh⟩ := h.2.2 TypeScript.Ctx.refusing [] _ _
      ⟨.request, 0x21, [], none⟩ rfl rfl rfl rfl
    exact ⟨_, call, rfl, hid, hfresh⟩

/-- Beginning a request and taking its id takes one id and leaves the table as it is. -/
theorem Python.take_one {s : Python.State Unit} {tr : List Python.Action}
    (hr : (Python.mux Python.Ctx.refusing Wire.maxPayloadBytes).Runs tr s) :
    ∃ (tr' : List Python.Action) (t t' : Python.State Unit) (c : Nat) (call : Python.Call Unit),
      (Python.mux Python.Ctx.refusing Wire.maxPayloadBytes).Runs tr' t ∧
      Python.step Python.Ctx.refusing t (.takeStreamId c) = some t' ∧ t'.calls[c]? = some call ∧
      call.streamId = s.nextStreamId ∧ t.routes = s.routes ∧ t'.taken = s.taken + 1 ∧ t'.routes = s.routes := by
  let begun : Python.Call Unit := Python.Call.begin Python.emptyRequest
  let named : Python.Call Unit := { begun with streamId := s.nextStreamId, ordinal := s.taken, pc := .registering }
  let t : Python.State Unit := { s with calls := s.calls ++ [begun] }
  have hbegun : t.calls[s.calls.length]? = some begun := by rw [getElem?_concat, if_pos rfl]
  have htake : Python.step Python.Ctx.refusing t (.takeStreamId s.calls.length) = some
      { t.setCall s.calls.length named with
        nextStreamId := Python.nextStreamIdAfter s.nextStreamId, taken := s.taken + 1 } := by
    simp only [Python.step, Python.State.onCall, hbegun, Option.bind_some]
    rfl
  have hnamed : (t.calls.set s.calls.length named)[s.calls.length]? = some named := by
    exact getElem?_set_self_of_some hbegun _
  exact ⟨tr ++ [.start Python.emptyRequest], t, _, s.calls.length, named, hr.snoc rfl, htake, hnamed, rfl, rfl, rfl, rfl⟩

/-- The route of the first subscription stays while ids are taken. -/
theorem Python.many_ids (j : Nat) : ∃ (tr : List Python.Action) (s : Python.State Unit),
    (Python.mux Python.Ctx.refusing Wire.maxPayloadBytes).Runs tr s ∧ s.taken = j + 1 ∧ s.routes.lookup 1 = some 0 := by
  induction j with
  | zero => exact ⟨Python.openRoute, _, rfl, rfl, rfl⟩
  | succ j ih =>
    obtain ⟨tr, s, hr, htaken, hroute⟩ := ih
    obtain ⟨tr', t, t', c, call, ht, hst, -, -, -, htaken', hroutes'⟩ := Python.take_one hr
    exact ⟨tr' ++ [.takeStreamId c], t', ht.snoc (a := Python.Action.takeStreamId c) hst, by omega, by rw [hroutes', hroute]⟩

/-- After `2 ^ 31` ids the counter is back at 1, which a call is handed while the first subscription is still open on it. -/
theorem wrapped_id_not_fresh :
    ¬∀ (tr : List Python.Action) (s s' : Python.State Unit) (c : Nat) (call : Python.Call Unit),
      (Python.mux Python.Ctx.refusing Wire.maxPayloadBytes).Runs tr s →
      Python.step Python.Ctx.refusing s (.takeStreamId c) = some s' → s'.calls[c]? = some call →
      s.routes.lookup call.streamId = none := by
  intro h
  obtain ⟨tr, s, hr, htaken, hroute⟩ := Python.many_ids (2 ^ 31 - 1)
  obtain ⟨tr', t, t', c, call, ht, hst, hc, hid, hroutes, -, -⟩ := Python.take_one hr
  have hone : s.nextStreamId = 1 := by
    rw [(Python.inv_runs hr).counter, htaken, idAt]
    omega
  have hfresh := h tr' t t' c call ht hst hc
  rw [hid, hone, hroutes, hroute] at hfresh
  cases hfresh

end BrainSdk
