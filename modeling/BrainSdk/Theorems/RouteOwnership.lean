import BrainSdk.Python.Ownership

/-!
# Who owns a route of the Python mux

A call that has registered its queue and not deregistered it owns the entry of its stream id. Two op calls never share an id while
fewer than `2 ^ 31` are taken, so the only calls that can get in each other's way are two `request_on_connection` calls, which share
stream 0.
-/

namespace BrainSdk.Python

open Library Wire

variable {ε : Type}

/-- Every registered call owns the entry of its stream id. -/
def Owned (s : State ε) : Prop :=
  ∀ (c : Nat) (call : Call ε), s.calls[c]? = some call → call.registered = true → s.routes.lookup call.streamId = some c

/-- No `request_on_connection` call registers on a live connection while another one is registered. -/
def Exclusive (s : State ε) (a : Action) : Prop :=
  ∀ (c : Nat) (call : Call ε), a = .register c → s.calls[c]? = some call → call.args.verb = .requestOnConnection →
    s.closedError = none → ∀ (d : Nat) (call' : Call ε), s.calls[d]? = some call' →
      call'.args.verb = .requestOnConnection → call'.registered = false

/-- A step that the condition allows keeps every registered call the owner of its entry. -/
theorem owned_step {Γ : Ctx ε} {s s' : State ε} {a : Action} (hs : Inv s) (hst : step Γ s a = some s')
    (hn : s'.taken < 2 ^ 31) (hx : Exclusive s a) (ho : s.closedError = none → Owned s) (hce' : s'.closedError = none) :
    Owned s' := by
  have h := step_effect hst
  have hle := h.taken_le
  obtain ⟨hce, -⟩ := h.closedError_none hce'
  intro c call' hc' hreg'
  refine h.owns_after hs hce' hc' hreg' (fun call hc => ho hce c call hc) ?_ ?_
  · intro d x call ha hxc hpx hc hreg hid
    have hpc := pc_ne_starting_of_entered ((hs.ok c call hc).placed.entered hreg)
    rcases hs.same_id (by omega) hc hxc hpc (by rw [hpx]; exact nofun) hid with rfl | ⟨hv, hv'⟩
    · rw [hc] at hxc
      cases hxc
      rw [hs.not_registered hc hpx] at hreg
      cases hreg
    · rw [hx d x ha hxc hv' hce c call hc hv] at hreg
      cases hreg
  · intro d x x' call _ hne hxc hl hc hreg hid
    have hpc := pc_ne_starting_of_entered ((hs.ok c call hc).placed.entered hreg)
    rcases hs.same_id (by omega) hc hxc hpc (pc_ne_starting_of_entered hl.keeps.2.2.2.2.2.1) hid with rfl | ⟨-, hv'⟩
    · exact hne rfl
    · -- the call that leaves stream 0 owns it as well, so it is the same call
      have hregx : x.registered = true := by
        have hplaced := (hs.ok d x hxc).placed
        cases hl with
        | leaving hpx =>
          simp only [Call.Placed, hpx] at hplaced
          exact hplaced
        | ending hpx | closing hpx =>
          simp only [Call.Placed, hpx] at hplaced
          rw [hv'] at hplaced
          cases hplaced.1
      have hownx := ho hce d x hxc hregx
      rw [← hid, ho hce c call hc hreg] at hownx
      cases hownx
      exact hne rfl

/-- A `request_on_connection` call that registers while another one is registered takes its entry. -/
theorem not_owned_of_not_exclusive {Γ : Ctx ε} {s s' : State ε} {a : Action} (hs : Inv s) (hst : step Γ s a = some s')
    (hx : ¬Exclusive s a) : ¬(s'.closedError = none → Owned s') := by
  intro ho
  unfold Exclusive at hx
  push Not at hx
  obtain ⟨c, call, rfl, hc, hv, hce, d, call', hd, hv', hreg⟩ := hx
  have hreg : call'.registered = true := by simpa using hreg
  cases step_effect hst with
  | refuse _ _ he =>
    rw [hce] at he
    cases he
  | @register _ x hx₀ hpx he =>
    rw [hc] at hx₀
    cases hx₀
    have hne : d ≠ c := by
      rintro rfl
      rw [hc] at hd
      cases hd
      rw [hs.not_registered hc hpx] at hreg
      cases hreg
    have hd' : (s.calls.set c { call with registered := true, pc := .writing })[d]? = some call' := by
      rw [getElem?_set_of_some hc, if_neg hne, hd]
    have hown := ho hce d call' hd' hreg
    have h0 : call.streamId = 0 := ((hs.ok c call hc).conn (isOp_eq_false.2 hv)).1
    have h0' : call'.streamId = 0 := ((hs.ok d call' hd).conn (isOp_eq_false.2 hv')).1
    simp only [Routes.lookup_insert_eq, h0, h0', if_pos] at hown
    cases hown
    exact hne rfl
  | move _ _ hm => cases hm

/-- In a run that takes fewer than `2 ^ 31` stream ids, every call owns the entry of its stream id from its registration to its
deregistration, until the connection fails, exactly when no `request_on_connection` call registers while another one is
registered. -/
theorem routes_owned_iff (Γ : Ctx ε) (m : Nat) {tr : List Action} {s : State ε} (hr : (mux Γ m).Runs tr s)
    (hn : s.taken < 2 ^ 31) :
    (mux Γ m).Throughout (fun _ s => s.closedError = none → Owned s) tr ↔ (mux Γ m).Meets Exclusive tr := by
  refine Machine.throughout_iff_meets (B := fun s => s.taken < 2 ^ 31) ?_ ?_ ?_ hr hn
  · intro s a s' hst hb
    have := (step_effect hst).taken_le
    omega
  · intro tr s hr hn hm
    refine Machine.Runs.rec_on_meets (C := Exclusive) (P := fun _ s => s.taken < 2 ^ 31 → s.closedError = none → Owned s)
      ?_ ?_ hr hm hn
    · intro _ _ c call hc
      simp [mux, State.init] at hc
    · intro tr s a s' hrun ih hx hst hn' hce'
      have hle := (step_effect hst).taken_le
      exact owned_step (inv_runs hrun) hst hn' hx (ih (by omega)) hce'
  · intro tr s a s' hrun _ hst _ hx
    exact not_owned_of_not_exclusive (inv_runs hrun) hst hx

/-- The arguments of `BrainClient.ping`. -/
def pingArgs : Args := ⟨.requestOnConnection, opPing, [], none⟩

/-- The arguments of a request beside it. -/
def requestArgs : Args := ⟨.request, 0x21, [], none⟩

/-- One `ping` and one request, each registered while the other is under way. -/
def pingBesideRequest : List Action := [.start pingArgs, .start requestArgs, .takeStreamId 1, .register 1, .register 0]

/-- Where no `request_on_connection` call is registered, any may be. -/
theorem exclusive_of_unregistered {s : State ε} (a : Action)
    (h : ∀ call ∈ s.calls, call.args.verb = .requestOnConnection → call.registered = false) : Exclusive s a :=
  fun _ _ _ _ _ _ _ call hd hv => h call (List.mem_of_getElem? hd) hv

/-- A `ping` and a request beside it own their entries. -/
theorem ping_and_request_owned :
    (mux Ctx.refusing maxPayloadBytes).Throughout (fun _ s => s.closedError = none → Owned s) pingBesideRequest := by
  have hrun : ∃ s, (mux Ctx.refusing maxPayloadBytes).Runs pingBesideRequest s ∧ s.taken < 2 ^ 31 := ⟨_, rfl, by decide⟩
  obtain ⟨s, hr, hn⟩ := hrun
  refine (routes_owned_iff Ctx.refusing maxPayloadBytes hr hn).2 ?_
  have hnil := Machine.meets_nil (M := mux Ctx.refusing maxPayloadBytes) Exclusive
  have hping := hnil.snoc (a := .start pingArgs) rfl (exclusive_of_unregistered _ (by decide))
  have hrequest := hping.snoc (a := .start requestArgs) rfl (exclusive_of_unregistered _ (by decide))
  have htake := hrequest.snoc (a := .takeStreamId 1) rfl (exclusive_of_unregistered _ (by decide))
  have hregister := htake.snoc (a := .register 1) rfl (exclusive_of_unregistered _ (by decide))
  exact hregister.snoc rfl (exclusive_of_unregistered _ (by decide))

/-- Two threads call `ping`, and both register before either has its answer. -/
def twoPings : List Action := [.start pingArgs, .start pingArgs, .register 0, .register 1]

/-- Two `ping` calls at once: the second takes the entry of the first, which is still registered. -/
theorem two_pings_not_owned :
    ¬∀ (tr : List Action) (s : State Unit), (mux Ctx.refusing maxPayloadBytes).Runs tr s → s.taken < 2 ^ 31 →
      s.closedError = none → Owned s := by
  intro h
  have hown := h twoPings _ rfl (by decide) rfl 0 _ rfl rfl
  revert hown
  decide

end BrainSdk.Python
