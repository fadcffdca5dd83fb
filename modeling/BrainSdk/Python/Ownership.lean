import BrainSdk.Python.Invariant

/-!
# What keeps a route of the Python mux in place

A registered call keeps the entry of its stream id through every step but its own `_deregister`, the failure of the connection, and a
`_register` or `_deregister` of another call under the same id. While fewer than `2 ^ 31` ids are taken no two op calls share one,
so an op call keeps its entry in every run.
-/

namespace BrainSdk.Python

open Library Wire

variable {ε : Type}

theorem isOp_eq_false {v : Verb} : v.isOp = false ↔ v = .requestOnConnection := by
  cases v <;> simp [Verb.isOp]

theorem pc_ne_starting_of_entered {pc : Pc ε} (h : pc.entered = true) : pc ≠ .starting := by
  rintro rfl
  cases h

/-- Two calls with one stream id are one call, or both are `request_on_connection` calls. -/
theorem Inv.same_id {s : State ε} (hs : Inv s) (hn : s.taken ≤ 2 ^ 31) {c d : Nat} {x y : Call ε} (hx : s.calls[c]? = some x)
    (hy : s.calls[d]? = some y) (hpx : x.pc ≠ .starting) (hpy : y.pc ≠ .starting) (hid : x.streamId = y.streamId) :
    c = d ∨ (x.args.verb = .requestOnConnection ∧ y.args.verb = .requestOnConnection) := by
  have hokx := hs.ok c x hx
  have hoky := hs.ok d y hy
  cases hvx : x.args.verb.isOp with
  | false =>
    have h0 := (hokx.conn hvx).1
    cases hvy : y.args.verb.isOp with
    | false => exact .inr ⟨isOp_eq_false.1 hvx, isOp_eq_false.1 hvy⟩
    | true =>
      have h1 := (hoky.op hvy hpy).1
      exact absurd (h1.symm.trans (hid.symm.trans h0)) (idAt_ne_zero _)
  | true =>
    obtain ⟨h1, hlt⟩ := hokx.op hvx hpx
    cases hvy : y.args.verb.isOp with
    | false =>
      have h0 := (hoky.conn hvy).1
      exact absurd (h1.symm.trans (hid.trans h0)) (idAt_ne_zero _)
    | true =>
      obtain ⟨h2, hlt'⟩ := hoky.op hvy hpy
      have hord : x.ordinal = y.ordinal := idAt_inj (by omega) (by omega) (h1.symm.trans (hid.trans h2))
      exact .inl (hs.ordinals c d x y hx hy hvx hvy hpx hpy hord)

/-- A connection that has not failed after a step had not failed before it. -/
theorem Effect.closedError_none {Γ : Ctx ε} {s s' : State ε} {a : Action} (h : Effect Γ s a s') (hce : s'.closedError = none) :
    s.closedError = none ∧ a ≠ .failAll := by
  cases h with
  | failAll _ => cases hs : s.closedError <;> simp [hs] at hce
  | move _ _ hm =>
    refine ⟨hce, ?_⟩
    rintro rfl
    cases hm
  | _ => exact ⟨hce, nofun⟩

/-- A registered call after a step is the one the step registered, or it was registered before it under the same id. -/
theorem Effect.registered_before {Γ : Ctx ε} {s s' : State ε} {a : Action} (h : Effect Γ s a s') (hs : Inv s) {c : Nat}
    {call' : Call ε} (hc' : s'.calls[c]? = some call') (hreg' : call'.registered = true) :
    a = .register c ∨ (a ≠ .deregister c ∧ ∃ call, s.calls[c]? = some call ∧ call.registered = true ∧
      call.streamId = call'.streamId ∧ call.pc ≠ .starting) := by
  rcases h.call_before hs hc' with ⟨call, hc, hch⟩ | ⟨args, -, -, rfl⟩
  · by_cases hr : a = .register c
    · exact .inl hr
    · have hd : a ≠ .deregister c := by
        rintro rfl
        cases hch with
        | same hcaller _ _ => exact hcaller rfl
        | move hm => cases hm
        | leave hl =>
          rw [hl.keeps.2.2.2.1] at hreg'
          cases hreg'
      have hreg : call.registered = true := (hch.registered hr hd).symm.trans hreg'
      have hpc := pc_ne_starting_of_entered ((hs.ok c call hc).placed.entered hreg)
      exact .inr ⟨hd, call, hc, hreg, (hch.keeps.2.1 hpc).1.symm, hpc⟩
  · cases hreg'

/-- A registered call keeps its entry when the step is no `_register` or `_deregister` of another call under its id. -/
theorem Effect.owns_after {Γ : Ctx ε} {s s' : State ε} {a : Action} (h : Effect Γ s a s') (hs : Inv s)
    (hce' : s'.closedError = none) {c : Nat} {call' : Call ε} (hc' : s'.calls[c]? = some call')
    (hreg' : call'.registered = true)
    (hown : ∀ call, s.calls[c]? = some call → call.registered = true → s.routes.lookup call.streamId = some c)
    (hreg : ∀ d x call, a = .register d → s.calls[d]? = some x → x.pc = .registering → s.calls[c]? = some call →
      call.registered = true → call.streamId ≠ x.streamId)
    (hder : ∀ d x x' call, a = .deregister d → d ≠ c → s.calls[d]? = some x → Leave x x' → s.calls[c]? = some call →
      call.registered = true → call.streamId ≠ x.streamId) :
    s'.routes.lookup call'.streamId = some c := by
  obtain ⟨hce, hfail⟩ := h.closedError_none hce'
  rcases h.registered_before hs hc' hreg' with rfl | ⟨hd, call, hc, hr, hid, hpc⟩
  · cases h with
    | refuse _ _ he =>
      rw [hce] at he
      cases he
    | @register _ call hc hpc he =>
      simp only [State.setCall, getElem?_set_of_some hc, if_pos] at hc'
      cases hc'
      simp only [Routes.lookup_insert_eq, if_pos]
    | move _ _ hm => cases hm
  · rw [← hid]
    have hold := hown call hc hr
    cases h with
    | @register d x hx hpx he =>
      simp only [Routes.lookup_insert_eq]
      rw [if_neg (hreg d x call rfl hx hpx hc hr), hold]
    | @deregister d x x' hx hl =>
      have hne : d ≠ c := by
        rintro rfl
        exact hd rfl
      simp only [Routes.lookup_erase_eq]
      rw [if_neg (hder d x x' call rfl hne hx hl hc hr), hold]
    | failAll _ => exact absurd rfl hfail
    | _ => exact hold

/-- A call about to register is not registered. -/
theorem Inv.not_registered {s : State ε} (hs : Inv s) {c : Nat} {call : Call ε} (hc : s.calls[c]? = some call)
    (hpc : call.pc = .registering) : call.registered = false := by
  have hplaced := (hs.ok c call hc).placed
  simp only [Call.Placed, hpc] at hplaced
  exact hplaced.1

/-- Every registered op call owns the entry of its stream id. -/
def OwnedOp (s : State ε) : Prop :=
  ∀ (c : Nat) (call : Call ε), s.calls[c]? = some call → call.args.verb.isOp = true → call.registered = true →
    s.routes.lookup call.streamId = some c

theorem ownedOp_step {Γ : Ctx ε} {s s' : State ε} {a : Action} (hs : Inv s) (hst : step Γ s a = some s')
    (hn : s'.taken < 2 ^ 31) (ho : s.closedError = none → OwnedOp s) (hce' : s'.closedError = none) : OwnedOp s' := by
  have h := step_effect hst
  have hle := h.taken_le
  obtain ⟨hce, -⟩ := h.closedError_none hce'
  intro c call' hc' hv' hreg'
  have hop : ∀ call, s.calls[c]? = some call → call.args.verb.isOp = true := by
    intro call hc
    obtain ⟨x, hx, hch⟩ := h.call_after hs hc
    rw [hc'] at hx
    cases hx
    rw [← hch.keeps.1]
    exact hv'
  have hnot : ∀ call, s.calls[c]? = some call → call.args.verb ≠ .requestOnConnection := by
    intro call hc hv
    have := hop call hc
    rw [hv] at this
    cases this
  refine h.owns_after hs hce' hc' hreg' (fun call hc => ho hce c call hc (hop call hc)) ?_ ?_
  · intro d x call _ hx hpx hc hreg hid
    have hpc := pc_ne_starting_of_entered ((hs.ok c call hc).placed.entered hreg)
    rcases hs.same_id (by omega) hc hx hpc (by rw [hpx]; exact nofun) hid with rfl | ⟨hv, -⟩
    · rw [hc] at hx
      cases hx
      rw [hs.not_registered hc hpx] at hreg
      cases hreg
    · exact hnot call hc hv
  · intro d x x' call _ hne hx hl hc hreg hid
    have hpc := pc_ne_starting_of_entered ((hs.ok c call hc).placed.entered hreg)
    rcases hs.same_id (by omega) hc hx hpc (pc_ne_starting_of_entered hl.keeps.2.2.2.2.2.1) hid with rfl | ⟨hv, -⟩
    · exact hne rfl
    · exact hnot call hc hv

/-- In a run that takes fewer than `2 ^ 31` ids, every op call owns its entry until the connection fails. -/
theorem ownedOp_runs {Γ : Ctx ε} {m : Nat} {tr : List Action} {s : State ε} (hr : (mux Γ m).Runs tr s) (hn : s.taken < 2 ^ 31)
    (hce : s.closedError = none) : OwnedOp s := by
  refine Machine.Runs.rec_on (P := fun _ s => s.taken < 2 ^ 31 → s.closedError = none → OwnedOp s) ?_ ?_ hr hn hce
  · intro _ _ c call hc
    simp [mux, State.init] at hc
  · intro tr s a s' hrun ih hst hn' hce'
    have hle := (step_effect hst).taken_le
    exact ownedOp_step (inv_runs hrun) hst hn' (ih (by omega)) hce'

end BrainSdk.Python
