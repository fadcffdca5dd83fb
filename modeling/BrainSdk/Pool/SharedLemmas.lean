import BrainSdk.Pool.LockedLemmas
import BrainSdk.Pool.Shared

/-!
# What a step of the TypeScript pool can do, and what always holds of one

An attempt that is not over is the one whose promise its slot holds, and the client of that slot is closed.
-/

namespace BrainSdk.TypeScript.Pool

open Library BrainSdk.Pool

/-- What each action needs of the state, and the state it leaves. -/
inductive Effect (s : State) : Action → State → Prop
  | give {i c : Nat} (hi : s.next % s.clients.length = i) (hc : s.clients[i]? = some c) :
      Effect s .getHealthy { s with next := State.bump s.next, calls := s.calls ++ [.returned i c] }
  | share {i a : Nat} (hi : s.next % s.clients.length = i) (ha : s.reconnecting[i]? = some (some a)) :
      Effect s .getHealthy { s with next := State.bump s.next, calls := s.calls ++ [.awaiting i a] }
  | start {i c : Nat} (hi : s.next % s.clients.length = i) (hc : s.clients[i]? = some c) (hclosed : s.isClosed c = true)
      (hr : s.reconnecting[i]? = some none) :
      Effect s .getHealthy
        { s with
          next := State.bump s.next
          attempts := s.attempts ++ [.dialling i]
          reconnecting := s.reconnecting.set i (some s.attempts.length)
          calls := s.calls ++ [.awaiting i s.attempts.length] }
  | dialOk {a i : Nat} (ha : s.attempts[a]? = some (.dialling i)) :
      Effect s (.dialOk a) { s with conns := s.conns ++ [Conn.fresh], attempts := s.attempts.set a (.dialled i s.conns.length) }
  | dialFail {a i : Nat} (ha : s.attempts[a]? = some (.dialling i)) :
      Effect s (.dialFail a) { s with attempts := s.attempts.set a (.refused i) }
  | fulfil {a i c : Nat} (ha : s.attempts[a]? = some (.dialled i c)) :
      Effect s (.resume a)
        { s with
          clients := s.clients.set i c
          reconnecting := s.reconnecting.set i none
          attempts := s.attempts.set a (.fulfilled i c) }
  | reject {a i : Nat} (ha : s.attempts[a]? = some (.refused i)) :
      Effect s (.resume a) { s with reconnecting := s.reconnecting.set i none, attempts := s.attempts.set a (.rejected i) }
  | deliverOk {k a i j c : Nat} (hk : s.calls[k]? = some (.awaiting i a)) (ha : s.attempts[a]? = some (.fulfilled j c)) :
      Effect s (.deliver k) { s with calls := s.calls.set k (.returned i c) }
  | deliverFail {k a i j : Nat} (hk : s.calls[k]? = some (.awaiting i a)) (ha : s.attempts[a]? = some (.rejected j)) :
      Effect s (.deliver k) { s with calls := s.calls.set k (.raised i) }
  | die (c : Nat) : Effect s (.die c) { s with conns := s.conns.modify c (fun conn => { conn with closed := true }) }
  | close (h : s.closeCalled = false) :
      Effect s .close
        { s with closeCalled := true, conns := updateAll (fun conn => { conn with closeCalled := true }) s.clients s.conns }

theorem getHealthy_effect {s s' : State} (h : s.getHealthy = some s') : Effect s .getHealthy s' := by
  unfold State.getHealthy at h
  split at h
  · cases h
  · dsimp only at h
    split at h
    · rename_i c inFlight hc hr
      split at h
      · rename_i hclosed
        cases inFlight with
        | some a =>
          cases h
          exact .share rfl hr
        | none =>
          cases h
          exact .start rfl hc hclosed hr
      · cases h
        exact .give rfl hc
    · cases h

theorem step_effect {s s' : State} {a : Action} (h : s.step a = some s') : Effect s a s' := by
  cases a with
  | getHealthy => exact getHealthy_effect h
  | dialOk a =>
    simp only [State.step] at h
    split at h
    · rename_i i ha
      cases h
      exact .dialOk ha
    · cases h
  | dialFail a =>
    simp only [State.step] at h
    split at h
    · rename_i i ha
      cases h
      exact .dialFail ha
    · cases h
  | resume a =>
    simp only [State.step, State.resume] at h
    split at h
    · rename_i i c ha
      cases h
      exact .fulfil ha
    · rename_i i ha
      cases h
      exact .reject ha
    · cases h
  | deliver k =>
    simp only [State.step, State.deliver] at h
    split at h
    · rename_i i a hk
      split at h
      · rename_i j c ha
        cases h
        exact .deliverOk hk ha
      · rename_i j ha
        cases h
        exact .deliverFail hk ha
      · cases h
    · cases h
  | die c =>
    cases h
    exact .die c
  | close =>
    simp only [State.step] at h
    split at h
    · cases h
    · rename_i hcc
      cases h
      exact .close (Bool.not_eq_true _ ▸ hcc)

/-- A client that is closed stays closed. -/
theorem Effect.isClosed {s s' : State} {a : Action} (h : Effect s a s') {c : Nat} (hc : s.isClosed c = true) :
    s'.isClosed c = true := by
  cases h with
  | dialOk ha => exact any_append hc _
  | die d => exact any_modify (fun _ _ => rfl) hc d
  | close => exact any_updateAll (f := fun conn => { conn with closeCalled := true }) (fun _ hclosed => hclosed) _ hc
  | _ => exact hc

/-! ### Attempts -/

/-- The slot of an attempt that has not gone on after its dial. -/
def Attempt.activeAt : Attempt → Option Nat
  | .dialling i | .dialled i _ | .refused i => some i
  | .fulfilled _ _ | .rejected _ => none

/-- An attempt has not gone on after its dial. -/
def Active (s : State) (a i : Nat) : Prop := (s.attempts[a]?).bind Attempt.activeAt = some i

theorem active_of_some {s : State} {a i : Nat} {attempt : Attempt} (ha : s.attempts[a]? = some attempt) :
    Active s a i ↔ attempt.activeAt = some i := by
  unfold Active
  rw [ha]
  rfl

/-- An attempt is active at one slot. -/
theorem Active.unique {s : State} {a i j : Nat} (h : Active s a i) (h' : Active s a j) : i = j := Option.some.inj (h.symm.trans h')

/-- What a step does to the active attempts, the promises and the slots. -/
inductive Turn (s s' : State) : Prop
  | same (hactive : ∀ a i, Active s' a i ↔ Active s a i) (hclients : s'.clients = s.clients)
      (hreconnecting : s'.reconnecting = s.reconnecting)
  | start (b j : Nat) (hfree : s.reconnecting[j]? = some none) (hstale : ∃ c, s.clients[j]? = some c ∧ s.isClosed c = true)
      (hnew : s.attempts[b]? = none) (hactive : ∀ a i, Active s' a i ↔ Active s a i ∨ (a = b ∧ i = j))
      (hclients : s'.clients = s.clients) (hreconnecting : s'.reconnecting = s.reconnecting.set j (some b))
      (hcalls : s'.calls = s.calls ++ [.awaiting j b])
  | finish (b j : Nat) (hb : Active s b j) (hactive : ∀ a i, Active s' a i ↔ Active s a i ∧ a ≠ b)
      (hclients : s'.clients = s.clients ∨ ∃ c, s.attempts[b]? = some (.dialled j c) ∧ s'.clients = s.clients.set j c)
      (hreconnecting : s'.reconnecting = s.reconnecting.set j none)

theorem Effect.turn {s s' : State} {a : Action} (h : Effect s a s') : Turn s s' := by
  -- an attempt that goes on and stays active where it was
  have hstay : ∀ {b : Nat} {old new : Attempt}, s.attempts[b]? = some old → new.activeAt = old.activeAt → ∀ a i,
      ((s.attempts.set b new)[a]?).bind Attempt.activeAt = some i ↔ Active s a i := by
    intro b old new hb hsame a i
    rw [getElem?_set_of_some hb]
    by_cases hab : a = b
    · subst hab
      rw [if_pos rfl, active_of_some hb, ← hsame]
      rfl
    · rw [if_neg hab]
      exact Iff.rfl
  -- an attempt that is over
  have hover : ∀ {b : Nat} {old new : Attempt}, s.attempts[b]? = some old → new.activeAt = none → ∀ a i,
      ((s.attempts.set b new)[a]?).bind Attempt.activeAt = some i ↔ Active s a i ∧ a ≠ b := by
    intro b old new hb hnone a i
    rw [getElem?_set_of_some hb]
    by_cases hab : a = b
    · rw [if_pos hab, Option.bind_some, hnone]
      exact ⟨nofun, fun h => absurd hab h.2⟩
    · rw [if_neg hab]
      exact ⟨fun h => ⟨h, hab⟩, fun h => h.1⟩
  cases h with
  | @start i c hi hc hclosed hr =>
    have hnew : s.attempts[s.attempts.length]? = none := List.getElem?_eq_none (Nat.le_refl _)
    refine .start s.attempts.length i hr ⟨c, hc, hclosed⟩ hnew (fun a j => ?_) rfl rfl rfl
    show ((s.attempts ++ [Attempt.dialling i])[a]?).bind Attempt.activeAt = some j ↔ _
    rw [getElem?_concat]
    by_cases ha : a = s.attempts.length
    · subst ha
      rw [if_pos rfl]
      unfold Active
      rw [hnew]
      exact ⟨fun h => .inr ⟨rfl, (Option.some.inj h).symm⟩, fun h => h.elim nofun fun h => h.2 ▸ rfl⟩
    · rw [if_neg ha]
      exact ⟨.inl, fun h => h.elim (fun h => h) fun h => absurd h.1 ha⟩
  | dialOk ha => exact .same (hstay ha rfl) rfl rfl
  | dialFail ha => exact .same (hstay ha rfl) rfl rfl
  | @fulfil b j c ha => exact .finish b j ((active_of_some ha).2 rfl) (hover ha rfl) (.inr ⟨c, ha, rfl⟩) rfl
  | @reject b j ha => exact .finish b j ((active_of_some ha).2 rfl) (hover ha rfl) (.inl rfl) rfl
  | _ => exact .same (fun _ _ => Iff.rfl) rfl rfl

/-- What always holds of the pool: the promise of a slot is that of its active attempt, and while there is one the client of the slot is
closed. -/
structure Inv (s : State) : Prop where
  promise : ∀ a i : Nat, s.reconnecting[i]? = some (some a) ↔ Active s a i
  stale : ∀ a i, Active s a i → ∃ c, s.clients[i]? = some c ∧ s.isClosed c = true

theorem Inv.step {s s' : State} {a : Action} (hi : Inv s) (h : Effect s a s') : Inv s' := by
  have hclosed : ∀ {i : Nat}, (∃ c, s.clients[i]? = some c ∧ s.isClosed c = true) → s'.clients[i]? = s.clients[i]? →
      ∃ c, s'.clients[i]? = some c ∧ s'.isClosed c = true := by
    rintro i ⟨c, hc, hcl⟩ heq
    exact ⟨c, heq.trans hc, h.isClosed hcl⟩
  cases h.turn with
  | same hactive hclients hreconnecting =>
    refine ⟨fun b i => ?_, fun b i hb => hclosed (hi.stale b i ((hactive b i).1 hb)) (by rw [hclients])⟩
    rw [hreconnecting, hactive]
    exact hi.promise b i
  | start b j hfree hstale hnew hactive hclients hreconnecting _ =>
    have hb : ∀ i, ¬Active s b i := fun i h => by simp [Active, hnew] at h
    constructor
    · intro b' i
      rw [hreconnecting, hactive, getElem?_set_of_some hfree]
      by_cases hij : i = j
      · subst hij
        rw [if_pos rfl, ← hi.promise b' i, hfree]
        exact ⟨fun h => .inr ⟨(Option.some.inj (Option.some.inj h)).symm, rfl⟩, fun h => h.elim nofun fun h => h.1 ▸ rfl⟩
      · rw [if_neg hij, hi.promise b' i]
        exact ⟨.inl, fun h => h.elim (fun h => h) fun h => absurd h.2 hij⟩
    · intro b' i hb'
      rcases (hactive b' i).1 hb' with h | ⟨-, rfl⟩
      · exact hclosed (hi.stale b' i h) (by rw [hclients])
      · exact hclosed hstale (by rw [hclients])
  | finish b j hb hactive hclients hreconnecting =>
    have hpromise := (hi.promise b j).2 hb
    constructor
    · intro b' i
      rw [hreconnecting, hactive, getElem?_set_of_some hpromise]
      by_cases hij : i = j
      · subst hij
        rw [if_pos rfl]
        refine ⟨nofun, fun h => absurd ?_ h.2⟩
        exact Option.some.inj (Option.some.inj (((hi.promise b' i).2 h.1).symm.trans hpromise))
      · rw [if_neg hij, hi.promise b' i]
        refine ⟨fun h => ⟨h, ?_⟩, fun h => h.1⟩
        rintro rfl
        exact hij (h.unique hb)
    · intro b' i hb'
      obtain ⟨hb', hne⟩ := (hactive b' i).1 hb'
      have hij : i ≠ j := by
        rintro rfl
        exact hne (Option.some.inj (Option.some.inj (((hi.promise b' i).2 hb').symm.trans hpromise)))
      refine hclosed (hi.stale b' i hb') ?_
      rcases hclients with h | ⟨c, -, h⟩
      · rw [h]
      · rw [h, List.getElem?_set_ne hij.symm]

theorem inv_runs {size : Nat} {tr : List Action} {s : State} (hr : (machine size).Runs tr s) : Inv s := by
  refine Machine.Runs.invariant (P := Inv) ⟨fun a i => ?_, fun a i h => ?_⟩ (fun _ _ _ hi hs => hi.step (step_effect hs)) hr
  · simp [Active, machine, State.init, List.getElem?_replicate]
  · simp [Active, machine, State.init] at h

end BrainSdk.TypeScript.Pool
