import BrainSdk.Pool.Locked
import BrainSdk.Library.SingleFlight

/-!
# What a step of a locked pool can do, and what always holds of one

A call that holds the lock of a slot is the only one that changes the slot, so what it has seen there stays true until it gives the lock
back.
-/

namespace BrainSdk.Pool

open Library

/-- What each action needs of the state, and the state it leaves. -/
inductive Effect (P : Kind) (s : State) : Action → State → Prop
  | begin (hne : s.clients ≠ []) :
      Effect P s .begin
        { s with counter := P.bump s.counter, calls := s.calls ++ [.entered (s.counter % s.clients.length)] }
  | look {k i c : Nat} (hk : s.calls[k]? = some (.entered i)) (hc : s.clients[i]? = some c) :
      Effect P s (.advance k) (s.setCall k (.looked i c))
  | give {k i c : Nat} (hk : s.calls[k]? = some (.looked i c)) : Effect P s (.advance k) (s.setCall k (.returned i c))
  | wait {k i c : Nat} (hk : s.calls[k]? = some (.looked i c)) (hP : P.hasTarget = true) :
      Effect P s (.advance k) (s.setCall k (.waiting i))
  | acquire {k i : Nat} (hk : s.calls[k]? = some (.waiting i)) (hl : s.locks[i]? = some none) :
      Effect P s (.advance k) ((s.acquire i k).setCall k (.locked i))
  | relook {k i c : Nat} (hk : s.calls[k]? = some (.locked i)) (hc : s.clients[i]? = some c) :
      Effect P s (.advance k) (s.setCall k (.rechecking i c))
  | dial {k i c : Nat} (hk : s.calls[k]? = some (.rechecking i c)) (hc : s.isClosed c = true) :
      Effect P s (.advance k) (s.setCall k (.dialling i))
  | giveLocked {k i c : Nat} (hk : s.calls[k]? = some (.rechecking i c)) :
      Effect P s (.advance k) ((s.release i).setCall k (.returned i c))
  | install {k i c : Nat} (hk : s.calls[k]? = some (.dialled i c)) :
      Effect P s (.advance k) (({ s with clients := s.clients.set i c }.release i).setCall k (.returned i c))
  | dialOk {k i : Nat} (hk : s.calls[k]? = some (.dialling i)) :
      Effect P s (.dialOk k) ({ s with conns := s.conns ++ [Conn.fresh] }.setCall k (.dialled i s.conns.length))
  | dialFail {k i : Nat} {a : Action} (hk : s.calls[k]? = some (.dialling i)) :
      Effect P s a ((s.release i).setCall k (.raised i))
  | quit {k i : Nat} (hk : s.calls[k]? = some (.waiting i)) : Effect P s (.cancel k) (s.setCall k (.raised i))
  | die (c : Nat) : Effect P s (.die c) { s with conns := s.conns.modify c (fun conn => { conn with closed := true }) }
  | close {closer : Closer} : Effect P s .close { s with closer := closer }
  | closeClient {c : Nat} {closer : Closer} : Effect P s .close { s.closeClient c with closer := closer }

theorem advance_effect {P : Kind} {s s' : State} {k : Nat} {pc : Pc} (hk : s.calls[k]? = some pc)
    (h : s.advance P k pc = some s') : Effect P s (.advance k) s' := by
  unfold State.advance at h
  split at h
  · obtain ⟨c, hc, rfl⟩ := Option.map_eq_some_iff.1 h
    exact .look hk hc
  · split at h
    · split at h
      · rename_i hP
        cases h
        exact .wait hk hP
      · cases h
        exact .give hk
    · cases h
      exact .give hk
  · split at h
    · rename_i hl
      cases h
      exact .acquire hk hl
    · cases h
  · obtain ⟨c, hc, rfl⟩ := Option.map_eq_some_iff.1 h
    exact .relook hk hc
  · split at h
    · rename_i hc
      cases h
      exact .dial hk hc
    · cases h
      exact .giveLocked hk
  · cases h
    exact .install hk
  · cases h
  · cases h
  · cases h

theorem close_effect {P : Kind} {s s' : State} (h : s.close P = some s') : Effect P s .close s' := by
  unfold State.close at h
  split at h
  · cases h
    exact .close
  · split at h
    · cases h
      exact .closeClient
    · cases h
      exact .close
  · cases h
    exact .close
  · cases h
    exact .closeClient
  · cases h
    exact .close
  · cases h

theorem step_effect {P : Kind} {s s' : State} {a : Action} (h : s.step P a = some s') : Effect P s a s' := by
  cases a with
  | begin =>
    simp only [State.step] at h
    split at h
    · cases h
    · rename_i hne
      cases h
      exact .begin hne
  | advance k =>
    obtain ⟨pc, hk, hpc⟩ := Option.bind_eq_some_iff.1 h
    exact advance_effect hk hpc
  | dialOk k =>
    simp only [State.step] at h
    split at h
    · rename_i i hk
      cases h
      exact .dialOk hk
    · cases h
  | dialFail k =>
    simp only [State.step] at h
    split at h
    · rename_i i hk
      cases h
      exact .dialFail hk
    · cases h
  | cancel k =>
    simp only [State.step] at h
    split at h
    · split at h
      · rename_i i hk
        cases h
        exact .quit hk
      · rename_i i hk
        cases h
        exact .dialFail hk
      · cases h
    · cases h
  | die c =>
    cases h
    exact .die c
  | close => exact close_effect h

/-! ### Clients -/

/-- A client that is closed stays closed. -/
theorem Effect.isClosed {P : Kind} {s s' : State} {a : Action} (h : Effect P s a s') {c : Nat} (hc : s.isClosed c = true) :
    s'.isClosed c = true := by
  cases h with
  | dialOk hk => exact any_append hc _
  | die d => exact any_modify (fun _ _ => rfl) hc d
  | closeClient => exact any_modify (f := fun conn => { conn with closeCalled := true }) (fun _ hclosed => hclosed) hc _
  | _ => exact hc

/-! ### Calls -/

/-- How a call came to be where it is, in the step that took it there. -/
def Became (s s' : State) (k : Nat) : Pc → Prop
  | .entered _ => s.calls[k]? = none
  | .looked i c => s.calls[k]? = some (.entered i) ∧ s.clients[i]? = some c
  | .waiting i => ∃ c, s.calls[k]? = some (.looked i c)
  | .locked i => s.calls[k]? = some (.waiting i)
  | .rechecking i c => s.calls[k]? = some (.locked i) ∧ s.clients[i]? = some c
  | .dialling i => ∃ c, s.calls[k]? = some (.rechecking i c) ∧ s.isClosed c = true
  | .dialled i c => s.calls[k]? = some (.dialling i) ∧ c < s'.conns.length
  | .returned i c =>
    s.calls[k]? = some (.looked i c) ∨ s.calls[k]? = some (.rechecking i c) ∨
      (s.calls[k]? = some (.dialled i c) ∧ s'.clients = s.clients.set i c)
  | .raised i =>
    s.calls[k]? = some (.waiting i) ∨
      (s.calls[k]? = some (.dialling i) ∧ s'.clients = s.clients ∧ s'.locks = s.locks.set i none)

/-- A step leaves a call where it was, or takes it on. -/
theorem Effect.call {P : Kind} {s s' : State} {a : Action} (h : Effect P s a s') {k : Nat} {pc : Pc} (hk : s'.calls[k]? = some pc) :
    s.calls[k]? = some pc ∨ Became s s' k pc := by
  -- a step that sets one call to `pc'`
  have hset : ∀ {j : Nat} {old pc' : Pc}, s.calls[j]? = some old → (s.calls.set j pc')[k]? = some pc → Became s s' j pc' →
      s.calls[k]? = some pc ∨ Became s s' k pc := by
    intro j old pc' hold hk hb
    rw [getElem?_set_of_some hold] at hk
    by_cases hkj : k = j
    · rw [if_pos hkj] at hk
      cases hk
      exact .inr (hkj ▸ hb)
    · rw [if_neg hkj] at hk
      exact .inl hk
  cases h with
  | begin hne =>
    have hk' : (s.calls ++ [Pc.entered (s.counter % s.clients.length)])[k]? = some pc := hk
    rw [getElem?_concat] at hk'
    by_cases hlast : k = s.calls.length
    · rw [if_pos hlast] at hk'
      cases hk'
      exact .inr (List.getElem?_eq_none (Nat.le_of_eq hlast.symm))
    · rw [if_neg hlast] at hk'
      exact .inl hk'
  | look hj hc => exact hset hj hk ⟨hj, hc⟩
  | give hj => exact hset hj hk (.inl hj)
  | wait hj hP => exact hset hj hk ⟨_, hj⟩
  | acquire hj hl => exact hset hj hk hj
  | relook hj hc => exact hset hj hk ⟨hj, hc⟩
  | dial hj hc => exact hset hj hk ⟨_, hj, hc⟩
  | giveLocked hj => exact hset hj hk (.inr (.inl hj))
  | install hj => exact hset hj hk (.inr (.inr ⟨hj, rfl⟩))
  | dialOk hj => exact hset hj hk ⟨hj, by simp [State.setCall]⟩
  | dialFail hj => exact hset hj hk (.inr ⟨hj, rfl, rfl⟩)
  | quit hj => exact hset hj hk (.inl hj)
  | die c => exact .inl hk
  | close => exact .inl hk
  | closeClient => exact .inl hk

/-- A call that has begun is always somewhere. -/
theorem Effect.length_le {P : Kind} {s s' : State} {a : Action} (h : Effect P s a s') : s.calls.length ≤ s'.calls.length := by
  cases h with
  | begin hne => exact Nat.le_of_lt (by simp)
  | die c => exact Nat.le_refl _
  | close => exact Nat.le_refl _
  | closeClient => exact Nat.le_refl _
  | _ => exact Nat.le_of_eq List.length_set.symm

/-- What a call knows where it is: from the lock of its slot on, that it holds the lock, and what it has seen of the slot. -/
def Holds (P : Kind) (s : State) (k : Nat) : Pc → Prop
  | .waiting _ => P.hasTarget = true
  | .locked i => P.hasTarget = true ∧ s.locks[i]? = some (some k)
  | .rechecking i c => P.hasTarget = true ∧ s.locks[i]? = some (some k) ∧ s.clients[i]? = some c
  | .dialling i | .dialled i _ =>
    P.hasTarget = true ∧ s.locks[i]? = some (some k) ∧ ∃ c, s.clients[i]? = some c ∧ s.isClosed c = true
  | _ => True

/-- What always holds of a locked pool. -/
def Inv (P : Kind) (s : State) : Prop := ∀ k pc, s.calls[k]? = some pc → Holds P s k pc

/-- Whatever a step changes, it leaves to call `k` the locks it holds and the clients of their slots. -/
structure Spares (s s' : State) (k : Nat) : Prop where
  lock : ∀ i : Nat, s.locks[i]? = some (some k) → s'.locks[i]? = some (some k)
  client : ∀ i : Nat, s.locks[i]? = some (some k) → s'.clients[i]? = s.clients[i]?
  closed : ∀ c, s.isClosed c = true → s'.isClosed c = true

theorem Holds.of_spares {P : Kind} {s s' : State} {k : Nat} {pc : Pc} (h : Holds P s k pc) (hs : Spares s s' k) : Holds P s' k pc := by
  cases pc with
  | locked i => exact ⟨h.1, hs.lock i h.2⟩
  | rechecking i c => exact ⟨h.1, hs.lock i h.2.1, (hs.client i h.2.1).trans h.2.2⟩
  | dialling i =>
    obtain ⟨hP, hl, c, hc, hclosed⟩ := h
    exact ⟨hP, hs.lock i hl, c, (hs.client i hl).trans hc, hs.closed c hclosed⟩
  | dialled i d =>
    obtain ⟨hP, hl, c, hc, hclosed⟩ := h
    exact ⟨hP, hs.lock i hl, c, (hs.client i hl).trans hc, hs.closed c hclosed⟩
  | _ => exact h

/-- Taking a free lock spares the others. -/
theorem spares_acquire {s : State} {i k : Nat} (hl : s.locks[i]? = some none) (j : Nat) : Spares s (s.acquire i k) j where
  lock i' hl' := by
    show (s.locks.set i (some k))[i']? = _
    rw [getElem?_set_of_some hl, if_neg ?_, hl']
    rintro rfl
    nomatch hl.symm.trans hl'
  client _ _ := rfl
  closed _ hc := hc

/-- Giving a lock back spares the others, whatever is put into its slot before. -/
theorem spares_release {s : State} {i k j : Nat} {cs : List Nat} (hl : s.locks[i]? = some (some k)) (hj : j ≠ k)
    (hcs : ∀ i', i' ≠ i → cs[i']? = s.clients[i']?) : Spares s ({ s with clients := cs }.release i) j where
  lock i' hl' := by
    show (s.locks.set i none)[i']? = _
    rw [getElem?_set_of_some hl, if_neg ?_, hl']
    rintro rfl
    exact hj (Option.some.inj (Option.some.inj (hl'.symm.trans hl)))
  client i' hl' := by
    refine hcs i' ?_
    rintro rfl
    exact hj (Option.some.inj (Option.some.inj (hl'.symm.trans hl)))
  closed _ hc := hc

/-- The invariant after a step that moves one call, when it spares the others. -/
theorem Inv.setCall {P : Kind} {s s' : State} {k : Nat} {pc pc' : Pc} (hi : Inv P s) (hk : s.calls[k]? = some pc)
    (hcalls : s'.calls = s.calls) (hs : ∀ j, j ≠ k → Spares s s' j) (hnew : Holds P s' k pc') : Inv P (s'.setCall k pc') := by
  intro j pc'' hj
  have hset : (s'.setCall k pc').calls[j]? = if j = k then some pc' else s.calls[j]? := by
    show (s'.calls.set k pc')[j]? = _
    rw [hcalls, getElem?_set_of_some hk]
  rw [hset] at hj
  have hsame : Spares s' (s'.setCall k pc') j := ⟨fun _ hl => hl, fun _ _ => rfl, fun _ hc => hc⟩
  by_cases hjk : j = k
  · subst hjk
    rw [if_pos rfl] at hj
    cases hj
    exact hnew.of_spares hsame
  · rw [if_neg hjk] at hj
    exact ((hi j pc'' hj).of_spares (hs j hjk)).of_spares hsame

theorem Inv.step {P : Kind} {s s' : State} {a : Action} (hi : Inv P s) (h : Effect P s a s') : Inv P s' := by
  have hclosed := fun c (hc : s.isClosed c = true) => h.isClosed hc
  cases h with
  | begin hne =>
    intro j pc hj
    have hj' : (s.calls ++ [Pc.entered (s.counter % s.clients.length)])[j]? = some pc := hj
    rw [getElem?_concat] at hj'
    by_cases hlast : j = s.calls.length
    · rw [if_pos hlast] at hj'
      cases hj'
      trivial
    · rw [if_neg hlast] at hj'
      exact (hi j pc hj').of_spares ⟨fun _ hl => hl, fun _ _ => rfl, fun _ hc => hc⟩
  | look hk hc => exact hi.setCall hk rfl (fun j _ => ⟨fun _ hl => hl, fun _ _ => rfl, fun _ hc => hc⟩) trivial
  | give hk => exact hi.setCall hk rfl (fun j _ => ⟨fun _ hl => hl, fun _ _ => rfl, fun _ hc => hc⟩) trivial
  | wait hk hP => exact hi.setCall hk rfl (fun j _ => ⟨fun _ hl => hl, fun _ _ => rfl, fun _ hc => hc⟩) hP
  | acquire hk hl =>
    refine hi.setCall hk rfl (fun j _ => spares_acquire hl j) ⟨hi _ _ hk, ?_⟩
    exact getElem?_set_self_of_some hl _
  | relook hk hc =>
    refine hi.setCall hk rfl (fun j _ => ⟨fun _ hl => hl, fun _ _ => rfl, fun _ hc => hc⟩) ?_
    exact ⟨(hi _ _ hk).1, (hi _ _ hk).2, hc⟩
  | dial hk hc =>
    obtain ⟨hP, hl, hclient⟩ := hi _ _ hk
    exact hi.setCall hk rfl (fun j _ => ⟨fun _ hl => hl, fun _ _ => rfl, fun _ hc => hc⟩) ⟨hP, hl, _, hclient, hc⟩
  | giveLocked hk => exact hi.setCall hk rfl (fun j hj => spares_release (hi _ _ hk).2.1 hj (fun _ _ => rfl)) trivial
  | install hk =>
    refine hi.setCall hk rfl (fun j hj => spares_release (hi _ _ hk).2.1 hj ?_) trivial
    intro i' hi'
    exact List.getElem?_set_ne (Ne.symm hi')
  | dialOk hk =>
    obtain ⟨hP, hl, c, hc, hcl⟩ := hi _ _ hk
    refine hi.setCall hk rfl (fun j _ => ⟨fun _ hl => hl, fun _ _ => rfl, ?_⟩) ⟨hP, hl, c, hc, ?_⟩
    · exact hclosed
    · exact hclosed c hcl
  | dialFail hk => exact hi.setCall hk rfl (fun j hj => spares_release (hi _ _ hk).2.1 hj (fun _ _ => rfl)) trivial
  | quit hk => exact hi.setCall hk rfl (fun j _ => ⟨fun _ hl => hl, fun _ _ => rfl, fun _ hc => hc⟩) trivial
  | die c => exact fun j pc hj => (hi j pc hj).of_spares ⟨fun _ hl => hl, fun _ _ => rfl, hclosed⟩
  | close => exact fun j pc hj => (hi j pc hj).of_spares ⟨fun _ hl => hl, fun _ _ => rfl, hclosed⟩
  | closeClient => exact fun j pc hj => (hi j pc hj).of_spares ⟨fun _ hl => hl, fun _ _ => rfl, hclosed⟩

theorem inv_runs {P : Kind} {size : Nat} {tr : List Action} {s : State} (hr : (machine P size).Runs tr s) : Inv P s :=
  Machine.Runs.invariant (P := Inv P) (fun k pc hk => by simp [machine, State.init] at hk) (fun _ _ _ hi hs => hi.step (step_effect hs)) hr

end BrainSdk.Pool
