import BrainSdk.Pool.SharedLemmas

/-!
# Closing a pool

`close` closes the clients that are in the slots when it comes by. A dial that puts its client into a slot after that leaves it open.
-/

namespace BrainSdk.Pool

open Library

/-- A client whose `close` was called, or that was dead already. -/
def Conn.isReleased (conn : Conn) : Bool := conn.closed || conn.closeCalled

/-- Every client that the pool has dialled is released. -/
def AllReleased (conns : List Conn) : Prop := ∀ conn ∈ conns, conn.isReleased = true

/-- `close` has come by slot `i`. -/
def Closer.passed : Closer → Nat → Bool
  | .idle, _ => false
  | .at j, i => i < j
  | .pending _, _ | .done, _ => true

/-- The clients that `close` has taken and not yet closed. -/
def Closer.rest : Closer → List Nat
  | .pending clients => clients
  | _ => []

def Pc.isOver : Pc → Bool
  | .returned _ _ | .raised _ => true
  | _ => false

/-- `close` and all calls of `get_healthy` have finished. -/
def Finished (s : State) : Prop := s.closer = .done ∧ ∀ pc ∈ s.calls, pc.isOver = true

/-- The step puts a live client into a slot that `close` has come by. -/
def State.installsLate (s : State) : Action → Bool
  | .advance k =>
    match s.calls[k]? with
    | some (.dialled i c) => s.closer.passed i && !s.isClosed c
    | _ => false
  | _ => false

/-- No call puts a live client into a slot that `close` has come by. -/
def NoLateInstall (s : State) (a : Action) : Prop := s.installsLate a = false

instance (s : State) (a : Action) : Decidable (NoLateInstall s a) := inferInstanceAs (Decidable (_ = _))

theorem NoLateInstall.isClosed {s : State} {k i c : Nat} (h : NoLateInstall s (.advance k)) (hk : s.calls[k]? = some (.dialled i c))
    (hpassed : s.closer.passed i = true) : s.isClosed c = true := by
  unfold NoLateInstall State.installsLate at h
  simpa only [hk, hpassed, Bool.true_and, Bool.not_eq_false'] using h

/-- A client is released. -/
def Released (conns : List Conn) (c : Nat) : Prop := (conns[c]?).any Conn.isReleased = true

theorem released_of_closed {conns : List Conn} {c : Nat} (h : isClosed conns c = true) : Released conns c := by
  unfold isClosed at h
  unfold Released
  rcases hc : conns[c]? with - | conn
  · rw [hc] at h
    cases h
  · rw [hc, Option.any_some] at h
    rw [Option.any_some, Conn.isReleased, h, Bool.true_or]

theorem allReleased_of_released {conns : List Conn} (h : ∀ c < conns.length, Released conns c) : AllReleased conns := by
  intro conn hconn
  obtain ⟨c, hc⟩ := List.getElem?_of_mem hconn
  have hrel := h c (List.getElem?_eq_some_iff.1 hc).1
  unfold Released at hrel
  rw [hc] at hrel
  exact hrel

/-- Every client that was dialled is in a slot, or about to be put there by the call or attempt that `pending` names, or released. -/
structure Kept (clients : List Nat) (pending : Nat → Nat → Nat → Prop) (conns : List Conn) : Prop where
  range : ∀ i c : Nat, clients[i]? = some c → c < conns.length
  pending_range : ∀ k i c : Nat, pending k i c → c < conns.length
  known : ∀ c < conns.length, (∃ i : Nat, clients[i]? = some c) ∨ (∃ k i : Nat, pending k i c) ∨ Released conns c

/-- How one step changes what `Kept` speaks of, the slots apart: a client that is released stays so, and a client that the step adds is
pending. -/
structure Grows (pending pending' : Nat → Nat → Nat → Prop) (conns conns' : List Conn) : Prop where
  released : ∀ c, Released conns c → Released conns' c
  length_le : conns.length ≤ conns'.length
  new : ∀ c < conns'.length, c < conns.length ∨ ∃ k i : Nat, pending' k i c
  pending_range : ∀ k i c, pending' k i c → pending k i c ∨ c < conns'.length

section

variable {clients : List Nat} {pending pending' : Nat → Nat → Nat → Prop} {conns conns' : List Conn}

theorem Kept.grow (h : Kept clients pending conns) (hg : Grows pending pending' conns conns')
    (hpending : ∀ k i c, pending k i c → pending' k i c) : Kept clients pending' conns' where
  range i c hc := Nat.lt_of_lt_of_le (h.range i c hc) hg.length_le
  pending_range k i c hp := (hg.pending_range k i c hp).elim (fun hp => Nat.lt_of_lt_of_le (h.pending_range k i c hp) hg.length_le) id
  known c hc := by
    rcases hg.new c hc with hold | hnew
    · rcases h.known c hold with hslot | ⟨k, i, hp⟩ | hrel
      · exact .inl hslot
      · exact .inr (.inl ⟨k, i, hpending k i c hp⟩)
      · exact .inr (.inr (hg.released c hrel))
    · exact .inr (.inl hnew)

/-- A client may be put into a slot whose client was closed. -/
theorem Kept.install (h : Kept clients pending conns) (hg : Grows pending pending' conns conns') {k i c d : Nat} (hk : pending k i c)
    (hd : clients[i]? = some d) (hclosed : isClosed conns d = true)
    (hothers : ∀ k' i' c', pending k' i' c' → c' = c ∨ pending' k' i' c') : Kept (clients.set i c) pending' conns' where
  range j e hj := by
    rw [getElem?_set_of_some hd] at hj
    by_cases hji : j = i
    · rw [if_pos hji] at hj
      cases hj
      exact Nat.lt_of_lt_of_le (h.pending_range k i c hk) hg.length_le
    · rw [if_neg hji] at hj
      exact Nat.lt_of_lt_of_le (h.range j e hj) hg.length_le
  pending_range k i c hp := (hg.pending_range k i c hp).elim (fun hp => Nat.lt_of_lt_of_le (h.pending_range k i c hp) hg.length_le) id
  known e he := by
    rcases hg.new e he with hold | hnew
    · rcases h.known e hold with ⟨j, hj⟩ | ⟨k', i', hp⟩ | hrel
      · by_cases hji : j = i
        · cases (hji ▸ hj).symm.trans hd
          exact .inr (.inr (hg.released d (released_of_closed hclosed)))
        · exact .inl ⟨j, by rw [getElem?_set_of_some hd, if_neg hji, hj]⟩
      · rcases hothers k' i' e hp with rfl | hp'
        · exact .inl ⟨i, getElem?_set_self_of_some hd e⟩
        · exact .inr (.inl ⟨k', i', hp'⟩)
      · exact .inr (.inr (hg.released e hrel))
    · exact .inr (.inl hnew)

end

/-- The clients that a new pool has dialled are in its slots. -/
theorem kept_init (size : Nat) {pending : Nat → Nat → Nat → Prop} (h : ∀ k i c, ¬pending k i c) :
    Kept (List.range size) pending (List.replicate size Conn.fresh) where
  range i c hc := by
    obtain ⟨hlt, rfl⟩ := List.getElem?_eq_some_iff.1 hc
    simpa using hlt
  pending_range k i c hp := absurd hp (h k i c)
  known c hc := .inl ⟨c, List.getElem?_range (by simpa using hc)⟩

/-- The calls that are about to put a client into their slot. -/
def pending (s : State) (k i c : Nat) : Prop := s.calls[k]? = some (.dialled i c)

theorem Effect.grows {P : Kind} {s s' : State} {a : Action} (h : Effect P s a s') : Grows (pending s) (pending s') s.conns s'.conns := by
  have hrange : ∀ k i c, pending s' k i c → pending s k i c ∨ c < s'.conns.length := fun k i c hk => (h.call hk).imp_right And.right
  cases h with
  | @dialOk k i hk =>
    refine ⟨fun c hc => any_append hc _, Nat.le_of_lt (by simp [State.setCall]), fun c hc => ?_, hrange⟩
    have hlen : c < s.conns.length + 1 := by simpa [State.setCall] using hc
    rcases Nat.lt_succ_iff_lt_or_eq.1 hlen with hlt | rfl
    · exact .inl hlt
    · exact .inr ⟨k, i, getElem?_set_self_of_some hk _⟩
  | die d =>
    refine ⟨fun c hc => any_modify (fun _ _ => rfl) hc d, Nat.le_of_eq (List.length_modify _ _ _).symm, fun c hc => .inl ?_, hrange⟩
    exact List.length_modify _ _ _ ▸ hc
  | @closeClient d closer =>
    have hkeep : ∀ conn : Conn, conn.isReleased = true → Conn.isReleased { conn with closeCalled := true } = true :=
      fun conn _ => Bool.or_true _
    refine ⟨fun c hc => any_modify hkeep hc d, Nat.le_of_eq (List.length_modify _ _ _).symm, fun c hc => .inl ?_, hrange⟩
    exact List.length_modify _ _ _ ▸ hc
  | _ => exact ⟨fun _ hc => hc, Nat.le_refl _, fun _ hc => .inl hc, hrange⟩

/-- Slots and dialled clients change only when a call puts its client into its slot. -/
theorem Effect.dialled {P : Kind} {s s' : State} {a : Action} (h : Effect P s a s') :
    (∃ k i c : Nat, a = .advance k ∧ s.calls[k]? = some (.dialled i c) ∧ s'.clients = s.clients.set i c ∧
      s'.calls = s.calls.set k (.returned i c)) ∨
    (s'.clients = s.clients ∧ ∀ k i c : Nat, s.calls[k]? = some (.dialled i c) → s'.calls[k]? = some (.dialled i c)) := by
  have hset : ∀ {j : Nat} {old new : Pc}, s.calls[j]? = some old → (∀ i c, old ≠ .dialled i c) → ∀ k i c : Nat,
      s.calls[k]? = some (.dialled i c) → (s.calls.set j new)[k]? = some (.dialled i c) := by
    intro j old new hj hne k i c hk
    have hkj : k ≠ j := by
      rintro rfl
      exact hne i c (Option.some.inj (hj.symm.trans hk))
    rw [getElem?_set_of_some hj, if_neg hkj, hk]
  cases h with
  | @install k i c hk => exact .inl ⟨k, i, c, rfl, hk, rfl, rfl⟩
  | begin hne => exact .inr ⟨rfl, fun k i c hk => (List.getElem?_append_left (List.getElem?_eq_some_iff.1 hk).1).trans hk⟩
  | look hj => exact .inr ⟨rfl, hset hj nofun⟩
  | give hj => exact .inr ⟨rfl, hset hj nofun⟩
  | wait hj => exact .inr ⟨rfl, hset hj nofun⟩
  | acquire hj => exact .inr ⟨rfl, hset hj nofun⟩
  | relook hj => exact .inr ⟨rfl, hset hj nofun⟩
  | dial hj => exact .inr ⟨rfl, hset hj nofun⟩
  | giveLocked hj => exact .inr ⟨rfl, hset hj nofun⟩
  | dialOk hj => exact .inr ⟨rfl, hset hj nofun⟩
  | dialFail hj => exact .inr ⟨rfl, hset hj nofun⟩
  | quit hj => exact .inr ⟨rfl, hset hj nofun⟩
  | _ => exact .inr ⟨rfl, fun _ _ _ hk => hk⟩

theorem Effect.closer_eq {P : Kind} {s s' : State} {a : Action} (h : Effect P s a s') (ha : a ≠ .close) : s'.closer = s.closer := by
  cases h with
  | close => exact absurd rfl ha
  | closeClient => exact absurd rfl ha
  | _ => rfl

/-- The clients of the slots that `close` has come by are released, or it has still to close them. -/
def Reached (s : State) : Prop :=
  ∀ i c : Nat, s.closer.passed i = true → s.clients[i]? = some c → Released s.conns c ∨ c ∈ s.closer.rest

/-- A step of `close`: it comes by the next slot, or closes the next client that it has taken. -/
theorem Reached.close {P : Kind} {s s' : State} (hrange : ∀ i c : Nat, s.clients[i]? = some c → c < s.conns.length) (hr : Reached s)
    (h : s.close P = some s') : Reached s' := by
  have hself : ∀ c < s.conns.length, Released (s.closeClient c).conns c := by
    intro c hc
    show ((s.conns.modify c _)[c]?).any Conn.isReleased = true
    rw [List.getElem?_modify_eq, List.getElem?_eq_getElem hc]
    exact Bool.or_true _
  have hkeep : ∀ c d, Released s.conns d → Released (s.closeClient c).conns d :=
    fun c d hd => any_modify (f := fun conn : Conn => { conn with closeCalled := true }) (fun conn _ => Bool.or_true _) hd c
  unfold State.close at h
  intro i c hpassed hc
  split at h
  · cases h
    cases hpassed
  · rename_i j _ hcl
    split at h
    · rename_i d hd
      cases h
      have hle : i < j ∨ i = j := Nat.lt_succ_iff_lt_or_eq.1 (of_decide_eq_true hpassed)
      rcases hle with hlt | rfl
      · refine .inl (hkeep d c ?_)
        refine (hr i c ?_ hc).resolve_right ?_
        · rw [hcl]
          exact decide_eq_true hlt
        · rw [hcl]
          exact List.not_mem_nil
      · cases hd.symm.trans hc
        exact .inl (hself c (hrange i c hc))
    · rename_i hd
      cases h
      refine .inl ((hr i c ?_ hc).resolve_right ?_)
      · rw [hcl]
        refine decide_eq_true (Nat.lt_of_not_le fun hji => ?_)
        have hlen := List.getElem?_eq_none_iff.1 hd
        have hi : i < s.clients.length := (List.getElem?_eq_some_iff.1 hc).1
        omega
      · rw [hcl]
        exact List.not_mem_nil
  · cases h
    exact .inr (List.mem_of_getElem? hc)
  · rename_i d rest _ hcl
    cases h
    rcases hr i c (by rw [hcl]; rfl) hc with h | h
    · exact .inl (hkeep d c h)
    · rw [hcl] at h
      rcases List.mem_cons.1 h with rfl | h
      · exact .inl (hself c (hrange i c hc))
      · exact .inr h
  · rename_i hcl
    cases h
    refine .inl ((hr i c (by rw [hcl]; rfl) hc).resolve_right ?_)
    rw [hcl]
    exact List.not_mem_nil
  · cases h

/-- What holds of a pool as long as no call puts a live client into a slot that `close` has come by. -/
structure Tracked (s : State) : Prop where
  kept : Kept s.clients (pending s) s.conns
  reached : Reached s

theorem Tracked.step {P : Kind} {s s' : State} {a : Action} (hi : Inv P s) (ht : Tracked s) (hlate : NoLateInstall s a)
    (hs : s.step P a = some s') : Tracked s' := by
  have h := step_effect hs
  rcases h.dialled with ⟨k, i, c, rfl, hk, hclients, hcalls⟩ | ⟨hclients, hdialled⟩
  · -- the call puts its client into its slot, whose client was closed
    obtain ⟨-, -, d, hd, hclosed⟩ := hi k _ hk
    have hothers : ∀ k' i' c', pending s k' i' c' → c' = c ∨ pending s' k' i' c' := by
      intro k' i' c' hk'
      by_cases hkk : k' = k
      · subst hkk
        cases hk.symm.trans hk'
        exact .inl rfl
      · refine .inr ?_
        unfold pending
        rw [hcalls, List.getElem?_set_ne (Ne.symm hkk), hk']
    refine ⟨hclients ▸ ht.kept.install h.grows hk hd hclosed hothers, fun j e hpassed hj => ?_⟩
    rw [h.closer_eq nofun] at hpassed ⊢
    rw [hclients, getElem?_set_of_some hd] at hj
    by_cases hji : j = i
    · rw [if_pos hji] at hj
      cases hj
      exact .inl (h.grows.released c (released_of_closed (hlate.isClosed hk (hji ▸ hpassed))))
    · rw [if_neg hji] at hj
      exact (ht.reached j e hpassed hj).imp_left (h.grows.released e)
  · refine ⟨hclients ▸ ht.kept.grow h.grows hdialled, ?_⟩
    by_cases ha : a = .close
    · subst ha
      exact ht.reached.close ht.kept.range hs
    · intro j e hpassed hj
      rw [h.closer_eq ha] at hpassed ⊢
      exact (ht.reached j e hpassed (hclients ▸ hj)).imp_left (h.grows.released e)

theorem tracked_init (size : Nat) : Tracked (State.init size) where
  kept := kept_init size fun _ _ _ h => nomatch h
  reached _ _ hpassed := nomatch hpassed

/-- When `close` and the calls have finished, and no call has put a live client into a slot that `close` had come by, every client is
released. -/
theorem locked_released {P : Kind} {size : Nat} {tr : List Action} {s : State} (hr : (machine P size).Runs tr s)
    (hm : (machine P size).Meets NoLateInstall tr) (hf : Finished s) : AllReleased s.conns := by
  have ht : Tracked s := by
    refine Machine.Runs.rec_on_meets (M := machine P size) (P := fun _ s => Tracked s) (tracked_init size) ?_ hr hm
    exact fun tr s a s' hrun ht hlate hs => ht.step (inv_runs hrun) hlate hs
  refine allReleased_of_released fun c hc => ?_
  rcases ht.kept.known c hc with ⟨i, hi⟩ | ⟨k, i, hk⟩ | h
  · refine (ht.reached i c ?_ hi).resolve_right ?_
    · rw [hf.1]
      rfl
    · rw [hf.1]
      exact List.not_mem_nil
  · nomatch hf.2 _ (List.mem_of_getElem? hk)
  · exact h

end BrainSdk.Pool

namespace BrainSdk.TypeScript.Pool

open Library BrainSdk.Pool

/-- The call is over. -/
def Call.isOver : Call → Bool
  | .returned _ _ | .raised _ => true
  | .awaiting _ _ => false

/-- `close` has been called, and all calls of `getHealthy` are over. -/
def Finished (s : State) : Prop := s.closeCalled = true ∧ ∀ call ∈ s.calls, call.isOver = true

/-- The step puts a live client into its slot after `close` has been called. -/
def State.installsLate (s : State) : Action → Bool
  | .resume b =>
    match s.attempts[b]? with
    | some (.dialled _ c) => s.closeCalled && !s.isClosed c
    | _ => false
  | _ => false

/-- No attempt puts a live client into its slot after `close` has been called. -/
def NoLateInstall (s : State) (a : Action) : Prop := s.installsLate a = false

instance (s : State) (a : Action) : Decidable (NoLateInstall s a) := inferInstanceAs (Decidable (_ = _))

theorem NoLateInstall.isClosed {s : State} {b i c : Nat} (h : NoLateInstall s (.resume b)) (hb : s.attempts[b]? = some (.dialled i c))
    (hclose : s.closeCalled = true) : s.isClosed c = true := by
  unfold NoLateInstall State.installsLate at h
  simpa only [hb, hclose, Bool.true_and, Bool.not_eq_false'] using h

/-- The attempts that are about to put a client into their slot. -/
def pending (s : State) (b i c : Nat) : Prop := s.attempts[b]? = some (.dialled i c)

/-- An attempt that is about to put a client into its slot was so before, or its dial has just succeeded. -/
theorem Effect.pending_range {s s' : State} {a : Action} (h : Effect s a s') (b i c : Nat) (hb : pending s' b i c) :
    pending s b i c ∨ c < s'.conns.length := by
  unfold pending at *
  have hset : ∀ {j : Nat} {old new : Attempt}, s.attempts[j]? = some old → (s.attempts.set j new)[b]? = some (.dialled i c) →
      new ≠ .dialled i c → s.attempts[b]? = some (.dialled i c) := by
    intro j old new hj hb hne
    rw [getElem?_set_of_some hj] at hb
    by_cases hbj : b = j
    · rw [if_pos hbj] at hb
      exact absurd (Option.some.inj hb) hne
    · rwa [if_neg hbj] at hb
  cases h with
  | @dialOk j i' hj =>
    by_cases hc : Attempt.dialled i' s.conns.length = .dialled i c
    · cases hc
      exact .inr (by simp)
    · exact .inl (hset hj hb hc)
  | start =>
    rw [getElem?_concat] at hb
    split at hb
    · cases hb
    · exact .inl hb
  | dialFail hj => exact .inl (hset hj hb nofun)
  | fulfil hj => exact .inl (hset hj hb nofun)
  | reject hj => exact .inl (hset hj hb nofun)
  | _ => exact .inl hb

theorem Effect.grows {s s' : State} {a : Action} (h : Effect s a s') : Grows (pending s) (pending s') s.conns s'.conns := by
  have hrange := h.pending_range
  cases h with
  | @dialOk b i hb =>
    refine ⟨fun c hc => any_append hc _, Nat.le_of_lt (by simp), fun c hc => ?_, hrange⟩
    have hlen : c < s.conns.length + 1 := by simpa using hc
    rcases Nat.lt_succ_iff_lt_or_eq.1 hlen with hlt | rfl
    · exact .inl hlt
    · exact .inr ⟨b, i, getElem?_set_self_of_some hb _⟩
  | die d =>
    refine ⟨fun c hc => any_modify (fun _ _ => rfl) hc d, Nat.le_of_eq (List.length_modify _ _ _).symm, fun c hc => .inl ?_, hrange⟩
    exact List.length_modify _ _ _ ▸ hc
  | close =>
    have hkeep : ∀ conn : Conn, conn.isReleased = true → Conn.isReleased { conn with closeCalled := true } = true :=
      fun conn _ => Bool.or_true _
    refine ⟨fun c hc => any_updateAll hkeep _ hc, Nat.le_of_eq (length_updateAll _ _ _).symm, fun c hc => .inl ?_, hrange⟩
    exact length_updateAll _ _ _ ▸ hc
  | _ => exact ⟨fun _ hc => hc, Nat.le_refl _, fun _ hc => .inl hc, hrange⟩

/-- An attempt that is about to put a client into its slot stays so, or does it. -/
theorem Effect.dialled {s s' : State} {a : Action} (h : Effect s a s') :
    (∃ b i c : Nat, a = .resume b ∧ s.attempts[b]? = some (.dialled i c) ∧ s'.clients = s.clients.set i c ∧
      s'.attempts = s.attempts.set b (.fulfilled i c)) ∨
    (s'.clients = s.clients ∧ ∀ b i c, pending s b i c → pending s' b i c) := by
  have hset : ∀ {j : Nat} {old new : Attempt}, s.attempts[j]? = some old → (∀ i c, old ≠ .dialled i c) → ∀ b i c : Nat,
      s.attempts[b]? = some (.dialled i c) → (s.attempts.set j new)[b]? = some (.dialled i c) := by
    intro j old new hj hne b i c hb
    have hbj : b ≠ j := by
      rintro rfl
      exact hne i c (Option.some.inj (hj.symm.trans hb))
    rw [getElem?_set_of_some hj, if_neg hbj, hb]
  cases h with
  | @fulfil b i c hb => exact .inl ⟨b, i, c, rfl, hb, rfl, rfl⟩
  | start => exact .inr ⟨rfl, fun b i c hb => (List.getElem?_append_left (List.getElem?_eq_some_iff.1 hb).1).trans hb⟩
  | dialOk hb => exact .inr ⟨rfl, hset hb fun _ _ h => nomatch h⟩
  | dialFail hb => exact .inr ⟨rfl, hset hb fun _ _ h => nomatch h⟩
  | reject hb => exact .inr ⟨rfl, hset hb fun _ _ h => nomatch h⟩
  | _ => exact .inr ⟨rfl, fun _ _ _ hb => hb⟩

theorem Effect.closeCalled {s s' : State} {a : Action} (h : Effect s a s') (ha : a ≠ .close) : s'.closeCalled = s.closeCalled := by
  cases h with
  | close => exact absurd rfl ha
  | _ => rfl

/-- What holds of the pool as long as no attempt puts a live client into its slot after `close`. -/
structure Tracked (s : State) : Prop where
  kept : Kept s.clients (pending s) s.conns
  swept : s.closeCalled = true → ∀ i c : Nat, s.clients[i]? = some c → Released s.conns c

theorem Tracked.step {s s' : State} {a : Action} (hi : Inv s) (ht : Tracked s) (hlate : NoLateInstall s a) (h : Effect s a s') :
    Tracked s' := by
  rcases h.dialled with ⟨b, i, c, rfl, hb, hclients, hattempts⟩ | ⟨hclients, hdialled⟩
  · -- the attempt puts its client into its slot, whose client was closed
    obtain ⟨d, hd, hclosed⟩ := hi.stale b i ((active_of_some hb).2 rfl)
    have hothers : ∀ b' i' c', pending s b' i' c' → c' = c ∨ pending s' b' i' c' := by
      intro b' i' c' hb'
      by_cases hbb : b' = b
      · subst hbb
        cases hb.symm.trans hb'
        exact .inl rfl
      · refine .inr ?_
        unfold pending
        rw [hattempts, List.getElem?_set_ne (Ne.symm hbb), hb']
    refine ⟨hclients ▸ ht.kept.install h.grows hb hd hclosed hothers, fun hclose j e hj => ?_⟩
    rw [h.closeCalled nofun] at hclose
    rw [hclients, getElem?_set_of_some hd] at hj
    by_cases hji : j = i
    · rw [if_pos hji] at hj
      cases hj
      exact h.grows.released c (released_of_closed (hlate.isClosed hb hclose))
    · rw [if_neg hji] at hj
      exact h.grows.released e (ht.swept hclose j e hj)
  · refine ⟨hclients ▸ ht.kept.grow h.grows hdialled, fun hclose j e hj => ?_⟩
    rw [hclients] at hj
    by_cases ha : a = .close
    · subst ha
      have hnow : ∀ conn : Conn, Conn.isReleased { conn with closeCalled := true } = true := fun conn => Bool.or_true _
      cases h with
      | close => exact any_updateAll_of_mem hnow (List.mem_of_getElem? hj) (ht.kept.range j e hj)
    · rw [h.closeCalled ha] at hclose
      exact h.grows.released e (ht.swept hclose j e hj)

theorem tracked_init (size : Nat) : Tracked (State.init size) where
  kept := kept_init size fun _ _ _ h => nomatch h
  swept h := nomatch h

/-- Every attempt that is not over has a call that awaits it. -/
def Awaited (s : State) : Prop := ∀ b i, Active s b i → ∃ k j : Nat, s.calls[k]? = some (.awaiting j b)

/-- A call awaits its attempt until that is over. -/
theorem Effect.awaiting {s s' : State} {a : Action} (h : Effect s a s') {k j b i : Nat} (hb : Active s b i)
    (hk : s.calls[k]? = some (.awaiting j b)) : s'.calls[k]? = some (.awaiting j b) := by
  have hgrow : ∀ new : Call, (s.calls ++ [new])[k]? = some (.awaiting j b) := fun new =>
    (List.getElem?_append_left (List.getElem?_eq_some_iff.1 hk).1).trans hk
  have hset : ∀ {k' a' j' : Nat} {attempt : Attempt} {new : Call}, s.calls[k']? = some (.awaiting j' a') →
      s.attempts[a']? = some attempt → attempt.activeAt = none → (s.calls.set k' new)[k]? = some (.awaiting j b) := by
    intro k' a' j' attempt new hk' ha' hover
    have hne : k ≠ k' := by
      rintro rfl
      cases hk.symm.trans hk'
      rw [(active_of_some ha').1 hb] at hover
      cases hover
    rw [getElem?_set_of_some hk', if_neg hne, hk]
  cases h with
  | give => exact hgrow _
  | share => exact hgrow _
  | start => exact hgrow _
  | deliverOk hk' ha' => exact hset hk' ha' rfl
  | deliverFail hk' ha' => exact hset hk' ha' rfl
  | _ => exact hk

/-- A new attempt is awaited by the call that starts it. -/
theorem Effect.active {s s' : State} {a : Action} (h : Effect s a s') {b i : Nat} (hb : Active s' b i) :
    Active s b i ∨ s'.calls[s.calls.length]? = some (.awaiting i b) := by
  cases h.turn with
  | same hactive _ _ => exact .inl ((hactive b i).1 hb)
  | start b' j _ _ _ hactive _ _ hcalls =>
    refine ((hactive b i).1 hb).imp_right ?_
    rintro ⟨rfl, rfl⟩
    rw [hcalls]
    exact List.getElem?_concat_length
  | finish _ _ _ hactive _ _ => exact .inl ((hactive b i).1 hb).1

theorem Awaited.step {s s' : State} {a : Action} (hw : Awaited s) (h : Effect s a s') : Awaited s' := by
  intro b i hb
  rcases h.active hb with hold | hnew
  · obtain ⟨k, j, hk⟩ := hw b i hold
    exact ⟨k, j, h.awaiting hold hk⟩
  · exact ⟨_, i, hnew⟩

/-- When `close` has been called, the calls are over, and no attempt has put a live client into its slot after `close`, every client is
released. -/
theorem shared_released {size : Nat} {tr : List Action} {s : State} (hr : (machine size).Runs tr s)
    (hm : (machine size).Meets NoLateInstall tr) (hf : Finished s) : AllReleased s.conns := by
  have ht : Tracked s := by
    refine Machine.Runs.rec_on_meets (M := machine size) (P := fun _ s => Tracked s) (tracked_init size) ?_ hr hm
    exact fun tr s a s' hrun ht hlate hs => ht.step (inv_runs hrun) hlate (step_effect hs)
  have hw : Awaited s := by
    refine Machine.Runs.invariant (M := machine size) (P := Awaited) (fun b i h => ?_) (fun s a s' hw hs => hw.step (step_effect hs)) hr
    simp [Active, machine, State.init] at h
  refine allReleased_of_released fun c hc => ?_
  rcases ht.kept.known c hc with ⟨i, hi⟩ | ⟨b, i, hb⟩ | h
  · exact ht.swept hf.1 i c hi
  · obtain ⟨k, j, hk⟩ := hw b i ((active_of_some hb).2 rfl)
    cases hf.2 _ (List.mem_of_getElem? hk)
  · exact h

end BrainSdk.TypeScript.Pool

namespace BrainSdk

open Library

/-- A pool is closed for good: when `close` and the calls have finished, and no step has put a live client into a slot that `close` had
come by, every client that the pool has dialled is released. -/
def ClosedForGood {σ α : Type} (M : Machine σ α) (noLateInstall : σ → α → Prop) (finished : σ → Prop)
    (conns : σ → List Pool.Conn) : Prop :=
  ∀ tr s, M.Runs tr s → M.Meets noLateInstall tr → finished s → Pool.AllReleased (conns s)

/-- A closed pool holds no live connection when no live client is put into a slot behind `close`. -/
theorem closed_pool_released (hasTarget : Bool) (size : Nat) :
    ClosedForGood (Pool.machine (Python.pool hasTarget) size) Pool.NoLateInstall Pool.Finished Pool.State.conns ∧
    ClosedForGood (Pool.machine (Python.asyncPool hasTarget) size) Pool.NoLateInstall Pool.Finished Pool.State.conns ∧
    ClosedForGood (TypeScript.Pool.machine size) TypeScript.Pool.NoLateInstall TypeScript.Pool.Finished TypeScript.Pool.State.conns :=
  ⟨fun _ _ => Pool.locked_released, fun _ _ => Pool.locked_released, fun _ _ => TypeScript.Pool.shared_released⟩

/-- The client dies, a call finds it dead and dials, and the new client is in its slot before `close` comes by. -/
def dialledInTime : List Pool.Action :=
  [.die 0, .begin] ++ List.replicate 5 (.advance 0) ++ [.dialOk 0, .advance 0] ++ List.replicate 3 .close

/-- The same in the TypeScript pool. -/
def sharedInTime : List TypeScript.Pool.Action := [.die 0, .getHealthy, .dialOk 0, .resume 0, .deliver 0, .close]

theorem dialledInTime_released :
    (∃ s, (Pool.machine (Python.pool true) 1).Runs dialledInTime s ∧ Pool.AllReleased s.conns) ∧
    (∃ s, (Pool.machine (Python.asyncPool true) 1).Runs dialledInTime s ∧ Pool.AllReleased s.conns) ∧
    (∃ s, (TypeScript.Pool.machine 1).Runs sharedInTime s ∧ Pool.AllReleased s.conns) := by
  obtain ⟨hpool, hasync, hshared⟩ := closed_pool_released true 1
  refine ⟨⟨_, rfl, hpool dialledInTime _ rfl (Machine.meets_of_checks ?_) ⟨rfl, ?_⟩⟩,
    ⟨_, rfl, hasync dialledInTime _ rfl (Machine.meets_of_checks ?_) ⟨rfl, ?_⟩⟩,
    ⟨_, rfl, hshared sharedInTime _ rfl (Machine.meets_of_checks ?_) ⟨rfl, ?_⟩⟩⟩
  all_goals decide

/-- The client dies, a call finds it dead and dials, `close` comes by, and the dial succeeds. -/
def dialledBehindClose : List Pool.Action :=
  [.die 0, .begin] ++ List.replicate 5 (.advance 0) ++ List.replicate 3 .close ++ [.dialOk 0, .advance 0]

/-- A dial that is under way when `close` comes by leaves its client open, in each of the three pools. -/
theorem dialledBehindClose_leaks :
    (∃ s, (Pool.machine (Python.pool true) 1).Runs dialledBehindClose s ∧ Pool.Finished s ∧ ¬Pool.AllReleased s.conns) ∧
    (∃ s, (Pool.machine (Python.asyncPool true) 1).Runs dialledBehindClose s ∧ Pool.Finished s ∧ ¬Pool.AllReleased s.conns) ∧
    (∃ s, (TypeScript.Pool.machine 1).Runs [.die 0, .getHealthy, .close, .dialOk 0, .resume 0, .deliver 0] s ∧
      TypeScript.Pool.Finished s ∧ ¬Pool.AllReleased s.conns) :=
  ⟨⟨_, rfl, ⟨rfl, by decide⟩, by unfold Pool.AllReleased; decide⟩,
    ⟨_, rfl, ⟨rfl, by decide⟩, by unfold Pool.AllReleased; decide⟩,
    ⟨_, rfl, ⟨rfl, by decide⟩, by unfold Pool.AllReleased; decide⟩⟩

end BrainSdk
