import BrainSdk.Pool.SharedLemmas

/-!
# Reconnecting a slot of a pool

The callers of `get_healthy` that find the client of one slot closed share one dial.
-/

namespace BrainSdk.Pool

open Library

/-- What is seen of a locked pool: the clients of its slots, the dials, and the calls. -/
def lockedView : SlotView State where
  value s i := s.clients[i]?
  stale s c := s.isClosed c = true
  fetching s k i := s.calls[k]? = some (.dialling i)
  fetched s k i c := s.calls[k]? = some (.dialled i c)
  returned s k i c := s.calls[k]? = some (.returned i c)
  next s := s.counter % s.clients.length
  nextFetch s := s.calls.length
  waiting s k i := s.calls[k]? = some (.waiting i)

/-- The steps of call `k` itself. -/
def Own (k : Nat) (a : Action) : Prop := a = .begin ∨ a = .advance k

/-- What a call has seen in its slot, or has been given, meets `W`. -/
def Seen (W : Nat → Nat → Prop) : Pc → Prop
  | .looked i c | .rechecking i c | .returned i c => W i c
  | _ => True

/-- A call has seen a client that was in its slot. -/
theorem seen_runs {P : Kind} {size : Nat} {tr : List Action} {s : State} (hr : (machine P size).Runs tr s) {k : Nat} {pc : Pc}
    (hk : s.calls[k]? = some pc) : Seen (fun i c => (machine P size).Was (fun t => t.clients[i]? = some c) tr) pc := by
  refine Machine.Runs.rec_on (M := machine P size) (P := fun tr s => ∀ k pc, s.calls[k]? = some pc →
    Seen (fun i c => (machine P size).Was (fun t => t.clients[i]? = some c) tr) pc) ?_ ?_ hr k pc hk
  · intro k pc h
    simp [machine, State.init] at h
  · intro tr s a s' hrun ih hs k pc h
    have heff := step_effect hs
    have hold : ∀ pc, s.calls[k]? = some pc →
        Seen (fun i c => (machine P size).Was (fun t => t.clients[i]? = some c) (tr ++ [a])) pc := by
      intro pc h
      have := ih k pc h
      cases pc <;> first | exact Machine.Was.append this [a] | exact this
    rcases heff.call h with hsame | hb
    · exact hold pc hsame
    · cases pc with
      | looked i c => exact (hrun.was hb.2).append [a]
      | rechecking i c => exact (hrun.was hb.2).append [a]
      | returned i c =>
        rcases hb with hb | hb | ⟨hb, hset⟩
        · have hlooked := hold _ hb
          exact hlooked
        · have hlooked := hold _ hb
          exact hlooked
        · obtain ⟨-, -, d, hd, -⟩ := inv_runs hrun k _ hb
          refine (hrun.snoc hs).was ?_
          rw [hset]
          exact getElem?_set_self_of_some hd c
      | _ => trivial

/-- The client in a slot changes only when a call puts there what it has dialled. -/
theorem Effect.client {P : Kind} {s s' : State} {a : Action} (h : Effect P s a s') (i : Nat) :
    s'.clients[i]? = s.clients[i]? ∨ ∃ k c : Nat, s.calls[k]? = some (.dialled i c) ∧ s'.clients = s.clients.set i c := by
  cases h with
  | @install k j c hk =>
    by_cases hij : i = j
    · subst hij
      exact .inr ⟨k, c, hk, rfl⟩
    · exact .inl (List.getElem?_set_ne (Ne.symm hij))
  | _ => exact .inl rfl

/-- A dial that is over has given a client, or it has failed and given the lock of its slot back. -/
theorem Effect.dial_over {P : Kind} {s s' : State} {a : Action} (h : Effect P s a s') {k i : Nat} (hi : Inv P s)
    (hk : s.calls[k]? = some (.dialling i)) (hk' : s'.calls[k]? ≠ some (.dialling i)) :
    (∃ c, s'.calls[k]? = some (.dialled i c)) ∨ (s'.clients = s.clients ∧ s'.locks[i]? = some none) := by
  obtain ⟨-, hl, -⟩ := hi k _ hk
  have hlt : k < s'.calls.length := Nat.lt_of_lt_of_le (List.getElem?_eq_some_iff.1 hk).1 h.length_le
  obtain ⟨pc, hpc⟩ : ∃ pc, s'.calls[k]? = some pc := ⟨_, List.getElem?_eq_getElem hlt⟩
  rcases h.call hpc with hsame | hb
  · exact absurd (hpc.trans (hsame.symm.trans hk)) hk'
  · unfold Became at hb
    rw [hk] at hb
    cases pc with
    | dialled j c =>
      cases hb.1
      exact .inl ⟨c, hpc⟩
    | raised j =>
      rcases hb with hb | ⟨hb, hclients, hlocks⟩
      · cases hb
      · cases hb
        refine .inr ⟨hclients, ?_⟩
        rw [hlocks]
        exact getElem?_set_self_of_some hl none
    | dialling j =>
      obtain ⟨c, hb, -⟩ := hb
      cases hb
    | _ => simp at hb

/-- A step of a call that takes it on. -/
theorem step_advance {P : Kind} (size : Nat) {n : Nat} {u v : State} {pc pc' : Pc} (hk : u.calls[n]? = some pc)
    (h : u.advance P n pc = some (v.setCall n pc')) (hcalls : v.calls = u.calls) :
    (machine P size).step u (.advance n) = some (v.setCall n pc') ∧ (v.setCall n pc').calls[n]? = some pc' :=
  ⟨Option.bind_eq_some_iff.2 ⟨pc, hk, h⟩, getElem?_set_self_of_some (hcalls ▸ hk) pc'⟩

/-- A call whose slot has a closed client and a free lock comes to dial by its own steps. -/
theorem next_dials {P : Kind} {size : Nat} {s : State} {i c : Nat} (hP : P.hasTarget = true)
    (hnext : s.counter % s.clients.length = i) (hc : s.clients[i]? = some c) (hclosed : s.isClosed c = true)
    (hl : s.locks[i]? = some none) :
    ∃ tr t, (∀ a ∈ tr, Own s.calls.length a) ∧ (machine P size).exec s tr = some t ∧
      t.calls[s.calls.length]? = some (.dialling i) := by
  let n := s.calls.length
  let s1 : State := { s with counter := P.bump s.counter, calls := s.calls ++ [.entered i] }
  let s2 := s1.setCall n (.looked i c)
  let s3 := s2.setCall n (.waiting i)
  let s4 := (s3.acquire i n).setCall n (.locked i)
  let s5 := s4.setCall n (.rechecking i c)
  let s6 := s5.setCall n (.dialling i)
  have hne : s.clients ≠ [] := fun h => by simp [h] at hc
  have h1 : (machine P size).step s .begin = some s1 := by
    show (if s.clients = [] then none else some _) = some s1
    rw [if_neg hne, hnext]
  have hk1 : s1.calls[n]? = some (.entered i) := List.getElem?_concat_length
  have hlook : s1.advance P n (.entered i) = some s2 := congrArg (Option.map _) hc
  obtain ⟨h2, hk2⟩ := step_advance size hk1 hlook rfl
  have hwait : s2.advance P n (.looked i c) = some s3 := (if_pos hclosed).trans (if_pos hP)
  obtain ⟨h3, hk3⟩ := step_advance size hk2 hwait rfl
  have hacquire : s3.advance P n (.waiting i) = some s4 := if_pos hl
  obtain ⟨h4, hk4⟩ := step_advance size hk3 hacquire rfl
  have hrelook : s4.advance P n (.locked i) = some s5 := congrArg (Option.map _) hc
  obtain ⟨h5, hk5⟩ := step_advance size hk4 hrelook rfl
  have hdial : s5.advance P n (.rechecking i c) = some s6 := if_pos hclosed
  obtain ⟨h6, hk6⟩ := step_advance size hk5 hdial rfl
  refine ⟨[.begin, .advance n, .advance n, .advance n, .advance n, .advance n], s6, ?_, ?_, hk6⟩
  · intro a ha
    simp only [List.mem_cons, List.not_mem_nil, or_false] at ha
    rcases ha with rfl | rfl | rfl | rfl | rfl | rfl
    · exact .inl rfl
    all_goals exact .inr rfl
  · simp only [Machine.exec, h1, Option.bind_some]
    rw [h2, Option.bind_some, h3, Option.bind_some, h4, Option.bind_some, h5, Option.bind_some, h6, Option.bind_some]

/-- The callers of a slot of a locked pool share one dial. -/
theorem locked_singleFlight (P : Kind) (size : Nat) : lockedView.SingleFlight (machine P size) Own where
  no_overlap := by
    intro tr s k k' i hr hk hk'
    have hl := (inv_runs hr k _ hk).2.1
    have hl' := (inv_runs hr k' _ hk').2.1
    exact Option.some.inj (Option.some.inj (hl.symm.trans hl'))
  starts_stale := by
    intro tr s a s' k i hr hs hk' hk
    rcases (step_effect hs).call hk' with h | ⟨c, hre, hclosed⟩
    · exact absurd h hk
    · exact ⟨c, (inv_runs hr k _ hre).2.2, hclosed⟩
  replaced := by
    intro tr s a s' i hr hs hne
    rcases (step_effect hs).client i with h | ⟨k, c, hk, hset⟩
    · exact absurd h hne
    · obtain ⟨-, -, d, hd, hclosed⟩ := inv_runs hr k _ hk
      refine ⟨⟨d, hd, hclosed⟩, k, c, hk, ?_⟩
      show s'.clients[i]? = some c
      rw [hset]
      exact getElem?_set_self_of_some hd c
  fetched_fetching := by
    intro tr s a s' k i c hr hs hk'
    exact ((step_effect hs).call hk').imp_right And.left
  failed := by
    intro tr s a s' k i hr hs hk hk'
    have hinv := inv_runs hr
    rcases (step_effect hs).dial_over hinv hk hk' with h | ⟨hclients, hl⟩
    · exact .inl h
    · refine .inr ⟨funext fun j => congrArg (·[j]?) hclients, ?_⟩
      rintro hnext ⟨c, hc, hclosed⟩ -
      exact next_dials (hinv k _ hk).1 hnext hc hclosed hl
  returned_value := by
    intro tr s k i c hr hk
    exact seen_runs hr hk

end BrainSdk.Pool

namespace BrainSdk.TypeScript.Pool

open Library BrainSdk.Pool

/-- What is seen of the pool: the clients of its slots, the attempts, and the calls. A dial that was refused is over when its attempt has
gone on after it. -/
def sharedView : SlotView State where
  value s i := s.clients[i]?
  stale s c := s.isClosed c = true
  fetching s a i := s.attempts[a]? = some (.dialling i) ∨ s.attempts[a]? = some (.refused i)
  fetched s a i c := s.attempts[a]? = some (.dialled i c)
  returned s k i c := s.calls[k]? = some (.returned i c)
  next s := s.next % s.clients.length
  nextFetch s := s.attempts.length
  waiting _ _ _ := False

/-- The steps of a call itself, up to its first await. -/
def Own (_ : Nat) (a : Action) : Prop := a = .getHealthy

/-- The slot of an attempt. -/
def Attempt.slot : Attempt → Nat
  | .dialling i | .dialled i _ | .refused i | .fulfilled i _ | .rejected i => i

/-- How an attempt came to be where it is, in the step that took it there. -/
def Became (s s' : State) (a : Nat) : Attempt → Prop
  | .dialling i => s.reconnecting[i]? = some none ∧ (∃ c, s.clients[i]? = some c ∧ s.isClosed c = true) ∧ s.attempts[a]? = none
  | .dialled i _ | .refused i => s.attempts[a]? = some (.dialling i)
  | .fulfilled i c => s.attempts[a]? = some (.dialled i c) ∧ s'.clients = s.clients.set i c
  | .rejected i => s.attempts[a]? = some (.refused i) ∧ s'.clients = s.clients ∧ s'.reconnecting = s.reconnecting.set i none

/-- A step leaves an attempt where it was, or takes it on. -/
theorem Effect.attempt {s s' : State} {a : Action} (h : Effect s a s') {b : Nat} {attempt : Attempt}
    (hb : s'.attempts[b]? = some attempt) : s.attempts[b]? = some attempt ∨ Became s s' b attempt := by
  have hset : ∀ {d : Nat} {old new : Attempt}, s.attempts[d]? = some old → (s.attempts.set d new)[b]? = some attempt →
      Became s s' d new → s.attempts[b]? = some attempt ∨ Became s s' b attempt := by
    intro d old new hold hb hnew
    rw [getElem?_set_of_some hold] at hb
    by_cases hbd : b = d
    · rw [if_pos hbd] at hb
      cases hb
      exact .inr (hbd ▸ hnew)
    · rw [if_neg hbd] at hb
      exact .inl hb
  cases h with
  | @start i c hi hc hclosed hr =>
    have hb' : (s.attempts ++ [Attempt.dialling i])[b]? = some attempt := hb
    rw [getElem?_concat] at hb'
    by_cases hlast : b = s.attempts.length
    · rw [if_pos hlast] at hb'
      cases hb'
      exact .inr ⟨hr, ⟨c, hc, hclosed⟩, List.getElem?_eq_none (Nat.le_of_eq hlast.symm)⟩
    · rw [if_neg hlast] at hb'
      exact .inl hb'
  | dialOk ha => exact hset ha hb ha
  | dialFail ha => exact hset ha hb ha
  | fulfil ha => exact hset ha hb ⟨ha, rfl⟩
  | reject ha => exact hset ha hb ⟨ha, rfl, rfl⟩
  | _ => exact .inl hb

/-- An attempt keeps its slot. -/
theorem Effect.slot {s s' : State} {a : Action} (h : Effect s a s') {b : Nat} {attempt : Attempt}
    (hb : s.attempts[b]? = some attempt) : ∃ attempt', s'.attempts[b]? = some attempt' ∧ attempt'.slot = attempt.slot := by
  have hset : ∀ {d : Nat} {old new : Attempt}, s.attempts[d]? = some old → new.slot = old.slot →
      ∃ attempt', (s.attempts.set d new)[b]? = some attempt' ∧ attempt'.slot = attempt.slot := by
    intro d old new hold hsame
    rw [getElem?_set_of_some hold]
    by_cases hbd : b = d
    · subst hbd
      cases hold.symm.trans hb
      exact ⟨new, if_pos rfl, hsame⟩
    · exact ⟨attempt, (if_neg hbd).trans hb, rfl⟩
  cases h with
  | start hi hc hclosed hr =>
    exact ⟨attempt, (List.getElem?_append_left (List.getElem?_eq_some_iff.1 hb).1).trans hb, rfl⟩
  | dialOk ha => exact hset ha rfl
  | dialFail ha => exact hset ha rfl
  | fulfil ha => exact hset ha rfl
  | reject ha => exact hset ha rfl
  | _ => exact ⟨attempt, hb, rfl⟩

/-- What the attempts that are over and the calls have seen, where `W` holds of a slot and the clients that were in it. -/
structure Seen (W : Nat → Nat → Prop) (s : State) : Prop where
  fulfilled : ∀ {a i c : Nat}, s.attempts[a]? = some (.fulfilled i c) → W i c
  awaiting : ∀ {k i a : Nat}, s.calls[k]? = some (.awaiting i a) → ∃ attempt, s.attempts[a]? = some attempt ∧ attempt.slot = i
  returned : ∀ {k i c : Nat}, s.calls[k]? = some (.returned i c) → W i c

theorem Active.slot {s : State} {a i : Nat} (h : Active s a i) : ∃ attempt, s.attempts[a]? = some attempt ∧ attempt.slot = i := by
  obtain ⟨attempt, ha, hactive⟩ := Option.bind_eq_some_iff.1 h
  refine ⟨attempt, ha, ?_⟩
  cases attempt <;> cases hactive <;> rfl

/-- How a call came to be where it is, in the step that took it there. -/
theorem Effect.call {s s' : State} {a : Action} (h : Effect s a s') {k : Nat} {call : Call} (hk : s'.calls[k]? = some call) :
    s.calls[k]? = some call ∨
    match call with
    | .awaiting i b => s.reconnecting[i]? = some (some b) ∨ s'.attempts[b]? = some (.dialling i)
    | .returned i c =>
      s.clients[i]? = some c ∨ ∃ b j, s.calls[k]? = some (.awaiting i b) ∧ s.attempts[b]? = some (.fulfilled j c)
    | .raised _ => True := by
  have hconcat : ∀ {new : Call}, (s.calls ++ [new])[k]? = some call → s.calls[k]? = some call ∨ call = new := by
    intro new hk
    rw [getElem?_concat] at hk
    by_cases hlast : k = s.calls.length
    · rw [if_pos hlast] at hk
      exact .inr (Option.some.inj hk).symm
    · rw [if_neg hlast] at hk
      exact .inl hk
  have hset : ∀ {j : Nat} {old new : Call}, s.calls[j]? = some old → (s.calls.set j new)[k]? = some call →
      s.calls[k]? = some call ∨ (k = j ∧ call = new) := by
    intro j old new hold hk
    rw [getElem?_set_of_some hold] at hk
    by_cases hkj : k = j
    · rw [if_pos hkj] at hk
      exact .inr ⟨hkj, (Option.some.inj hk).symm⟩
    · rw [if_neg hkj] at hk
      exact .inl hk
  cases h with
  | give hi hc =>
    rcases hconcat hk with h | rfl
    · exact .inl h
    · exact .inr (.inl hc)
  | share hi ha =>
    rcases hconcat hk with h | rfl
    · exact .inl h
    · exact .inr (.inl ha)
  | start hi hc hclosed hr =>
    rcases hconcat hk with h | rfl
    · exact .inl h
    · exact .inr (.inr List.getElem?_concat_length)
  | deliverOk hj ha =>
    rcases hset hj hk with h | ⟨rfl, rfl⟩
    · exact .inl h
    · exact .inr (.inr ⟨_, _, hj, ha⟩)
  | deliverFail hj ha =>
    rcases hset hj hk with h | ⟨rfl, rfl⟩
    · exact .inl h
    · exact .inr trivial
  | _ => exact .inl hk

theorem seen_runs {size : Nat} {tr : List Action} {s : State} (hr : (machine size).Runs tr s) :
    Seen (fun i c => (machine size).Was (fun t => t.clients[i]? = some c) tr) s := by
  refine Machine.Runs.rec_on (M := machine size)
    (P := fun tr s => Seen (fun i c => (machine size).Was (fun t => t.clients[i]? = some c) tr) s) ?_ ?_ hr
  · constructor <;> intros <;> simp_all [machine, State.init]
  · intro tr s a s' hrun ih hs
    have heff := step_effect hs
    have hinv := inv_runs hrun
    refine ⟨fun {b i c} hb => ?_, fun {k i b} hk => ?_, fun {k i c} hk => ?_⟩
    · rcases heff.attempt hb with h | ⟨hdialled, hclients⟩
      · exact (ih.fulfilled h).append [a]
      · obtain ⟨d, hd, -⟩ := hinv.stale b i ((active_of_some hdialled).2 rfl)
        refine (hrun.snoc hs).was ?_
        rw [hclients]
        exact getElem?_set_self_of_some hd c
    · have hkeep : (∃ attempt, s.attempts[b]? = some attempt ∧ attempt.slot = i) →
          ∃ attempt, s'.attempts[b]? = some attempt ∧ attempt.slot = i := by
        rintro ⟨attempt, hb, rfl⟩
        exact heff.slot hb
      rcases heff.call hk with h | h | h
      · exact hkeep (ih.awaiting h)
      · exact hkeep ((hinv.promise b i).1 h).slot
      · exact ⟨_, h, rfl⟩
    · rcases heff.call hk with h | h | ⟨b, j, hawait, hfulfilled⟩
      · exact (ih.returned h).append [a]
      · exact (hrun.was h).append [a]
      · obtain ⟨attempt, hb, hslot⟩ := ih.awaiting hawait
        cases hb.symm.trans hfulfilled
        subst hslot
        exact (ih.fulfilled hfulfilled).append [a]

/-- A call whose slot has a closed client and no promise starts to dial at once. -/
theorem getHealthy_dials {size : Nat} {s : State} {i c : Nat} (hnext : s.next % s.clients.length = i) (hc : s.clients[i]? = some c)
    (hclosed : s.isClosed c = true) (hr : s.reconnecting[i]? = some none) :
    ∃ t, (machine size).step s .getHealthy = some t ∧ t.attempts[s.attempts.length]? = some (.dialling i) := by
  have hne : s.clients ≠ [] := fun h => by simp [h] at hc
  let t : State :=
    { s with
      next := State.bump s.next
      attempts := s.attempts ++ [.dialling i]
      reconnecting := s.reconnecting.set i (some s.attempts.length)
      calls := s.calls ++ [.awaiting i s.attempts.length] }
  refine ⟨t, ?_, List.getElem?_concat_length⟩
  show s.getHealthy = some t
  unfold State.getHealthy
  simp only [if_neg hne, hnext, hc, hr, hclosed, if_true]
  rfl

/-- The callers of a slot of the pool share one dial. -/
theorem shared_singleFlight (size : Nat) : sharedView.SingleFlight (machine size) Own where
  no_overlap := by
    intro tr s a a' i hr ha ha'
    have hactive : ∀ b, (s.attempts[b]? = some (.dialling i) ∨ s.attempts[b]? = some (.refused i)) → Active s b i := by
      rintro b (h | h) <;> exact (active_of_some h).2 rfl
    have hinv := inv_runs hr
    have h := (hinv.promise a i).2 (hactive a ha)
    exact Option.some.inj (Option.some.inj (h.symm.trans ((hinv.promise a' i).2 (hactive a' ha'))))
  starts_stale := by
    intro tr s act s' a i hr hs ha hna
    have heff := step_effect hs
    rcases ha with ha | ha
    · rcases heff.attempt ha with h | ⟨-, hstale, -⟩
      · exact absurd (.inl h) hna
      · exact hstale
    · rcases heff.attempt ha with h | h
      · exact absurd (.inr h) hna
      · exact absurd (.inl h) hna
  replaced := by
    intro tr s act s' i hr hs hne
    have hinv := inv_runs hr
    cases (step_effect hs).turn with
    | same _ hclients _ => exact absurd (congrArg (·[i]?) hclients) hne
    | start _ _ _ _ _ _ hclients _ _ => exact absurd (congrArg (·[i]?) hclients) hne
    | finish b j hb _ hclients _ =>
      rcases hclients with h | ⟨c, hc, h⟩
      · exact absurd (congrArg (·[i]?) h) hne
      · have hvalue : s'.clients[i]? = (s.clients.set j c)[i]? := congrArg (·[i]?) h
        by_cases hij : i = j
        · subst hij
          obtain ⟨d, hd, hclosed⟩ := hinv.stale b i hb
          refine ⟨⟨d, hd, hclosed⟩, b, c, hc, ?_⟩
          exact hvalue.trans (getElem?_set_self_of_some hd c)
        · exact absurd (hvalue.trans (List.getElem?_set_ne (Ne.symm hij))) hne
  fetched_fetching := by
    intro tr s act s' a i c hr hs ha
    rcases (step_effect hs).attempt ha with h | h
    · exact .inl h
    · exact .inr (.inl h)
  failed := by
    intro tr s act s' a i hr hs ha hna
    have heff := step_effect hs
    obtain ⟨old, hold, hslot⟩ : ∃ old, s.attempts[a]? = some old ∧ (old = .dialling i ∨ old = .refused i) := by
      rcases ha with ha | ha
      · exact ⟨_, ha, .inl rfl⟩
      · exact ⟨_, ha, .inr rfl⟩
    obtain ⟨new, hnew, -⟩ := heff.slot hold
    rcases heff.attempt hnew with hsame | hb
    · cases hold.symm.trans hsame
      rcases hslot with rfl | rfl
      · exact absurd (.inl hnew) hna
      · exact absurd (.inr hnew) hna
    · unfold Became at hb
      rw [hold] at hb
      cases new with
      | dialling j => nomatch hb.2.2
      | dialled j c =>
        cases hb
        rcases hslot with h | h
        · cases h
          exact .inl ⟨c, hnew⟩
        · cases h
      | refused j =>
        cases hb
        rcases hslot with h | h
        · cases h
          exact absurd (.inr hnew) hna
        · cases h
      | fulfilled j c =>
        cases hb.1
        rcases hslot with h | h <;> cases h
      | rejected j =>
        obtain ⟨hrefused, hclients, hreconnecting⟩ := hb
        cases hrefused
        rcases hslot with h | h
        · cases h
        · cases h
          refine .inr ⟨funext fun j => congrArg (·[j]?) hclients, ?_⟩
          rintro hnext ⟨c, hc, hclosed⟩ -
          have hpromise := ((inv_runs hr).promise a i).2 ((active_of_some hold).2 rfl)
          have hfree : s'.reconnecting[i]? = some none := by
            rw [hreconnecting]
            exact getElem?_set_self_of_some hpromise none
          obtain ⟨t, ht, hdial⟩ := getHealthy_dials hnext hc hclosed hfree
          refine ⟨[.getHealthy], t, fun b hb => List.mem_singleton.1 hb, ?_, .inl hdial⟩
          rw [Machine.exec_singleton]
          exact ht
  returned_value := by
    intro tr s k i c hr hk
    exact (seen_runs hr).returned hk

end BrainSdk.TypeScript.Pool

namespace BrainSdk

open Pool

/-- A caller that finds its client closed, while another dials for the slot, is given the client of that dial. -/
example : ((machine Rust.pool 1).exec (State.init 1)
      ([.die 0] ++ [.begin, .begin] ++ List.replicate 5 (.advance 0) ++ List.replicate 2 (.advance 1) ++ [.dialOk 0, .advance 0] ++
        List.replicate 3 (.advance 1))).map (fun s => (s.clients, s.calls)) =
    some ([1], [.returned 0 1, .returned 0 1]) := by decide

end BrainSdk
