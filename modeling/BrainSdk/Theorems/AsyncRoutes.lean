import BrainSdk.Python.AsyncInvariant

/-!
# What the asyncio connection keeps of its calls

Wherever a call is cancelled, times out or fails, it leaves neither a route nor the lock behind.
-/

namespace BrainSdk.Python.AsyncMux

open Library Wire

variable {ε : Type}

/-! ### The lock -/

def Call.isDraining (call : Call ε) : Bool := call.pc = .draining

def Bye.isDraining (b : Bye) : Bool := b.pc = .draining

/-- A reader that has the lock. -/
def Reader.holds : Reader → Bool
  | .draining | .cancelling true => true
  | _ => false

/-- How many tasks are at `drain`, behind the lock. -/
def State.holders (s : State ε) : Nat := s.calls.countP Call.isDraining + s.byes.countP Bye.isDraining + s.reader.holds.toNat

/-- A turn changes the holders by the call that takes it. -/
theorem take_holders {s : State ε} {c : Nat} {call : Call ε} (hc : s.calls[c]? = some call) (t : Turn ε) :
    (s.take c t).holders + call.isDraining.toNat = s.holders + t.call.isDraining.toNat := by
  have hrest : (s.take c t).reader = s.reader ∧ (s.take c t).byes = s.byes := by cases t <;> exact ⟨rfl, rfl⟩
  have hcount := countP_set_of_some (p := Call.isDraining) hc t.call
  unfold State.holders
  rw [take_calls, hrest.1, hrest.2]
  omega

/-- So does the step of a `send_bye`. -/
theorem set_holders {s : State ε} {k : Nat} {b : Bye} (hb : s.byes[k]? = some b) (b' : Bye) :
    State.holders { s with byes := s.byes.set k b' } + b.isDraining.toNat = s.holders + b'.isDraining.toNat := by
  have hcount := countP_set_of_some (p := Bye.isDraining) hb b'
  unfold State.holders
  dsimp only
  omega

theorem failAll_holders (s : State ε) (error : Exc) (reader : Reader) :
    State.holders { s.failAll error with reader := reader } =
      s.calls.countP Call.isDraining + s.byes.countP Bye.isDraining + reader.holds.toNat := by
  unfold State.holders State.failAll
  dsimp only
  rw [countP_updateAll (p := Call.isDraining) (f := Call.push (.closed error)) (fun _ => rfl)]

/-- A step of a call that is at no `drain`, before it and after it. -/
theorem onCall_holders {s s' : State ε} {c : Nat} {f : Call ε → Option (Turn ε)}
    (hf : ∀ call t, f call = some t → call.isDraining = false ∧ t.call.isDraining = false) (h : s.onCall c f = some s') :
    s'.holders = s.holders ∧ s'.locked = s.locked := by
  obtain ⟨call, t, hc, ht, rfl⟩ := onCall_eq_some h
  have hholders := take_holders hc t
  rw [(hf call t ht).1, (hf call t ht).2] at hholders
  exact ⟨Nat.add_right_cancel hholders, by cases t <;> rfl⟩

theorem afterDequeue_idle {Γ : Ctx ε} {call : Call ε} {t : Turn ε} (h : call.afterDequeue Γ = some t) :
    call.isDraining = false ∧ t.call.isDraining = false := by
  unfold Call.afterDequeue at h
  split at h
  · rename_i hpc hq
    cases h
    refine ⟨by simp [Call.isDraining, hpc], ?_⟩
    unfold Call.collect
    split
    · rfl
    · split_ifs
      · rfl
      · rfl
      · simp [Turn.call, Call.isDraining, hpc]
  · rename_i hpc hq
    cases h
    refine ⟨by simp [Call.isDraining, hpc], ?_⟩
    unfold Call.advance
    split <;> rfl
  · cases h

theorem afterTimeout_idle {Γ : Ctx ε} {call : Call ε} {t : Turn ε} (h : call.afterTimeout Γ = some t) :
    call.isDraining = false ∧ t.call.isDraining = false := by
  unfold Call.afterTimeout at h
  split at h
  · rename_i hpc _
    cases h
    exact ⟨by simp [Call.isDraining, hpc], rfl⟩
  · rename_i hpc _
    cases h
    exact ⟨by simp [Call.isDraining, hpc], rfl⟩
  · cases h

theorem beginNext_idle {call : Call ε} {t : Turn ε} (h : call.beginNext = some t) :
    call.isDraining = false ∧ t.call.isDraining = false := by
  unfold Call.beginNext at h
  split at h
  · rename_i hpc
    cases h
    refine ⟨by simp [Call.isDraining, hpc], ?_⟩
    split
    · simp [Turn.call, Call.isDraining, hpc]
    · rfl
  · cases h

theorem beginClose_idle {call : Call ε} {t : Turn ε} (h : call.beginClose = some t) :
    call.isDraining = false ∧ t.call.isDraining = false := by
  unfold Call.beginClose at h
  split at h
  · rename_i hpc
    cases h
    exact ⟨by simp [Call.isDraining, hpc], by simp [Turn.call, Call.isDraining, hpc]⟩
  · rename_i hpc
    cases h
    exact ⟨by simp [Call.isDraining, hpc], by simp [Turn.call, Call.isDraining, hpc]⟩
  · cases h

theorem begin_idle (m : Nat) (payload : Bytes) : (Bye.begin m payload).isDraining = false := by
  unfold Bye.begin Bye.isDraining
  dsimp only
  split <;> rfl

theorem Begun.holders {s s' : State ε} {args : Args} (h : Begun s args s') : s'.holders = s.holders ∧ s'.locked = s.locked := by
  have hlocked : (s.takeStreamId args.verb).locked = s.locked := by
    unfold State.takeStreamId
    split <;> rfl
  have hreader := (takeStreamId_fields s args.verb).2.1
  have hbyes : (s.takeStreamId args.verb).byes = s.byes := by
    unfold State.takeStreamId
    split <;> rfl
  cases h with
  | refused | oversize | started =>
    refine ⟨?_, hlocked⟩
    unfold State.holders
    dsimp only
    rw [List.countP_append, hreader, hbyes]
    rfl

theorem Call.afterWrite_holds {call : Call ε} {t : Turn ε} {f : Option Frame} (h : call.afterWrite = some (t, f)) :
    call.isDraining = false ∧ t.call.isDraining = f.isSome := by
  unfold Call.afterWrite at h
  split at h
  · rename_i hpc _
    cases h
    exact ⟨by simp [Call.isDraining, hpc], rfl⟩
  · rename_i hpc _
    cases h
    exact ⟨by simp [Call.isDraining, hpc], rfl⟩
  · cases h

theorem Bye.afterWrite_holds {b b' : Bye} {f : Option Frame} (h : b.afterWrite = some (b', f)) :
    b.isDraining = false ∧ b'.isDraining = f.isSome := by
  unfold Bye.afterWrite at h
  split at h
  · rename_i hpc _
    cases h
    exact ⟨by simp [Bye.isDraining, hpc], rfl⟩
  · rename_i hpc _
    cases h
    exact ⟨by simp [Bye.isDraining, hpc], rfl⟩
  · cases h

theorem Call.afterDrain_holds {call : Call ε} {failure : Option String} {t : Turn ε} (h : call.afterDrain failure = some t) :
    call.isDraining = true ∧ t.call.isDraining = false := by
  unfold Call.afterDrain at h
  split at h
  · rename_i hpc
    cases h
    exact ⟨by simp [Call.isDraining, hpc], rfl⟩
  · rename_i hpc
    cases h
    refine ⟨by simp [Call.isDraining, hpc], ?_⟩
    by_cases hv : call.args.verb = .subscribe
    · simp [Turn.call, Call.isDraining, hv]
    · simp [Turn.call, Call.isDraining, hv]
  · cases h

theorem Bye.afterDrain_holds {b b' : Bye} {failure : Option String} (h : b.afterDrain failure = some b') :
    b.isDraining = true ∧ b'.isDraining = false := by
  unfold Bye.afterDrain at h
  split at h
  · rename_i hpc
    cases h
    exact ⟨by simp [Bye.isDraining, hpc], rfl⟩
  · rename_i hpc
    cases h
    exact ⟨by simp [Bye.isDraining, hpc], rfl⟩
  · cases h

theorem Call.afterCancel_idle {call : Call ε} {t : Turn ε} (h : call.afterCancel = some t) : t.call.isDraining = false := by
  unfold Call.afterCancel at h
  split at h <;> cases h <;> rfl

theorem Bye.afterCancel_idle {b b' : Bye} (h : b.afterCancel = some b') : b'.isDraining = false := by
  unfold Bye.afterCancel at h
  split at h <;> cases h <;> rfl

/-- Of a free lock a task that comes to `drain` is the only holder. -/
theorem acquired {holders holders' : Nat} {locked draining : Bool} (hs : holders = locked.toNat) (hfree : ¬locked = true)
    (h : holders' + false.toNat = holders + draining.toNat) : holders' = draining.toNat := by
  rw [hs, Bool.eq_false_iff.2 hfree] at h
  simpa using h

/-- A task that is past `drain` was the only holder. -/
theorem givenBack {holders holders' : Nat} {locked : Bool} (hs : holders = locked.toNat)
    (h : holders' + true.toNat = holders + false.toNat) : holders' = false.toNat := by
  have hle := Bool.toNat_le locked
  simp only [Bool.toNat_true, Bool.toNat_false] at h ⊢
  omega

/-- A task that is cancelled gives the lock back if it was at `drain`. -/
theorem released {holders holders' : Nat} {locked draining : Bool} (hs : holders = locked.toNat)
    (h : holders' + draining.toNat = holders + false.toNat) : holders' = (if draining then false else locked).toNat := by
  cases draining with
  | false => exact (Nat.add_right_cancel h).trans hs
  | true => exact givenBack hs h

/-- A call that writes takes the lock if it writes a frame. -/
theorem write_holders {Γ : Ctx ε} {s s' : State ε} {c : Nat} (hs : s.holders = s.locked.toNat)
    (h : step Γ s (.write c) = some s') : s'.holders = s'.locked.toNat := by
  simp only [step] at h
  split_ifs at h with hlocked
  obtain ⟨call, hc, h⟩ := Option.bind_eq_some_iff.1 h
  obtain ⟨⟨t, f⟩, ht, rfl⟩ := Option.map_eq_some_iff.1 h
  have hholders := take_holders hc t
  rw [(Call.afterWrite_holds ht).1, (Call.afterWrite_holds ht).2] at hholders
  exact acquired hs hlocked hholders

theorem drained_holders {Γ : Ctx ε} {s s' : State ε} {c : Nat} {failure : Option String} (hs : s.holders = s.locked.toNat)
    (h : step Γ s (.drained c failure) = some s') : s'.holders = s'.locked.toNat := by
  simp only [step] at h
  obtain ⟨s₁, hs₁, rfl⟩ := Option.map_eq_some_iff.1 h
  obtain ⟨call, t, hc, ht, rfl⟩ := onCall_eq_some hs₁
  have hholders := take_holders hc t
  rw [(Call.afterDrain_holds ht).1, (Call.afterDrain_holds ht).2] at hholders
  exact givenBack hs hholders

theorem cancel_holders {Γ : Ctx ε} {s s' : State ε} {c : Nat} (hs : s.holders = s.locked.toNat)
    (h : step Γ s (.cancel c) = some s') : s'.holders = s'.locked.toNat := by
  simp only [step] at h
  obtain ⟨s₁, hs₁, rfl⟩ := Option.map_eq_some_iff.1 h
  obtain ⟨call, t, hc, ht, rfl⟩ := onCall_eq_some hs₁
  have hholders := take_holders hc t
  have hany : (s.calls[c]?).any (fun call => decide (call.pc = .draining)) = call.isDraining := by rw [hc]; rfl
  rw [Call.afterCancel_idle ht] at hholders
  change (s.take c t).holders = (if _ then false else s.locked).toNat
  rw [hany]
  exact released hs hholders

/-- So does a `send_bye`. -/
theorem byeWrite_holders {Γ : Ctx ε} {s s' : State ε} {k : Nat} (hs : s.holders = s.locked.toNat)
    (h : step Γ s (.byeWrite k) = some s') : s'.holders = s'.locked.toNat := by
  simp only [step] at h
  split_ifs at h with hlocked
  obtain ⟨b, hb, h⟩ := Option.bind_eq_some_iff.1 h
  obtain ⟨⟨b', f⟩, hb', rfl⟩ := Option.map_eq_some_iff.1 h
  have hholders := set_holders hb b'
  rw [(Bye.afterWrite_holds hb').1, (Bye.afterWrite_holds hb').2] at hholders
  exact acquired hs hlocked hholders

theorem byeDrained_holders {Γ : Ctx ε} {s s' : State ε} {k : Nat} {failure : Option String} (hs : s.holders = s.locked.toNat)
    (h : step Γ s (.byeDrained k failure) = some s') : s'.holders = s'.locked.toNat := by
  simp only [step] at h
  obtain ⟨s₁, hs₁, rfl⟩ := Option.map_eq_some_iff.1 h
  obtain ⟨b, b', hb, hb', rfl⟩ := onBye_eq_some hs₁
  have hholders := set_holders hb b'
  rw [(Bye.afterDrain_holds hb').1, (Bye.afterDrain_holds hb').2] at hholders
  exact givenBack hs hholders

theorem byeCancel_holders {Γ : Ctx ε} {s s' : State ε} {k : Nat} (hs : s.holders = s.locked.toNat)
    (h : step Γ s (.byeCancel k) = some s') : s'.holders = s'.locked.toNat := by
  simp only [step] at h
  obtain ⟨s₁, hs₁, rfl⟩ := Option.map_eq_some_iff.1 h
  obtain ⟨b, b', hb, hb', rfl⟩ := onBye_eq_some hs₁
  have hholders := set_holders hb b'
  have hany : (s.byes[k]?).any (fun b => decide (b.pc = .draining)) = b.isDraining := by rw [hb]; rfl
  rw [Bye.afterCancel_idle hb'] at hholders
  change State.holders { s with byes := s.byes.set k b' } = (if _ then false else s.locked).toNat
  rw [hany]
  exact released hs hholders

/-- The lock is held while one task is at `drain`, and by that task alone. -/
theorem holders_step {Γ : Ctx ε} {s s' : State ε} {a : Action} (hs : s.holders = s.locked.toNat) (h : step Γ s a = some s') :
    s'.holders = s'.locked.toNat := by
  have hkeep : s'.holders = s.holders ∧ s'.locked = s.locked → s'.holders = s'.locked.toNat := by
    rintro ⟨hholders, hlocked⟩
    rw [hholders, hlocked, hs]
  cases a with
  | begin args =>
    cases h
    exact hkeep (begin_begun s args).holders
  | write c => exact write_holders hs h
  | drained c failure => exact drained_holders hs h
  | cancel c => exact cancel_holders hs h
  | dequeue c => exact hkeep (onCall_holders (fun _ _ => afterDequeue_idle) h)
  | timeout c => exact hkeep (onCall_holders (fun _ _ => afterTimeout_idle) h)
  | next c => exact hkeep (onCall_holders (fun _ _ => beginNext_idle) h)
  | close c => exact hkeep (onCall_holders (fun _ _ => beginClose_idle) h)
  | sendBye payload =>
    cases h
    refine hkeep ⟨?_, rfl⟩
    unfold State.holders
    dsimp only
    rw [List.countP_append, List.countP_singleton, begin_idle]
    rfl
  | byeWrite k => exact byeWrite_holders hs h
  | byeDrained k failure => exact byeDrained_holders hs h
  | byeCancel k => exact byeCancel_holders hs h
  | readFrame f =>
    simp only [step] at h
    split_ifs at h with hr hp
    · cases h
      refine hkeep ⟨?_, rfl⟩
      unfold State.holders
      rw [hr]
      rfl
    · cases h
      refine hkeep ⟨?_, rfl⟩
      unfold State.holders
      cases s.routes.lookup f.streamId with
      | none => rfl
      | some c =>
        have hcount := countP_modify (p := Call.isDraining) (f := Call.push (.frame f)) (fun _ => rfl) s.calls c
        exact congrArg (· + _ + _) hcount
  | readError e =>
    simp only [step] at h
    split_ifs at h with hr
    cases h
    refine hkeep ⟨?_, rfl⟩
    rw [failAll_holders, State.holders, hr]
    rfl
  | pong now =>
    simp only [step] at h
    split at h
    · rename_i f hr
      split at h
      · cases h
        refine hkeep ⟨?_, rfl⟩
        unfold State.holders
        rw [hr]
        rfl
      · split_ifs at h with hlocked
        cases h
        rw [Bool.eq_false_iff.2 hlocked, State.holders, hr] at hs
        unfold State.holders
        exact congrArg (· + 1) hs
    · cases h
  | ponged =>
    simp only [step] at h
    split_ifs at h with hr
    cases h
    rw [State.holders, hr] at hs
    have hle := Bool.toNat_le s.locked
    simp only [State.holders, Reader.holds, Bool.toNat_true, Bool.toNat_false] at hs ⊢
    omega
  | aclose =>
    cases h
    refine hkeep ⟨?_, rfl⟩
    rw [failAll_holders, State.holders]
    cases s.reader <;> rfl
  | readerCancelled =>
    simp only [step] at h
    split at h
    · rename_i holds hr
      cases h
      rw [State.holders, hr] at hs
      have hle := Bool.toNat_le s.locked
      cases holds with
      | false => exact hs
      | true =>
        simp only [State.holders, Reader.holds, Bool.toNat_true, Bool.toNat_false, if_true] at hs ⊢
        omega
    · cases h

/-- In every run the lock is held exactly while some task is at `drain`, be it of a call, of a `send_bye` or the reader, and one at a time:
a call that is cancelled there, or whose write fails, gives it back, and so does the reader task when `aclose` cancels it. -/
theorem lock_held_once (Γ : Ctx ε) (m : Nat) {tr : List Action} {s : State ε} (hr : (mux Γ m).Runs tr s) :
    s.calls.countP (fun call => call.pc = .draining) + s.byes.countP (fun b => b.pc = .draining) + s.reader.holds.toNat =
      s.locked.toNat := by
  have hholders : s.holders = s.locked.toNat :=
    hr.invariant (P := fun s => s.holders = s.locked.toNat) rfl (fun _ _ _ hs hst => holders_step hs hst)
  exact hholders

/-- A request that is cancelled at `drain`. -/
def cancelledRequest : List Action := [.begin ⟨.request, opPing, [], none⟩, .write 0, .cancel 0]

/-- It gives the lock back. -/
theorem cancelledRequest_unlocked :
    ∃ s : State Unit, (mux Ctx.refusing maxPayloadBytes).Runs cancelledRequest s ∧ s.locked = false := by
  have hrun : ∃ s : State Unit, (mux Ctx.refusing maxPayloadBytes).Runs cancelledRequest s ∧
      s.calls.countP (fun call => call.pc = .draining) + s.byes.countP (fun b => b.pc = .draining) + s.reader.holds.toNat = 0 :=
    ⟨_, rfl, by decide⟩
  obtain ⟨s, hr, hnone⟩ := hrun
  have hlock := lock_held_once Ctx.refusing maxPayloadBytes hr
  rw [hnone] at hlock
  exact ⟨s, hr, Bool.toNat_eq_zero.1 hlock.symm⟩

/-! ### The routes -/

/-- In every run that takes at most `2 ^ 31` stream ids: each route leads to a live call of that stream, until the connection fails each
live op call has its route, and a connection that has failed or has no live call left has none. So no call that returned, raised or was
cancelled leaves a route behind. -/
theorem routes_exact (Γ : Ctx ε) (m : Nat) {tr : List Action} {s : State ε} (hr : (mux Γ m).Runs tr s) (hn : s.taken ≤ 2 ^ 31) :
    (∀ k c, s.routes.lookup k = some c → ∃ call, s.calls[c]? = some call ∧ call.live = true ∧ call.streamId = k) ∧
    (s.closedError = none → ∀ (c : Nat) (call : Call ε), s.calls[c]? = some call → call.args.verb.isOp = true → call.live = true →
      s.routes.lookup call.streamId = some c) ∧
    (s.closedError ≠ none → s.routes = ∅) ∧ ((∀ call ∈ s.calls, call.live = false) → ∀ k, s.routes.lookup k = none) := by
  have hs := inv_runs hr
  refine ⟨hs.routed, hs.owned hn, hs.cleared, ?_⟩
  intro hdead k
  cases hk : s.routes.lookup k with
  | none => rfl
  | some c =>
    obtain ⟨call, hc, hlive, -⟩ := hs.routed k c hk
    rw [hdead call (List.mem_of_getElem? hc)] at hlive
    cases hlive

/-- It leaves no route. -/
theorem cancelledRequest_routes :
    ∃ s : State Unit, (mux Ctx.refusing maxPayloadBytes).Runs cancelledRequest s ∧ ∀ k, s.routes.lookup k = none := by
  have hrun : ∃ s : State Unit, (mux Ctx.refusing maxPayloadBytes).Runs cancelledRequest s ∧ s.taken ≤ 2 ^ 31 ∧
      ∀ call ∈ s.calls, call.live = false := ⟨_, rfl, by decide, by decide⟩
  obtain ⟨s, hr, hn, hdead⟩ := hrun
  exact ⟨s, hr, (routes_exact Ctx.refusing maxPayloadBytes hr hn).2.2.2 hdead⟩

end BrainSdk.Python.AsyncMux
