import BrainSdk.Python.Effects

/-!
# The invariant of the Python mux

What every reachable state of the connection keeps: each call is where its variables say it is, each op call holds an id of its
own turn of the counter, the route table holds calls that registered under the key, and the table is empty once the connection has
failed.
-/

namespace BrainSdk.Python

open Library Wire

variable {ε : Type}

/-- A call past `_register`. -/
def Pc.entered : Pc ε → Bool
  | .starting | .registering => false
  | _ => true

/-- What the place of a call says of its variables. -/
def Call.Placed (call : Call ε) : Prop :=
  match call.pc with
  | .starting | .registering =>
    call.registered = false ∧ call.queue = [] ∧ call.frames = [] ∧ call.ended = false ∧ call.outs = []
  | .writing => call.registered = true ∧ call.frames = [] ∧ call.ended = false ∧ call.outs = []
  | .collecting => call.registered = true ∧ call.args.verb ≠ .subscribe
  | .leaving _ => call.registered = true
  | .done _ => call.registered = false
  | .opened => call.args.verb = .subscribe ∧ call.registered = !call.ended
  | .inNext => call.args.verb = .subscribe ∧ call.registered = true ∧ call.ended = false
  | .ending _ => call.args.verb = .subscribe ∧ call.registered = true ∧ call.ended = true
  | .closing => call.args.verb = .subscribe ∧ call.ended = true

/-- A call in good order, on a connection that has handed out `taken` ids: `request_on_connection` uses stream 0, and any other
call the id of its own turn of the counter. -/
structure Call.Ok (taken : Nat) (call : Call ε) : Prop where
  placed : call.Placed
  conn : call.args.verb.isOp = false → call.streamId = 0 ∧ call.pc ≠ .starting
  op : call.args.verb.isOp = true → call.pc ≠ .starting → call.streamId = idAt call.ordinal ∧ call.ordinal < taken

/-- A registered call is past `_register`. -/
theorem Call.Placed.entered {call : Call ε} (h : call.Placed) (hr : call.registered = true) : call.pc.entered = true := by
  unfold Call.Placed at h
  unfold Pc.entered
  split at h <;> simp_all

/-- What `q.put` adds to the queue of a call past `_register` leaves the call in its place. -/
theorem Call.Placed.push {call : Call ε} (h : call.Placed) (he : call.pc.entered = true) (i : Item) : (call.push i).Placed := by
  unfold Call.Placed at h ⊢
  unfold Pc.entered at he
  simp only [Call.push]
  split at h <;> simp_all

theorem collect_fields (Γ : Ctx ε) (call : Call ε) (i : Item) :
    (call.collect Γ i).args = call.args ∧ (call.collect Γ i).streamId = call.streamId ∧
    (call.collect Γ i).ordinal = call.ordinal ∧ (call.collect Γ i).registered = call.registered ∧
    (call.collect Γ i).queue = call.queue ∧ (call.collect Γ i).ended = call.ended ∧ (call.collect Γ i).outs = call.outs := by
  unfold Call.collect
  split
  · exact ⟨rfl, rfl, rfl, rfl, rfl, rfl, rfl⟩
  · split
    · exact ⟨rfl, rfl, rfl, rfl, rfl, rfl, rfl⟩
    · split <;> exact ⟨rfl, rfl, rfl, rfl, rfl, rfl, rfl⟩

theorem advance_fields (Γ : Ctx ε) (call : Call ε) (i : Item) :
    (call.advance Γ i).args = call.args ∧ (call.advance Γ i).streamId = call.streamId ∧
    (call.advance Γ i).ordinal = call.ordinal ∧ (call.advance Γ i).registered = call.registered ∧
    (call.advance Γ i).queue = call.queue := by
  unfold Call.advance
  split <;> exact ⟨rfl, rfl, rfl, rfl, rfl⟩

/-- A request that took an item goes on collecting or leaves. -/
theorem collect_pc (Γ : Ctx ε) (call : Call ε) (i : Item) (hpc : call.pc = .collecting) :
    (call.collect Γ i).pc = .collecting ∨ ∃ o, (call.collect Γ i).pc = .leaving o := by
  unfold Call.collect
  split
  · exact .inr ⟨_, rfl⟩
  · split
    · exact .inr ⟨_, rfl⟩
    · split
      · exact .inr ⟨_, rfl⟩
      · exact .inl hpc

/-- `next` with an item in hand ends the stream or returns to its caller, as `nextItem` says. -/
theorem advance_pc (Γ : Ctx ε) (call : Call ε) (i : Item) :
    ((nextItem Γ i).1 = true ∧ call.advance Γ i = { call with ended := true, pc := .ending (nextItem Γ i).2 }) ∨
    ((nextItem Γ i).1 = false ∧
      call.advance Γ i = { call with outs := call.outs ++ [(nextItem Γ i).2], pc := .opened }) := by
  unfold Call.advance
  split
  · rename_i o h
    exact .inl (by rw [h]; exact ⟨rfl, rfl⟩)
  · rename_i o h
    exact .inr (by rw [h]; exact ⟨rfl, rfl⟩)

/-- A move keeps what names the call and its route. -/
theorem Move.keeps {Γ : Ctx ε} {c : Nat} {call call' : Call ε} {a : Action} (h : Move Γ c call a call') :
    call'.args = call.args ∧ call'.streamId = call.streamId ∧ call'.ordinal = call.ordinal ∧
    call'.registered = call.registered ∧ call.pc.entered = true ∧ call'.pc ≠ .starting := by
  cases h with
  | writeFailed hpc _ => exact ⟨rfl, rfl, rfl, rfl, by rw [hpc]; rfl, nofun⟩
  | written hpc =>
    refine ⟨rfl, rfl, rfl, rfl, by rw [hpc]; rfl, ?_⟩
    simp only
    split <;> exact nofun
  | @collect i rest hpc hq =>
    obtain ⟨h1, h2, h3, h4, -⟩ := collect_fields Γ { call with queue := rest } i
    refine ⟨h1, h2, h3, h4, by rw [hpc]; rfl, ?_⟩
    rcases collect_pc Γ { call with queue := rest } i hpc with hp | ⟨o, hp⟩ <;> rw [hp] <;> exact nofun
  | @advance i rest hpc hq =>
    obtain ⟨h1, h2, h3, h4, -⟩ := advance_fields Γ { call with queue := rest } i
    refine ⟨h1, h2, h3, h4, by rw [hpc]; rfl, ?_⟩
    rcases advance_pc Γ { call with queue := rest } i with ⟨-, hp⟩ | ⟨-, hp⟩ <;> rw [hp] <;> exact nofun
  | requestTimeout hpc _ => exact ⟨rfl, rfl, rfl, rfl, by rw [hpc]; rfl, nofun⟩
  | nextTimeout hpc _ => exact ⟨rfl, rfl, rfl, rfl, by rw [hpc]; rfl, nofun⟩
  | nextEnded hpc _ => exact ⟨rfl, rfl, rfl, rfl, by rw [hpc]; rfl, by rw [hpc]; exact nofun⟩
  | next hpc _ => exact ⟨rfl, rfl, rfl, rfl, by rw [hpc]; rfl, nofun⟩
  | close hpc => exact ⟨rfl, rfl, rfl, rfl, by rw [hpc]; rfl, nofun⟩

/-- A call that leaves or is done makes no move. -/
theorem Move.active {Γ : Ctx ε} {c : Nat} {call call' : Call ε} {a : Action} (h : Move Γ c call a call') (o : Outcome) :
    call.pc ≠ .leaving o ∧ call.pc ≠ .done o := by
  cases h with
  | writeFailed h _ | written h | collect h _ | advance h _ | requestTimeout h _ | nextTimeout h _ | nextEnded h _
  | next h _ | close h => exact ⟨by rw [h]; exact nofun, by rw [h]; exact nofun⟩

theorem Move.entered {Γ : Ctx ε} {c : Nat} {call call' : Call ε} {a : Action} (h : Move Γ c call a call') :
    call'.pc.entered = true := by
  cases h with
  | written hpc =>
    simp only
    split <;> rfl
  | @collect i rest hpc hq =>
    rcases collect_pc Γ { call with queue := rest } i hpc with hp | ⟨o, hp⟩ <;> rw [hp] <;> rfl
  | @advance i rest hpc hq =>
    rcases advance_pc Γ { call with queue := rest } i with ⟨-, hp⟩ | ⟨-, hp⟩ <;> rw [hp] <;> rfl
  | nextEnded hpc _ => simp only [hpc, Pc.entered]
  | _ => rfl

/-- A move leaves the call in good order with its place. -/
theorem Move.placed {Γ : Ctx ε} {c : Nat} {call call' : Call ε} {a : Action} (h : Move Γ c call a call') (hp : call.Placed) :
    call'.Placed := by
  cases h with
  | writeFailed hpc _ =>
    simp only [Call.Placed, hpc] at hp ⊢
    exact hp.1
  | written hpc =>
    simp only [Call.Placed, hpc] at hp ⊢
    by_cases hv : call.args.verb = .subscribe
    · simp [hv, hp]
    · simp [hv, hp]
  | @collect i rest hpc hq =>
    simp only [Call.Placed, hpc] at hp
    obtain ⟨h1, -, -, h4, -⟩ := collect_fields Γ { call with queue := rest } i
    rcases collect_pc Γ { call with queue := rest } i hpc with hp' | ⟨o, hp'⟩
    · rw [Call.Placed, hp', h1]
      exact ⟨h4.trans hp.1, hp.2⟩
    · rw [Call.Placed, hp']
      exact h4.trans hp.1
  | @advance i rest hpc hq =>
    simp only [Call.Placed, hpc] at hp
    rcases advance_pc Γ { call with queue := rest } i with ⟨-, hp'⟩ | ⟨-, hp'⟩
    · rw [hp']
      exact ⟨hp.1, hp.2.1, rfl⟩
    · rw [hp']
      exact ⟨hp.1, by rw [hp.2.1, hp.2.2]; rfl⟩
  | requestTimeout hpc _ =>
    simp only [Call.Placed, hpc] at hp ⊢
    exact hp.1
  | nextTimeout hpc _ =>
    simp only [Call.Placed, hpc] at hp ⊢
    simp [hp]
  | nextEnded hpc _ =>
    simp only [Call.Placed, hpc] at hp ⊢
    exact hp
  | next hpc he =>
    simp only [Call.Placed, hpc] at hp ⊢
    simp [hp, he]
  | close hpc =>
    simp only [Call.Placed, hpc] at hp ⊢
    exact ⟨hp.1, trivial⟩

/-- Deregistering keeps what names the call, and the call is then not registered. -/
theorem Leave.keeps {call call' : Call ε} (h : Leave call call') :
    call'.args = call.args ∧ call'.streamId = call.streamId ∧ call'.ordinal = call.ordinal ∧ call'.registered = false ∧
    call'.queue = call.queue ∧ call.pc.entered = true ∧ call'.pc ≠ .starting := by
  cases h with
  | leaving hpc => exact ⟨rfl, rfl, rfl, rfl, rfl, by rw [hpc]; rfl, nofun⟩
  | ending hpc => exact ⟨rfl, rfl, rfl, rfl, rfl, by rw [hpc]; rfl, nofun⟩
  | closing hpc => exact ⟨rfl, rfl, rfl, rfl, rfl, by rw [hpc]; rfl, nofun⟩

theorem Leave.entered {call call' : Call ε} (h : Leave call call') : call'.pc.entered = true := by
  cases h <;> rfl

theorem Leave.placed {call call' : Call ε} (h : Leave call call') (hp : call.Placed) : call'.Placed := by
  cases h with
  | leaving hpc => rfl
  | ending hpc =>
    simp only [Call.Placed, hpc] at hp ⊢
    simp [hp]
  | closing hpc =>
    simp only [Call.Placed, hpc] at hp ⊢
    simp [hp]

/-- The invariant. -/
structure Inv (s : State ε) : Prop where
  counter : s.nextStreamId = idAt s.taken
  ok : ∀ (c : Nat) (call : Call ε), s.calls[c]? = some call → call.Ok s.taken
  ordinals : ∀ (c d : Nat) (call call' : Call ε), s.calls[c]? = some call → s.calls[d]? = some call' → call.args.verb.isOp = true →
    call'.args.verb.isOp = true → call.pc ≠ .starting → call'.pc ≠ .starting → call.ordinal = call'.ordinal → c = d
  routed : ∀ (k c : Nat), s.routes.lookup k = some c → ∃ call : Call ε, s.calls[c]? = some call ∧ call.registered = true ∧ call.streamId = k
  stopped : s.closedError ≠ none ↔ s.reader = .stopped
  cleared : s.closedError ≠ none → s.routes = ∅
  putting : ∀ (f : Frame) (c : Nat), s.reader = .putting f c →
    ∃ call : Call ε, s.calls[c]? = some call ∧ call.pc.entered = true ∧ call.streamId = f.streamId

/-- The table routes to each call under one key at most. -/
theorem Inv.tasks_nodup {s : State ε} (h : Inv s) : s.routes.tasks.Nodup := by
  refine Routes.tasks_nodup ?_
  intro k k' c hk hk'
  obtain ⟨call, hc, -, rfl⟩ := h.routed k c hk
  obtain ⟨call', hc', -, rfl⟩ := h.routed k' c hk'
  rw [hc] at hc'
  cases hc'
  rfl

/-! ### What a step keeps of a call -/

/-- A step keeps the arguments of a call and, once it is past `_take_stream_id`, its id; a call past `_register` stays so. -/
theorem Change.keeps {Γ : Ctx ε} {s : State ε} {d : Nat} {a : Action} {call call' : Call ε} (h : Change Γ s d a call call') :
    call'.args = call.args ∧
    (call.pc ≠ .starting → call'.streamId = call.streamId ∧ call'.ordinal = call.ordinal ∧ call'.pc ≠ .starting) ∧
    (call.pc.entered = true → call'.pc.entered = true) := by
  cases h with
  | same _ _ _ => exact ⟨rfl, fun h => ⟨rfl, rfl, h⟩, id⟩
  | take hpc => exact ⟨rfl, fun h => absurd hpc h, by rw [hpc]; nofun⟩
  | refuse hpc _ => exact ⟨rfl, fun _ => ⟨rfl, rfl, nofun⟩, fun _ => rfl⟩
  | register hpc _ => exact ⟨rfl, fun _ => ⟨rfl, rfl, nofun⟩, fun _ => rfl⟩
  | move hm =>
    obtain ⟨h1, h2, h3, -, -, h6⟩ := hm.keeps
    exact ⟨h1, fun _ => ⟨h2, h3, h6⟩, fun _ => hm.entered⟩
  | leave hl =>
    obtain ⟨h1, h2, h3, -, -, -, h7⟩ := hl.keeps
    exact ⟨h1, fun _ => ⟨h2, h3, h7⟩, fun _ => hl.entered⟩
  | put _ => exact ⟨rfl, fun h => ⟨rfl, rfl, h⟩, id⟩
  | fail _ _ => exact ⟨rfl, fun h => ⟨rfl, rfl, h⟩, id⟩

/-- A call that is done stays done. -/
theorem Change.of_done {Γ : Ctx ε} {s : State ε} {d : Nat} {a : Action} {call call' : Call ε} {o : Outcome}
    (h : Change Γ s d a call call') (hpc : call.pc = .done o) : call'.pc = .done o := by
  cases h with
  | same _ _ _ | put _ | fail _ _ => exact hpc
  | move hm => exact absurd hpc (hm.active o).2
  | take h | refuse h _ | register h _ =>
    rw [hpc] at h
    cases h
  | leave hl =>
    cases hl with
    | leaving h | ending h | closing h =>
      rw [hpc] at h
      cases h

/-- A call that leaves with an outcome is done with it next. -/
theorem Change.of_leaving {Γ : Ctx ε} {s : State ε} {d : Nat} {a : Action} {call call' : Call ε} {o : Outcome}
    (h : Change Γ s d a call call') (hpc : call.pc = .leaving o) : call'.pc = .leaving o ∨ call'.pc = .done o := by
  cases h with
  | same _ _ _ | put _ | fail _ _ => exact .inl hpc
  | move hm => exact absurd hpc (hm.active o).1
  | take h | refuse h _ | register h _ =>
    rw [hpc] at h
    cases h
  | leave hl =>
    cases hl with
    | leaving h =>
      rw [hpc] at h
      cases h
      exact .inr rfl
    | ending h | closing h =>
      rw [hpc] at h
      cases h

/-- Only its own `_register` and `_deregister` change whether a call is registered. -/
theorem Change.registered {Γ : Ctx ε} {s : State ε} {d : Nat} {a : Action} {call call' : Call ε} (h : Change Γ s d a call call')
    (hreg : a ≠ .register d) (hder : a ≠ .deregister d) : call'.registered = call.registered := by
  cases h with
  | refuse _ _ => exact absurd rfl hreg
  | register _ _ => exact absurd rfl hreg
  | move hm => exact hm.keeps.2.2.2.1
  | leave _ => exact absurd rfl hder
  | same _ _ _ | take _ | put _ | fail _ _ => rfl

/-- Only `_take_stream_id` moves the counter. -/
theorem Effect.taken {Γ : Ctx ε} {s s' : State ε} {a : Action} (h : Effect Γ s a s') :
    (s'.nextStreamId = s.nextStreamId ∧ s'.taken = s.taken ∧ ∀ c, a ≠ .takeStreamId c) ∨
    (s'.nextStreamId = nextStreamIdAfter s.nextStreamId ∧ s'.taken = s.taken + 1) := by
  cases h with
  | take _ _ => exact .inr ⟨rfl, rfl⟩
  | move _ _ hm =>
    refine .inl ⟨rfl, rfl, ?_⟩
    rintro c rfl
    cases hm
  | _ => exact .inl ⟨rfl, rfl, nofun⟩

theorem Effect.taken_le {Γ : Ctx ε} {s s' : State ε} {a : Action} (h : Effect Γ s a s') : s.taken ≤ s'.taken := by
  rcases h.taken with ⟨-, h, -⟩ | ⟨-, h⟩ <;> omega

/-- A call leaves its first place only with an id taken from the counter. -/
theorem Change.starting {Γ : Ctx ε} {s : State ε} {d : Nat} {a : Action} {call call' : Call ε} (h : Change Γ s d a call call')
    (hpc : call.pc = .starting) (hpc' : call'.pc ≠ .starting) :
    a = .takeStreamId d ∧ call'.streamId = s.nextStreamId ∧ call'.ordinal = s.taken := by
  cases h with
  | same _ _ _ | put _ | fail _ _ => exact absurd hpc hpc'
  | take _ => exact ⟨rfl, rfl, rfl⟩
  | refuse h _ | register h _ =>
    rw [hpc] at h
    cases h
  | move hm =>
    have := hm.keeps.2.2.2.2.1
    rw [hpc] at this
    cases this
  | leave hl =>
    have := hl.keeps.2.2.2.2.2.1
    rw [hpc] at this
    cases this

/-- A call stays where its variables say it is. -/
theorem Change.placed {Γ : Ctx ε} {s : State ε} {d : Nat} {a : Action} {call call' : Call ε} (hs : Inv s)
    (hc : s.calls[d]? = some call) (h : Change Γ s d a call call') : call'.Placed := by
  have hp := (hs.ok d call hc).placed
  cases h with
  | same _ _ _ => exact hp
  | take hpc =>
    simp only [Call.Placed, hpc] at hp ⊢
    exact hp
  | refuse hpc _ =>
    simp only [Call.Placed, hpc] at hp ⊢
    exact hp.1
  | register hpc _ =>
    simp only [Call.Placed, hpc] at hp ⊢
    exact ⟨trivial, hp.2.2⟩
  | move hm => exact hm.placed hp
  | leave hl => exact hl.placed hp
  | put hr =>
    obtain ⟨x, hx, he, -⟩ := hs.putting _ d hr
    rw [hc] at hx
    cases hx
    exact hp.push he _
  | fail hr hd =>
    obtain ⟨k, hk⟩ := Routes.mem_tasks.1 hd
    obtain ⟨x, hx, hreg, -⟩ := hs.routed k d hk
    rw [hc] at hx
    cases hx
    exact hp.push (hp.entered hreg) _

/-- A call stays in good order. -/
theorem Change.ok {Γ : Ctx ε} {s s' : State ε} {d : Nat} {a : Action} {call call' : Call ε} (hs : Inv s)
    (he : Effect Γ s a s') (hc : s.calls[d]? = some call) (h : Change Γ s d a call call') : call'.Ok s'.taken := by
  have hok := hs.ok d call hc
  have hle := he.taken_le
  obtain ⟨hargs, hkeep, -⟩ := h.keeps
  refine ⟨h.placed hs hc, ?_, ?_⟩
  · intro hv
    rw [hargs] at hv
    obtain ⟨h0, hpc⟩ := hok.conn hv
    obtain ⟨hsid, -, hpc'⟩ := hkeep hpc
    exact ⟨hsid.trans h0, hpc'⟩
  · intro hv hpc'
    rw [hargs] at hv
    by_cases hpc : call.pc = .starting
    · obtain ⟨rfl, hsid, hord⟩ := h.starting hpc hpc'
      rcases he.taken with ⟨-, -, hne⟩ | ⟨-, ht⟩
      · exact absurd rfl (hne d)
      · rw [hsid, hord, ht]
        exact ⟨hs.counter, Nat.lt_succ_self _⟩
    · obtain ⟨hsid, hord, -⟩ := hkeep hpc
      obtain ⟨h1, h2⟩ := hok.op hv hpc
      rw [hsid, hord]
      exact ⟨h1, by omega⟩

/-- The turn of the counter an op call holds after a step: the one it had, or the turn just taken. -/
theorem Change.ordinal {Γ : Ctx ε} {s : State ε} {d : Nat} {a : Action} {call call' : Call ε} (hs : Inv s)
    (hc : s.calls[d]? = some call) (h : Change Γ s d a call call') (hv : call'.args.verb.isOp = true)
    (hpc' : call'.pc ≠ .starting) :
    (call.args.verb.isOp = true ∧ call.pc ≠ .starting ∧ call'.ordinal = call.ordinal ∧ call'.ordinal < s.taken) ∨
    (a = .takeStreamId d ∧ call'.ordinal = s.taken) := by
  obtain ⟨hargs, hkeep, -⟩ := h.keeps
  rw [hargs] at hv
  by_cases hpc : call.pc = .starting
  · obtain ⟨ha, -, hord⟩ := h.starting hpc hpc'
    exact .inr ⟨ha, hord⟩
  · obtain ⟨-, hord, -⟩ := hkeep hpc
    exact .inl ⟨hv, hpc, hord, hord ▸ ((hs.ok d call hc).op hv hpc).2⟩

/-- A call after a step was there before it, or has just begun. -/
theorem Effect.call_before {Γ : Ctx ε} {s s' : State ε} {a : Action} (h : Effect Γ s a s') (hs : Inv s) {d : Nat}
    {call' : Call ε} (hc' : s'.calls[d]? = some call') :
    (∃ call, s.calls[d]? = some call ∧ Change Γ s d a call call') ∨
      ∃ args, a = .start args ∧ s.calls[d]? = none ∧ call' = Call.begin args := by
  rcases effect_calls h hs.tasks_nodup d with ⟨call, x, hc, hx, hch⟩ | ⟨-, hx⟩ | ⟨args, ha, hc, hx⟩
  · rw [hc'] at hx
    cases hx
    exact .inl ⟨call, hc, hch⟩
  · rw [hc'] at hx
    cases hx
  · rw [hc'] at hx
    cases hx
    exact .inr ⟨args, ha, hc, rfl⟩

/-- A call before a step is there after it. -/
theorem Effect.call_after {Γ : Ctx ε} {s s' : State ε} {a : Action} (h : Effect Γ s a s') (hs : Inv s) {d : Nat}
    {call : Call ε} (hc : s.calls[d]? = some call) : ∃ call', s'.calls[d]? = some call' ∧ Change Γ s d a call call' := by
  rcases effect_calls h hs.tasks_nodup d with ⟨x, call', hx, hc', hch⟩ | ⟨hx, -⟩ | ⟨args, -, hx, -⟩
  · rw [hc] at hx
    cases hx
    exact ⟨call', hc', hch⟩
  · rw [hc] at hx
    cases hx
  · rw [hc] at hx
    cases hx

theorem begin_ok (taken : Nat) (args : Args) : (Call.begin args : Call ε).Ok taken := by
  refine ⟨?_, ?_, ?_⟩
  · cases hv : args.verb.isOp <;> simp [Call.Placed, Call.begin, hv]
  · intro hv
    simp only [Call.begin] at hv ⊢
    simp [hv, handshakeStreamId]
  · intro hv hpc
    simp only [Call.begin] at hv hpc
    simp [hv] at hpc

/-- A route after a step was there before it and not the one the step erased, or is the one the step registered. -/
theorem Effect.lookup_before {Γ : Ctx ε} {s s' : State ε} {a : Action} (h : Effect Γ s a s') {k c : Nat}
    (hk : s'.routes.lookup k = some c) :
    (s.routes.lookup k = some c ∧ ∀ d call, a = .deregister d → s.calls[d]? = some call → call.streamId ≠ k) ∨
    (a = .register c ∧ ∃ call, s.calls[c]? = some call ∧ call.streamId = k ∧ s.closedError = none) := by
  cases h with
  | @register c' call hc hpc he =>
    simp only [Routes.lookup_insert_eq] at hk
    by_cases hkey : k = call.streamId
    · rw [if_pos hkey] at hk
      cases hk
      exact .inr ⟨rfl, call, hc, hkey.symm, he⟩
    · rw [if_neg hkey] at hk
      exact .inl ⟨hk, fun _ _ h => nomatch h⟩
  | @deregister c' call call' hc hl =>
    simp only [Routes.lookup_erase_eq] at hk
    by_cases hkey : k = call.streamId
    · rw [if_pos hkey] at hk
      cases hk
    · rw [if_neg hkey] at hk
      refine .inl ⟨hk, ?_⟩
      rintro d x hd hx rfl
      cases hd
      rw [hc] at hx
      cases hx
      exact hkey rfl
  | failAll _ =>
    simp only [Routes.lookup_empty] at hk
    cases hk
  | move _ _ hm =>
    refine .inl ⟨hk, ?_⟩
    rintro d _ rfl
    cases hm
  | _ => exact .inl ⟨hk, fun _ _ h => nomatch h⟩

/-- The route table after a step holds registered calls under their ids. -/
theorem Effect.routed {Γ : Ctx ε} {s s' : State ε} {a : Action} (h : Effect Γ s a s') (hs : Inv s) (k c : Nat)
    (hk : s'.routes.lookup k = some c) : ∃ call : Call ε, s'.calls[c]? = some call ∧ call.registered = true ∧ call.streamId = k := by
  rcases h.lookup_before hk with ⟨hold, hder⟩ | ⟨rfl, call, hc, hsid, he⟩
  · obtain ⟨call, hc, hreg, hsid⟩ := hs.routed k c hold
    obtain ⟨call', hc', hch⟩ := h.call_after hs hc
    have hent := (hs.ok c call hc).placed.entered hreg
    have hpc : call.pc ≠ .starting := by
      intro hpc
      rw [hpc] at hent
      cases hent
    refine ⟨call', hc', ?_, ((hch.keeps.2.1 hpc).1).trans hsid⟩
    by_cases hr : a = .register c
    · subst hr
      cases hch with
      | same hcaller _ _ => exact absurd rfl hcaller
      | refuse hpc _ =>
        rw [hpc] at hent
        cases hent
      | register _ _ => rfl
      | move hm => cases hm
    · by_cases hd : a = .deregister c
      · exact absurd hsid (hder c call hd hc)
      · rw [hch.registered hr hd, hreg]
  · obtain ⟨call', hc', hch⟩ := h.call_after hs hc
    refine ⟨call', hc', ?_⟩
    cases hch with
    | same hcaller _ _ => exact absurd rfl hcaller
    | refuse _ he' =>
      rw [he] at he'
      cases he'
    | register _ _ => exact ⟨rfl, hsid⟩
    | move hm => cases hm

/-- The ids of two op calls come from two turns of the counter, after a step as before it. -/
theorem Effect.ordinals {Γ : Ctx ε} {s s' : State ε} {a : Action} (h : Effect Γ s a s') (hs : Inv s) (c d : Nat)
    (x y : Call ε) (hx : s'.calls[c]? = some x) (hy : s'.calls[d]? = some y) (hvx : x.args.verb.isOp = true)
    (hvy : y.args.verb.isOp = true) (hpx : x.pc ≠ .starting) (hpy : y.pc ≠ .starting) (hord : x.ordinal = y.ordinal) :
    c = d := by
  have hbegin : ∀ args, (Call.begin args : Call ε).args.verb.isOp = true → (Call.begin args : Call ε).pc = .starting := by
    intro args hv
    simp only [Call.begin] at hv ⊢
    rw [if_pos hv]
  rcases h.call_before hs hx with ⟨x₀, hx₀, hchx⟩ | ⟨args, -, -, rfl⟩
  · rcases h.call_before hs hy with ⟨y₀, hy₀, hchy⟩ | ⟨args, -, -, rfl⟩
    · rcases hchx.ordinal hs hx₀ hvx hpx with ⟨hv, hp, ho, hlt⟩ | ⟨hax, hox⟩
      · rcases hchy.ordinal hs hy₀ hvy hpy with ⟨hv', hp', ho', hlt'⟩ | ⟨hay, hoy⟩
        · exact hs.ordinals c d x₀ y₀ hx₀ hy₀ hv hv' hp hp' (by rw [← ho, ← ho', hord])
        · omega
      · rcases hchy.ordinal hs hy₀ hvy hpy with ⟨hv', hp', ho', hlt'⟩ | ⟨hay, hoy⟩
        · omega
        · rw [hax] at hay
          cases hay
          rfl
    · exact absurd (hbegin args hvy) hpy
  · exact absurd (hbegin args hvx) hpx

/-- The invariant holds at the start. -/
theorem inv_init (maxPayloadSize : Nat) : Inv (State.init maxPayloadSize : State ε) where
  counter := rfl
  ok := by
    intro c call hc
    simp [State.init] at hc
  ordinals := by
    intro c d x y hx
    simp [State.init] at hx
  routed := by
    intro k c hk
    cases hk
  stopped := by simp [State.init]
  cleared := by simp [State.init]
  putting := nofun

/-- The invariant is kept by each step. -/
theorem Inv.step {Γ : Ctx ε} {s s' : State ε} {a : Action} (hs : Inv s) (hst : step Γ s a = some s') : Inv s' := by
  have h := step_effect hst
  refine ⟨?_, ?_, h.ordinals hs, h.routed hs, ?_, ?_, ?_⟩
  · rcases h.taken with ⟨h1, h2, -⟩ | ⟨h1, h2⟩
    · rw [h1, h2, hs.counter]
    · rw [h1, h2, hs.counter, nextStreamIdAfter_idAt]
  · intro c call' hc'
    rcases h.call_before hs hc' with ⟨call, hc, hch⟩ | ⟨args, -, -, rfl⟩
    · exact hch.ok hs h hc
    · exact begin_ok s'.taken args
  · have := hs.stopped
    cases h with
    | readFrame hr =>
      simp only [Reader.afterRead]
      split <;> simp_all
    | failAll hr =>
      cases hce : s.closedError <;> simp
    | _ => simp_all [State.setCall]
  · intro hce
    cases h with
    | register hc hpc he => exact absurd he hce
    | deregister hc hl =>
      have := hs.cleared hce
      simp only [this]
      rfl
    | failAll hr => rfl
    | _ => exact hs.cleared hce
  · intro f c hr
    by_cases hr₀ : s.reader = .putting f c
    · obtain ⟨call, hc, hent, hsid⟩ := hs.putting f c hr₀
      obtain ⟨call', hc', hch⟩ := h.call_after hs hc
      obtain ⟨-, hkeep, hent'⟩ := hch.keeps
      have hpc : call.pc ≠ .starting := by
        intro hpc
        rw [hpc] at hent
        cases hent
      exact ⟨call', hc', hent' hent, (hkeep hpc).1.trans hsid⟩
    · cases h with
      | hit hg hl =>
        cases hr
        obtain ⟨call, hc, hreg, hsid⟩ := hs.routed _ _ hl
        exact ⟨call, hc, (hs.ok _ _ hc).placed.entered hreg, hsid⟩
      | readFrame _ =>
        simp only [Reader.afterRead] at hr
        split at hr <;> cases hr
      | readError _ | pong _ _ | miss _ _ | put _ | failAll _ => cases hr
      | _ => exact absurd hr hr₀

/-- The invariant holds in every reachable state. -/
theorem inv_runs {Γ : Ctx ε} {m : Nat} {tr : List Action} {s : State ε} (hr : (mux Γ m).Runs tr s) : Inv s :=
  hr.invariant (inv_init m) (fun _ _ _ hs hst => hs.step hst)

end BrainSdk.Python
