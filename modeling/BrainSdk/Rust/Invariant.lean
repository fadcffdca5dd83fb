import BrainSdk.Rust.Effects

/-!
# The invariant of the Rust mux

What every reachable state of the connection keeps: each task holds the id of its own turn of the counter, the table holds the
senders of tasks that registered under the key, the table is closed and empty once the reader has failed, and no call borrows a
connection that was dropped.
-/

namespace BrainSdk.Rust

open Library Wire

variable {ε υ : Type}

/-- A task past `register`. -/
def Pc.entered : Pc υ → Bool
  | .starting | .registering => false
  | _ => true

/-- The stream id of a task, on a connection that has handed out `taken` ids: `request_on_connection` uses stream 0, and any other
call the id of its own turn of the counter. -/
structure Task.Ok (taken : Nat) (task : Task ε υ) : Prop where
  conn : task.args.verb = .requestOnConnection → task.streamId = 0 ∧ task.pc ≠ .starting
  op : task.args.verb ≠ .requestOnConnection → task.pc ≠ .starting →
    task.streamId.toNat = idAt task.ordinal ∧ task.ordinal < taken

/-- The invariant. -/
structure Inv (s : State ε υ) : Prop where
  counter : s.nextStreamId.toNat = idAt s.taken
  ok : ∀ (c : Nat) (task : Task ε υ), s.tasks[c]? = some task → task.Ok s.taken
  routed : ∀ (k c : Nat), s.routes.lookup k = some c →
    ∃ task : Task ε υ, s.tasks[c]? = some task ∧ task.streamId.toNat = k ∧ task.pc.entered = true
  stopped : s.closed ≠ none ↔ s.reader = .ended .failed
  cleared : s.closed ≠ none → s.routes = ∅
  aborting : s.aborting = true → s.connected = false
  aborted : s.reader = .ended .aborted → s.aborting = true
  borrowed : s.connected = false → ∀ (c : Nat) (task : Task ε υ), s.tasks[c]? = some task →
    task.args.verb.onConnection = true → task.pc.inFlight = false

theorem collect_fields (Γ : Ctx ε υ) (task : Task ε υ) (f : Frame) :
    (task.collect Γ f).args = task.args ∧ (task.collect Γ f).streamId = task.streamId ∧
    (task.collect Γ f).ordinal = task.ordinal ∧ ((task.collect Γ f).pc = task.pc ∨
      (∃ o, (task.collect Γ f).pc = .leaving o) ∨ ∃ o, (task.collect Γ f).pc = .done o) := by
  unfold Task.collect
  split
  · exact ⟨rfl, rfl, rfl, .inr (.inl ⟨_, rfl⟩)⟩
  · split
    · exact ⟨rfl, rfl, rfl, .inr (.inr ⟨_, rfl⟩)⟩
    · exact ⟨rfl, rfl, rfl, .inl rfl⟩

/-- A delivered frame changes nothing but the queue. -/
theorem deliver_fields (f : Frame) (task : Task ε υ) :
    (task.deliver f).args = task.args ∧ (task.deliver f).streamId = task.streamId ∧
    (task.deliver f).ordinal = task.ordinal ∧ (task.deliver f).pc = task.pc := by
  unfold Task.deliver
  split <;> exact ⟨rfl, rfl, rfl, rfl⟩

theorem written_cases (task : Task ε υ) :
    (task.args.verb = .subscribe ∧ task.written = .opened) ∨ (task.args.verb ≠ .subscribe ∧ task.written = .receiving) := by
  unfold Task.written
  by_cases hv : task.args.verb = .subscribe
  · exact .inl ⟨hv, if_pos hv⟩
  · exact .inr ⟨hv, if_neg hv⟩

/-- A move keeps what names a task, and the task is past `register` after it. -/
theorem Move.keeps {Γ : Ctx ε υ} {s : State ε υ} {c : Nat} {task task' : Task ε υ} {a : Action} (h : Move Γ s c task a task') :
    task'.args = task.args ∧ task'.streamId = task.streamId ∧ task'.ordinal = task.ordinal ∧ task.pc ≠ .starting ∧
    task'.pc.entered = true := by
  cases h with
  | @collect f rest hpc _ =>
    obtain ⟨h1, h2, h3, hp | ⟨o, hp⟩ | ⟨o, hp⟩⟩ := collect_fields Γ { task with queue := rest } f
    · exact ⟨h1, h2, h3, by rw [hpc]; exact nofun, by rw [hp, hpc]; rfl⟩
    · exact ⟨h1, h2, h3, by rw [hpc]; exact nofun, by rw [hp]; rfl⟩
    · exact ⟨h1, h2, h3, by rw [hpc]; exact nofun, by rw [hp]; rfl⟩
  | nextEnded hpc _ => exact ⟨rfl, rfl, rfl, by rw [hpc]; exact nofun, by rw [hpc]; rfl⟩
  | refuse hpc _ | tooLarge hpc | checked hpc | encodeFailed hpc | channelClosed hpc _ _ | advance hpc _ | nextNone hpc _ _
  | timeout hpc _ _ | closedError hpc | next hpc _ => exact ⟨rfl, rfl, rfl, by rw [hpc]; exact nofun, rfl⟩

/-- A step keeps the arguments of a task and, once it is past `alloc_stream_id`, its id; a task past `register` stays so. -/
theorem Change.keeps {Γ : Ctx ε υ} {s : State ε υ} {d : Nat} {a : Action} {task task' : Task ε υ}
    (h : Change Γ s d task a task') :
    task'.args = task.args ∧
    (task.pc ≠ .starting → task'.streamId = task.streamId ∧ task'.ordinal = task.ordinal ∧ task'.pc ≠ .starting) ∧
    (task.pc.entered = true → task'.pc.entered = true) := by
  have hne : ∀ pc : Pc υ, pc.entered = true → pc ≠ .starting := by
    rintro pc hent rfl
    cases hent
  cases h with
  | same _ => exact ⟨rfl, fun h => ⟨rfl, rfl, h⟩, id⟩
  | alloc hpc => exact ⟨rfl, fun h => absurd hpc h, by rw [hpc]; nofun⟩
  | move hm =>
    obtain ⟨h1, h2, h3, -, h5⟩ := hm.keeps
    exact ⟨h1, fun _ => ⟨h2, h3, hne _ h5⟩, fun _ => h5⟩
  | writeAll hpc =>
    have hent : task.written.entered = true := by
      rcases written_cases task with ⟨-, hw⟩ | ⟨-, hw⟩ <;> rw [hw] <;> rfl
    exact ⟨rfl, fun _ => ⟨rfl, rfl, hne _ hent⟩, fun _ => hent⟩
  | cancel hx => cases hx <;> exact ⟨rfl, fun _ => ⟨rfl, rfl, nofun⟩, fun _ => rfl⟩
  | deliver _ =>
    obtain ⟨h1, h2, h3, h4⟩ := deliver_fields ‹Frame› task
    rw [h4]
    exact ⟨h1, fun h => ⟨h2, h3, h⟩, id⟩
  | register _ _ | acquire _ _ _ | write _ _ _ | writeError _ | deregister _ | drop _ =>
    exact ⟨rfl, fun _ => ⟨rfl, rfl, nofun⟩, fun _ => rfl⟩

/-- A task leaves its first place only with an id taken from the counter. -/
theorem Change.starting {Γ : Ctx ε υ} {s : State ε υ} {d : Nat} {a : Action} {task task' : Task ε υ}
    (h : Change Γ s d task a task') (hpc : task.pc = .starting) (hpc' : task'.pc ≠ .starting) :
    a = .allocStreamId d ∧ task'.streamId = s.nextStreamId ∧ task'.ordinal = s.taken := by
  cases h with
  | same _ => exact absurd hpc hpc'
  | alloc _ => exact ⟨rfl, rfl, rfl⟩
  | move hm => exact absurd hpc hm.keeps.2.2.2.1
  | deliver _ => exact absurd ((deliver_fields _ task).2.2.2.trans hpc) hpc'
  | cancel hx =>
    cases hx with
    | await h => exact absurd h (by rw [hpc]; rintro (h | h) <;> exact nomatch h)
    | write h | next h => exact nomatch hpc.symm.trans h
  | register h _ | acquire h _ _ | write h _ _ | writeAll h | writeError h | deregister h | drop h =>
    exact nomatch hpc.symm.trans h

/-- A future that is no longer in flight does not come back. -/
theorem Change.inFlight {Γ : Ctx ε υ} {s : State ε υ} {d : Nat} {a : Action} {task task' : Task ε υ}
    (h : Change Γ s d task a task') (hf : task.pc.inFlight = false) :
    task'.pc.inFlight = false ∧ (task'.pc.isSubscription = true → task.pc.isSubscription = true) := by
  have hno : ∀ pc : Pc υ, pc.inFlight = true → task.pc ≠ pc := by
    rintro pc hpc rfl
    rw [hf] at hpc
    cases hpc
  cases h with
  | same _ => exact ⟨hf, id⟩
  | deliver _ =>
    rw [(deliver_fields _ task).2.2.2]
    exact ⟨hf, id⟩
  | move hm =>
    cases hm with
    | advance hpc _ | nextNone hpc _ _ | next hpc _ => exact ⟨rfl, fun _ => by rw [hpc]; rfl⟩
    | nextEnded hpc _ => exact ⟨hf, id⟩
    | refuse hpc _ | tooLarge hpc | checked hpc | encodeFailed hpc | collect hpc _ | channelClosed hpc _ _ | timeout hpc _ _
    | closedError hpc => exact absurd hpc (hno _ rfl)
  | cancel hx =>
    cases hx with
    | await hpc => exact absurd hpc (by rintro (h | h) <;> exact hno _ rfl h)
    | write hpc => exact absurd hpc (hno _ rfl)
    | next hpc => exact ⟨rfl, fun _ => by rw [hpc]; rfl⟩
  | drop _ => exact ⟨rfl, nofun⟩
  | alloc hpc | register hpc _ | acquire hpc _ _ | write hpc _ _ | writeAll hpc | writeError hpc | deregister hpc =>
    exact absurd hpc (hno _ rfl)

/-- Only `alloc_stream_id` moves the counter. -/
theorem Effect.taken {Γ : Ctx ε υ} {s s' : State ε υ} {a : Action} (h : Effect Γ s a s') :
    (s'.nextStreamId = s.nextStreamId ∧ s'.taken = s.taken ∧ ∀ c, a ≠ .allocStreamId c) ∨
    (s'.nextStreamId = nextStreamIdAfter s.nextStreamId ∧ s'.taken = s.taken + 1) := by
  cases h with
  | alloc _ _ => exact .inr ⟨rfl, rfl⟩
  | move _ hm =>
    refine .inl ⟨rfl, rfl, ?_⟩
    rintro c rfl
    cases hm
  | _ => exact .inl ⟨rfl, rfl, nofun⟩

/-- A task keeps the id of its own turn. -/
theorem Change.ok {Γ : Ctx ε υ} {s s' : State ε υ} {d : Nat} {a : Action} {task task' : Task ε υ} (hs : Inv s)
    (he : Effect Γ s a s') (hd : s.tasks[d]? = some task) (h : Change Γ s d task a task') : task'.Ok s'.taken := by
  have hok := hs.ok d task hd
  obtain ⟨hargs, hkeep, -⟩ := h.keeps
  constructor
  · intro hv
    rw [hargs] at hv
    obtain ⟨h0, hpc⟩ := hok.conn hv
    obtain ⟨hid, -, hpc'⟩ := hkeep hpc
    exact ⟨hid.trans h0, hpc'⟩
  · intro hv hpc'
    rw [hargs] at hv
    by_cases hpc : task.pc = .starting
    · obtain ⟨rfl, hid, hord⟩ := h.starting hpc hpc'
      rcases he.taken with ⟨-, -, hne⟩ | ⟨-, ht⟩
      · exact absurd rfl (hne d)
      · rw [hid, hord, ht]
        exact ⟨hs.counter, Nat.lt_succ_self _⟩
    · obtain ⟨hid, hord, -⟩ := hkeep hpc
      obtain ⟨h1, h2⟩ := hok.op hv hpc
      rw [hid, hord]
      refine ⟨h1, ?_⟩
      rcases he.taken with ⟨-, ht, -⟩ | ⟨-, ht⟩ <;> omega

theorem begin_ok (taken : Nat) (args : Args) : (Task.begin args : Task ε υ).Ok taken := by
  unfold Task.begin
  constructor
  · intro hv
    refine ⟨rfl, ?_⟩
    simp only at hv
    simp [hv]
  · intro hv hpc
    simp only [if_neg hv] at hpc
    exact absurd rfl hpc

/-- A route after a step was there before it, or is the one the step registered. -/
theorem Effect.lookup_before {Γ : Ctx ε υ} {s s' : State ε υ} {a : Action} (h : Effect Γ s a s') {k c : Nat}
    (hk : s'.routes.lookup k = some c) :
    s.routes.lookup k = some c ∨
    (a = .register c ∧ ∃ task, s.tasks[c]? = some task ∧ task.streamId.toNat = k ∧ task.pc = .registering) := by
  have herase : ∀ k₀, (s.routes.erase k₀).lookup k = some c → s.routes.lookup k = some c := by
    intro k₀ hk
    rw [Routes.lookup_erase_eq] at hk
    split at hk
    · cases hk
    · exact hk
  cases h with
  | @register c' task hc hpc hcl =>
    simp only [Routes.lookup_insert_eq] at hk
    by_cases hkey : k = task.streamId.toNat
    · rw [if_pos hkey] at hk
      obtain rfl := Option.some.inj hk
      exact .inr ⟨rfl, task, hc, hkey.symm, hpc⟩
    · rw [if_neg hkey] at hk
      exact .inl hk
  | deregister _ _ => exact .inl (herase _ hk)
  | drop _ _ _ => exact .inl (herase _ hk)
  | hit _ _ =>
    simp only at hk
    split at hk
    · exact .inl (herase _ hk)
    · exact .inl hk
  | readError _ =>
    simp only [Routes.lookup_empty] at hk
    cases hk
  | _ => exact .inl hk

theorem pc_ne_starting_of_entered {pc : Pc υ} (h : pc.entered = true) : pc ≠ .starting := by
  rintro rfl
  cases h

/-- The table after a step holds the senders of tasks that registered under the key. -/
theorem Effect.routed {Γ : Ctx ε υ} {s s' : State ε υ} {a : Action} (h : Effect Γ s a s') (hs : Inv s) (k c : Nat)
    (hk : s'.routes.lookup k = some c) :
    ∃ task : Task ε υ, s'.tasks[c]? = some task ∧ task.streamId.toNat = k ∧ task.pc.entered = true := by
  rcases h.lookup_before hk with hold | ⟨rfl, task, hc, hid, hpc⟩
  · obtain ⟨task, hc, hid, hent⟩ := hs.routed k c hold
    obtain ⟨task', hc', hch⟩ := h.task_after hc
    obtain ⟨-, hkeep, hent'⟩ := hch.keeps
    exact ⟨task', hc', by rw [(hkeep (pc_ne_starting_of_entered hent)).1, hid], hent' hent⟩
  · obtain ⟨task', hc', hch⟩ := h.task_after hc
    refine ⟨task', hc', ?_⟩
    cases hch with
    | same howner => exact absurd rfl howner
    | register _ _ => exact ⟨hid, rfl⟩
    | move hm =>
      obtain ⟨-, hid', -, -, hent⟩ := hm.keeps
      exact ⟨by rw [hid', hid], hent⟩

theorem inv_init (maxPayloadSize : Nat) : Inv (State.init maxPayloadSize : State ε υ) where
  counter := rfl
  ok := by
    intro c task hc
    simp [State.init] at hc
  routed := by
    intro k c hk
    cases hk
  stopped := by simp [State.init]
  cleared := by simp [State.init]
  aborting := nofun
  aborted := nofun
  borrowed := nofun

/-- What a step does to the table's mark, the reader and the connection, besides the steps that are about them. -/
theorem Effect.lifecycle {Γ : Ctx ε υ} {s s' : State ε υ} {a : Action} (h : Effect Γ s a s') :
    (s'.closed = s.closed ∧ ((∀ how, s.reader ≠ .ended how) ∧ (∀ how, s'.reader ≠ .ended how) ∨ s'.reader = s.reader) ∧
      s'.connected = s.connected ∧ s'.aborting = s.aborting) ∨
    (∃ e, a = .readError e ∧ s.reader = .reading ∧
      s' = { s with closed := some e.display, routes := ∅, reader := .ended .failed }) ∨
    (a = .dropConnection ∧ s.connected = true ∧
      (∀ t ∈ s.tasks, t.args.verb.onConnection = true → t.pc.inFlight = false) ∧
      s' = { s with connected := false, aborting := true }) ∨
    (a = .abort ∧ s.aborting = true ∧ (∀ how, s.reader ≠ .ended how) ∧
      s' = { s with reader := .ended .aborted, lock := release s.lock .reader }) := by
  cases h with
  | readError hr => exact .inr (.inl ⟨_, rfl, hr, rfl⟩)
  | dropConnection hcon hu => exact .inr (.inr (.inl ⟨rfl, hcon, hu, rfl⟩))
  | abort ha hr => exact .inr (.inr (.inr ⟨rfl, ha, hr, rfl⟩))
  | ping hr _ | pongFailed hr | acquirePong hr _ _ | writePong hr _ _ _ | writePongAll hr _ _ | writePongError hr =>
    exact .inl ⟨rfl, .inl ⟨fun how => by rw [hr]; exact nofun, fun how => nofun⟩, rfl, rfl⟩
  | _ => exact .inl ⟨rfl, .inr rfl, rfl, rfl⟩

/-- The invariant is kept by each step. -/
theorem Inv.step {Γ : Ctx ε υ} {s s' : State ε υ} {a : Action} (hs : Inv s) (hst : step Γ s a = some s') : Inv s' := by
  have h := step_effect hst
  have hlife := h.lifecycle
  refine ⟨?_, ?_, h.routed hs, ?_, ?_, ?_, ?_, ?_⟩
  · rcases h.taken with ⟨h1, h2, -⟩ | ⟨h1, h2⟩
    · rw [h1, h2, hs.counter]
    · rw [h1, h2, nextStreamIdAfter_idAt hs.counter]
  · intro c task' hc'
    rcases h.task_before hc' with ⟨task, hc, hch⟩ | ⟨args, -, -, rfl⟩
    · exact hch.ok hs h hc
    · exact begin_ok s'.taken args
  · rcases hlife with ⟨hcl, ⟨hr, hr'⟩ | hr, -, -⟩ | ⟨e, -, -, rfl⟩ | ⟨-, -, -, rfl⟩ | ⟨-, -, hr, rfl⟩
    · rw [hcl]
      exact ⟨fun hne => absurd (hs.stopped.1 hne) (hr _), fun he => absurd he (hr' _)⟩
    · rw [hcl, hr]
      exact hs.stopped
    · simp
    · exact hs.stopped
    · exact ⟨fun hne => absurd (hs.stopped.1 hne) (hr _), nofun⟩
  · intro hcl'
    cases h with
    | register _ _ hcl => exact absurd hcl hcl'
    | readError _ => rfl
    | deregister _ _ | drop _ _ _ =>
      have := hs.cleared hcl'
      simp only [this]
      rfl
    | hit hr _ =>
      have := hs.stopped.1 hcl'
      rw [hr] at this
      cases this
    | _ => exact hs.cleared hcl'
  · rcases hlife with ⟨-, -, hcon, hab⟩ | ⟨e, -, -, rfl⟩ | ⟨-, -, -, rfl⟩ | ⟨-, -, -, rfl⟩
    · rw [hcon, hab]
      exact hs.aborting
    · exact hs.aborting
    · exact fun _ => rfl
    · exact hs.aborting
  · rcases hlife with ⟨-, ⟨-, hr'⟩ | hr, -, hab⟩ | ⟨e, -, -, rfl⟩ | ⟨-, -, -, rfl⟩ | ⟨-, hab, -, rfl⟩
    · exact fun he => absurd he (hr' _)
    · rw [hr, hab]
      exact hs.aborted
    · exact nofun
    · exact fun _ => rfl
    · exact fun _ => hab
  · intro hcon' c task' hc' hv'
    rcases h.task_before hc' with ⟨task, hc, hch⟩ | ⟨args, ⟨rfl, hcon⟩ | ⟨target, rfl, hv⟩, -, rfl⟩
    · rw [hch.keeps.1] at hv'
      refine (hch.inFlight ?_).1
      rcases hlife with ⟨-, -, hcon, -⟩ | ⟨e, -, -, rfl⟩ | ⟨-, -, hu, rfl⟩ | ⟨-, -, -, rfl⟩
      · exact hs.borrowed (hcon ▸ hcon') c task hc hv'
      · exact hs.borrowed hcon' c task hc hv'
      · exact hu task (List.mem_of_getElem? hc) hv'
      · exact hs.borrowed hcon' c task hc hv'
    · cases h
      · exact absurd hcon (by simpa using hcon')
      · rename_i hm
        cases hm
    · rw [show (Task.begin args : Task ε υ).args = args from rfl, hv] at hv'
      cases hv'

/-- The invariant holds in every reachable state. -/
theorem inv_runs {Γ : Ctx ε υ} {m : Nat} {tr : List Action} {s : State ε υ} (hr : (mux Γ m).Runs tr s) : Inv s :=
  hr.invariant (inv_init m) (fun _ _ _ hs hst => hs.step hst)

end BrainSdk.Rust
