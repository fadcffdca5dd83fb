import BrainSdk.Rust.Invariant

/-!
# What the Rust reader leaves behind when it ends

A reader that fails marks the table closed and drops every sender. A reader that is aborted, because the `MuxConnection` was
dropped, does neither, and the table lives on while a `Subscription` holds it.
-/

namespace BrainSdk.Rust

open Library Wire

variable {ε υ : Type}

/-- A live `Subscription`. -/
def Subscribed (s : State ε υ) : Prop :=
  ∃ (c : Nat) (task : Task ε υ), s.tasks[c]? = some task ∧ task.pc.isSubscription = true

/-- The table holds no sender and is marked closed. -/
def Released (s : State ε υ) : Prop := s.routes = ∅ ∧ s.closed ≠ none

/-- Once the reader has ended, the table is released as long as anyone holds it: the connection or a `Subscription`. -/
def EndReleases (s : State ε υ) : Prop :=
  (∃ how, s.reader = .ended how) → s.connected = true ∨ Subscribed s → Released s

/-- The reader is not aborted while there is a live `Subscription`. -/
def NoOrphan (s : State ε υ) (a : Action) : Prop := a = .abort → ¬Subscribed s

/-- A task becomes a `Subscription` only as a `subscribe` in flight. -/
theorem Change.isSubscription {Γ : Ctx ε υ} {s : State ε υ} {d : Nat} {a : Action} {task task' : Task ε υ}
    (h : Change Γ s d task a task') (hsub : task'.pc.isSubscription = true) :
    task.pc.isSubscription = true ∨ (task.args.verb = .subscribe ∧ task.pc.inFlight = true) := by
  cases hf : task.pc.inFlight with
  | false => exact .inl ((h.inFlight hf).2 hsub)
  | true =>
    refine .inr ⟨?_, rfl⟩
    cases h with
    | same _ =>
      unfold Pc.inFlight at hf
      unfold Pc.isSubscription at hsub
      split at hf <;> simp_all
    | deliver _ =>
      rw [(deliver_fields _ task).2.2.2] at hsub
      unfold Pc.inFlight at hf
      unfold Pc.isSubscription at hsub
      split at hf <;> simp_all
    | writeAll hpc =>
      rcases written_cases task with ⟨hv, -⟩ | ⟨-, hw⟩
      · exact hv
      · simp only [hw, Pc.isSubscription] at hsub
        cases hsub
    | move hm =>
      cases hm with
      | @collect f rest hpc _ =>
        obtain ⟨-, -, -, hp | ⟨o, hp⟩ | ⟨o, hp⟩⟩ := collect_fields Γ { task with queue := rest } f <;> rw [hp] at hsub
        · simp only [hpc] at hsub
          cases hsub
        · cases hsub
        · cases hsub
      | advance hpc _ | nextNone hpc _ _ | nextEnded hpc _ | next hpc _ =>
        rw [hpc] at hf
        cases hf
      | _ => cases hsub
    | cancel hx =>
      cases hx with
      | next hpc =>
        rw [hpc] at hf
        cases hf
      | _ => cases hsub
    | _ => cases hsub

/-- A dropped connection gets no new `Subscription`. -/
theorem Effect.subscribed {Γ : Ctx ε υ} {s s' : State ε υ} {a : Action} (h : Effect Γ s a s') (hs : Inv s)
    (hcon : s.connected = false) (hsub : Subscribed s') : Subscribed s := by
  obtain ⟨c, task', hc', hlive⟩ := hsub
  rcases h.task_before hc' with ⟨task, hc, hch⟩ | ⟨args, -, -, rfl⟩
  · rcases hch.isSubscription hlive with hold | ⟨hv, hf⟩
    · exact ⟨c, task, hc, hold⟩
    · rw [hs.borrowed hcon c task hc (by rw [hv]; rfl)] at hf
      cases hf
  · simp only [Task.begin] at hlive
    split at hlive <;> cases hlive

/-- Along a run that meets the condition, an aborted reader leaves no live `Subscription`. -/
theorem not_subscribed_of_aborted {Γ : Ctx ε υ} {m : Nat} {tr : List Action} {s : State ε υ} (hr : (mux Γ m).Runs tr s)
    (hm : (mux Γ m).Meets NoOrphan tr) (ha : s.reader = .ended .aborted) : ¬Subscribed s := by
  have hinit : (mux Γ m).init.reader ≠ .ended .aborted := by simp [mux, State.init]
  refine Machine.Runs.rec_on_meets (C := NoOrphan) (P := fun _ s => s.reader = .ended .aborted → ¬Subscribed s)
    (fun h => absurd h hinit) ?_ hr hm ha
  intro tr s a s' hrun ih horphan hst ha' hsub
  have hs := inv_runs hrun
  have h := step_effect hst
  rcases h.lifecycle with ⟨-, ⟨-, hr'⟩ | hr', -, -⟩ | ⟨e, -, -, rfl⟩ | ⟨-, -, -, rfl⟩ | ⟨rfl, hab, -, rfl⟩
  · exact hr' _ ha'
  · rw [hr'] at ha'
    exact ih ha' (h.subscribed hs (hs.aborting (hs.aborted ha')) hsub)
  · cases ha'
  · exact ih ha' hsub
  · exact horphan rfl hsub

/-- In every run of the Rust mux: after the reader has ended, the table is released for as long as it is held, exactly when the
reader is never aborted while a `Subscription` lives. And a released table keeps no one waiting: `next` on a drained channel returns
`None`, a request or `unsubscribe` that waits on a drained channel is told it has closed, and one that comes to register fails. -/
theorem reader_end_releases_iff (Γ : Ctx ε υ) (m : Nat) {tr : List Action} {s : State ε υ} (hr : (mux Γ m).Runs tr s) :
    ((mux Γ m).Throughout (fun _ s => EndReleases s) tr ↔ (mux Γ m).Meets NoOrphan tr) ∧
    (Released s → ∀ (c : Nat) (task : Task ε υ), s.tasks[c]? = some task →
      (task.pc = .inNext → task.queue = [] →
        step Γ s (.recv c none) = some (s.setTask c { task with outs := task.outs ++ [.none], pc := .opened })) ∧
      (task.pc = .receiving → task.queue = [] → step Γ s (.recv c none) = some (s.setTask c { task with pc := .closing })) ∧
      (task.pc = .registering → ∃ reason, s.closed = some reason ∧ step Γ s (.register c) =
        some (s.setTask c { task with pc := .done (.failed (.protocol s!"connection closed: {reason}")) }))) := by
  constructor
  · refine Machine.throughout_iff_meets (B := fun _ => True) (fun _ _ _ _ h => h) ?_ ?_ hr trivial
    · intro tr s hrun _ hm hend hheld
      have hs := inv_runs hrun
      obtain ⟨how, hhow⟩ := hend
      cases how with
      | failed =>
        have hcl := hs.stopped.2 hhow
        exact ⟨hs.cleared hcl, hcl⟩
      | aborted =>
        rcases hheld with hcon | hsub
        · rw [hs.aborting (hs.aborted hhow)] at hcon
          cases hcon
        · exact absurd hsub (not_subscribed_of_aborted hrun hm hhow)
    · intro tr s a s' hrun _ hst _ horphan hP
      have hs := inv_runs hrun
      unfold NoOrphan at horphan
      push Not at horphan
      obtain ⟨rfl, hsub⟩ := horphan
      have h : Effect Γ s .abort s' := step_effect hst
      cases h with
      | abort _ hno =>
        have hopen : s.closed = none := by
          by_contra hcl
          exact hno _ (hs.stopped.1 hcl)
        exact (hP ⟨_, rfl⟩ (.inr hsub)).2 hopen
      | move _ hm => cases hm
  · rintro ⟨hroutes, hcl⟩ c task hc
    have hno : c ∉ s.routes.tasks := by
      rw [hroutes]
      exact List.not_mem_nil
    obtain ⟨reason, hreason⟩ := Option.ne_none_iff_exists'.1 hcl
    refine ⟨?_, ?_, ?_⟩
    · intro hpc hq
      simp [step, State.onTask, hc, Task.afterRecv, hpc, hq, hno]
    · intro hpc hq
      simp [step, State.onTask, hc, Task.afterRecv, hpc, hq, hno]
    · intro hpc
      refine ⟨reason, hreason, ?_⟩
      simp [step, State.onTask, hc, Task.afterRegister, hpc, hreason]

/-- A `subscribe` up to its return. -/
def openSubscription : List Action :=
  [.start ⟨.subscribe, UInt16.ofNat opSubscribeReq, [], none⟩, .allocStreamId 0, .register 0, .check 0, .acquire 0, .write 0 32]

/-- The table is released when the peer closes the connection under a `Subscription`. -/
theorem closedUnderSubscription_releases :
    ∃ s : State Unit Unit, (mux Ctx.refusing maxPayloadBytes).Runs (openSubscription ++ [.readError .closed]) s ∧
      (mux Ctx.refusing maxPayloadBytes).Throughout (fun _ s => EndReleases s) (openSubscription ++ [.readError .closed]) := by
  have hrun : ∃ s : State Unit Unit, (mux Ctx.refusing maxPayloadBytes).Runs (openSubscription ++ [.readError .closed]) s :=
    ⟨_, rfl⟩
  obtain ⟨s, hr⟩ := hrun
  refine ⟨s, hr, (reader_end_releases_iff Ctx.refusing maxPayloadBytes hr).1.2 (Machine.meets_of_mem ?_)⟩
  rintro a ha s' rfl
  simp [openSubscription] at ha

/-- Dropping the connection under a live `Subscription` ends the reader with the table open and the sender still in it. -/
theorem droppedUnderSubscription_not_released :
    ¬∀ (tr : List Action) (s : State Unit Unit), (mux Ctx.refusing maxPayloadBytes).Runs tr s → EndReleases s := by
  intro h
  have hrun : ∃ (s : State Unit Unit) (task : Task Unit Unit),
      (mux Ctx.refusing maxPayloadBytes).Runs (openSubscription ++ [.dropConnection, .abort]) s ∧
      s.reader = .ended .aborted ∧ s.closed = none ∧ s.tasks[0]? = some task ∧ task.pc.isSubscription = true :=
    ⟨_, _, rfl, rfl, rfl, rfl, rfl⟩
  obtain ⟨s, task, hr, hend, hopen, hc, hsub⟩ := hrun
  exact (h _ s hr ⟨_, hend⟩ (.inr ⟨0, task, hc, hsub⟩)).2 hopen

end BrainSdk.Rust
