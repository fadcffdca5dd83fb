import BrainSdk.Rust.Invariant

/-!
# What stays in the Rust route table

An entry leaves the table on the requester's error paths, when its last frame is routed, when its `Subscription` is dropped and when the
reader fails. Nothing takes it out when a request future is dropped, so it stays until the stream ends or its id is used again.
-/

namespace BrainSdk.Rust

open Library Wire

variable {ε υ : Type}

/-- No request future exists and no `Subscription` is alive. -/
def State.Quiet (s : State ε υ) : Prop := ∀ task ∈ s.tasks, task.pc.inFlight = false ∧ task.pc.isSubscription = false

/-- The step drops the future of request `c`, whose sender stands under `k`. A dropped `next` leaves its `Subscription` alive. -/
def Abandons (s : State ε υ) (a : Action) (k c : Nat) : Prop :=
  a = .cancel c ∧ s.routes.lookup k = some c ∧ ∃ task, s.tasks[c]? = some task ∧ task.pc.inFlight = true

/-- The step takes what stands under `k` out of the table: the last frame of the stream, a failed read, or a call on the same id. -/
def Clears (s : State ε υ) (k : Nat) : Action → Prop
  | .readFrame f _ => f.opcode ≠ opServerPing ∧ f.streamId = k ∧ f.isEos = true
  | .readError _ => True
  | .register c | .deregister c | .dropSubscription c => ∃ task, s.tasks[c]? = some task ∧ task.streamId.toNat = k
  | _ => False

/-- Some step of the run drops a request future whose sender stands under `k`, and no later step clears `k`. -/
def Leaks (Γ : Ctx ε υ) (m : Nat) (tr : List Action) (k c : Nat) : Prop :=
  ∃ tr' rest s, tr = tr' ++ .cancel c :: rest ∧ (mux Γ m).Runs tr' s ∧ Abandons s (.cancel c) k c ∧
    ∀ before a after t, rest = before ++ a :: after → (mux Γ m).Runs (tr' ++ .cancel c :: before) t → ¬Clears t k a

/-! ### What the table holds -/

/-- A place of a task whose sender may stand in the table: the call has registered, and has not been told that its channel is closed. -/
def Pc.holds : Pc υ → Bool
  | .checking | .locking | .writing _ _ | .receiving | .leaving _ | .opened | .inNext | .cancelled => true
  | _ => false

/-- A holder that is neither a future nor a `Subscription` was cancelled. -/
theorem Pc.cancelled_of_quiet {pc : Pc υ} (hh : pc.holds = true) (hflight : pc.inFlight = false) (hsub : pc.isSubscription = false) :
    pc = .cancelled := by
  cases pc with
  | cancelled => rfl
  | opened | inNext => cases hsub
  | starting | registering | closing | done _ | dropped => cases hh
  | checking | locking | writing _ _ | receiving | leaving _ => cases hflight

/-- The tasks of the table have still to take their entry out, or were cancelled, and no frame in their channels is a last one. A task
that has not registered has no frames. -/
structure Held (s : State ε υ) : Prop where
  owner : ∀ (k c : Nat), s.routes.lookup k = some c →
    ∃ task : Task ε υ, s.tasks[c]? = some task ∧ task.pc.holds = true ∧ ∀ f ∈ task.queue, f.isEos = false
  fresh : ∀ (c : Nat) (task : Task ε υ), s.tasks[c]? = some task → task.pc.entered = false → task.queue = []

theorem held_init (m : Nat) : Held (State.init m : State ε υ) where
  owner := by
    intro k c hk
    cases hk
  fresh := by
    intro c task hc
    simp [State.init] at hc

/-- A call that takes a frame other than the last one off its channel goes on, or is about to take its entry out. -/
theorem collect_holds (Γ : Ctx ε υ) {task : Task ε υ} {f : Frame} (hpc : task.pc = .receiving) (hf : f.isEos = false) :
    (task.collect Γ f).pc.holds = true ∧ (task.collect Γ f).queue = task.queue := by
  unfold Task.collect
  split
  · exact ⟨rfl, rfl⟩
  · refine ⟨?_, ?_⟩ <;> simp [hf, hpc, Pc.holds]

/-- A move of a task whose sender stays in the table keeps it a holder. -/
theorem Move.holds {Γ : Ctx ε υ} {s : State ε υ} {k c : Nat} {task task' : Task ε υ} {a : Action} (h : Move Γ s c task a task')
    (hk : s.routes.lookup k = some c) (hh : task.pc.holds = true) (hq : ∀ f ∈ task.queue, f.isEos = false) :
    task'.pc.holds = true ∧ ∀ f ∈ task'.queue, f.isEos = false := by
  have hmem : c ∈ s.routes.tasks := Routes.mem_tasks.2 ⟨k, hk⟩
  cases h with
  | refuse hpc _ | closedError hpc =>
    rw [hpc] at hh
    cases hh
  | channelClosed _ _ hs | nextNone _ _ hs => exact absurd hmem hs
  | @collect f rest hpc hqueue =>
    rw [hqueue] at hq
    obtain ⟨hh', hq'⟩ := @collect_holds _ _ Γ { task with queue := rest } f hpc (hq f List.mem_cons_self)
    refine ⟨hh', ?_⟩
    rw [hq']
    exact fun g hg => hq g (List.mem_cons_of_mem f hg)
  | @advance f rest hpc hqueue =>
    rw [hqueue] at hq
    exact ⟨rfl, fun g hg => hq g (List.mem_cons_of_mem f hg)⟩
  | nextEnded hpc _ => exact ⟨hh, hq⟩
  | tooLarge _ | checked _ | encodeFailed _ | timeout _ _ _ | next _ _ => exact ⟨rfl, hq⟩

/-- A step that leaves an entry in the table keeps its task a holder. -/
theorem Effect.holds {Γ : Ctx ε υ} {s s' : State ε υ} {a : Action} (h : Effect Γ s a s') (hs : Inv s) {k c : Nat} {task : Task ε υ}
    (hk : s.routes.lookup k = some c) (hk' : s'.routes.lookup k = some c) (hc : s.tasks[c]? = some task)
    (hh : task.pc.holds = true) (hq : ∀ f ∈ task.queue, f.isEos = false) :
    ∃ task', s'.tasks[c]? = some task' ∧ task'.pc.holds = true ∧ ∀ f ∈ task'.queue, f.isEos = false := by
  obtain ⟨task', hc', hch⟩ := h.task_after hc
  have hid : task.streamId.toNat = k := by
    obtain ⟨owner, howner, hid, -⟩ := hs.routed k c hk
    rw [hc] at howner
    cases howner
    exact hid
  have herased : (s.routes.erase k).lookup k ≠ some c := by
    rw [Routes.lookup_erase_eq, if_pos rfl]
    exact nofun
  refine ⟨task', hc', ?_⟩
  cases hch with
  | same _ => exact ⟨hh, hq⟩
  | alloc hpc | register hpc _ =>
    rw [hpc] at hh
    cases hh
  | move hm => exact hm.holds hk hh hq
  | acquire _ _ _ | write _ _ _ | writeError _ => exact ⟨rfl, hq⟩
  | writeAll _ =>
    refine ⟨?_, hq⟩
    rcases written_cases task with ⟨-, hw⟩ | ⟨-, hw⟩ <;> rw [hw] <;> rfl
  | deregister _ =>
    cases h with
    | move _ hm => cases hm
    | deregister hc₀ _ =>
      rw [hc] at hc₀
      cases hc₀
      exact absurd (hid ▸ hk') herased
  | drop _ =>
    cases h with
    | move _ hm => cases hm
    | drop hc₀ _ _ =>
      rw [hc] at hc₀
      cases hc₀
      exact absurd (hid ▸ hk') herased
  | cancel hx => cases hx <;> exact ⟨rfl, hq⟩
  | @deliver f now hl =>
    cases h with
    | move _ hm => cases hm
    | ping _ _ | miss _ _ =>
      rw [hc] at hc'
      obtain hsame := Option.some.inj hc'
      rw [← hsame]
      exact ⟨hh, hq⟩
    | hit _ hl₀ =>
      have hkey : f.streamId = k := by
        obtain ⟨owner, howner, hid', -⟩ := hs.routed _ _ hl
        rw [hc] at howner
        cases howner
        exact hid'.symm.trans hid
      have hlast : f.isEos = false := by
        cases hf : f.isEos with
        | false => rfl
        | true =>
          simp only [hf, if_true, hkey] at hk'
          exact absurd hk' herased
      rw [(deliver_fields f task).2.2.2]
      refine ⟨hh, ?_⟩
      unfold Task.deliver
      split
      · intro g hg
        rcases List.mem_append.1 hg with hg | hg
        · exact hq g hg
        · rw [List.mem_singleton.1 hg]
          exact hlast
      · exact hq

/-- A task that has not registered has no frames after a step. -/
theorem Effect.fresh {Γ : Ctx ε υ} {s s' : State ε υ} {a : Action} (h : Effect Γ s a s') (hs : Inv s) (hheld : Held s) {c : Nat}
    {task' : Task ε υ} (hc' : s'.tasks[c]? = some task') (hent : task'.pc.entered = false) : task'.queue = [] := by
  rcases h.task_before hc' with ⟨task, hc, hch⟩ | ⟨args, -, -, rfl⟩
  · have hbefore : task.pc.entered = false := by
      cases hpc : task.pc.entered with
      | false => rfl
      | true =>
        rw [hch.keeps.2.2 hpc] at hent
        cases hent
    have hqueue := hheld.fresh c task hc hbefore
    cases hch with
    | same _ | alloc _ => exact hqueue
    | move hm =>
      rw [hm.keeps.2.2.2.2] at hent
      cases hent
    | deliver hl =>
      obtain ⟨owner, howner, -, hentered⟩ := hs.routed _ _ hl
      rw [hc] at howner
      cases howner
      rw [hbefore] at hentered
      cases hentered
    | register _ _ | acquire _ _ _ | write _ _ _ | writeError _ | deregister _ | drop _ => cases hent
    | writeAll _ =>
      rcases written_cases task with ⟨-, hw⟩ | ⟨-, hw⟩ <;> simp only [hw] at hent <;> cases hent
    | cancel hx => cases hx <;> cases hent
  · rfl

theorem Held.step {Γ : Ctx ε υ} {s s' : State ε υ} {a : Action} (hheld : Held s) (hs : Inv s) (hst : step Γ s a = some s') : Held s' := by
  have h := step_effect hst
  refine ⟨?_, fun c task hc hent => h.fresh hs hheld hc hent⟩
  intro k c hk'
  rcases h.lookup_before hk' with hk | ⟨rfl, task, hc, -, hpc⟩
  · obtain ⟨task, hc, hh, hq⟩ := hheld.owner k c hk
    exact h.holds hs hk hk' hc hh hq
  · obtain ⟨task', hc', hch⟩ := h.task_after hc
    have hqueue : task.queue = [] := hheld.fresh c task hc (by rw [hpc]; rfl)
    refine ⟨task', hc', ?_⟩
    cases hch with
    | same howner => exact absurd rfl howner
    | register _ _ => exact ⟨rfl, by simp [hqueue]⟩
    | move hm =>
      cases hm with
      | refuse _ hcl =>
        have hempty := (hs.step hst).cleared
        cases h with
        | register _ _ hnone => exact absurd hnone (by rw [hcl]; exact nofun)
        | move _ hm' =>
          cases hm'
          rw [hempty (by simp [State.setTask, hcl])] at hk'
          cases hk'

theorem held_runs {Γ : Ctx ε υ} {m : Nat} {tr : List Action} {s : State ε υ} (hr : (mux Γ m).Runs tr s) : Held s := by
  have hboth : Inv s ∧ Held s :=
    hr.invariant (P := fun s => Inv s ∧ Held s) ⟨inv_init m, held_init m⟩ (fun _ _ _ h hst => ⟨h.1.step hst, h.2.step h.1 hst⟩)
  exact hboth.2

/-! ### How an entry goes -/

/-- A heartbeat leaves the table alone. -/
theorem step_ping {Γ : Ctx ε υ} {s s' : State ε υ} {f : Frame} {now : Nat} (hping : f.opcode = opServerPing)
    (hst : step Γ s (.readFrame f now) = some s') : s'.routes = s.routes := by
  simp only [step, if_pos hping] at hst
  split at hst
  · cases hst
    rfl
  · cases hst

/-- An entry stays in the table until a step clears it. -/
theorem lookup_stays {Γ : Ctx ε υ} {s s' : State ε υ} {a : Action} (hst : step Γ s a = some s') {k c : Nat}
    (hk : s.routes.lookup k = some c) (hclear : ¬Clears s k a) : s'.routes.lookup k = some c := by
  cases step_effect hst with
  | @register d task hd _ _ =>
    have hne : k ≠ task.streamId.toNat := fun heq => hclear ⟨task, hd, heq.symm⟩
    simp only [Routes.lookup_insert_eq, if_neg hne]
    exact hk
  | @deregister d task _ hd _ =>
    have hne : k ≠ task.streamId.toNat := fun heq => hclear ⟨task, hd, heq.symm⟩
    simp only [Routes.lookup_erase_eq, if_neg hne]
    exact hk
  | @drop d task hd _ _ =>
    have hne : k ≠ task.streamId.toNat := fun heq => hclear ⟨task, hd, heq.symm⟩
    simp only [Routes.lookup_erase_eq, if_neg hne]
    exact hk
  | @hit f now d hr hl =>
    by_cases hping : f.opcode = opServerPing
    · rw [step_ping hping hst]
      exact hk
    · simp only
      split
      · rename_i hlast
        have hne : k ≠ f.streamId := fun heq => hclear ⟨hping, heq.symm, hlast⟩
        rw [Routes.lookup_erase_eq, if_neg hne]
        exact hk
      · exact hk
  | readError _ => exact absurd trivial hclear
  | _ => exact hk

/-- A step that clears an id takes the sender of a call that has registered out from under it. -/
theorem lookup_cleared {Γ : Ctx ε υ} {s s' : State ε υ} {a : Action} (hs : Inv s) (hst : step Γ s a = some s') {k c : Nat}
    (hk : s.routes.lookup k = some c) (hclear : Clears s k a) : s'.routes.lookup k ≠ some c := by
  have hempty : (∅ : Routes Nat).lookup k ≠ some c := nofun
  have herased : (s.routes.erase k).lookup k ≠ some c := by
    rw [Routes.lookup_erase_eq, if_pos rfl]
    exact nofun
  obtain ⟨owner, howner, -, hent⟩ := hs.routed k c hk
  cases step_effect hst with
  | @register d task hd hpc _ =>
    obtain ⟨task', hd', hid⟩ := hclear
    rw [hd] at hd'
    cases hd'
    have hne : d ≠ c := by
      rintro rfl
      rw [hd] at howner
      cases howner
      rw [hpc] at hent
      cases hent
    simp only [hid, Routes.lookup_insert_eq, if_true]
    exact fun heq => hne (Option.some.inj heq)
  | @deregister d task _ hd _ =>
    obtain ⟨task', hd', hid⟩ := hclear
    rw [hd] at hd'
    cases hd'
    simp only [hid]
    exact herased
  | @drop d task hd _ _ =>
    obtain ⟨task', hd', hid⟩ := hclear
    rw [hd] at hd'
    cases hd'
    simp only [hid]
    exact herased
  | ping _ hping => exact absurd hping hclear.1
  | miss _ hl =>
    rw [hclear.2.1] at hl
    rw [hk] at hl
    cases hl
  | hit _ _ =>
    simp only [hclear.2.2, if_true, hclear.2.1]
    exact herased
  | readError _ => exact hempty
  | move _ hm =>
    cases hm with
    | refuse _ hcl =>
      rw [hs.cleared (by rw [hcl]; exact nofun)] at hk
      cases hk
    | _ => exact hclear.elim
  | _ => exact hclear.elim

/-! ### Runs -/

/-- A leaked entry is in the table at the end of the run. -/
theorem Leaks.lookup {Γ : Ctx ε υ} {m : Nat} {tr : List Action} {s : State ε υ} {k c : Nat} (hleak : Leaks Γ m tr k c)
    (hr : (mux Γ m).Runs tr s) : s.routes.lookup k = some c := by
  obtain ⟨tr', rest, s₀, rfl, hr₀, ⟨-, hk₀, -⟩, hkept⟩ := hleak
  -- by induction on what the run does after the future was dropped
  induction rest using List.reverseRecOn generalizing s with
  | nil =>
    obtain ⟨t, ht, hst⟩ := (Machine.runs_snoc tr' (.cancel c) s).1 hr
    have hcancel : step Γ s₀ (.cancel c) = some s := ht.unique hr₀ ▸ hst
    exact lookup_stays hcancel hk₀ id
  | append_singleton rest a ih =>
    rw [← List.cons_append, ← List.append_assoc] at hr
    obtain ⟨t, ht, hst⟩ := (Machine.runs_snoc _ a s).1 hr
    have hstep : step Γ t a = some s := hst
    have hearlier : t.routes.lookup k = some c := by
      refine ih ht ?_
      rintro before b after u rfl hu
      exact hkept before b (after ++ [a]) u (by simp) hu
    exact lookup_stays hstep hearlier (hkept rest a [] t rfl ht)

/-- A leak that the next step does not clear is a leak of the longer run. -/
theorem Leaks.snoc {Γ : Ctx ε υ} {m : Nat} {tr : List Action} {s : State ε υ} {a : Action} {k c : Nat} (hleak : Leaks Γ m tr k c)
    (hr : (mux Γ m).Runs tr s) (hclear : ¬Clears s k a) : Leaks Γ m (tr ++ [a]) k c := by
  obtain ⟨tr', rest, s₀, rfl, hr₀, hab, hkept⟩ := hleak
  refine ⟨tr', rest ++ [a], s₀, by simp, hr₀, hab, ?_⟩
  intro before b after t heq ht
  rcases List.eq_nil_or_concat after with rfl | ⟨after', d, rfl⟩
  · obtain ⟨rfl, hb⟩ := List.append_inj' heq rfl
    cases hb
    rw [← hr.unique ht]
    exact hclear
  · have hsplit : rest ++ [a] = (before ++ b :: after') ++ [d] := by rw [heq, List.concat_eq_append]; simp
    obtain ⟨rfl, -⟩ := List.append_inj' hsplit rfl
    exact hkept before b after' t rfl ht

/-- The entry of a call whose future was dropped has leaked. -/
theorem leaks_of_cancelled {Γ : Ctx ε υ} {m : Nat} {tr : List Action} {s : State ε υ} (hr : (mux Γ m).Runs tr s) :
    ∀ {k c : Nat} {task : Task ε υ}, s.routes.lookup k = some c → s.tasks[c]? = some task → task.pc = .cancelled →
      Leaks Γ m tr k c := by
  refine Machine.Runs.rec_on (M := mux Γ m) (P := fun tr s => ∀ {k c : Nat} {task : Task ε υ}, s.routes.lookup k = some c →
    s.tasks[c]? = some task → task.pc = .cancelled → Leaks Γ m tr k c) ?_ ?_ hr
  · intro k c task hk
    cases hk
  · intro tr s a s' hrun ih hst k c task' hk' hc' hpc'
    have h := step_effect hst
    have hs := inv_runs hrun
    have hclear : s.routes.lookup k = some c → ¬Clears s k a := fun hk hclear => lookup_cleared hs hst hk hclear hk'
    rcases h.task_before hc' with ⟨task, hc, hch⟩ | ⟨args, -, -, rfl⟩
    · have hk : s.routes.lookup k = some c := by
        rcases h.lookup_before hk' with hk | ⟨rfl, owner, howner, -, hpc⟩
        · exact hk
        · rw [hc] at howner
          cases howner
          cases hch with
          | same howner => exact absurd rfl howner
          | register _ _ => cases hpc'
          | move hm => cases hm; cases hpc'
      by_cases hpc : task.pc = .cancelled
      · exact (ih hk hc hpc).snoc hrun (hclear hk)
      · have hcancel : a = .cancel c ∧ task.pc.inFlight = true := by
          cases hch with
          | same _ => exact absurd hpc' hpc
          | deliver _ =>
            rw [(deliver_fields _ task).2.2.2] at hpc'
            exact absurd hpc' hpc
          | move hm =>
            cases hm with
            | @collect f rest hrec _ =>
              obtain ⟨-, -, -, hp | ⟨o, hp⟩ | ⟨o, hp⟩⟩ := collect_fields Γ { task with queue := rest } f
              · exact absurd (hp.symm.trans hpc') hpc
              · exact nomatch hp.symm.trans hpc'
              · exact nomatch hp.symm.trans hpc'
            | nextEnded hopened _ => exact absurd hpc' hpc
            | _ => cases hpc'
          | writeAll _ => rcases written_cases task with ⟨-, hw⟩ | ⟨-, hw⟩ <;> exact nomatch hw.symm.trans hpc'
          | cancel hx =>
            cases hx with
            | await hat =>
              refine ⟨rfl, ?_⟩
              rcases hat with hat | hat <;> rw [hat] <;> rfl
            | write hat => exact ⟨rfl, by rw [hat]; rfl⟩
            | next _ => cases hpc'
          | _ => cases hpc'
        obtain ⟨rfl, hflight⟩ := hcancel
        refine ⟨tr, [], s, rfl, hrun, ⟨rfl, hk, task, hc, hflight⟩, ?_⟩
        intro before b after t heq
        simp at heq
    · simp only [Task.begin] at hpc'
      split at hpc' <;> cases hpc'

/-- A table without entries is empty. -/
theorem routes_eq_empty {r : Routes Nat} (h : ∀ k c, r.lookup k ≠ some c) : r = ∅ := by
  refine AList.ext ?_
  cases hr : r.entries with
  | nil => rfl
  | cons e rest =>
    have hmem : e ∈ r.entries := by
      rw [hr]
      exact List.mem_cons_self
    exact absurd (AList.mem_lookup_iff.2 hmem) (h e.1 e.2)

/-- On a quiet connection the table is empty exactly where no entry has leaked. -/
theorem quiet_empty_iff {Γ : Ctx ε υ} {m : Nat} {tr : List Action} {s : State ε υ} (hr : (mux Γ m).Runs tr s) (hq : s.Quiet) :
    s.routes = ∅ ↔ ∀ k c, ¬Leaks Γ m tr k c := by
  constructor
  · intro hempty k c hleak
    have hk := hleak.lookup hr
    rw [hempty] at hk
    cases hk
  · intro hnone
    refine routes_eq_empty ?_
    intro k c hk
    obtain ⟨task, hc, hh, -⟩ := (held_runs hr).owner k c hk
    obtain ⟨hflight, hsub⟩ := hq task (List.mem_of_getElem? hc)
    refine hnone k c (leaks_of_cancelled hr hk hc ?_)
    exact Pc.cancelled_of_quiet hh hflight hsub

/-- A request with an empty payload. -/
def requestArgs : Args := ⟨.request, 0, [], none⟩

/-- A caller drops its request while the request awaits the writer mutex. -/
def droppedRequest : List Action := [.start requestArgs, .allocStreamId 0, .register 0, .check 0, .cancel 0]

/-- A dropped request leaves its entry behind. -/
theorem dropped_leaks :
    ¬∀ (tr : List Action) (s : State Unit Unit), (mux Ctx.refusing maxPayloadBytes).Runs tr s → s.Quiet → s.routes = ∅ := by
  intro h
  have hempty := h droppedRequest _ rfl (by
    intro task htask
    rw [List.mem_singleton.1 htask]
    exact ⟨rfl, rfl⟩)
  exact nomatch congrArg (fun r => r.lookup 1) hempty

/-- In every run that drops no request future whose sender is in the table, the table is empty whenever no request and no `Subscription`
is alive. In any run it is empty then exactly where every sender so dropped has been cleared since. -/
theorem route_table_empty_iff (Γ : Ctx ε υ) (m : Nat) :
    (∀ tr : List Action, (mux Γ m).Meets (fun s a => ∀ k c, ¬Abandons s a k c) tr →
      (mux Γ m).Throughout (fun _ s => s.Quiet → s.routes = ∅) tr) ∧
    ∀ (tr : List Action) (s : State ε υ), (mux Γ m).Runs tr s → s.Quiet → (s.routes = ∅ ↔ ∀ k c, ¬Leaks Γ m tr k c) := by
  refine ⟨?_, fun tr s hr hq => quiet_empty_iff hr hq⟩
  intro tr hm tr' s hpre hr hq
  refine (quiet_empty_iff hr hq).2 ?_
  rintro k c ⟨before, rest, t, rfl, ht, hab, -⟩
  have hstep : before ++ [.cancel c] <+: tr := by
    refine List.IsPrefix.trans ?_ hpre
    exact ⟨rest, by simp⟩
  exact hm before _ t hstep ht k c hab

end BrainSdk.Rust
