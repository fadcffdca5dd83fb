import BrainSdk.Rust.Invariant

/-!
# The channels of the Rust mux

Up to `2 ^ 31` stream ids no two op tasks share one, so the sender under the id of an op task is its own, and it is removed only by the task
itself, by the last frame of its stream, or by the end of the reader.
-/

namespace BrainSdk.Rust

open Library Wire

variable {ε υ : Type}

/-- No two op tasks have the same turn of the counter. -/
def Distinct (s : State ε υ) : Prop :=
  ∀ (c d : Nat) (x y : Task ε υ), s.tasks[c]? = some x → s.tasks[d]? = some y → x.args.verb ≠ .requestOnConnection →
    y.args.verb ≠ .requestOnConnection → x.pc ≠ .starting → y.pc ≠ .starting → x.ordinal = y.ordinal → c = d

/-- An op task that has its turn had it before the step, or has taken the next one. -/
theorem Effect.turn_before {Γ : Ctx ε υ} {s s' : State ε υ} {a : Action} (h : Effect Γ s a s') {d : Nat} {task' : Task ε υ}
    (hd : s'.tasks[d]? = some task') (hv : task'.args.verb ≠ .requestOnConnection) (hpc : task'.pc ≠ .starting) :
    (∃ task, s.tasks[d]? = some task ∧ task.args = task'.args ∧ task.pc ≠ .starting ∧ task'.ordinal = task.ordinal) ∨
    (a = .allocStreamId d ∧ task'.ordinal = s.taken) := by
  rcases h.task_before hd with ⟨task, ht, hch⟩ | ⟨args, -, -, rfl⟩
  · obtain ⟨hargs, hkeep, -⟩ := hch.keeps
    by_cases hstart : task.pc = .starting
    · obtain ⟨ha, -, hord⟩ := hch.starting hstart hpc
      exact .inr ⟨ha, hord⟩
    · exact .inl ⟨task, ht, hargs.symm, hstart, (hkeep hstart).2.1⟩
  · have hbegin : (Task.begin args : Task ε υ).pc = .starting := if_neg hv
    exact absurd hbegin hpc

theorem Distinct.step {Γ : Ctx ε υ} {s s' : State ε υ} {a : Action} (h : Distinct s) (hs : Inv s) (hst : step Γ s a = some s') :
    Distinct s' := by
  have he := step_effect hst
  intro c d x y hx hy hvx hvy hpx hpy hord
  rcases he.turn_before hx hvx hpx with ⟨x₀, hx₀, hax, hpx₀, hox⟩ | ⟨hac, hox⟩ <;>
    rcases he.turn_before hy hvy hpy with ⟨y₀, hy₀, hay, hpy₀, hoy⟩ | ⟨had, hoy⟩
  · exact h c d x₀ y₀ hx₀ hy₀ (by rwa [hax]) (by rwa [hay]) hpx₀ hpy₀ (by rw [← hox, ← hoy, hord])
  · have hlt := ((hs.ok c x₀ hx₀).op (by rwa [hax]) hpx₀).2
    omega
  · have hlt := ((hs.ok d y₀ hy₀).op (by rwa [hay]) hpy₀).2
    omega
  · rw [hac] at had
    cases had
    rfl

theorem distinct_runs {Γ : Ctx ε υ} {m : Nat} {tr : List Action} {s : State ε υ} (hr : (mux Γ m).Runs tr s) : Distinct s := by
  have hboth : Inv s ∧ Distinct s := by
    refine hr.invariant (P := fun s => Inv s ∧ Distinct s) ⟨inv_init m, ?_⟩ ?_
    case refine_2 => exact fun _ _ _ hs hst => ⟨hs.1.step hst, hs.2.step hs.1 hst⟩
    intro c d x y hx
    cases hx
  exact hboth.2

/-- A task with the stream id of an op task is that task. -/
theorem Inv.same_id {s : State ε υ} (hs : Inv s) (hd : Distinct s) (hn : s.taken ≤ 2 ^ 31) {c d : Nat} {x y : Task ε υ}
    (hx : s.tasks[c]? = some x) (hy : s.tasks[d]? = some y) (hv : x.args.verb ≠ .requestOnConnection) (hpx : x.pc ≠ .starting)
    (hpy : y.pc ≠ .starting) (hid : y.streamId.toNat = x.streamId.toNat) : d = c := by
  obtain ⟨hidx, hltx⟩ := (hs.ok c x hx).op hv hpx
  by_cases hvy : y.args.verb = .requestOnConnection
  · have h0 := ((hs.ok d y hy).conn hvy).1
    have hzero : idAt x.ordinal = 0 := by rw [← hidx, ← hid, h0, UInt32.toNat_zero]
    exact absurd hzero (idAt_ne_zero _)
  · obtain ⟨hidy, hlty⟩ := (hs.ok d y hy).op hvy hpy
    have hord : y.ordinal = x.ordinal := idAt_inj (by omega) (by omega) (hidy.symm.trans (hid.trans hidx))
    exact hd d c y x hy hx hvy hv hpy hpx hord

/-- The sender under the id of an op task is its own. -/
theorem Inv.owner {s : State ε υ} (hs : Inv s) (hd : Distinct s) (hn : s.taken ≤ 2 ^ 31) {c d : Nat} {task : Task ε υ}
    (hc : s.tasks[c]? = some task) (hv : task.args.verb ≠ .requestOnConnection) (hpc : task.pc ≠ .starting)
    (hl : s.routes.lookup task.streamId.toNat = some d) : d = c := by
  obtain ⟨other, ho, hid, hent⟩ := hs.routed _ d hl
  exact hs.same_id hd hn hc ho hv hpc (pc_ne_starting_of_entered hent) hid

/-- A connection that is open after a step was open before it. -/
theorem Effect.closed_none {Γ : Ctx ε υ} {s s' : State ε υ} {a : Action} (h : Effect Γ s a s') (hcl : s'.closed = none) :
    s.closed = none := by
  cases h with
  | readError _ => cases hcl
  | _ => exact hcl

end BrainSdk.Rust
