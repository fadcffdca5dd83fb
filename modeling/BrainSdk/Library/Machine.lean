import Mathlib.Data.List.Infix

/-!
# Machines and their runs

A machine has an initial state and a partial step; whatever the environment chooses (a scheduler, a peer, a clock) is part of the
action, so a step is a function. A run is a list of actions that are all enabled, each in the state its predecessors left. The
rules below turn what one step keeps into what every run keeps, also for the runs whose every step meets a condition.
-/

namespace BrainSdk.Library

/-- A machine: where it starts, and what each action does in each state (`none` when the action is not enabled). -/
structure Machine (σ α : Type) where
  init : σ
  step : σ → α → Option σ

namespace Machine

variable {σ α : Type} {M : Machine σ α}

/-- The state a list of actions leads to from a state, when every action is enabled. -/
def exec (M : Machine σ α) (s : σ) : List α → Option σ
  | [] => some s
  | a :: tr => (M.step s a).bind (fun s' => M.exec s' tr)

/-- The trace `tr` is a run of the machine and ends in `s`. -/
def Runs (M : Machine σ α) (tr : List α) (s : σ) : Prop := M.exec M.init tr = some s

/-- Every action of the run is taken in a state where `C` allows it. -/
def Meets (M : Machine σ α) (C : σ → α → Prop) (tr : List α) : Prop :=
  ∀ tr' a s, tr' ++ [a] <+: tr → M.Runs tr' s → C s a

/-- The run has a step that `R` singles out. -/
def Took (M : Machine σ α) (R : σ → α → Prop) (tr : List α) : Prop := ∃ tr' a s, tr' ++ [a] <+: tr ∧ M.Runs tr' s ∧ R s a

/-- Every state the run passes through satisfies `P`, the last one included; `P` may speak of the run that led there. -/
def Throughout (M : Machine σ α) (P : List α → σ → Prop) (tr : List α) : Prop :=
  ∀ tr' s, tr' <+: tr → M.Runs tr' s → P tr' s

/-- Some state the run passes through satisfies `P`. -/
def Was (M : Machine σ α) (P : σ → Prop) (tr : List α) : Prop := ∃ tr' s, tr' <+: tr ∧ M.Runs tr' s ∧ P s

/-- From `s`, `a` taken over and over leads to `P` after at most so many times. -/
def Settles (M : Machine σ α) (a : α) (turns : Nat) (s : σ) (P : σ → Prop) : Prop :=
  ∃ k ≤ turns, ∃ s', M.exec s (List.replicate k a) = some s' ∧ P s'

theorem exec_append (s : σ) (tr tr' : List α) : M.exec s (tr ++ tr') = (M.exec s tr).bind (fun t => M.exec t tr') := by
  induction tr generalizing s with
  | nil => rfl
  | cons a tr ih =>
    simp only [List.cons_append, exec]
    cases M.step s a with
    | none => rfl
    | some t => simp only [Option.bind_some, ih]

theorem exec_singleton (s : σ) (a : α) : M.exec s [a] = M.step s a := by
  simp only [exec]
  cases M.step s a <;> rfl

theorem settles_of_step {s s' : σ} {a : α} {P : σ → Prop} (hst : M.step s a = some s') (h : P s') : M.Settles a 1 s P :=
  ⟨1, Nat.le_refl 1, s', (exec_singleton s a).trans hst, h⟩

theorem Settles.succ {s s' : σ} {a : α} {turns : Nat} {P : σ → Prop} (hst : M.step s a = some s') (h : M.Settles a turns s' P) :
    M.Settles a (turns + 1) s P := by
  obtain ⟨k, hk, t, hexec, hP⟩ := h
  refine ⟨k + 1, Nat.succ_le_succ hk, t, ?_, hP⟩
  rw [List.replicate_succ, exec, hst]
  exact hexec

theorem Settles.mono {s : σ} {a : α} {turns turns' : Nat} {P : σ → Prop} (h : M.Settles a turns s P) (hle : turns ≤ turns') :
    M.Settles a turns' s P := by
  obtain ⟨k, hk, hrest⟩ := h
  exact ⟨k, Nat.le_trans hk hle, hrest⟩

/-- The empty trace ends in the initial state. -/
theorem runs_nil (s : σ) : M.Runs [] s ↔ s = M.init := by
  simp only [Runs, exec, Option.some.injEq]
  exact eq_comm

/-- A run followed by one enabled action is a run, and every nonempty run is one. -/
theorem runs_snoc (tr : List α) (a : α) (s' : σ) :
    M.Runs (tr ++ [a]) s' ↔ ∃ s, M.Runs tr s ∧ M.step s a = some s' := by
  simp only [Runs, exec_append, Option.bind_eq_some_iff, exec_singleton]

theorem Runs.snoc {tr : List α} {s s' : σ} {a : α} (h : M.Runs tr s) (hs : M.step s a = some s') :
    M.Runs (tr ++ [a]) s' :=
  (runs_snoc tr a s').2 ⟨s, h, hs⟩

/-- A trace ends in at most one state. -/
theorem Runs.unique {tr : List α} {s s' : σ} (h : M.Runs tr s) (h' : M.Runs tr s') : s = s' :=
  Option.some.inj (h.symm.trans h')

/-- What holds of the empty run and is kept by each step holds of every run. -/
theorem Runs.rec_on {P : List α → σ → Prop} (h0 : P [] M.init)
    (hs : ∀ tr s a s', M.Runs tr s → P tr s → M.step s a = some s' → P (tr ++ [a]) s') :
    ∀ {tr s}, M.Runs tr s → P tr s := by
  intro tr
  induction tr using List.reverseRecOn with
  | nil =>
    intro s h
    rw [(runs_nil s).1 h]
    exact h0
  | append_singleton tr a ih =>
    intro s' h
    obtain ⟨s, hr, hst⟩ := (runs_snoc tr a s').1 h
    exact hs tr s a s' hr (ih hr) hst

/-- A state invariant: what holds at the start and is kept by each step holds of every reachable state. -/
theorem Runs.invariant {P : σ → Prop} (h0 : P M.init) (hs : ∀ s a s', P s → M.step s a = some s' → P s')
    {tr : List α} {s : σ} (h : M.Runs tr s) : P s :=
  Runs.rec_on (P := fun _ s => P s) h0 (fun _ s a s' _ hp hst => hs s a s' hp hst) h

/-- The part of a run before its last action meets what the run meets. -/
theorem Meets.init {C : σ → α → Prop} {tr : List α} {a : α} (h : M.Meets C (tr ++ [a])) : M.Meets C tr := by
  intro tr' b s hp hr
  exact h tr' b s (hp.trans (List.prefix_append tr [a])) hr

/-- The last action of a run that meets `C` is one `C` allows. -/
theorem Meets.last {C : σ → α → Prop} {tr : List α} {a : α} {s : σ} (h : M.Meets C (tr ++ [a])) (hr : M.Runs tr s) :
    C s a :=
  h tr a s (List.prefix_refl _) hr

theorem meets_nil (C : σ → α → Prop) : M.Meets C [] := by
  intro tr a s h
  simp at h

/-- A run of actions that `C` allows in every state meets `C`. -/
theorem meets_of_mem {C : σ → α → Prop} {tr : List α} (h : ∀ a ∈ tr, ∀ s, C s a) : M.Meets C tr := by
  intro tr' a s hp _
  exact h a (hp.subset (List.mem_append_right _ (List.mem_singleton.2 rfl))) s

theorem Meets.snoc {C : σ → α → Prop} {tr : List α} {a : α} {s : σ} (h : M.Meets C tr) (hr : M.Runs tr s) (hc : C s a) :
    M.Meets C (tr ++ [a]) := by
  intro tr' b t hp ht
  rcases List.prefix_concat_iff.1 hp with heq | hp
  · obtain ⟨rfl, hb⟩ := List.append_inj' heq rfl
    cases hb
    rw [← hr.unique ht]
    exact hc
  · exact h tr' b t hp ht

/-- A run that meets `C` goes on to meet it with actions that `C` allows in every state. -/
theorem Meets.append_of_mem {C : σ → α → Prop} {tr tr' : List α} (h : M.Meets C tr) (h' : ∀ a ∈ tr', ∀ s, C s a) :
    M.Meets C (tr ++ tr') := by
  intro tr'' a s hp hr
  rcases List.prefix_or_prefix_of_prefix hp (List.prefix_append tr tr') with hp' | ⟨more, hmore⟩
  · exact h tr'' a s hp' hr
  · rcases List.eq_nil_or_concat more with rfl | ⟨more', b, rfl⟩
    · rw [List.append_nil] at hmore
      exact h tr'' a s (hmore ▸ List.prefix_refl _) hr
    · rw [← hmore, List.prefix_append_right_inj] at hp
      rw [List.concat_eq_append, ← List.append_assoc] at hmore
      obtain ⟨-, hb⟩ := List.append_inj' hmore rfl
      cases hb
      exact h' a (hp.subset (by simp)) s

/-- `C` tested at every action of a trace, up to the first one that is not enabled. -/
def checks (M : Machine σ α) (C : σ → α → Prop) [∀ s a, Decidable (C s a)] (s : σ) : List α → Bool
  | [] => true
  | a :: tr => decide (C s a) && (M.step s a).elim true (fun s' => M.checks C s' tr)

/-- A trace that passes the test meets the condition. -/
theorem meets_of_checks {C : σ → α → Prop} [∀ s a, Decidable (C s a)] {tr : List α} (h : M.checks C M.init tr = true) :
    M.Meets C tr := by
  suffices hall : ∀ tr s, M.checks C s tr = true → ∀ tr' a t, tr' ++ [a] <+: tr → M.exec s tr' = some t → C t a from
    fun tr' a t hp hr => hall tr M.init h tr' a t hp hr
  intro tr
  induction tr with
  | nil =>
    intro s _ tr' a t hp
    simp at hp
  | cons b tr ih =>
    intro s hc tr' a t hp ht
    rw [checks, Bool.and_eq_true_iff] at hc
    obtain ⟨hb, hrest⟩ := hc
    cases tr' with
    | nil =>
      obtain ⟨rfl, -⟩ := List.cons_prefix_cons.1 hp
      cases ht
      exact of_decide_eq_true hb
    | cons b' tr' =>
      obtain ⟨rfl, hrestp⟩ := List.cons_prefix_cons.1 hp
      obtain ⟨u, hu, hut⟩ := Option.bind_eq_some_iff.1 ht
      rw [hu] at hrest
      exact ih u hrest tr' a t hrestp hut

/-- What holds of the empty run and is kept by each step that `C` allows holds of every run that meets `C`. -/
theorem Runs.rec_on_meets {C : σ → α → Prop} {P : List α → σ → Prop} (h0 : P [] M.init)
    (hs : ∀ tr s a s', M.Runs tr s → P tr s → C s a → M.step s a = some s' → P (tr ++ [a]) s') :
    ∀ {tr s}, M.Runs tr s → M.Meets C tr → P tr s := by
  intro tr s hr
  refine Runs.rec_on (P := fun tr s => M.Meets C tr → P tr s) (fun _ => h0) ?_ hr
  intro tr s a s' hrun ih hst hm
  exact hs tr s a s' hrun (ih hm.init) (hm.last hrun) hst

theorem took_snoc {R : σ → α → Prop} {tr : List α} {a : α} {s : σ} (hr : M.Runs tr s) :
    M.Took R (tr ++ [a]) ↔ M.Took R tr ∨ R s a := by
  constructor
  · rintro ⟨tr', b, t, hp, ht, hR⟩
    rcases List.prefix_concat_iff.1 hp with heq | hp
    · obtain ⟨rfl, hb⟩ := List.append_inj' heq rfl
      cases hb
      rw [hr.unique ht]
      exact .inr hR
    · exact .inl ⟨tr', b, t, hp, ht, hR⟩
  · rintro (⟨tr', b, t, hp, ht, hR⟩ | hR)
    · exact ⟨tr', b, t, hp.trans (List.prefix_append tr [a]), ht, hR⟩
    · exact ⟨tr, a, s, List.prefix_refl _, hr, hR⟩

/-- What a step that `R` singles out brings about, in a run that meets `C`, holds from then on when each step keeps it. -/
theorem Runs.of_took {C R : σ → α → Prop} {Q : σ → Prop}
    (hset : ∀ tr s a s', M.Runs tr s → C s a → R s a → M.step s a = some s' → Q s')
    (hkeep : ∀ tr s a s', M.Runs tr s → Q s → M.step s a = some s' → Q s') {tr : List α} {s : σ} (hr : M.Runs tr s)
    (hm : M.Meets C tr) (ht : M.Took R tr) : Q s := by
  refine Runs.rec_on_meets (C := C) (P := fun tr s => M.Took R tr → Q s) ?_ ?_ hr hm ht
  · rintro ⟨tr', a, t, hp, -⟩
    simp at hp
  · intro tr s a s' hrun ih hc hst htook
    rcases (took_snoc hrun).1 htook with htook | hR
    · exact hkeep tr s a s' hrun (ih htook) hst
    · exact hset tr s a s' hrun hc hR hst

/-- A run that goes on after `tr` passes through the state `tr` ends in. -/
theorem Runs.exec_suffix {tr tr' : List α} {s : σ} (hr : M.Runs (tr ++ tr') s) : ∃ t, M.Runs tr t ∧ M.exec t tr' = some s := by
  unfold Runs at hr
  rw [exec_append] at hr
  exact Option.bind_eq_some_iff.1 hr

/-- A run goes on by the actions that a state allows. -/
theorem Runs.append {tr tr' : List α} {s s' : σ} (h : M.Runs tr s) (h' : M.exec s tr' = some s') : M.Runs (tr ++ tr') s' := by
  unfold Runs
  rw [exec_append, show M.exec M.init tr = some s from h]
  exact h'

/-- What holds of a state and is kept by each step holds of every state that follows it. -/
theorem exec_invariant {P : σ → Prop} (hs : ∀ s a s', P s → M.step s a = some s' → P s') {tr : List α} {s s' : σ}
    (hp : P s) (h : M.exec s tr = some s') : P s' := by
  induction tr generalizing s with
  | nil =>
    cases h
    exact hp
  | cons a tr ih =>
    obtain ⟨t, ht, hrest⟩ := Option.bind_eq_some_iff.1 h
    exact ih (hs s a t hp ht) hrest

theorem Was.append {P : σ → Prop} {tr : List α} (h : M.Was P tr) (tr' : List α) : M.Was P (tr ++ tr') := by
  obtain ⟨tr'', s, hp, hr, hs⟩ := h
  exact ⟨tr'', s, hp.trans (List.prefix_append tr tr'), hr, hs⟩

theorem Runs.was {P : σ → Prop} {tr : List α} {s : σ} (hr : M.Runs tr s) (h : P s) : M.Was P tr := ⟨tr, s, List.prefix_refl tr, hr, h⟩

/-- What the actions give out one after the other from a state, where `out` is what one action gives out. -/
def outputs {β : Type} (M : Machine σ α) (out : σ → α → List β) (s : σ) : List α → List β
  | [] => []
  | a :: tr => out s a ++ (M.step s a).elim [] (fun s' => M.outputs out s' tr)

theorem outputs_append {β : Type} (out : σ → α → List β) {s t : σ} {tr : List α} (h : M.exec s tr = some t) (tr' : List α) :
    M.outputs out s (tr ++ tr') = M.outputs out s tr ++ M.outputs out t tr' := by
  induction tr generalizing s with
  | nil =>
    obtain rfl := Option.some.inj h
    rfl
  | cons a tr ih =>
    obtain ⟨s', hs, hrest⟩ := Option.bind_eq_some_iff.1 h
    simp only [List.cons_append, outputs, hs, Option.elim_some, ih hrest, List.append_assoc]

/-- A run that goes on by one enabled action gives out what that action gives out. -/
theorem Runs.outputs_snoc {β : Type} (out : σ → α → List β) {tr : List α} {s s' : σ} {a : α} (h : M.Runs tr s)
    (hs : M.step s a = some s') : M.outputs out M.init (tr ++ [a]) = M.outputs out M.init tr ++ out s a := by
  rw [outputs_append out h]
  simp [outputs, hs]

/-- Some actions lead from the one state to the other. -/
def Leads (M : Machine σ α) (s s' : σ) : Prop := ∃ tr, M.exec s tr = some s'

theorem Leads.refl (s : σ) : M.Leads s s := ⟨[], rfl⟩

theorem Leads.trans {s s' s'' : σ} (h : M.Leads s s') (h' : M.Leads s' s'') : M.Leads s s'' := by
  obtain ⟨tr, htr⟩ := h
  obtain ⟨tr', htr'⟩ := h'
  refine ⟨tr ++ tr', ?_⟩
  rw [exec_append, htr, Option.bind_some, htr']

theorem Leads.step {s s' : σ} {a : α} (h : M.step s a = some s') : M.Leads s s' := ⟨[a], by rw [exec_singleton, h]⟩

/-- A condition on steps is exactly what a property needs along every run, when the property holds of every run that meets the
condition and is lost right after the first step that breaks it. `B` bounds the runs; a step does not enter the bound. -/
theorem throughout_iff_meets {C : σ → α → Prop} {P : List α → σ → Prop} {B : σ → Prop}
    (hB : ∀ s a s', M.step s a = some s' → ¬B s → ¬B s')
    (hkeep : ∀ tr s, M.Runs tr s → B s → M.Meets C tr → P tr s)
    (hlost : ∀ tr s a s', M.Runs tr s → M.Meets C tr → M.step s a = some s' → B s' → ¬C s a → ¬P (tr ++ [a]) s')
    {tr : List α} {s : σ} (hr : M.Runs tr s) (hb : B s) : M.Throughout P tr ↔ M.Meets C tr := by
  have hbound : ∀ tr' t, tr' <+: tr → M.Runs tr' t → B t := by
    rintro tr' t ⟨rest, rfl⟩ ht
    obtain ⟨u, hu, hrest⟩ := hr.exec_suffix
    rw [hu.unique ht] at hrest
    by_contra hn
    exact exec_invariant (P := fun s => ¬B s) (fun s a s' hp hst => hB s a s' hst hp) hn hrest hb
  constructor
  · intro hP
    -- by induction on the part of the run that is known to meet the condition
    have hall : ∀ tr', tr' <+: tr → M.Meets C tr' := by
      intro tr'
      induction tr' using List.reverseRecOn with
      | nil => exact fun _ => meets_nil C
      | append_singleton tr' a ih =>
        intro hp
        have hm := ih ((List.prefix_append tr' [a]).trans hp)
        obtain ⟨rest, rfl⟩ := hp
        obtain ⟨t', ht', -⟩ := hr.exec_suffix
        obtain ⟨t, ht, hst⟩ := (runs_snoc tr' a t').1 ht'
        refine hm.snoc ht ?_
        by_contra hc
        have hpre : tr' ++ [a] <+: tr' ++ [a] ++ rest := List.prefix_append _ _
        exact hlost tr' t a t' ht hm hst (hbound _ t' hpre ht') hc (hP _ t' hpre ht')
    exact hall tr (List.prefix_refl tr)
  · intro hm tr' t hp ht
    refine hkeep tr' t ht (hbound tr' t hp ht) ?_
    intro tr'' a u hp' hu
    exact hm tr'' a u (hp'.trans hp) hu

end Machine

end BrainSdk.Library
