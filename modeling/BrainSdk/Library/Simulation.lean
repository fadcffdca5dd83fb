import BrainSdk.Library.Machine

/-!
# Simulations that hide actions

A machine `M` refines a machine `N` that has only some of its actions: what `M` does besides leaves `N` where it is. When `M` can also
follow each step of `N`, after hidden actions of its own, the two have the same runs up to the hidden actions.
-/

namespace BrainSdk.Library

variable {σ τ α : Type}

/-- Each visible action of `M` is the same action of `N`, and a hidden one leaves `N` where it is. -/
structure Hides (M : Machine σ α) (N : Machine τ α) (visible : α → Bool) (f : σ → τ) (I : σ → Prop) : Prop where
  init : f M.init = N.init
  invariant : I M.init
  keeps : ∀ s a s', I s → M.step s a = some s' → I s'
  shown : ∀ s a s', I s → M.step s a = some s' → visible a = true → N.step (f s) a = some (f s')
  hidden : ∀ s a s', I s → M.step s a = some s' → visible a = false → f s' = f s

/-- Each step of `N` can be followed by `M`, after actions that are hidden. `R` holds of the states of `M` from which this is so. -/
structure Follows (M : Machine σ α) (N : Machine τ α) (visible : α → Bool) (f : σ → τ) (R : σ → Prop) : Prop where
  init : f M.init = N.init
  ready : R M.init
  follow : ∀ s a t, R s → N.step (f s) a = some t →
    ∃ tr s', M.exec s tr = some s' ∧ tr.filter visible = [a] ∧ f s' = t ∧ R s'

variable {M : Machine σ α} {N : Machine τ α} {visible : α → Bool} {f : σ → τ} {I R : σ → Prop}

/-- A run of `M`, its hidden actions left out, is a run of `N`. -/
theorem Hides.runs (h : Hides M N visible f I) {tr : List α} {s : σ} (hr : M.Runs tr s) :
    I s ∧ N.Runs (tr.filter visible) (f s) := by
  refine Machine.Runs.rec_on (M := M) (P := fun tr s => I s ∧ N.Runs (tr.filter visible) (f s)) ?_ ?_ hr
  · exact ⟨h.invariant, (Machine.runs_nil _).2 h.init⟩
  · rintro tr s a s' - ⟨hI, hN⟩ hs
    refine ⟨h.keeps s a s' hI hs, ?_⟩
    rw [List.filter_append]
    cases hv : visible a with
    | true =>
      rw [List.filter_cons_of_pos hv, List.filter_nil]
      exact hN.snoc (h.shown s a s' hI hs hv)
    | false =>
      rw [List.filter_cons_of_neg (by rw [hv]; exact Bool.false_ne_true), List.filter_nil, List.append_nil, h.hidden s a s' hI hs hv]
      exact hN

/-- A run of `N` is a run of `M` with its hidden actions left out. -/
theorem Follows.runs (h : Follows M N visible f R) {tr : List α} {t : τ} (hr : N.Runs tr t) :
    ∃ tr' s, M.Runs tr' s ∧ tr'.filter visible = tr ∧ f s = t ∧ R s := by
  refine Machine.Runs.rec_on (M := N) (P := fun tr t => ∃ tr' s, M.Runs tr' s ∧ tr'.filter visible = tr ∧ f s = t ∧ R s) ?_ ?_ hr
  · exact ⟨[], M.init, (Machine.runs_nil _).2 rfl, rfl, h.init, h.ready⟩
  · rintro tr t a t' - ⟨tr', s, hs, rfl, rfl, hR⟩ hst
    obtain ⟨own, s', hown, hvis, hf, hR'⟩ := h.follow s a t' hR hst
    refine ⟨tr' ++ own, s', ?_, ?_, hf, hR'⟩
    · show M.exec M.init (tr' ++ own) = some s'
      rw [Machine.exec_append, show M.exec M.init tr' = some s from hs]
      exact hown
    · rw [List.filter_append, hvis]

end BrainSdk.Library
