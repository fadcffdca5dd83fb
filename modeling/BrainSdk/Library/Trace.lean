import Mathlib.Data.List.Infix

/-!
# Windows of a trace

What happened since the first action of a kind, and before the first action of a kind, and how each window grows with the trace.
-/

namespace BrainSdk.Library

variable {α : Type}

theorem filterMap_snoc {β : Type} (g : α → Option β) (tr : List α) (a : α) :
    (tr ++ [a]).filterMap g = tr.filterMap g ++ (g a).toList := by
  rw [List.filterMap_append]
  cases h : g a <;> simp [h]

/-- The trace from its first action with `p` on; empty when there is none. -/
def since (p : α → Bool) (tr : List α) : List α := tr.dropWhile (fun a => !p a)

/-- The trace before its first action with `p`; all of it when there is none. -/
def before (p : α → Bool) (tr : List α) : List α := tr.takeWhile (fun a => !p a)

theorem since_append (p : α → Bool) (tr tr' : List α) :
    since p (tr ++ tr') = if tr.any p then since p tr ++ tr' else since p tr' := by
  induction tr with
  | nil => rfl
  | cons a tr ih =>
    simp only [since, List.cons_append, List.dropWhile_cons, List.any_cons] at ih ⊢
    cases hp : p a
    · simpa using ih
    · simp

theorem before_append (p : α → Bool) (tr tr' : List α) :
    before p (tr ++ tr') = if tr.any p then before p tr else tr ++ before p tr' := by
  induction tr with
  | nil => rfl
  | cons a tr ih =>
    simp only [before, List.cons_append, List.takeWhile_cons, List.any_cons] at ih ⊢
    cases hp : p a
    · simp only [Bool.not_false, if_true, Bool.false_or, ih]
      split <;> rfl
    · simp

theorem before_isPre (p : α → Bool) (tr : List α) : before p tr <+: tr := List.takeWhile_prefix _

theorem before_of_not_any {p : α → Bool} {tr : List α} (h : tr.any p = false) : before p tr = tr := by
  have := before_append p tr []
  simpa [h, before] using this

/-- The window between the first `p` and the first `q` after it, grown by one action: nothing before the first `p`, the action
itself while the window is open, and nothing once it is closed. -/
theorem window_snoc (p q : α → Bool) (tr : List α) (a : α) :
    before q (since p (tr ++ [a])) =
      if tr.any p then (if (since p tr).any q then before q (since p tr) else before q (since p tr) ++ before q [a])
      else if p a then before q [a] else [] := by
  rw [since_append]
  cases htr : tr.any p
  · cases hp : p a <;> simp [since, before, hp]
  · simp only [if_true]
    rw [before_append]
    cases hq : (since p tr).any q
    · simp only [Bool.false_eq_true, if_false]
      rw [before_of_not_any hq]
    · simp

end BrainSdk.Library
