import Mathlib.Tactic.Common

/-!
# Two writers of the same fields

Two lists written field by field. Where every field is written alike or with two texts that differ at some place within both, the whole
is the same exactly when every field is: what follows a difference cannot make up for it.
-/

namespace BrainSdk.Library

variable {α β : Type}

/-- No continuations make them equal. -/
def Diverge (a b : List α) : Prop := ∀ s t, a ++ s ≠ b ++ t

/-- Equal when `P` holds, and with a difference within both when not. -/
structure Aligned (P : Prop) (a b : List α) : Prop where
  same : P → a = b
  differ : ¬P → Diverge a b

theorem Diverge.ne {a b : List α} (h : Diverge a b) : a ≠ b := by
  intro heq
  exact h [] [] (by rw [heq])

/-- Different heads. -/
theorem diverge_heads {x y : α} (h : x ≠ y) (a b : List α) : Diverge (x :: a) (y :: b) := by
  intro s t heq
  exact h (List.cons.inj heq).1

theorem Diverge.append {a b : List α} (h : Diverge a b) (c d : List α) : Diverge (a ++ c) (b ++ d) := by
  intro s t heq
  rw [List.append_assoc, List.append_assoc] at heq
  exact h _ _ heq

theorem Diverge.after {a b : List α} (h : Diverge a b) (c : List α) : Diverge (c ++ a) (c ++ b) := by
  intro s t heq
  rw [List.append_assoc, List.append_assoc] at heq
  exact h s t (List.append_cancel_left heq)

theorem Aligned.eq_iff {P : Prop} {a b : List α} (h : Aligned P a b) : a = b ↔ P := by
  constructor
  · intro heq
    by_contra hP
    exact (h.differ hP).ne heq
  · exact h.same

theorem Aligned.refl (a : List α) : Aligned True a a where
  same _ := rfl
  differ h := absurd trivial h

theorem Aligned.congr {P Q : Prop} {a b : List α} (h : Aligned P a b) (hiff : P ↔ Q) : Aligned Q a b := by
  rwa [← propext hiff]

/-- One field behind another. -/
theorem Aligned.append {P Q : Prop} {a b c d : List α} (h : Aligned P a b) (h' : Aligned Q c d) :
    Aligned (P ∧ Q) (a ++ c) (b ++ d) where
  same := by
    rintro ⟨hP, hQ⟩
    rw [h.same hP, h'.same hQ]
  differ := by
    intro hnot
    by_cases hP : P
    · rw [h.same hP]
      exact (h'.differ (fun hQ => hnot ⟨hP, hQ⟩)).after b
    · exact (h.differ hP).append c d

/-- A field behind what both write. -/
theorem Aligned.after {P : Prop} {a b : List α} (h : Aligned P a b) (c : List α) : Aligned P (c ++ a) (c ++ b) :=
  ((Aligned.refl c).append h).congr (by rw [true_and])

end BrainSdk.Library
