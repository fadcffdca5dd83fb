import Mathlib.Data.Nat.Find

/-!
# Retry loops

A loop that makes attempts until one is final. After each attempt it looks at the number of the attempt and at what came of it, and
either waits and makes the next one, or ends with a result. What comes of an attempt is chosen by the environment before the loop runs.
-/

namespace BrainSdk.Library

/-- What a loop does after an attempt. -/
inductive Decision (Wait Result : Type) where
  | again (wait : Wait)
  | done (result : Result)

/-- A retry loop: what it does after attempt `n`, counted from 1, by what came of it. -/
def Loop (Outcome Wait Result : Type) : Type := Nat → Outcome → Decision Wait Result

namespace Loop

variable {Outcome Wait Result : Type} (L : Loop Outcome Wait Result) (outcomes : Nat → Outcome)

/-- After attempt `n` came to `o` the loop makes another. -/
def Again (n : Nat) (o : Outcome) : Prop := ∃ wait, L n o = .again wait

/-- Attempt `n + 1` is made, where attempt `k + 1` comes to `outcomes k`: every attempt before it asked for another. -/
def Sends (n : Nat) : Prop := ∀ k < n, L.Again (k + 1) (outcomes k)

variable {L outcomes}

/-- The first attempt is always made. -/
theorem sends_zero : L.Sends outcomes 0 := fun _ hk => absurd hk (Nat.not_lt_zero _)

/-- The next attempt is made when this one is and asks for another. -/
theorem sends_succ {n : Nat} : L.Sends outcomes (n + 1) ↔ L.Sends outcomes n ∧ L.Again (n + 1) (outcomes n) := by
  constructor
  · intro h
    exact ⟨fun k hk => h k (Nat.lt_succ_of_lt hk), h n (Nat.lt_succ_self n)⟩
  · rintro ⟨h, hlast⟩ k hk
    rcases Nat.lt_succ_iff_lt_or_eq.1 hk with hlt | rfl
    · exact h k hlt
    · exact hlast

/-- A loop ends exactly where some attempt is final. -/
theorem ends_iff : (∃ n result, L.Sends outcomes n ∧ L (n + 1) (outcomes n) = .done result) ↔ ∃ n, ¬L.Again (n + 1) (outcomes n) := by
  classical
  constructor
  · rintro ⟨n, result, -, hdone⟩
    exact ⟨n, fun ⟨wait, hagain⟩ => nomatch hdone.symm.trans hagain⟩
  · intro h
    -- the first final attempt: all before it ask for another
    have hsends : L.Sends outcomes (Nat.find h) := fun k hk => not_not.1 (Nat.find_min h hk)
    cases hlast : L (Nat.find h + 1) (outcomes (Nat.find h)) with
    | again wait => exact absurd ⟨wait, hlast⟩ (Nat.find_spec h)
    | done result => exact ⟨Nat.find h, result, hsends, hlast⟩

/-- Where only attempts of the kind `T` are followed by another, and those that `G` allows are: all attempts are as `G` has them exactly
when those are that come after attempts of the kind `T` only. -/
theorem all_iff {G T : Nat → Outcome → Prop} (hT : ∀ n o, L.Again n o → T n o) (hG : ∀ n o, G n o → T n o → L.Again n o) :
    (∀ n, L.Sends outcomes n → G (n + 1) (outcomes n)) ↔ ∀ n, (∀ k < n, T (k + 1) (outcomes k)) → G (n + 1) (outcomes n) := by
  constructor
  · intro h n
    induction n using Nat.strong_induction_on with
    | _ n ih =>
      intro hbefore
      refine h n (fun k hk => hG _ _ (ih k hk fun j hj => hbefore j (Nat.lt_trans hj hk)) (hbefore k hk))
  · intro h n hsends
    exact h n fun k hk => hT _ _ (hsends k hk)

/-- Where an attempt is followed by another for a reason of one of two kinds, and `C` singles out those of the second kind: none is
made after one that `C` singles out, exactly when none of the second kind comes after attempts of the first kind only. -/
theorem none_after_iff {C : Outcome → Prop} {T U : Nat → Outcome → Prop} (hagain : ∀ n o, L.Again n o ↔ T n o ∨ U n o)
    (hT : ∀ n o, T n o → ¬C o) (hU : ∀ n o, U n o → C o) :
    (∀ i j, i < j → C (outcomes i) → ¬L.Sends outcomes j) ↔
      ¬∃ i, (∀ k < i, T (k + 1) (outcomes k)) ∧ U (i + 1) (outcomes i) := by
  classical
  constructor
  · rintro h ⟨i, hbefore, hi⟩
    have hsends : L.Sends outcomes i := fun k hk => (hagain _ _).2 (.inl (hbefore k hk))
    exact h i (i + 1) (Nat.lt_succ_self i) (hU _ _ hi) (sends_succ.2 ⟨hsends, (hagain _ _).2 (.inr hi)⟩)
  · intro h i j hij hC hj
    have hex : ∃ m, U (m + 1) (outcomes m) ∧ m ≤ i := by
      rcases (hagain _ _).1 (hj i hij) with hTi | hUi
      · exact absurd hC (hT _ _ hTi)
      · exact ⟨i, hUi, Nat.le_refl i⟩
    -- the first attempt of the second kind: all before it are of the first
    obtain ⟨hUm, hmi⟩ := Nat.find_spec hex
    refine h ⟨Nat.find hex, fun k hk => ?_, hUm⟩
    have hki : k < i := Nat.lt_of_lt_of_le hk hmi
    rcases (hagain _ _).1 (hj k (Nat.lt_trans hki hij)) with hTk | hUk
    · exact hTk
    · exact absurd ⟨hUk, Nat.le_of_lt hki⟩ (Nat.find_min hex hk)

end Loop

end BrainSdk.Library
