import Mathlib.Data.Nat.Log
import Mathlib.Order.Monotone.Basic
import Mathlib.Tactic.Ring

/-!
# Binary interchange formats

Magnitudes of IEEE 754 numbers, and conversion between formats by rounding to nearest, ties to even. The magnitude of a finite number is
counted in a unit that all formats share, so it is a natural number, and the fields of a magnitude read as one number order as the
magnitudes do. A format says where its smallest step lies in that unit.
-/

namespace BrainSdk.Library

/-- A format: the widths of its fraction and exponent fields, and the binary logarithm of its smallest step. -/
structure Format where
  fraction : Nat
  exponent : Nat
  step : Nat

namespace Format

/-- Half, single and double precision, in units of the smallest step of double precision. -/
def binary16 : Format := ⟨10, 5, 1050⟩
def binary32 : Format := ⟨23, 8, 925⟩
def binary64 : Format := ⟨52, 11, 0⟩

variable (F : Format)

/-- The bits of infinity, sign apart. -/
def inf : Nat := (2 ^ F.exponent - 1) * 2 ^ F.fraction

/-- The sign bit. -/
def signBit : Nat := 2 ^ (F.exponent + F.fraction)

/-- The magnitude of a finite number from its bits, sign apart. -/
def magnitude (bits : Nat) : Nat :=
  let e := bits / 2 ^ F.fraction
  let m := bits % 2 ^ F.fraction
  if e = 0 then m * 2 ^ F.step else (2 ^ F.fraction + m) * 2 ^ (e - 1 + F.step)

/-- `M / 2 ^ k`, rounded to the nearest integer, ties to the even one. -/
def rne (M k : Nat) : Nat :=
  if 2 ^ k < 2 * (M % 2 ^ k) ∨ 2 ^ k = 2 * (M % 2 ^ k) ∧ M / 2 ^ k % 2 = 1 then M / 2 ^ k + 1 else M / 2 ^ k

/-- The bits of the number nearest to a magnitude, ties to even. From `inf` on they are past the largest finite number. -/
def round (M : Nat) : Nat :=
  let j := M.log2 - (F.fraction + F.step)
  j * 2 ^ F.fraction + rne M (j + F.step)

/-- The bits of the number nearest to a quotient, ties to even. It is doubled, and doubled again with what a quarter of a step cannot
tell, which is enough to tell a tie. -/
def roundDiv (p q : Nat) : Nat :=
  { F with step := F.step + 2 }.round (2 * (2 * p / q) + if 2 * p % q = 0 then 0 else 1)

theorem rne_mul (q k : Nat) : rne (q * 2 ^ k) k = q := by
  have hpos : 0 < 2 ^ k := Nat.two_pow_pos k
  unfold rne
  rw [Nat.mul_mod_left, Nat.mul_div_cancel q hpos, if_neg]
  omega

theorem le_rne (M k : Nat) : M / 2 ^ k ≤ rne M k := by
  unfold rne
  split <;> omega

theorem rne_le {M k q : Nat} (h : M ≤ q * 2 ^ k) : rne M k ≤ q := by
  have hpos : 0 < 2 ^ k := Nat.two_pow_pos k
  rcases Nat.lt_or_ge (M / 2 ^ k) q with hlt | hge
  · unfold rne
    split <;> omega
  · -- the quotient is already `q`, so `M` is the multiple itself
    have hM : M = q * 2 ^ k := Nat.le_antisymm h (Nat.mul_le_of_le_div _ _ _ hge)
    rw [hM, rne_mul]

theorem rne_mono {M M' : Nat} (h : M ≤ M') (k : Nat) : rne M k ≤ rne M' k := by
  have hdiv : M / 2 ^ k ≤ M' / 2 ^ k := Nat.div_le_div_right h
  have hM := Nat.div_add_mod M (2 ^ k)
  have hM' := Nat.div_add_mod M' (2 ^ k)
  rcases Nat.lt_or_eq_of_le hdiv with hlt | heq
  · refine le_trans ?_ (le_rne M' k)
    unfold rne
    split <;> omega
  · have hmod : M % 2 ^ k ≤ M' % 2 ^ k := by
      rw [heq] at hM
      omega
    unfold rne
    rw [heq]
    split_ifs <;> omega

variable {F}

theorem magnitude_of_lt {bits : Nat} (h : bits < 2 ^ F.fraction) : F.magnitude bits = bits * 2 ^ F.step := by
  unfold magnitude
  rw [Nat.div_eq_of_lt h, Nat.mod_eq_of_lt h]
  rfl

/-- The magnitude of a normal number, from its fields. -/
theorem magnitude_normal (e : Nat) {m : Nat} (h : m < 2 ^ F.fraction) :
    F.magnitude ((e + 1) * 2 ^ F.fraction + m) = (2 ^ F.fraction + m) * 2 ^ (e + F.step) := by
  have hpos : 0 < 2 ^ F.fraction := Nat.two_pow_pos _
  have hdiv : ((e + 1) * 2 ^ F.fraction + m) / 2 ^ F.fraction = e + 1 := by
    rw [Nat.add_comm, Nat.add_mul_div_right _ _ hpos, Nat.div_eq_of_lt h, Nat.zero_add]
  have hmod : ((e + 1) * 2 ^ F.fraction + m) % 2 ^ F.fraction = m := by
    rw [Nat.add_comm, Nat.add_mul_mod_self_right, Nat.mod_eq_of_lt h]
  unfold magnitude
  rw [hdiv, hmod]
  simp

/-- The magnitude of infinity, if it were the next number. -/
theorem magnitude_inf (F : Format) (h : 0 < F.exponent) : F.magnitude F.inf = 2 ^ (F.fraction + (2 ^ F.exponent - 2 + F.step)) := by
  have hpow : 2 ^ 1 ≤ 2 ^ F.exponent := Nat.pow_le_pow_right (by decide) h
  have hinf : F.inf = (2 ^ F.exponent - 2 + 1) * 2 ^ F.fraction + 0 := by
    unfold inf
    rw [Nat.add_zero, (by omega : 2 ^ F.exponent - 2 + 1 = 2 ^ F.exponent - 1)]
  rw [hinf, magnitude_normal _ (Nat.two_pow_pos _), Nat.add_zero, ← Nat.pow_add]

/-- A number has its fields: it is subnormal or normal. -/
theorem fields (F : Format) (bits : Nat) :
    bits < 2 ^ F.fraction ∨ ∃ e m, m < 2 ^ F.fraction ∧ bits = (e + 1) * 2 ^ F.fraction + m := by
  have hpos : 0 < 2 ^ F.fraction := Nat.two_pow_pos _
  rcases Nat.lt_or_ge bits (2 ^ F.fraction) with hlt | hge
  · exact .inl hlt
  · have hdiv : 1 ≤ bits / 2 ^ F.fraction := (Nat.one_le_div_iff hpos).2 hge
    refine .inr ⟨bits / 2 ^ F.fraction - 1, bits % 2 ^ F.fraction, Nat.mod_lt _ hpos, ?_⟩
    rw [Nat.sub_add_cancel hdiv, Nat.mul_comm]
    exact (Nat.div_add_mod bits (2 ^ F.fraction)).symm

/-- A large magnitude is a multiple of a large step. -/
theorem dvd_magnitude {bits k : Nat} (h : 2 ^ (F.fraction + 1 + k) ≤ F.magnitude bits) : 2 ^ k ∣ F.magnitude bits := by
  rcases F.fields bits with hlt | ⟨e, m, hm, rfl⟩
  · rw [magnitude_of_lt hlt] at h ⊢
    have hbound : bits * 2 ^ F.step < 2 ^ (F.fraction + F.step) := by
      rw [Nat.pow_add]
      exact Nat.mul_lt_mul_of_pos_right hlt (Nat.two_pow_pos _)
    have hk : F.fraction + 1 + k < F.fraction + F.step := (Nat.pow_lt_pow_iff_right (by decide)).1 (Nat.lt_of_le_of_lt h hbound)
    exact Dvd.dvd.mul_left (Nat.pow_dvd_pow 2 (by omega)) bits
  · rw [magnitude_normal e hm] at h ⊢
    have hbound : (2 ^ F.fraction + m) * 2 ^ (e + F.step) < 2 ^ (F.fraction + 1 + (e + F.step)) := by
      rw [Nat.pow_add 2 (F.fraction + 1), Nat.pow_succ]
      exact Nat.mul_lt_mul_of_pos_right (by omega) (Nat.two_pow_pos _)
    have hk : F.fraction + 1 + k < F.fraction + 1 + (e + F.step) := (Nat.pow_lt_pow_iff_right (by decide)).1 (Nat.lt_of_le_of_lt h hbound)
    exact Dvd.dvd.mul_left (Nat.pow_dvd_pow 2 (by omega)) _

theorem magnitude_lt_succ (F : Format) (bits : Nat) : F.magnitude bits < F.magnitude (bits + 1) := by
  have hpos : 0 < 2 ^ F.fraction := Nat.two_pow_pos _
  have hstep : 0 < 2 ^ F.step := Nat.two_pow_pos _
  rcases F.fields bits with hlt | ⟨e, m, hm, rfl⟩
  · rw [magnitude_of_lt hlt]
    rcases Nat.lt_or_eq_of_le (Nat.succ_le_of_lt hlt) with hlt' | heq
    · rw [magnitude_of_lt hlt']
      exact Nat.mul_lt_mul_of_pos_right (Nat.lt_succ_self bits) hstep
    · have hnext : bits + 1 = (0 + 1) * 2 ^ F.fraction + 0 := by omega
      rw [hnext, magnitude_normal 0 hpos, Nat.zero_add, Nat.add_zero]
      exact Nat.mul_lt_mul_of_pos_right hlt hstep
  · have hscale : 0 < 2 ^ (e + F.step) := Nat.two_pow_pos _
    rw [magnitude_normal e hm]
    rcases Nat.lt_or_eq_of_le (Nat.succ_le_of_lt hm) with hlt | heq
    · rw [Nat.add_assoc, magnitude_normal e hlt]
      exact Nat.mul_lt_mul_of_pos_right (by omega) hscale
    · have hnext : (e + 1) * 2 ^ F.fraction + m + 1 = (e + 1 + 1) * 2 ^ F.fraction + 0 := by
        rw [Nat.succ_mul (e + 1)]
        omega
      have hdouble : (2 ^ F.fraction + 0) * 2 ^ (e + 1 + F.step) = (2 ^ F.fraction + 2 ^ F.fraction) * 2 ^ (e + F.step) := by
        ring
      rw [hnext, magnitude_normal (e + 1) hpos, hdouble]
      exact Nat.mul_lt_mul_of_pos_right (by omega) hscale

theorem magnitude_strictMono (F : Format) : StrictMono F.magnitude := strictMono_nat_of_lt_succ F.magnitude_lt_succ

theorem log2_of_bounds {M k : Nat} (hl : 2 ^ k ≤ M) (hu : M < 2 ^ (k + 1)) : M.log2 = k := by
  have hM : M ≠ 0 := by
    have := Nat.two_pow_pos k
    omega
  have h1 : k ≤ M.log2 := (Nat.le_log2 hM).2 hl
  have h2 : M.log2 < k + 1 := (Nat.log2_lt hM).2 hu
  omega

theorem round_of_le {M : Nat} (h : M.log2 ≤ F.fraction + F.step) : F.round M = rne M F.step := by
  unfold round
  rw [Nat.sub_eq_zero_of_le h]
  simp

/-- A number rounds to itself. -/
theorem round_magnitude (F : Format) (bits : Nat) : F.round (F.magnitude bits) = bits := by
  rcases F.fields bits with hlt | ⟨e, m, hm, rfl⟩
  · rw [magnitude_of_lt hlt, round_of_le, rne_mul]
    rcases Nat.eq_zero_or_pos bits with rfl | hpos
    · simp
    · have hM : bits * 2 ^ F.step ≠ 0 := Nat.mul_ne_zero (by omega) (Nat.two_pow_pos _).ne'
      refine Nat.le_of_lt ((Nat.log2_lt hM).2 ?_)
      rw [Nat.pow_add]
      exact Nat.mul_lt_mul_of_pos_right hlt (Nat.two_pow_pos _)
  · have hscale : 0 < 2 ^ (e + F.step) := Nat.two_pow_pos _
    have hlog : ((2 ^ F.fraction + m) * 2 ^ (e + F.step)).log2 = F.fraction + (e + F.step) := by
      apply log2_of_bounds
      · rw [Nat.pow_add]
        exact Nat.mul_le_mul_right _ (by omega)
      · have hpow : 2 ^ (F.fraction + (e + F.step) + 1) = (2 ^ F.fraction + 2 ^ F.fraction) * 2 ^ (e + F.step) := by ring
        rw [hpow]
        exact Nat.mul_lt_mul_of_pos_right (by omega) hscale
    have hj : F.fraction + (e + F.step) - (F.fraction + F.step) = e := by omega
    rw [magnitude_normal e hm]
    unfold round
    rw [hlog, hj]
    dsimp only
    rw [rne_mul]
    ring

/-- Rounding keeps the order. -/
theorem round_mono (F : Format) {M M' : Nat} (h : M ≤ M') : F.round M ≤ F.round M' := by
  have hlog : M.log2 ≤ M'.log2 := by
    rcases Nat.eq_zero_or_pos M with rfl | hpos
    · simp
    · exact (Nat.le_log2 (by omega)).2 (le_trans (Nat.log2_self_le (by omega)) h)
  unfold round
  dsimp only
  rcases Nat.lt_or_ge (M.log2 - (F.fraction + F.step)) (M'.log2 - (F.fraction + F.step)) with hlt | hge
  · -- the binade of `M` ends where that of `M'` begins, or before
    generalize hj : M.log2 - (F.fraction + F.step) = j at hlt ⊢
    generalize hj' : M'.log2 - (F.fraction + F.step) = j' at hlt ⊢
    have hup : rne M (j + F.step) ≤ 2 * 2 ^ F.fraction := by
      refine rne_le (le_trans (Nat.le_of_lt Nat.lt_log2_self) ?_)
      have hpow : 2 * 2 ^ F.fraction * 2 ^ (j + F.step) = 2 ^ (F.fraction + (j + F.step) + 1) := by ring
      rw [hpow]
      exact Nat.pow_le_pow_right (by decide) (by omega)
    have hdown : 2 ^ F.fraction ≤ rne M' (j' + F.step) := by
      refine le_trans ?_ (le_rne M' _)
      have hM' : M' ≠ 0 := by
        rintro rfl
        simp at hj'
        omega
      rw [Nat.le_div_iff_mul_le (Nat.two_pow_pos _), ← Nat.pow_add]
      exact le_trans (Nat.pow_le_pow_right (by decide) (by omega)) (Nat.log2_self_le hM')
    have hnext : (j + 1) * 2 ^ F.fraction ≤ j' * 2 ^ F.fraction := Nat.mul_le_mul_right _ hlt
    rw [Nat.succ_mul] at hnext
    omega
  · have heq : M'.log2 - (F.fraction + F.step) = M.log2 - (F.fraction + F.step) := by omega
    rw [heq]
    exact Nat.add_le_add_left (rne_mono h _) _

/-- Rounding a multiple to a coarser step is rounding to the finer one. -/
theorem rne_scale (M n k : Nat) : rne (2 ^ k * M) (n + k) = rne M n := by
  have hpos : 0 < 2 ^ k := Nat.two_pow_pos k
  have hpow : 2 ^ (n + k) = 2 ^ k * 2 ^ n := by rw [Nat.pow_add, Nat.mul_comm]
  unfold rne
  rw [hpow, Nat.mul_mod_mul_left, Nat.mul_div_mul_left _ _ hpos]
  have hlt : 2 ^ k * 2 ^ n < 2 * (2 ^ k * (M % 2 ^ n)) ↔ 2 ^ n < 2 * (M % 2 ^ n) := by
    rw [Nat.mul_left_comm, Nat.mul_lt_mul_left hpos]
  have heq : 2 ^ k * 2 ^ n = 2 * (2 ^ k * (M % 2 ^ n)) ↔ 2 ^ n = 2 * (M % 2 ^ n) := by
    rw [Nat.mul_left_comm, Nat.mul_right_inj hpos.ne']
  simp only [hlt, heq]

/-- A unit that is so many times smaller changes no rounding. -/
theorem round_scale (F : Format) (k M : Nat) : { F with step := F.step + k }.round (2 ^ k * M) = F.round M := by
  rcases Nat.eq_zero_or_pos M with rfl | hpos
  · simp [round, rne]
  · have hlog : (2 ^ k * M).log2 = M.log2 + k := by
      apply log2_of_bounds
      · rw [Nat.pow_add, Nat.mul_comm]
        exact Nat.mul_le_mul_left _ (Nat.log2_self_le hpos.ne')
      · have hpow : 2 ^ (M.log2 + k + 1) = 2 ^ k * 2 ^ (M.log2 + 1) := by ring
        rw [hpow]
        exact Nat.mul_lt_mul_of_pos_left Nat.lt_log2_self (Nat.two_pow_pos k)
    have hj : M.log2 + k - (F.fraction + (F.step + k)) = M.log2 - (F.fraction + F.step) := by omega
    unfold round
    rw [hlog]
    dsimp only
    rw [hj, ← Nat.add_assoc, rne_scale]

/-- A quotient that is a natural rounds as that natural does. -/
theorem roundDiv_mul (F : Format) {q : Nat} (hq : 0 < q) (M : Nat) : F.roundDiv (q * M) q = F.round M := by
  have hdouble : 2 * (q * M) = q * (2 * M) := Nat.mul_left_comm _ _ _
  have hquad : 2 * (2 * M) + 0 = 2 ^ 2 * M := by omega
  unfold roundDiv
  rw [hdouble, Nat.mul_div_cancel_left _ hq, Nat.mul_mod_right, if_pos rfl, hquad, round_scale]

/-- The format has a finite number of this magnitude. -/
def Has (F : Format) (M : Nat) : Prop := ∃ bits < F.inf, F.magnitude bits = M

/-- A magnitude comes back from a format exactly when the format has it. -/
theorem has_iff_round {M : Nat} : F.Has M ↔ F.round M < F.inf ∧ F.magnitude (F.round M) = M := by
  constructor
  · rintro ⟨bits, hlt, rfl⟩
    rw [round_magnitude]
    exact ⟨hlt, rfl⟩
  · rintro ⟨hlt, heq⟩
    exact ⟨F.round M, hlt, heq⟩

/-- Whatever has no more significant bits than the format is the magnitude of some bits, where the exponent may run past the largest
one. -/
theorem exists_magnitude {q : Nat} (hq : q < 2 ^ (F.fraction + 1)) (k : Nat) : ∃ bits, F.magnitude bits = q * 2 ^ (k + F.step) := by
  induction k generalizing q with
  | zero =>
    rcases Nat.lt_or_ge q (2 ^ F.fraction) with hlt | hge
    · exact ⟨q, by rw [magnitude_of_lt hlt, Nat.zero_add]⟩
    · refine ⟨(0 + 1) * 2 ^ F.fraction + (q - 2 ^ F.fraction), ?_⟩
      rw [magnitude_normal 0 (by rw [pow_succ] at hq; omega), Nat.add_sub_cancel' hge]
  | succ k ih =>
    rcases Nat.lt_or_ge q (2 ^ F.fraction) with hlt | hge
    · obtain ⟨bits, hbits⟩ := ih (q := 2 * q) (by rw [pow_succ]; omega)
      refine ⟨bits, hbits.trans ?_⟩
      ring
    · refine ⟨(k + 1 + 1) * 2 ^ F.fraction + (q - 2 ^ F.fraction), ?_⟩
      rw [magnitude_normal (k + 1) (by rw [pow_succ] at hq; omega), Nat.add_sub_cancel' hge]

/-- A format with a wider fraction and finer steps has the magnitudes of a narrower one. -/
theorem exists_wider {G : Format} (hfraction : F.fraction ≤ G.fraction) (hstep : G.step ≤ F.step) (bits : Nat) :
    ∃ bits', G.magnitude bits' = F.magnitude bits := by
  have hpow : 2 ^ F.fraction ≤ 2 ^ G.fraction := Nat.pow_le_pow_right (by decide) hfraction
  rcases F.fields bits with hlt | ⟨e, m, hm, rfl⟩
  · obtain ⟨bits', h⟩ := exists_magnitude (F := G) (q := bits) (by rw [pow_succ]; omega) (F.step - G.step)
    refine ⟨bits', h.trans ?_⟩
    rw [magnitude_of_lt hlt, Nat.sub_add_cancel hstep]
  · obtain ⟨bits', h⟩ := exists_magnitude (F := G) (q := 2 ^ F.fraction + m) (by rw [pow_succ]; omega) (e + (F.step - G.step))
    refine ⟨bits', h.trans ?_⟩
    rw [magnitude_normal e hm, Nat.add_assoc, Nat.sub_add_cancel hstep]

end Format

end BrainSdk.Library
