import BrainSdk.Cbor.FloatLemmas

/-!
# Arithmetic of doubles

The order of doubles and what the retry policies compute with them: products with a power of two or a small number, a quotient, the float
of an integer, which may be too large for one, and the `min` of Python.
-/

namespace BrainSdk.Cbor

open Library

/-- The order of doubles that are no NaN. The two zeros are equal. -/
def Double.key (x : Double) : Int := if x.sign = 0 then x.abs else -x.abs

/-- `x < y`. -/
def Double.lt (x y : Double) : Bool := !decide x.isNaN && !decide y.isNaN && decide (x.key < y.key)

/-- `x <= y`. -/
def Double.le (x y : Double) : Bool := !decide x.isNaN && !decide y.isNaN && decide (x.key ≤ y.key)

/-- `x * 2 ** k`, where the power of two is a double. -/
def Double.scale (x : Double) (k : Nat) : Double :=
  if x.isFinite then .mk x.sign (min (Format.binary64.round (x.magnitude * 2 ^ k)) Format.binary64.inf) else x

/-- `x * n` for a natural number that is a double. -/
def Double.times (x : Double) (n : Nat) : Double :=
  if x.isFinite then .mk x.sign (min (Format.binary64.round (x.magnitude * n)) Format.binary64.inf) else x

/-- `x / n` for a natural number that is a double. -/
def Double.over (x : Double) (n : Nat) : Double :=
  if x.isFinite then .mk x.sign (min (Format.binary64.roundDiv x.magnitude n) Format.binary64.inf) else x

/-- The double nearest to an integer, if it is finite. -/
def Double.ofInt? (n : Int) : Option Double :=
  let bits := Format.binary64.round (n.natAbs * 2 ^ 1074)
  if bits < Format.binary64.inf then some (.mk (if n < 0 then 1 else 0) bits) else none

/-- `n < x` for a small natural number. -/
def Double.natLt (n : Nat) (x : Double) : Bool :=
  !decide x.isNaN && decide (x.sign = 0) && (decide x.isInf || decide (n * 2 ^ 1074 < x.magnitude))

/-- `n <= x` for a small natural number. -/
def Double.natLe (n : Nat) (x : Double) : Bool :=
  !decide x.isNaN && decide (x.sign = 0) && (decide x.isInf || decide (n * 2 ^ 1074 ≤ x.magnitude))

theorem Double.le_iff {x y : Double} : x.le y = true ↔ ¬x.isNaN ∧ ¬y.isNaN ∧ x.key ≤ y.key := by
  simp [Double.le, and_assoc]

theorem Double.lt_iff {x y : Double} : x.lt y = true ↔ ¬x.isNaN ∧ ¬y.isNaN ∧ x.key < y.key := by
  simp [Double.lt, and_assoc]

theorem Double.zero_facts : ¬Double.isNaN 0 ∧ Double.key 0 = 0 := by decide

theorem Double.zero_le_iff {x : Double} : Double.le 0 x = true ↔ ¬x.isNaN ∧ 0 ≤ x.key := by
  rw [Double.le_iff, Double.zero_facts.2]
  exact and_iff_right Double.zero_facts.1

theorem Double.zero_lt_iff {x : Double} : Double.lt 0 x = true ↔ ¬x.isNaN ∧ 0 < x.key := by
  rw [Double.lt_iff, Double.zero_facts.2]
  exact and_iff_right Double.zero_facts.1

/-- A number that is not a NaN is built from a magnitude up to infinity. -/
theorem Double.mk_not_nan {s a : Nat} (hs : s < 2) (ha : a ≤ Format.binary64.inf) : ¬(Double.mk s a).isNaN := by
  unfold Double.isNaN
  rw [Double.abs_mk hs (Nat.lt_of_le_of_lt ha (inf_lt_signBit _))]
  exact Nat.not_lt_of_le ha

theorem Double.mk_nonneg {a : Nat} (ha : a ≤ Format.binary64.inf) : Double.le 0 (.mk 0 a) = true := by
  refine Double.zero_le_iff.2 ⟨Double.mk_not_nan (by decide) ha, ?_⟩
  unfold Double.key
  rw [Double.sign_mk (by decide) (Nat.lt_of_le_of_lt ha (inf_lt_signBit _)), if_pos rfl]
  exact Int.natCast_nonneg _

/-- A number that is not at most 0 has no sign. -/
theorem Double.sign_of_pos {x : Double} (hx : Double.le 0 x = true) (hpos : ¬x.le 0 = true) : x.sign = 0 := by
  obtain ⟨hnan, -⟩ := Double.zero_le_iff.1 hx
  rw [Double.le_iff, Double.zero_facts.2] at hpos
  by_contra hs
  refine hpos ⟨hnan, Double.zero_facts.1, ?_⟩
  unfold Double.key
  rw [if_neg hs]
  omega

/-- A positive number that is doubled stays positive. -/
theorem Double.scale_nonneg {x : Double} (hx : Double.le 0 x = true) (hpos : ¬x.le 0 = true) (k : Nat) :
    Double.le 0 (x.scale k) = true := by
  unfold Double.scale
  split
  · rw [Double.sign_of_pos hx hpos]
    exact Double.mk_nonneg (Nat.min_le_right _ _)
  · exact hx

/-- A positive number that is doubled is no zero. -/
theorem Double.scale_pos {x : Double} (hx : Double.lt 0 x = true) (k : Nat) : Double.lt 0 (x.scale k) = true := by
  obtain ⟨hnan, hkey⟩ := Double.zero_lt_iff.1 hx
  have hsign : x.sign = 0 := by
    by_contra hs
    unfold Double.key at hkey
    rw [if_neg hs] at hkey
    omega
  unfold Double.scale
  split
  · have habs : 0 < x.abs := by
      unfold Double.key at hkey
      rw [if_pos hsign] at hkey
      omega
    have hround : x.abs ≤ Format.binary64.round (x.magnitude * 2 ^ k) := by
      have hmono := Format.binary64.round_mono (Nat.le_mul_of_pos_right x.magnitude (Nat.two_pow_pos k))
      unfold Double.magnitude at hmono ⊢
      rwa [Format.round_magnitude] at hmono
    have hinf : 0 < Format.binary64.inf := by decide
    have hle := Nat.min_le_right (Format.binary64.round (x.magnitude * 2 ^ k)) Format.binary64.inf
    refine Double.zero_lt_iff.2 ⟨Double.mk_not_nan x.sign_lt hle, ?_⟩
    unfold Double.key
    rw [Double.sign_mk x.sign_lt (Nat.lt_of_le_of_lt hle (inf_lt_signBit _)), if_pos hsign,
      Double.abs_mk x.sign_lt (Nat.lt_of_le_of_lt hle (inf_lt_signBit _))]
    omega
  · exact hx

theorem Double.over_not_nan {x : Double} (hx : ¬x.isNaN) (n : Nat) : ¬(x.over n).isNaN := by
  unfold Double.over
  split
  · exact Double.mk_not_nan x.sign_lt (Nat.min_le_right _ _)
  · exact hx

/-- Half a step past the largest double: the integers below are those that a float holds. -/
@[irreducible] def floatLimit : Nat := 2 ^ 1024 - 2 ^ 970

/-- The integers that round to a finite double. -/
theorem round_lt_inf_iff (n : Nat) : Format.binary64.round (n * 2 ^ 1074) < Format.binary64.inf ↔ n < floatLimit := by
  have hover : Format.binary64.inf ≤ Format.binary64.round (floatLimit * 2 ^ 1074) := by
    unfold floatLimit
    decide +kernel
  have hbelow : Format.binary64.round ((floatLimit - 1) * 2 ^ 1074) < Format.binary64.inf := by
    unfold floatLimit
    decide +kernel
  constructor
  · intro hlt
    by_contra hge
    have hmono := Format.binary64.round_mono (Nat.mul_le_mul_right (2 ^ 1074) (Nat.not_lt.1 hge))
    exact absurd (Nat.lt_of_le_of_lt (hover.trans hmono) hlt) (Nat.lt_irrefl _)
  · intro hlt
    have hmono := Format.binary64.round_mono (Nat.mul_le_mul_right (2 ^ 1074) (Nat.le_sub_one_of_lt hlt))
    exact Nat.lt_of_le_of_lt hmono hbelow

/-- The integers that are floats, and no NaN among them. -/
theorem Double.ofInt_cases (n : Int) :
    n.natAbs < floatLimit ∧ (∃ x, Double.ofInt? n = some x ∧ ¬x.isNaN) ∨ ¬n.natAbs < floatLimit ∧ Double.ofInt? n = none := by
  have hlimit := round_lt_inf_iff n.natAbs
  unfold Double.ofInt?
  extract_lets bits
  change bits < Format.binary64.inf ↔ _ at hlimit
  clear_value bits
  split
  · rename_i hfits
    refine .inl ⟨hlimit.1 hfits, _, rfl, Double.mk_not_nan ?_ (Nat.le_of_lt hfits)⟩
    split <;> decide
  · rename_i hfits
    exact .inr ⟨fun h => hfits (hlimit.2 h), rfl⟩

end BrainSdk.Cbor

namespace BrainSdk.Python

open Library Cbor

/-- `min(x, y)`: the second only if it is less. -/
def pyMin (x y : Double) : Double := if y.lt x then y else x

/-- The lesser of two numbers, the second of them a longest delay: it is no longer, and it is negative only with the first. -/
theorem pyMin_bounds {x y : Double} (hx : ¬x.isNaN) (hy : Double.le 0 y = true) :
    (pyMin x y).le y = true ∧ (Double.le 0 (pyMin x y) = true ↔ Double.le 0 x = true) := by
  obtain ⟨hynan, hykey⟩ := Double.zero_le_iff.1 hy
  unfold pyMin
  by_cases hlt : y.lt x = true
  · rw [if_pos hlt]
    obtain ⟨-, -, hkey⟩ := Double.lt_iff.1 hlt
    refine ⟨Double.le_iff.2 ⟨hynan, hynan, Int.le_refl _⟩, iff_of_true hy ?_⟩
    exact Double.zero_le_iff.2 ⟨hx, by omega⟩
  · rw [if_neg hlt]
    refine ⟨Double.le_iff.2 ⟨hx, hynan, ?_⟩, Iff.rfl⟩
    rw [Double.lt_iff] at hlt
    by_contra hgt
    exact hlt ⟨hynan, hx, by omega⟩

/-- The lesser of two numbers is one of them. -/
theorem pyMin_of {p : Double → Prop} {x y : Double} (hx : p x) (hy : p y) : p (pyMin x y) := by
  unfold pyMin
  split
  · exact hy
  · exact hx

end BrainSdk.Python
