import BrainSdk.Cbor.Float

/-!
# What the float encoders compare

A value comes back from a narrower format exactly when the format has its magnitude, so the Python encoder, which packs, unpacks and
compares, and `Math.fround` both decide `Format.Has`. The bit test of `toHalfBitsExact` decides whether half precision has the magnitude
as zero or as a normal number.
-/

namespace BrainSdk.Cbor

open Library Format

/-! ### Doubles -/

theorem signBit_binary64 : binary64.signBit = 2 ^ 63 := by decide

theorem signBit_binary16 : binary16.signBit = 2 ^ 15 := by decide

theorem inf_lt_signBit (F : Format) : F.inf < F.signBit := by
  have hpos : 0 < 2 ^ F.fraction := Nat.two_pow_pos _
  have hexp : 0 < 2 ^ F.exponent := Nat.two_pow_pos _
  unfold inf signBit
  rw [Nat.pow_add]
  exact Nat.mul_lt_mul_of_pos_right (by omega) hpos

/-- A sign in front of the other bits. -/
theorem signed_div {F : Format} (s : Nat) {b : Nat} (hb : b < F.signBit) : (s * F.signBit + b) / F.signBit = s := by
  have hpos : 0 < F.signBit := Nat.two_pow_pos _
  rw [Nat.add_comm, Nat.add_mul_div_right _ _ hpos, Nat.div_eq_of_lt hb, Nat.zero_add]

theorem signed_mod {F : Format} (s : Nat) {b : Nat} (hb : b < F.signBit) : (s * F.signBit + b) % F.signBit = b := by
  rw [Nat.add_comm, Nat.add_mul_mod_self_right, Nat.mod_eq_of_lt hb]

theorem Double.toNat_eq (x : Double) : x.toNat = x.sign * binary64.signBit + x.abs := (Nat.div_add_mod' _ _).symm

theorem Double.sign_lt (x : Double) : x.sign < 2 := by
  have := x.isLt
  unfold Double.sign
  rw [signBit_binary64]
  omega

theorem Double.abs_lt (x : Double) : x.abs < binary64.signBit := Nat.mod_lt _ (Nat.two_pow_pos _)

theorem Double.toNat_mk {s a : Nat} (hs : s < 2) (ha : a < binary64.signBit) : (Double.mk s a).toNat = s * binary64.signBit + a := by
  rw [signBit_binary64] at ha
  unfold Double.mk
  rw [BitVec.toNat_ofNat, signBit_binary64, Nat.mod_eq_of_lt]
  omega

theorem Double.sign_mk {s a : Nat} (hs : s < 2) (ha : a < binary64.signBit) : (Double.mk s a).sign = s := by
  unfold Double.sign
  rw [Double.toNat_mk hs ha, signed_div s ha]

theorem Double.abs_mk {s a : Nat} (hs : s < 2) (ha : a < binary64.signBit) : (Double.mk s a).abs = a := by
  unfold Double.abs
  rw [Double.toNat_mk hs ha, signed_mod s ha]

theorem Double.ext_fields {x y : Double} (hs : x.sign = y.sign) (ha : x.abs = y.abs) : x = y := by
  apply BitVec.eq_of_toNat_eq
  rw [x.toNat_eq, y.toNat_eq, hs, ha]

/-- Doubles of the same sign that are no NaN compare equal exactly when their bits do. -/
theorem Double.eq_iff {x y : Double} (hx : ¬x.isNaN) (hy : ¬y.isNaN) (hs : x.sign = y.sign) : x.eq y = true ↔ x.abs = y.abs := by
  unfold Double.eq
  simp only [hx, hy, decide_false, Bool.not_false, Bool.true_and, Bool.or_eq_true, decide_eq_true_eq]
  constructor
  · rintro (rfl | ⟨hx0, hy0⟩)
    · rfl
    · rw [hx0, hy0]
  · intro ha
    exact .inl (Double.ext_fields hs ha)

/-! ### Narrower formats -/

/-- A format whose finite numbers are doubles, in `n` bytes. -/
structure Narrow (F : Format) (n : Nat) : Prop where
  fraction : F.fraction ≤ binary64.fraction
  width : 2 * F.signBit = 256 ^ n
  finite : binary64.round (F.magnitude F.inf) < binary64.inf

theorem narrow_binary16 : Narrow binary16 2 := ⟨by decide, by decide, by decide +kernel⟩

theorem narrow_binary32 : Narrow binary32 4 := ⟨by decide, by decide, by decide +kernel⟩

section

variable {F : Format} {n : Nat} (h : Narrow F n)
include h

/-- A number of a narrower format is the same number as a double. -/
theorem Narrow.magnitude_round (bits : Nat) : binary64.magnitude (binary64.round (F.magnitude bits)) = F.magnitude bits := by
  obtain ⟨bits', hbits⟩ := exists_wider h.fraction (Nat.zero_le F.step) bits
  rw [← hbits, round_magnitude]

theorem Narrow.round_lt {bits : Nat} (hbits : bits < F.inf) : binary64.round (F.magnitude bits) < binary64.inf :=
  Nat.lt_of_le_of_lt (binary64.round_mono (F.magnitude_strictMono.monotone (Nat.le_of_lt hbits))) h.finite

theorem Narrow.widen_finite {s bits : Nat} (hs : s < 2) (hbits : bits < F.inf) :
    (widen F (s * F.signBit + bits)).sign = s ∧ (widen F (s * F.signBit + bits)).abs = binary64.round (F.magnitude bits) := by
  have hlt : bits < F.signBit := hbits.trans (inf_lt_signBit F)
  have hround : binary64.round (F.magnitude bits) < binary64.signBit := (h.round_lt hbits).trans (inf_lt_signBit _)
  unfold widen
  dsimp only
  rw [signed_div s hlt, signed_mod s hlt, if_pos hbits]
  exact ⟨Double.sign_mk hs hround, Double.abs_mk hs hround⟩

/-- From infinity on, the bits of a narrower format stand for no finite double. -/
theorem Narrow.not_finite {bits : Nat} (hs : bits / F.signBit < 2) (hbits : F.inf ≤ bits % F.signBit) :
    ¬(widen F bits).isFinite := by
  have hpos : 0 < F.signBit := Nat.two_pow_pos _
  have hfraction := h.fraction
  have hlt : bits % F.signBit - F.inf < 2 ^ F.fraction := by
    have hmod := Nat.mod_lt bits hpos
    have hexp : 0 < 2 ^ F.exponent := Nat.two_pow_pos _
    have hspan : F.signBit = F.inf + 2 ^ F.fraction := by
      unfold signBit inf
      rw [Nat.pow_add, ← Nat.succ_mul]
      congr 1
      omega
    omega
  have hpayload : (bits % F.signBit - F.inf) * 2 ^ (binary64.fraction - F.fraction) < 2 ^ binary64.fraction := by
    have hpow : 2 ^ binary64.fraction = 2 ^ F.fraction * 2 ^ (binary64.fraction - F.fraction) := by
      rw [← Nat.pow_add, Nat.add_sub_cancel' hfraction]
    rw [hpow]
    exact Nat.mul_lt_mul_of_pos_right hlt (Nat.two_pow_pos _)
  have hbound : binary64.inf + (bits % F.signBit - F.inf) * 2 ^ (binary64.fraction - F.fraction) < binary64.signBit := by
    have hspan : binary64.signBit = binary64.inf + 2 ^ binary64.fraction := by decide
    omega
  unfold widen Double.isFinite
  dsimp only
  rw [if_neg (Nat.not_lt.2 hbits), Double.abs_mk hs hbound]
  omega

/-- Rounding a finite double into the format and back gives an equal double exactly when the format has its magnitude. -/
theorem Narrow.widen_eq_iff {x : Double} (hx : x.isFinite) (hfits : F.round x.magnitude < F.inf) :
    (widen F (x.sign * F.signBit + F.round x.magnitude)).eq x = true ↔ F.Has x.magnitude := by
  obtain ⟨hsign, habs⟩ := h.widen_finite x.sign_lt hfits
  have hnan : ¬(widen F (x.sign * F.signBit + F.round x.magnitude)).isNaN := by
    unfold Double.isNaN
    rw [habs]
    exact Nat.not_lt.2 (Nat.le_of_lt (h.round_lt hfits))
  have hxnan : ¬x.isNaN := Nat.not_lt.2 (Nat.le_of_lt hx)
  rw [Double.eq_iff hnan hxnan hsign, habs, has_iff_round, and_iff_right hfits]
  constructor
  · intro heq
    rw [← h.magnitude_round, heq]
    rfl
  · intro heq
    rw [heq]
    exact round_magnitude _ _

theorem Narrow.unpack_pack {s bits : Nat} (hs : s < 2) (hbits : bits < F.inf) :
    Python.structUnpack F (toBytesBE n (s * F.signBit + bits)) = widen F (s * F.signBit + bits) := by
  have hlt : bits < F.signBit := hbits.trans (inf_lt_signBit F)
  have hfits : s * F.signBit + bits < 256 ^ n := by
    rw [← h.width]
    rcases (by omega : s = 0 ∨ s = 1) with rfl | rfl <;> omega
  unfold Python.structUnpack
  rw [fromBytesBE_toBytesBE_of_lt hfits]

end

/-- What half precision has, single precision has. -/
theorem hasSingle_of_hasHalf {M : Nat} (h : binary16.Has M) : binary32.Has M := by
  obtain ⟨bits, hbits, rfl⟩ := h
  obtain ⟨bits', hbits'⟩ := exists_wider (F := binary16) (G := binary32) (by decide) (by decide) bits
  refine ⟨bits', ?_, hbits'⟩
  have hpast : binary16.magnitude binary16.inf ≤ binary32.magnitude binary32.inf := by decide +kernel
  have hlt := binary16.magnitude_strictMono hbits
  rw [← hbits'] at hlt
  exact binary32.magnitude_strictMono.lt_iff_lt.1 (Nat.lt_of_lt_of_le hlt hpast)

end BrainSdk.Cbor

namespace BrainSdk.Python

open Library Format Cbor

/-! ### The Python encoder -/

theorem structPack_ok {F : Format} {x : Double} (hfits : F.round x.magnitude < F.inf) (n : Nat) (code : String) :
    structPack F n code x = .ok (toBytesBE n (x.sign * F.signBit + F.round x.magnitude)) := if_pos hfits

theorem structPack_error {F : Format} {x : Double} (hover : F.inf ≤ F.round x.magnitude) (n : Nat) (code : String) :
    ∃ e, structPack F n code x = .error e := ⟨_, if_neg (Nat.not_lt.2 hover)⟩

theorem shortest_of_finite {x : Double} (hx : x.isFinite) :
    shortestFloatBytes x = shortestFloatBytes.half x (structPack binary16 2 "e" x) :=
  if_pos ⟨Nat.not_lt.2 (Nat.le_of_lt hx), Nat.ne_of_lt hx⟩

/-- An infinity is written as a double. -/
theorem shortest_of_inf {x : Double} (hx : x.isInf) : shortestFloatBytes x = .ok (0xFB :: toBytesBE 8 x.toNat) :=
  if_neg (fun h => h.2 hx)

/-- A half, where half precision has the value. -/
theorem shortest_half {x : Double} (hx : x.isFinite) (hhas : binary16.Has x.magnitude) :
    shortestFloatBytes x = .ok (0xF9 :: toBytesBE 2 (x.sign * binary16.signBit + binary16.round x.magnitude)) := by
  have hfits := (has_iff_round.1 hhas).1
  rw [shortest_of_finite hx, structPack_ok hfits, shortestFloatBytes.half, narrow_binary16.unpack_pack x.sign_lt hfits,
    if_pos ((narrow_binary16.widen_eq_iff hx hfits).2 hhas)]

/-- Otherwise what single precision comes to. -/
theorem shortest_wide {x : Double} (hx : x.isFinite) (hhas : ¬binary16.Has x.magnitude) :
    shortestFloatBytes x = shortestFloatBytes.single x (structPack binary32 4 "f" x) := by
  rw [shortest_of_finite hx]
  rcases Nat.lt_or_ge (binary16.round x.magnitude) binary16.inf with hfits | hover
  · rw [structPack_ok hfits, shortestFloatBytes.half, narrow_binary16.unpack_pack x.sign_lt hfits,
      if_neg (fun heq => hhas ((narrow_binary16.widen_eq_iff hx hfits).1 heq))]
  · obtain ⟨e, he⟩ := structPack_error hover 2 "e"
    rw [he, shortestFloatBytes.half]

/-- Packing a single that rounds past the largest one raises, and nothing catches it. -/
theorem single_overflow {x : Double} (hover : binary32.inf ≤ binary32.round x.magnitude) :
    ∃ e, shortestFloatBytes.single x (structPack binary32 4 "f" x) = .error e := by
  obtain ⟨e, he⟩ := structPack_error hover 4 "f"
  exact ⟨e, by rw [he, shortestFloatBytes.single]⟩

/-- A single, where single precision has the value. -/
theorem single_has {x : Double} (hx : x.isFinite) (hhas : binary32.Has x.magnitude) :
    shortestFloatBytes.single x (structPack binary32 4 "f" x) =
      .ok (0xFA :: toBytesBE 4 (x.sign * binary32.signBit + binary32.round x.magnitude)) := by
  have hfits := (has_iff_round.1 hhas).1
  rw [structPack_ok hfits, shortestFloatBytes.single, narrow_binary32.unpack_pack x.sign_lt hfits,
    if_pos ((narrow_binary32.widen_eq_iff hx hfits).2 hhas)]

/-- A double, where the value does not round past the largest single and is none. -/
theorem single_not_has {x : Double} (hx : x.isFinite) (hfits : binary32.round x.magnitude < binary32.inf)
    (hhas : ¬binary32.Has x.magnitude) :
    shortestFloatBytes.single x (structPack binary32 4 "f" x) = .ok (0xFB :: toBytesBE 8 x.toNat) := by
  rw [structPack_ok hfits, shortestFloatBytes.single, narrow_binary32.unpack_pack x.sign_lt hfits,
    if_neg (fun heq => hhas ((narrow_binary32.widen_eq_iff hx hfits).1 heq))]

end BrainSdk.Python

namespace BrainSdk.TypeScript

open Library Format Cbor

/-! ### The TypeScript encoder -/

/-- `Math.fround` gives back what single precision has. -/
theorem fround_eq_iff {x : Double} (hx : x.isFinite) : (fround x).eq x = true ↔ binary32.Has x.magnitude := by
  unfold fround float32Bits
  rw [if_pos hx]
  by_cases hfits : binary32.round x.magnitude < binary32.inf
  · rw [Nat.min_eq_left (Nat.le_of_lt hfits)]
    exact narrow_binary32.widen_eq_iff hx hfits
  · rw [Nat.min_eq_right (Nat.le_of_not_lt hfits)]
    have hhas : ¬binary32.Has x.magnitude := fun hhas => hfits (has_iff_round.1 hhas).1
    have habs : (widen binary32 (x.sign * binary32.signBit + binary32.inf)).abs = binary64.inf := by
      unfold widen
      dsimp only
      rw [signed_div _ (inf_lt_signBit _), signed_mod _ (inf_lt_signBit _), if_neg (Nat.lt_irrefl _), Nat.sub_self, Nat.zero_mul,
        Nat.add_zero]
      exact Double.abs_mk x.sign_lt (inf_lt_signBit _)
    have hnan : ¬(widen binary32 (x.sign * binary32.signBit + binary32.inf)).isNaN := by
      unfold Double.isNaN
      rw [habs]
      exact Nat.lt_irrefl _
    refine iff_of_false ?_ hhas
    unfold Double.eq
    simp only [Bool.and_eq_true, Bool.or_eq_true, decide_eq_true_eq]
    rintro ⟨-, heq | ⟨h0, -⟩⟩
    · rw [heq] at habs
      exact absurd habs (Nat.ne_of_lt hx)
    · rw [habs] at h0
      exact absurd h0 (by decide)

theorem float32Bits_of_has {x : Double} (hx : x.isFinite) (hhas : binary32.Has x.magnitude) :
    float32Bits x = x.sign * binary32.signBit + binary32.round x.magnitude := by
  have hfits := (has_iff_round.1 hhas).1
  unfold float32Bits
  rw [if_pos hx, Nat.min_eq_left (Nat.le_of_lt hfits)]

theorem writeHalf_eq (bits : Nat) : writeHalf bits = 0xF9 :: toBytesBE 2 bits := by
  have hmask : ∀ n : Nat, UInt8.ofNat (n &&& 0xFF) = UInt8.ofNat n := by
    intro n
    apply UInt8.toNat_inj.1
    have hand : n &&& 0xFF = n % 2 ^ 8 := Nat.and_two_pow_sub_one_eq_mod n 8
    rw [hand, UInt8.toNat_ofNat', UInt8.toNat_ofNat']
    omega
  unfold writeHalf
  rw [hmask, hmask, Nat.shiftRight_eq_div_pow]
  rfl

/-- The fields of a double as `toHalfBitsExact` reads them. -/
theorem fields_eq (x : Double) :
    (x.toNat >>> 63) &&& 1 = x.sign ∧ (x.toNat >>> 52) &&& 0x7FF = x.abs / 2 ^ 52 ∧ x.toNat &&& 0xFFFFFFFFFFFFF = x.abs % 2 ^ 52 := by
  have hbits := x.toNat_eq
  have hs := x.sign_lt
  have ha := x.abs_lt
  have hand1 : ∀ n : Nat, n &&& 1 = n % 2 ^ 1 := fun n => Nat.and_two_pow_sub_one_eq_mod n 1
  have hand11 : ∀ n : Nat, n &&& 0x7FF = n % 2 ^ 11 := fun n => Nat.and_two_pow_sub_one_eq_mod n 11
  have hand52 : ∀ n : Nat, n &&& 0xFFFFFFFFFFFFF = n % 2 ^ 52 := fun n => Nat.and_two_pow_sub_one_eq_mod n 52
  rw [signBit_binary64] at hbits ha
  rw [hand1, hand11, hand52, Nat.shiftRight_eq_div_pow, Nat.shiftRight_eq_div_pow]
  omega

/-- The fields of a half put together. -/
theorem halfBits_eq {s h q : Nat} (hh : h < 2 ^ 5) (hq : q < 2 ^ 10) :
    (s <<< 15) ||| (h <<< 10) ||| q = s * binary16.signBit + (h * 2 ^ binary16.fraction + q) := by
  have hlow : h <<< 10 ||| q = h * 2 ^ 10 + q := by rw [← Nat.shiftLeft_add_eq_or_of_lt hq, Nat.shiftLeft_eq]
  have hbound : h * 2 ^ 10 + q < 2 ^ 15 := by omega
  rw [Nat.or_assoc, hlow, ← Nat.shiftLeft_add_eq_or_of_lt hbound, Nat.shiftLeft_eq]
  rfl

/-- The magnitude is a normal number of half precision. -/
def HasNormalHalf (M : Nat) : Prop := ∃ bits, 2 ^ binary16.fraction ≤ bits ∧ bits < binary16.inf ∧ binary16.magnitude bits = M

/-- A normal half widened, field by field. -/
theorem magnitude_half {e m : Nat} (hm : m < 2 ^ 10) :
    binary16.magnitude ((e + 1) * 2 ^ binary16.fraction + m) = binary64.magnitude ((e + 1009) * 2 ^ 52 + m * 2 ^ 42) := by
  have hm16 : m < 2 ^ binary16.fraction := hm
  have hm64 : m * 2 ^ 42 < 2 ^ binary64.fraction := by
    have : binary64.fraction = 52 := rfl
    rw [this]
    omega
  have h64 := magnitude_normal (F := binary64) (e + 1008) hm64
  have hfields : (e + 1008 + 1) * 2 ^ binary64.fraction + m * 2 ^ 42 = (e + 1009) * 2 ^ 52 + m * 2 ^ 42 := rfl
  rw [hfields] at h64
  rw [magnitude_normal e hm16, h64]
  have hstep : 2 ^ (e + binary16.step) = 2 ^ 42 * 2 ^ (e + 1008 + binary64.step) := by
    have h16 : binary16.step = 1050 := rfl
    have h64 : binary64.step = 0 := rfl
    have hsum : e + 1050 = 42 + (e + 1008 + 0) := by omega
    rw [h16, h64, ← Nat.pow_add, hsum]
  have h10 : binary16.fraction = 10 := rfl
  have h52 : binary64.fraction = 52 := rfl
  rw [hstep, h10, h52]
  generalize 2 ^ (e + 1008 + binary64.step) = k
  ring

/-- Zero is written as a half. -/
theorem toHalf_zero {x : Double} (h : x.abs = 0) : toHalfBitsExact x = some (x.sign * binary16.signBit + binary16.round x.magnitude) := by
  obtain ⟨hsign, hexp, hmant⟩ := fields_eq x
  have hround : binary16.round x.magnitude = 0 := by
    unfold Double.magnitude
    rw [h]
    decide +kernel
  rw [h] at hexp hmant
  unfold toHalfBitsExact
  dsimp only
  rw [hsign, hexp, hmant, if_pos ⟨Nat.zero_div _, Nat.zero_mod _⟩, hround, Nat.shiftLeft_eq, Nat.add_zero, signBit_binary16]

/-- The bit test finds every normal half. -/
theorem toHalf_normal {x : Double} (h : HasNormalHalf x.magnitude) :
    toHalfBitsExact x = some (x.sign * binary16.signBit + binary16.round x.magnitude) := by
  obtain ⟨bits, hl, hu, hmag⟩ := h
  rcases binary16.fields bits with hlt | ⟨e, m, hm, rfl⟩
  · omega
  · have hround : binary16.round x.magnitude = (e + 1) * 2 ^ binary16.fraction + m := by rw [← hmag, round_magnitude]
    have hm10 : m < 2 ^ 10 := hm
    have he : e + 1 ≤ 30 := by
      have hinf : binary16.inf = 31 * 2 ^ 10 := by decide
      have hfraction : binary16.fraction = 10 := rfl
      rw [hinf, hfraction] at hu
      omega
    have habs : x.abs = (e + 1009) * 2 ^ 52 + m * 2 ^ 42 := by
      apply binary64.magnitude_strictMono.injective
      rw [← magnitude_half hm10, hmag]
      rfl
    obtain ⟨hsign, hexp, hmant⟩ := fields_eq x
    have hexp' : x.abs / 2 ^ 52 = e + 1009 := by omega
    have hmant' : x.abs % 2 ^ 52 = m * 2 ^ 42 := by omega
    have hlow : m * 2 ^ 42 &&& (1 <<< 42 - 1) = 0 := by
      have hand : ∀ n : Nat, n &&& (1 <<< 42 - 1) = n % 2 ^ 42 := fun n => Nat.and_two_pow_sub_one_eq_mod n 42
      rw [hand, Nat.mul_mod_left]
    have hshift : (m * 2 ^ 42) >>> 42 = m := by rw [Nat.shiftRight_eq_div_pow, Nat.mul_div_cancel _ (Nat.two_pow_pos 42)]
    have hbias : (((e + 1009 : Nat) : Int) - 1023 + 15).toNat = e + 1 := by omega
    unfold toHalfBitsExact
    simp only [hsign, hexp, hmant, hexp', hmant', hlow, hshift, hbias]
    rw [if_neg (by omega), if_neg (by omega), if_neg (by simp), halfBits_eq (by omega) hm10, hround]

/-- The bit test finds nothing else. -/
theorem toHalf_none {x : Double} (hzero : x.abs ≠ 0) (h : ¬HasNormalHalf x.magnitude) : toHalfBitsExact x = none := by
  obtain ⟨hsign, hexp, hmant⟩ := fields_eq x
  have ha := x.abs_lt
  rw [signBit_binary64] at ha
  unfold toHalfBitsExact
  simp only [hsign, hexp, hmant]
  rw [if_neg (by omega)]
  split_ifs with hrange hlow
  · rfl
  · rfl
  · -- in range and with its low bits zero, the value is the half the code would return
    have hand : ∀ n : Nat, n &&& (1 <<< 42 - 1) = n % 2 ^ 42 := fun n => Nat.and_two_pow_sub_one_eq_mod n 42
    rw [hand] at hlow
    obtain ⟨e, he⟩ : ∃ e, x.abs / 2 ^ 52 = e + 1009 := ⟨x.abs / 2 ^ 52 - 1009, by omega⟩
    obtain ⟨m, hm⟩ : ∃ m, x.abs % 2 ^ 52 = m * 2 ^ 42 := ⟨x.abs % 2 ^ 52 / 2 ^ 42, by omega⟩
    have hm10 : m < 2 ^ 10 := by omega
    have habs : x.abs = (e + 1009) * 2 ^ 52 + m * 2 ^ 42 := by omega
    have hinf : binary16.inf = 31 * 2 ^ 10 := by decide
    have hfraction : binary16.fraction = 10 := rfl
    refine absurd ⟨(e + 1) * 2 ^ binary16.fraction + m, ?_, ?_, ?_⟩ h
    · rw [hfraction]
      omega
    · rw [hinf, hfraction]
      omega
    · rw [magnitude_half hm10, ← habs]
      rfl

end BrainSdk.TypeScript
