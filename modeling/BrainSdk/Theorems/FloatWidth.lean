import BrainSdk.Cbor.FloatLemmas

/-!
# One width for each float

Both encoders are to write the narrowest of half, single and double precision that decodes back to the value. The TypeScript one does not
look for halves among the subnormal numbers and the infinities. The Python one has no half for an infinity either, and packs a single
without a guard, so a double that rounds past the largest single raises instead of being written as a double.
-/

namespace BrainSdk.Cbor

open Library Format

/-- The narrowest encoding that decodes back to the value. -/
inductive Narrowest (x : Double) : Bytes → Prop
  | half {bits : Nat} (hbits : bits < 2 * binary16.signBit) (hx : widen binary16 bits = x) : Narrowest x (0xF9 :: toBytesBE 2 bits)
  | single {bits : Nat} (hhalf : ∀ b < 2 * binary16.signBit, widen binary16 b ≠ x) (hbits : bits < 2 * binary32.signBit)
      (hx : widen binary32 bits = x) : Narrowest x (0xFA :: toBytesBE 4 bits)
  | double (hhalf : ∀ b < 2 * binary16.signBit, widen binary16 b ≠ x) (hsingle : ∀ b < 2 * binary32.signBit, widen binary32 b ≠ x) :
      Narrowest x (0xFB :: toBytesBE 8 x.toNat)

/-- A nonzero multiple of 2^-24 below 2^-14 in magnitude: a subnormal number of half precision. -/
def HalfSubnormal (x : Double) : Prop := ∃ k, 0 < k ∧ k < 2 ^ binary16.fraction ∧ x.magnitude = k * 2 ^ binary16.step

/-- At least 2^128 - 2^103 in magnitude, half a step past the largest single: a double that rounds to an infinite single. -/
def OverSingle (x : Double) : Prop := 0x47EFFFFFF0000000 ≤ x.abs

/-! ### What a format has -/

/-- Where a format has a finite double, the bits it rounds to stand for it. -/
theorem Narrow.widen_round {F : Format} {n : Nat} (h : Narrow F n) {x : Double} (hhas : F.Has x.magnitude) :
    x.sign * F.signBit + F.round x.magnitude < 2 * F.signBit ∧ widen F (x.sign * F.signBit + F.round x.magnitude) = x := by
  obtain ⟨hfits, hmag⟩ := has_iff_round.1 hhas
  obtain ⟨hsign, habs⟩ := h.widen_finite x.sign_lt hfits
  refine ⟨?_, Double.ext_fields hsign ?_⟩
  · have hlt := hfits.trans (inf_lt_signBit F)
    have hs := x.sign_lt
    rcases (by omega : x.sign = 0 ∨ x.sign = 1) with h0 | h1
    · rw [h0]
      omega
    · rw [h1]
      omega
  · rw [habs, hmag]
    exact round_magnitude _ _

/-- Some bits of a narrower format stand for a finite double exactly when the format has its magnitude. -/
theorem Narrow.exists_widen_iff {F : Format} {n : Nat} (h : Narrow F n) {x : Double} (hx : x.isFinite) :
    (∃ bits < 2 * F.signBit, widen F bits = x) ↔ F.Has x.magnitude := by
  have hpos : 0 < F.signBit := Nat.two_pow_pos _
  constructor
  · rintro ⟨bits, hbits, rfl⟩
    have hsign : bits / F.signBit < 2 := by
      rw [Nat.div_lt_iff_lt_mul hpos]
      exact hbits
    by_cases hfinite : bits % F.signBit < F.inf
    · have hwiden := h.widen_finite hsign hfinite
      rw [Nat.div_add_mod' bits F.signBit] at hwiden
      refine ⟨bits % F.signBit, hfinite, ?_⟩
      unfold Double.magnitude
      rw [hwiden.2, h.magnitude_round]
    · exact absurd hx (h.not_finite hsign (Nat.le_of_not_lt hfinite))
  · intro hhas
    obtain ⟨hlt, heq⟩ := h.widen_round hhas
    exact ⟨_, hlt, heq⟩

theorem magnitude_eq_zero {x : Double} : x.magnitude = 0 ↔ x.abs = 0 := by
  have hzero : binary64.magnitude 0 = 0 := by decide
  unfold Double.magnitude
  constructor
  · intro h
    exact binary64.magnitude_strictMono.injective (h.trans hzero.symm)
  · intro h
    rw [h, hzero]

/-- Half precision has zero, its subnormal numbers and its normal ones. -/
theorem hasHalf_iff {x : Double} :
    binary16.Has x.magnitude ↔ x.abs = 0 ∨ HalfSubnormal x ∨ TypeScript.HasNormalHalf x.magnitude := by
  constructor
  · rintro ⟨bits, hbits, hmag⟩
    rcases Nat.lt_or_ge bits (2 ^ binary16.fraction) with hlt | hge
    · rw [magnitude_of_lt hlt] at hmag
      rcases Nat.eq_zero_or_pos bits with rfl | hpos
      · exact .inl (magnitude_eq_zero.1 (by rw [← hmag, Nat.zero_mul]))
      · exact .inr (.inl ⟨bits, hpos, hlt, hmag.symm⟩)
    · exact .inr (.inr ⟨bits, hge, hbits, hmag⟩)
  · have hinf : 2 ^ binary16.fraction ≤ binary16.inf := by decide
    rintro (hzero | ⟨k, -, hlt, hmag⟩ | ⟨bits, -, hbits, hmag⟩)
    · exact ⟨0, by decide, by rw [magnitude_eq_zero.2 hzero]; decide +kernel⟩
    · exact ⟨k, by omega, by rw [magnitude_of_lt hlt, hmag]⟩
    · exact ⟨bits, hbits, hmag⟩

/-- A subnormal half is below every normal one. -/
theorem HalfSubnormal.not_normal {x : Double} (h : HalfSubnormal x) : x.abs ≠ 0 ∧ ¬TypeScript.HasNormalHalf x.magnitude := by
  obtain ⟨k, hpos, hlt, hmag⟩ := h
  have hstep : 0 < 2 ^ binary16.step := Nat.two_pow_pos _
  rw [← magnitude_of_lt (F := binary16) hlt] at hmag
  refine ⟨?_, ?_⟩
  · intro hzero
    rw [magnitude_eq_zero.2 hzero, magnitude_of_lt hlt] at hmag
    exact absurd hmag.symm (Nat.mul_ne_zero (by omega) (by omega))
  · rintro ⟨bits, hge, -, hnormal⟩
    have := binary16.magnitude_strictMono.injective (hnormal.trans hmag)
    omega

theorem round32_lt_iff {x : Double} : binary32.round x.magnitude < binary32.inf ↔ ¬OverSingle x := by
  have hover : binary32.round (binary64.magnitude 0x47EFFFFFF0000000) = binary32.inf := by decide +kernel
  have hbelow : binary32.round (binary64.magnitude 0x47EFFFFFEFFFFFFF) < binary32.inf := by decide +kernel
  have hmono : ∀ {a b : Nat}, a ≤ b → binary32.round (binary64.magnitude a) ≤ binary32.round (binary64.magnitude b) :=
    fun h => binary32.round_mono (binary64.magnitude_strictMono.monotone h)
  unfold OverSingle Double.magnitude
  constructor
  · intro hlt hge
    have := hmono hge
    omega
  · intro hlt
    exact Nat.lt_of_le_of_lt (hmono (by omega)) hbelow

/-- What half precision has does not round past the largest single. -/
theorem not_overSingle_of_hasHalf {x : Double} (h : binary16.Has x.magnitude) : ¬OverSingle x := by
  obtain ⟨bits, hbits, hmag⟩ := h
  have hbelow : binary32.round (binary16.magnitude binary16.inf) < binary32.inf := by decide +kernel
  rw [← round32_lt_iff, ← hmag]
  exact Nat.lt_of_le_of_lt (binary32.round_mono (binary16.magnitude_strictMono.monotone (Nat.le_of_lt hbits))) hbelow

/-! ### The encoders -/

/-- The encoders agree on the value, and what they write is the narrowest encoding of it. -/
def SameNarrowest (x : Double) (bytes : Bytes) : Prop := Python.shortestFloatBytes x = .ok bytes ∧ Narrowest x bytes

theorem writeF64_of_half {x : Double} (h : x.abs = 0 ∨ TypeScript.HasNormalHalf x.magnitude) :
    TypeScript.writeF64 x = 0xF9 :: toBytesBE 2 (x.sign * binary16.signBit + binary16.round x.magnitude) := by
  have hhalf : TypeScript.toHalfBitsExact x = some (x.sign * binary16.signBit + binary16.round x.magnitude) := by
    rcases h with hzero | hnormal
    · exact TypeScript.toHalf_zero hzero
    · exact TypeScript.toHalf_normal hnormal
  unfold TypeScript.writeF64
  rw [hhalf, Option.elim_some, TypeScript.writeHalf_eq]

theorem writeF64_of_not_half {x : Double} (hzero : x.abs ≠ 0) (hnormal : ¬TypeScript.HasNormalHalf x.magnitude) :
    TypeScript.writeF64 x =
      if (TypeScript.fround x).eq x then TypeScript.writeSingle x else TypeScript.writeDouble x := by
  unfold TypeScript.writeF64
  rw [TypeScript.toHalf_none hzero hnormal, Option.elim_none]

/-- A value that is no half is not written as one. -/
theorem writeF64_head {x : Double} (hzero : x.abs ≠ 0) (hnormal : ¬TypeScript.HasNormalHalf x.magnitude) (bytes : Bytes) :
    TypeScript.writeF64 x ≠ 0xF9 :: bytes := by
  rw [writeF64_of_not_half hzero hnormal]
  split
  · unfold TypeScript.writeSingle
    exact fun h => absurd (List.cons.inj h).1 (by decide)
  · unfold TypeScript.writeDouble
    exact fun h => absurd (List.cons.inj h).1 (by decide)

/-- Half precision where it has the value, by both encoders. -/
theorem sameNarrowest_half {x : Double} (hx : x.isFinite) (hhas : binary16.Has x.magnitude) (hsub : ¬HalfSubnormal x) :
    SameNarrowest x (TypeScript.writeF64 x) := by
  have hhalf : x.abs = 0 ∨ TypeScript.HasNormalHalf x.magnitude := by
    rcases hasHalf_iff.1 hhas with hzero | hsub' | hnormal
    · exact .inl hzero
    · exact absurd hsub' hsub
    · exact .inr hnormal
  obtain ⟨hlt, heq⟩ := narrow_binary16.widen_round hhas
  rw [writeF64_of_half hhalf]
  exact ⟨Python.shortest_half hx hhas, .half hlt heq⟩

/-- Single or double precision where half precision does not have the value, by both encoders. -/
theorem sameNarrowest_wide {x : Double} (hx : x.isFinite) (hhas : ¬binary16.Has x.magnitude) (hover : ¬OverSingle x) :
    SameNarrowest x (TypeScript.writeF64 x) := by
  have hzero : x.abs ≠ 0 := fun h => hhas (hasHalf_iff.2 (.inl h))
  have hnormal : ¬TypeScript.HasNormalHalf x.magnitude := fun h => hhas (hasHalf_iff.2 (.inr (.inr h)))
  have hhalf : ∀ b < 2 * binary16.signBit, widen binary16 b ≠ x :=
    fun b hb heq => hhas ((narrow_binary16.exists_widen_iff hx).1 ⟨b, hb, heq⟩)
  unfold SameNarrowest
  rw [writeF64_of_not_half hzero hnormal, Python.shortest_wide hx hhas]
  by_cases hsingle : binary32.Has x.magnitude
  · obtain ⟨hlt, heq⟩ := narrow_binary32.widen_round hsingle
    rw [if_pos ((TypeScript.fround_eq_iff hx).2 hsingle), Python.single_has hx hsingle, TypeScript.writeSingle,
      TypeScript.float32Bits_of_has hx hsingle]
    exact ⟨rfl, .single hhalf hlt heq⟩
  · have hnone : ∀ b < 2 * binary32.signBit, widen binary32 b ≠ x :=
      fun b hb heq => hsingle ((narrow_binary32.exists_widen_iff hx).1 ⟨b, hb, heq⟩)
    rw [if_neg (fun h => hsingle ((TypeScript.fround_eq_iff hx).1 h)), Python.single_not_has hx (round32_lt_iff.2 hover) hsingle,
      TypeScript.writeDouble]
    exact ⟨rfl, .double hhalf hnone⟩

/-- An infinity is no half by the bit test. -/
theorem not_normalHalf_of_inf {x : Double} (hx : x.isInf) : x.abs ≠ 0 ∧ ¬TypeScript.HasNormalHalf x.magnitude := by
  refine ⟨?_, ?_⟩
  · rw [hx]
    decide
  · rintro ⟨bits, -, hbits, hmag⟩
    have hpast : binary16.magnitude binary16.inf ≤ binary64.magnitude binary64.inf := by decide +kernel
    have hlt := binary16.magnitude_strictMono hbits
    unfold Double.magnitude at hmag
    rw [hmag, hx] at hlt
    omega

/-- An infinity is written as a single by TypeScript and as a double by Python. -/
theorem inf_differs {x : Double} (hx : x.isInf) :
    Python.shortestFloatBytes x ≠ .ok (TypeScript.writeF64 x) ∧ Python.shortestFloatBytes x ≠ .ok (TypeScript.writeF32 x) := by
  obtain ⟨hzero, hnormal⟩ := not_normalHalf_of_inf hx
  have hnan : ¬x.isNaN := by
    unfold Double.isNaN
    rw [hx]
    exact Nat.lt_irrefl _
  have hbits : TypeScript.float32Bits x = x.sign * binary32.signBit + binary32.inf := by
    unfold TypeScript.float32Bits
    rw [if_neg (fun h : x.isFinite => Nat.ne_of_lt h hx), if_pos hx]
  have hfround : (TypeScript.fround x).eq x = true := by
    have hsign : (TypeScript.fround x).sign = x.sign ∧ (TypeScript.fround x).abs = x.abs := by
      unfold TypeScript.fround widen
      dsimp only
      rw [hbits, signed_div _ (inf_lt_signBit _), signed_mod _ (inf_lt_signBit _), if_neg (Nat.lt_irrefl _), Nat.sub_self, Nat.zero_mul,
        Nat.add_zero, hx]
      exact ⟨Double.sign_mk x.sign_lt (inf_lt_signBit _), Double.abs_mk x.sign_lt (inf_lt_signBit _)⟩
    have heq : TypeScript.fround x = x := Double.ext_fields hsign.1 hsign.2
    rw [heq, Double.eq_iff hnan hnan rfl]
  have hsingle : Python.shortestFloatBytes x ≠ .ok (TypeScript.writeSingle x) := by
    rw [Python.shortest_of_inf hx, TypeScript.writeSingle]
    exact fun h => absurd (List.cons.inj (Except.ok.inj h)).1 (by decide)
  refine ⟨?_, ?_⟩
  · rw [writeF64_of_not_half hzero hnormal, if_pos hfround]
    exact hsingle
  · unfold TypeScript.writeF32
    rw [TypeScript.toHalf_none hzero hnormal, Option.elim_none]
    exact hsingle

/-- Every double but a NaN. -/
theorem writeF64_iff {x : Double} (hx : ¬x.isNaN) :
    SameNarrowest x (TypeScript.writeF64 x) ↔ x.isFinite ∧ ¬HalfSubnormal x ∧ ¬OverSingle x := by
  rcases Nat.lt_or_eq_of_le (Nat.le_of_not_lt hx) with hfinite | hinf
  · constructor
    · rintro ⟨hpy, -⟩
      refine ⟨hfinite, ?_, ?_⟩
      · intro hsub
        obtain ⟨hzero, hnormal⟩ := hsub.not_normal
        rw [Python.shortest_half hfinite (hasHalf_iff.2 (.inr (.inl hsub)))] at hpy
        exact writeF64_head hzero hnormal _ (Except.ok.inj hpy).symm
      · intro hover
        obtain ⟨e, he⟩ := Python.single_overflow (Nat.le_of_not_lt (fun h => round32_lt_iff.1 h hover))
        rw [Python.shortest_wide hfinite (fun hhas => not_overSingle_of_hasHalf hhas hover), he] at hpy
        cases hpy
    · rintro ⟨-, hsub, hover⟩
      by_cases hhas : binary16.Has x.magnitude
      · exact sameNarrowest_half hfinite hhas hsub
      · exact sameNarrowest_wide hfinite hhas hover
  · refine iff_of_false (fun h => (inf_differs hinf).1 h.1) (fun h => ?_)
    exact Nat.ne_of_lt h.1 hinf

/-- A single that is no NaN widens to a double that single precision has, or to an infinity. -/
theorem widen_single (b : BitVec 32) (hb : b.toNat % binary32.signBit ≤ binary32.inf) :
    (widen binary32 b.toNat).isFinite ∧ binary32.Has (widen binary32 b.toNat).magnitude ∨ (widen binary32 b.toNat).isInf := by
  have hwidth : b.toNat < 2 * binary32.signBit := b.isLt
  have hpos : 0 < binary32.signBit := Nat.two_pow_pos _
  have hsign : b.toNat / binary32.signBit < 2 := by
    rw [Nat.div_lt_iff_lt_mul hpos]
    exact hwidth
  rcases Nat.lt_or_eq_of_le hb with hlt | heq
  · have hwiden := narrow_binary32.widen_finite hsign hlt
    rw [Nat.div_add_mod' b.toNat binary32.signBit] at hwiden
    have hfinite : (widen binary32 b.toNat).isFinite := by
      unfold Double.isFinite
      rw [hwiden.2]
      exact narrow_binary32.round_lt hlt
    exact .inl ⟨hfinite, (narrow_binary32.exists_widen_iff hfinite).1 ⟨b.toNat, hwidth, rfl⟩⟩
  · refine .inr ?_
    unfold Double.isInf widen
    dsimp only
    rw [heq, if_neg (Nat.lt_irrefl _), Nat.sub_self, Nat.zero_mul, Nat.add_zero]
    exact Double.abs_mk hsign (inf_lt_signBit _)

/-- A value that single precision has is written alike by `writeF32` and `writeF64`. -/
theorem writeF32_eq_writeF64 {x : Double} (hx : x.isFinite) (hhas : binary32.Has x.magnitude) :
    TypeScript.writeF32 x = TypeScript.writeF64 x := by
  unfold TypeScript.writeF32 TypeScript.writeF64
  rw [if_pos ((TypeScript.fround_eq_iff hx).2 hhas)]

/-- Every single but a NaN. -/
theorem writeF32_iff (b : BitVec 32) (hb : b.toNat % binary32.signBit ≤ binary32.inf) :
    SameNarrowest (widen binary32 b.toNat) (TypeScript.writeF32 (widen binary32 b.toNat)) ↔
      (widen binary32 b.toNat).isFinite ∧ ¬HalfSubnormal (widen binary32 b.toNat) := by
  rcases widen_single b hb with ⟨hfinite, hhas⟩ | hinf
  · have hover : ¬OverSingle (widen binary32 b.toNat) := round32_lt_iff.1 (has_iff_round.1 hhas).1
    have hnan : ¬(widen binary32 b.toNat).isNaN := Nat.not_lt.2 (Nat.le_of_lt hfinite)
    rw [writeF32_eq_writeF64 hfinite hhas, writeF64_iff hnan]
    simp only [hover, not_false_eq_true, and_true]
  · refine iff_of_false (fun h => (inf_differs hinf).2 h.1) (fun h => ?_)
    exact Nat.ne_of_lt h.1 hinf

/-- For every double that is no NaN, Python and TypeScript write the same bytes and these are the narrowest encoding, exactly when the
double is finite, is no subnormal half and does not round past the largest single. For every single that is no NaN they do exactly when
the single is finite and no subnormal half. -/
theorem float_bytes_agree_iff (x : Double) (b : BitVec 32) (hx : ¬x.isNaN) (hb : b.toNat % binary32.signBit ≤ binary32.inf) :
    (SameNarrowest x (TypeScript.writeF64 x) ↔ x.isFinite ∧ ¬HalfSubnormal x ∧ ¬OverSingle x) ∧
    (SameNarrowest (widen binary32 b.toNat) (TypeScript.writeF32 (widen binary32 b.toNat)) ↔
      (widen binary32 b.toNat).isFinite ∧ ¬HalfSubnormal (widen binary32 b.toNat)) :=
  ⟨writeF64_iff hx, writeF32_iff b hb⟩

/-- A value of at least 2^-14 is no subnormal half. -/
theorem not_halfSubnormal_of_le {x : Double} (h : binary16.magnitude (2 ^ binary16.fraction) ≤ x.magnitude) : ¬HalfSubnormal x := by
  rintro ⟨k, -, hk, hmag⟩
  rw [hmag, ← magnitude_of_lt (F := binary16) hk] at h
  exact absurd (binary16.magnitude_strictMono hk) (Nat.not_lt.2 h)

/-- 12.5 is written as the same half by both, as a double and as a single. -/
theorem float_bytes_agree_iff_half :
    SameNarrowest 0x4029000000000000#64 (TypeScript.writeF64 0x4029000000000000#64) ∧
    SameNarrowest (widen binary32 0x41480000) (TypeScript.writeF32 (widen binary32 0x41480000)) := by
  have h := float_bytes_agree_iff 0x4029000000000000#64 0x41480000#32 (by decide) (by decide)
  have hover : ¬OverSingle 0x4029000000000000#64 := by
    unfold OverSingle
    decide +kernel
  refine ⟨h.1.2 ⟨by decide +kernel, not_halfSubnormal_of_le (by decide +kernel), hover⟩, h.2.2 ⟨by decide +kernel, ?_⟩⟩
  exact not_halfSubnormal_of_le (by decide +kernel)

/-- 2^-24 is a half to Python and a single to TypeScript, an infinity a double to the one and a single to the other, and 1e300 raises
in Python. -/
theorem float_bytes_differ :
    Python.shortestFloatBytes 0x3E70000000000000#64 = .ok [0xF9, 0x00, 0x01] ∧
    TypeScript.writeF64 0x3E70000000000000#64 = [0xFA, 0x33, 0x80, 0x00, 0x00] ∧
    TypeScript.writeF32 (widen binary32 0x33800000) = [0xFA, 0x33, 0x80, 0x00, 0x00] ∧
    Python.shortestFloatBytes (widen binary32 0x33800000) = .ok [0xF9, 0x00, 0x01] ∧
    Python.shortestFloatBytes 0x7FF0000000000000#64 = .ok [0xFB, 0x7F, 0xF0, 0x00, 0x00, 0x00, 0x00, 0x00, 0x00] ∧
    TypeScript.writeF64 0x7FF0000000000000#64 = [0xFA, 0x7F, 0x80, 0x00, 0x00] ∧
    Python.shortestFloatBytes 0x7E37E43C8800759C#64 = .error ⟨"float too large to pack with f format"⟩ ∧
    ¬SameNarrowest 0x3E70000000000000#64 (TypeScript.writeF64 0x3E70000000000000#64) := by
  have hpy : Python.shortestFloatBytes 0x3E70000000000000#64 = .ok [0xF9, 0x00, 0x01] := by decide +kernel
  have hts : TypeScript.writeF64 0x3E70000000000000#64 = [0xFA, 0x33, 0x80, 0x00, 0x00] := by decide +kernel
  refine ⟨hpy, hts, by decide +kernel, by decide +kernel, by decide +kernel, by decide +kernel, by decide +kernel, ?_⟩
  rintro ⟨hsame, -⟩
  rw [hpy, hts] at hsame
  exact absurd (List.cons.inj (Except.ok.inj hsame)).1 (by decide)

end BrainSdk.Cbor
