import BrainSdk.Cbor.Statement
import BrainSdk.Cbor.FloatLemmas
import BrainSdk.Cbor.Grammar

/-!
# What the encoders write

The shortest head is a head, and the digits of a bignum spell it. `pushHead` writes shortest heads, an integer that needs no tag is its
head alone, and a byte of a list is written as the integer it is.
-/

namespace BrainSdk.Cbor

open Library

/-! ### Heads -/

theorem initialByte_fields {major arg : Nat} (hm : major < 8) (ha : arg < 32) :
    Cbor.major (UInt8.ofNat (major * 32 + arg)) = major ∧ additionalInfo (UInt8.ofNat (major * 32 + arg)) = arg := by
  have hbyte : (UInt8.ofNat (major * 32 + arg)).toNat = major * 32 + arg := by
    rw [UInt8.toNat_ofNat']
    omega
  have hand : (major * 32 + arg) &&& 0x1F = (major * 32 + arg) % 2 ^ 5 := Nat.and_two_pow_sub_one_eq_mod _ 5
  unfold Cbor.major additionalInfo
  rw [hbyte, hand, Nat.shiftRight_eq_div_pow]
  omega

theorem isHead_wide {major ai w arg : Nat} (hm : major < 8) (hl : 24 ≤ ai) (hu : ai ≤ 27) (hw : argWidth ai = w)
    (harg : arg < 256 ^ w) : IsHead major arg (UInt8.ofNat (major * 32 + ai) :: toBytesBE w arg) := by
  obtain ⟨hmajor, hai⟩ := initialByte_fields hm (show ai < 32 by omega)
  have hlen : (toBytesBE w arg).length = argWidth (additionalInfo (UInt8.ofNat (major * 32 + ai))) := by
    rw [hai, hw, length_toBytesBE]
  have h := IsHead.wide (by omega) (by omega) hlen
  rwa [hmajor, fromBytesBE_toBytesBE_of_lt harg] at h

/-- The shortest head is one. -/
theorem isHead_shortest {major arg : Nat} (hm : major < 8) (harg : arg < 2 ^ 64) : IsHead major arg (shortestHead major arg) := by
  unfold shortestHead
  by_cases h1 : arg < 24
  · obtain ⟨hmajor, hai⟩ := initialByte_fields hm (show arg < 32 by omega)
    have hlow : additionalInfo (UInt8.ofNat (major * 32 + arg)) < 24 := by rwa [hai]
    have h := IsHead.immediate hlow
    rw [if_pos h1]
    rwa [hmajor, hai] at h
  by_cases h2 : arg < 2 ^ 8
  · rw [if_neg h1, if_pos h2]
    exact isHead_wide hm (by decide) (by decide) (by decide) h2
  by_cases h3 : arg < 2 ^ 16
  · rw [if_neg h1, if_neg h2, if_pos h3]
    exact isHead_wide hm (by decide) (by decide) (by decide) h3
  by_cases h4 : arg < 2 ^ 32
  · rw [if_neg h1, if_neg h2, if_neg h3, if_pos h4]
    exact isHead_wide hm (by decide) (by decide) (by decide) h4
  · rw [if_neg h1, if_neg h2, if_neg h3, if_neg h4]
    exact isHead_wide hm (by decide) (by decide) (by decide) harg

/-- The digits of a bignum spell it. -/
theorem fromBytesBE_digits {ds : List Nat} (h : ∀ d ∈ ds, d < 256) : fromBytesBE (ds.reverse.map UInt8.ofNat) = Nat.ofDigits 256 ds := by
  induction ds with
  | nil => rfl
  | cons d ds ih =>
    have hd := h d List.mem_cons_self
    have hbyte : (UInt8.ofNat d).toNat = d := by
      rw [UInt8.toNat_ofNat']
      omega
    rw [List.reverse_cons, List.map_append, List.map_singleton, fromBytesBE_snoc, ih (fun x hx => h x (List.mem_cons_of_mem d hx)), hbyte,
      Nat.ofDigits_cons]
    omega

end BrainSdk.Cbor

namespace BrainSdk.TypeScript

open Library Cbor Format

theorem ofNat_shiftRight (n k : Nat) : UInt8.ofNat ((n >>> k) &&& 0xFF) = UInt8.ofNat (n / 2 ^ k) := by
  have hmask : (n >>> k) &&& 0xFF = (n / 2 ^ k) % 2 ^ 8 := by
    rw [Nat.shiftRight_eq_div_pow]
    exact Nat.and_two_pow_sub_one_eq_mod _ 8
  apply UInt8.toNat_inj.1
  rw [hmask, UInt8.toNat_ofNat', UInt8.toNat_ofNat', Nat.mod_mod]

/-- The initial byte: major type and low bits do not overlap. -/
theorem initialByte_eq (major : Nat) {low : Nat} (h : low < 32) : UInt8.ofNat (major <<< 5 ||| low) = UInt8.ofNat (major * 32 + low) := by
  rw [← Nat.shiftLeft_add_eq_or_of_lt (by omega : low < 2 ^ 5), Nat.shiftLeft_eq]

/-- `pushHead` writes the shortest head. -/
theorem pushHead_eq (major arg : Nat) : pushHead major arg = shortestHead major arg := by
  have hlast : UInt8.ofNat (arg &&& 0xFF) = UInt8.ofNat arg := by
    have h := ofNat_shiftRight arg 0
    rwa [Nat.shiftRight_zero, Nat.pow_zero, Nat.div_one] at h
  unfold pushHead shortestHead
  dsimp only
  by_cases h1 : arg < 24
  · rw [if_pos h1, if_pos h1, initialByte_eq major (by omega)]
  by_cases h2 : arg < 2 ^ 8
  · rw [if_neg h1, if_neg h1, if_pos (by omega), if_pos h2, initialByte_eq major (by omega)]
    rfl
  by_cases h3 : arg < 2 ^ 16
  · rw [if_neg h1, if_neg h1, if_neg (by omega), if_neg h2, if_pos (by omega), if_pos h3, initialByte_eq major (by omega),
      ofNat_shiftRight, hlast]
    rfl
  by_cases h4 : arg < 2 ^ 32
  · rw [if_neg h1, if_neg h1, if_neg (by omega), if_neg h2, if_neg (by omega), if_neg h3, if_pos (by omega), if_pos h4,
      initialByte_eq major (by omega), ofNat_shiftRight, ofNat_shiftRight, ofNat_shiftRight, hlast]
    simp only [toBytesBE, Nat.div_div_eq_div_mul]
    rfl
  · rw [if_neg h1, if_neg h1, if_neg (by omega), if_neg h2, if_neg (by omega), if_neg h3, if_neg (by omega), if_neg h4,
      initialByte_eq major (by omega)]
    simp only [List.map_cons, List.map_nil, ofNat_shiftRight, toBytesBE, Nat.div_div_eq_div_mul, Nat.pow_zero, Nat.div_one]
    rfl

/-- An unsigned integer that needs no tag is its head. -/
theorem writeInteger_uint {n : Nat} (h : n < 2 ^ 64) : writeInteger n = .ok (shortestHead 0 n) := by
  unfold writeInteger
  rw [if_pos (by omega), if_pos (by omega), Int.toNat_natCast, pushHead_eq]

/-- A negative integer that needs no tag is its head. -/
theorem writeInteger_nint {n : Nat} (h : n < 2 ^ 64) : writeInteger (-1 - n) = .ok (shortestHead 1 n) := by
  have harg : (-1 - (-1 - (n : Int))).toNat = n := by omega
  unfold writeInteger
  rw [if_neg (by omega), if_pos (by omega), harg, pushHead_eq]

/-- The number of a byte has the byte as its value. -/
theorem magnitude_byteNumber (b : UInt8) :
    (Double.mk 0 (binary64.round (b.toNat * 2 ^ oneExponent))).magnitude = b.toNat * 2 ^ oneExponent ∧
    (Double.mk 0 (binary64.round (b.toNat * 2 ^ oneExponent))).isFinite ∧
    (Double.mk 0 (binary64.round (b.toNat * 2 ^ oneExponent))).sign = 0 := by
  have hb := b.toNat_lt
  have hround : binary64.round (b.toNat * 2 ^ oneExponent) < binary64.inf := by
    have hmax : binary64.round (2 ^ 8 * 2 ^ oneExponent) < binary64.inf := by decide +kernel
    have hle : b.toNat * 2 ^ oneExponent ≤ 2 ^ 8 * 2 ^ oneExponent := by gcongr
    exact Nat.lt_of_le_of_lt (binary64.round_mono hle) hmax
  have habs := Double.abs_mk (by decide : 0 < 2) (Nat.lt_trans hround (inf_lt_signBit _))
  have hbits : b.toNat < 2 ^ (binary64.fraction + 1) := Nat.lt_of_lt_of_le hb (by decide)
  obtain ⟨bits, hmag⟩ := exists_magnitude (F := binary64) hbits oneExponent
  have hstep : oneExponent + binary64.step = oneExponent := rfl
  rw [hstep] at hmag
  refine ⟨?_, ?_, Double.sign_mk (by decide) (Nat.lt_trans hround (inf_lt_signBit _))⟩
  · unfold Double.magnitude
    rw [habs, ← hmag, round_magnitude]
  · unfold Double.isFinite
    rw [habs]
    exact hround

/-- A byte of a list is written as the integer it is. -/
theorem writeValue_byteNumber (b : UInt8) : writeValue (byteNumber b) = .ok (shortestHead 0 b.toNat) := by
  obtain ⟨hmag, hfinite, hsign⟩ := magnitude_byteNumber b
  have hpos : 0 < 2 ^ oneExponent := Nat.two_pow_pos _
  have hb := b.toNat_lt
  have hint : isInteger (Double.mk 0 (binary64.round (b.toNat * 2 ^ oneExponent))) := by
    refine ⟨hfinite, ?_⟩
    rw [hmag, Nat.mul_mod_left]
  have hval : bigInt (Double.mk 0 (binary64.round (b.toNat * 2 ^ oneExponent))) = (b.toNat : Nat) := by
    unfold bigInt
    rw [if_pos hsign, hmag, Nat.mul_div_cancel _ hpos]
  unfold byteNumber writeValue
  rw [if_pos hint, hval]
  exact writeInteger_uint (by omega)

/-- An array of bytes, byte by byte. -/
theorem writeItems_bytes (bytes : Bytes) : writeItems (bytes.map byteNumber) = .ok (bytes.flatMap (fun b => shortestHead 0 b.toNat)) := by
  induction bytes with
  | nil => rfl
  | cons b bytes ih =>
    rw [List.map_cons, writeItems, writeValue_byteNumber, ih]
    rfl

end BrainSdk.TypeScript
