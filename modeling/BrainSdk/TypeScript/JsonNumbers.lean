import BrainSdk.Cbor.FloatLemmas
import BrainSdk.TypeScript.JsonBody
import BrainSdk.TypeScript.JsonLemmas
import Mathlib.Data.Nat.Digits.Lemmas

/-!
# Numbers in JSON

The literals that `Number::toString` and `BigInt::toString` write, and what they are read as. A literal of `layout` has the value of its
digits at their power of ten, so the literal of a number comes back as the number, and that of a safe integer as the integer.
-/

namespace BrainSdk.TypeScript.Json

open Library Library.Json Library.Format Cbor

/-! ### Decimal digits -/

/-- A digit as a unit. -/
theorem digit_unit {d : Nat} (h : d < 10) : isDigit (0x30 + UInt16.ofNat d) = true ∧ (0x30 + UInt16.ofNat d - 0x30).toNat = d := by
  have hall : ∀ d < 10, isDigit (0x30 + UInt16.ofNat d) = true ∧ (0x30 + UInt16.ofNat d - 0x30).toNat = d := by decide
  exact hall d h

theorem digitsValue_append (a b : Units) : digitsValue (a ++ b) = digitsValue a * 10 ^ b.length + digitsValue b := by
  have h := foldl_digits b (digitsValue a)
  unfold digitsValue at h ⊢
  rw [List.foldl_append, h]

/-- Digits in order of their weight spell the number that they are of. -/
theorem digitsValue_reverse {ds : List Nat} (h : ∀ d ∈ ds, d < 10) :
    digitsValue (ds.reverse.map (fun d => 0x30 + UInt16.ofNat d)) = Nat.ofDigits 10 ds := by
  induction ds with
  | nil => rfl
  | cons d ds ih =>
    obtain ⟨hd, hds⟩ := List.forall_mem_cons.1 h
    have hlast : digitsValue [0x30 + UInt16.ofNat d] = d := by
      rw [digitsValue_cons, (digit_unit hd).2]
      simp [digitsValue]
    rw [List.reverse_cons, List.map_append, List.map_singleton, digitsValue_append, ih hds, hlast, Nat.ofDigits_cons,
      List.length_singleton, Nat.pow_one, Nat.mul_comm, Nat.add_comm]

theorem digitsValue_decimal (n : Nat) : digitsValue (decimal n) = n := by
  unfold decimal
  split
  · subst n
    rfl
  · rw [digitsValue_reverse (fun d hd => Nat.digits_lt_base (by decide) hd), Nat.ofDigits_digits]

theorem isDigits_decimal (n : Nat) : IsDigits (decimal n) := by
  intro c hc
  unfold decimal at hc
  split at hc
  · rw [List.mem_singleton.1 hc]
    decide
  · obtain ⟨d, hd, rfl⟩ := List.mem_map.1 hc
    exact (digit_unit (Nat.digits_lt_base (by decide) (List.mem_reverse.1 hd))).1

/-- The first digit of a positive number is not zero. -/
theorem decimal_cons {n : Nat} (hn : n ≠ 0) : ∃ d ds, decimal n = d :: ds ∧ d ≠ zero := by
  have hne : Nat.digits 10 n ≠ [] := Nat.digits_ne_nil_iff_ne_zero.2 hn
  have hlast := Nat.getLast_digit_ne_zero 10 hn
  have hlt : (Nat.digits 10 n).getLast hne < 10 := Nat.digits_lt_base (by decide) (List.getLast_mem hne)
  have hrev : (Nat.digits 10 n).reverse = (Nat.digits 10 n).getLast hne :: (Nat.digits 10 n).dropLast.reverse := by
    conv_lhs => rw [← List.dropLast_append_getLast hne]
    rw [List.reverse_append, List.reverse_singleton, List.singleton_append]
  have hdecimal : decimal n = (0x30 + UInt16.ofNat ((Nat.digits 10 n).getLast hne)) ::
      (Nat.digits 10 n).dropLast.reverse.map (fun d => 0x30 + UInt16.ofNat d) := by
    unfold decimal
    rw [if_neg hn, hrev, List.map_cons]
  refine ⟨_, _, hdecimal, ?_⟩
  intro hzero
  have hvalue := (digit_unit hlt).2
  rw [hzero] at hvalue
  exact hlast hvalue.symm

theorem isInt_decimal (n : Nat) : IsInt (decimal n) := by
  by_cases hn : n = 0
  · subst hn
    exact .zero
  · obtain ⟨d, ds, hdecimal, hd⟩ := decimal_cons hn
    obtain ⟨hd', hds⟩ := List.forall_mem_cons.1 (hdecimal ▸ isDigits_decimal n)
    rw [hdecimal]
    exact .digits hd' hd hds

theorem isDigits_zeros (n : Nat) : IsDigits (zeros n) := by
  intro c hc
  rw [List.eq_of_mem_replicate hc]
  decide

theorem digitsValue_zeros (n : Nat) : digitsValue (zeros n) = 0 := by
  induction n with
  | zero => rfl
  | succ n ih =>
    rw [zeros, List.replicate_succ, digitsValue_cons, ← zeros, ih]
    simp [zero]

/-! ### The value of a layout -/

/-- The digits of a literal, and the power of ten that they stand at. -/
def mantissa (n : Number) : Nat := digitsValue (n.int ++ fractionDigits n)

def power (n : Number) : Int := exponentValue n - (fractionDigits n).length

theorem numberValue_eq (n : Number) : numberValue n =
    .mk (if n.negative then 1 else 0)
      (min (binary64.roundDiv (mantissa n * 10 ^ (power n).toNat * 2 ^ 1074) (10 ^ (-power n).toNat)) binary64.inf) := rfl

/-- An exponent as it is written. -/
theorem exponentValue_written (negative : Bool) (int frac : Units) (e : Int) :
    exponentValue ⟨negative, int, frac, 0x65 :: (if e < 0 then minus else 0x2B) :: decimal e.natAbs⟩ = e := by
  have hsign : isSign 0x2B = true ∧ (0x2B : UInt16) ≠ minus := by decide
  unfold exponentValue
  rw [List.drop_succ_cons, List.drop_zero]
  dsimp only
  rw [digitsValue_decimal]
  by_cases he : e < 0
  · rw [if_pos he, if_pos rfl]
    omega
  · rw [if_neg he, if_neg hsign.2, if_pos hsign.1]
    omega

theorem isExp_written (e : Int) : IsExp (0x65 :: (if e < 0 then minus else 0x2B) :: decimal e.natAbs) := by
  obtain ⟨d, ds, h, -⟩ := (isInt_decimal e.natAbs).head
  have hdigits := isDigits_decimal e.natAbs
  rw [h] at hdigits ⊢
  split
  · exact .signed (by decide) (by decide) hdigits
  · exact .signed (by decide) (by decide) hdigits

/-- The digits behind the first one, with their point if there are any. -/
theorem fraction_written (ds : Units) : (if ds.length = 1 then [] else dot :: ds.drop 1).drop 1 = ds.drop 1 := by
  split
  · rename_i h
    rw [List.drop_nil, List.drop_of_length_le (Nat.le_of_eq h)]
  · rw [List.drop_succ_cons, List.drop_zero]

/-- A point and digits, of which there is one. -/
theorem isFrac_of_ne_nil {ds : Units} (hds : IsDigits ds) (hne : ds ≠ []) : IsFrac (dot :: ds) := by
  obtain ⟨d, ds, rfl⟩ := List.exists_cons_of_ne_nil hne
  exact .some hds

/-- The parts of each layout: the digits stand at the power of ten that they were given. -/
theorem layout_parts (negative : Bool) (s : Nat) (q : Int) :
    (layout negative s q).negative = negative ∧
      (0 ≤ q ∧ mantissa (layout negative s q) = s * 10 ^ q.toNat ∧ power (layout negative s q) = 0 ∨
        mantissa (layout negative s q) = s ∧ power (layout negative s q) = q) := by
  have hs := digitsValue_decimal s
  have hpos : 0 < (decimal s).length := by
    obtain ⟨d, ds, h, -⟩ := (isInt_decimal s).head
    rw [h]
    exact Nat.succ_pos _
  unfold layout
  dsimp only
  by_cases h₁ : 0 ≤ q ∧ ((decimal s).length : Int) + q ≤ 21
  · rw [if_pos h₁]
    refine ⟨rfl, .inl ⟨h₁.1, ?_, rfl⟩⟩
    unfold mantissa fractionDigits
    rw [List.drop_nil, List.append_nil, digitsValue_append, hs, digitsValue_zeros, zeros, List.length_replicate, Nat.add_zero]
  rw [if_neg h₁]
  by_cases h₂ : 0 < ((decimal s).length : Int) + q ∧ ((decimal s).length : Int) + q ≤ 21
  · rw [if_pos h₂]
    refine ⟨rfl, .inr ⟨?_, ?_⟩⟩
    · unfold mantissa fractionDigits
      rw [List.drop_succ_cons, List.drop_zero, List.take_append_drop, hs]
    · unfold power fractionDigits exponentValue
      rw [List.drop_succ_cons, List.drop_zero, List.length_drop, List.drop_nil]
      dsimp only
      omega
  rw [if_neg h₂]
  by_cases h₃ : -6 < ((decimal s).length : Int) + q ∧ ((decimal s).length : Int) + q ≤ 0
  · rw [if_pos h₃]
    refine ⟨rfl, .inr ⟨?_, ?_⟩⟩
    · have hzero : (zero - 0x30).toNat = 0 := rfl
      unfold mantissa fractionDigits
      rw [List.drop_succ_cons, List.drop_zero, List.singleton_append, digitsValue_cons, digitsValue_append, hs, digitsValue_zeros, hzero,
        Nat.zero_mul, Nat.zero_mul, Nat.zero_add, Nat.zero_add]
    · unfold power fractionDigits exponentValue
      rw [List.drop_succ_cons, List.drop_zero, List.length_append, zeros, List.length_replicate, List.drop_nil]
      dsimp only
      omega
  rw [if_neg h₃]
  refine ⟨rfl, .inr ⟨?_, ?_⟩⟩
  · unfold mantissa fractionDigits
    rw [fraction_written, List.take_append_drop, hs]
  · unfold power fractionDigits
    rw [exponentValue_written, fraction_written, List.length_drop]
    omega

/-- The number of a layout is the double nearest to its digits at their power of ten. -/
theorem numberValue_layout (negative : Bool) (s : Nat) (q : Int) : numberValue (layout negative s q) =
    .mk (if negative then 1 else 0) (min (binary64.roundDiv (s * 10 ^ q.toNat * 2 ^ 1074) (10 ^ (-q).toNat)) binary64.inf) := by
  obtain ⟨hnegative, ⟨hq, hmantissa, hpower⟩ | ⟨hmantissa, hpower⟩⟩ := layout_parts negative s q
  · have hneg : (-q).toNat = 0 := Int.toNat_of_nonpos (by omega)
    rw [numberValue_eq, hnegative, hmantissa, hpower, hneg, Int.neg_zero, Int.toNat_zero, Nat.pow_zero, Nat.mul_one]
  · rw [numberValue_eq, hnegative, hmantissa, hpower]

/-- The literal of a positive number is one of the grammar. -/
theorem layout_valid (negative : Bool) {s : Nat} (hs : s ≠ 0) (q : Int) : (layout negative s q).Valid := by
  obtain ⟨d, ds, hdecimal, hd⟩ := decimal_cons hs
  have hdigits := isDigits_decimal s
  have hlength : (decimal s).length = ds.length + 1 := by rw [hdecimal, List.length_cons]
  obtain ⟨hd', hds⟩ := List.forall_mem_cons.1 (hdecimal ▸ hdigits)
  have htake : ∀ k, IsInt ((decimal s).take (k + 1)) := by
    intro k
    rw [hdecimal, List.take_succ_cons]
    exact .digits hd' hd (fun c hc => hds c (List.mem_of_mem_take hc))
  have hdrop : ∀ k, IsDigits ((decimal s).drop k) := fun k c hc => hdigits c (List.mem_of_mem_drop hc)
  unfold layout
  dsimp only
  by_cases h₁ : 0 ≤ q ∧ ((decimal s).length : Int) + q ≤ 21
  · rw [if_pos h₁]
    refine ⟨?_, .none, .none⟩
    rw [hdecimal]
    exact .digits hd' hd (List.forall_mem_append.2 ⟨hds, isDigits_zeros _⟩)
  rw [if_neg h₁]
  by_cases h₂ : 0 < ((decimal s).length : Int) + q ∧ ((decimal s).length : Int) + q ≤ 21
  · rw [if_pos h₂]
    obtain ⟨k, hk⟩ : ∃ k, (((decimal s).length : Int) + q).toNat = k + 1 :=
      ⟨(((decimal s).length : Int) + q).toNat - 1, by omega⟩
    rw [hk]
    refine ⟨htake k, isFrac_of_ne_nil (hdrop _) ?_, .none⟩
    rw [Ne, List.drop_eq_nil_iff]
    omega
  rw [if_neg h₂]
  by_cases h₃ : -6 < ((decimal s).length : Int) + q ∧ ((decimal s).length : Int) + q ≤ 0
  · rw [if_pos h₃]
    refine ⟨.zero, isFrac_of_ne_nil (List.forall_mem_append.2 ⟨isDigits_zeros _, hdigits⟩) ?_, .none⟩
    rw [hdecimal]
    exact List.append_ne_nil_of_right_ne_nil _ (List.cons_ne_nil d ds)
  rw [if_neg h₃]
  refine ⟨htake 0, ?_, isExp_written _⟩
  by_cases hone : (decimal s).length = 1
  · rw [if_pos hone]
    exact .none
  · rw [if_neg hone]
    refine isFrac_of_ne_nil (hdrop 1) ?_
    rw [Ne, List.drop_eq_nil_iff]
    omega

/-! ### Numbers come back -/

/-- Whatever is exactly a finite double is read as that double. -/
theorem mk_of_magnitude {x : Double} (hx : x.isFinite) {p d : Nat} (hd : 0 < d) (h : p = d * x.magnitude) :
    Double.mk (if decide (x.sign = 1) then 1 else 0) (min (binary64.roundDiv p d) binary64.inf) = x := by
  have hround : binary64.round x.magnitude = x.abs := round_magnitude binary64 x.abs
  have hsign : (if decide (x.sign = 1) = true then 1 else 0) = x.sign := by
    have := x.sign_lt
    by_cases h : x.sign = 1
    · rw [decide_eq_true h, if_pos rfl, h]
    · rw [decide_eq_false h, if_neg Bool.false_ne_true]
      omega
  rw [h, roundDiv_mul _ hd, hround, Nat.min_eq_left (Nat.le_of_lt hx), hsign]
  exact Double.ext_fields (Double.sign_mk x.sign_lt x.abs_lt) (Double.abs_mk x.sign_lt x.abs_lt)

theorem magnitude_ne_zero {x : Double} (hx : x.abs ≠ 0) : x.magnitude ≠ 0 := by
  have hzero : binary64.magnitude 0 = 0 := (magnitude_of_lt (Nat.two_pow_pos _)).trans (Nat.zero_mul _)
  have hlt : binary64.magnitude 0 < binary64.magnitude x.abs := magnitude_strictMono binary64 (Nat.pos_of_ne_zero hx)
  rw [hzero] at hlt
  exact Nat.ne_of_gt hlt

theorem round_zero : binary64.round 0 = 0 := by
  have h := round_magnitude binary64 0
  rwa [magnitude_of_lt (Nat.two_pow_pos _), Nat.zero_mul] at h

/-- No layout of zero is read as another number. -/
theorem numberValue_layout_zero (negative : Bool) (q : Int) : (numberValue (layout negative 0 q)).abs = 0 := by
  have hdiv : ∀ {d : Nat}, 0 < d → ∀ p u : Nat, binary64.roundDiv (0 * p * u) d = 0 := by
    intro d hd p u
    have h := roundDiv_mul binary64 hd 0
    rw [round_zero, Nat.mul_zero] at h
    rw [Nat.zero_mul, Nat.zero_mul, h]
  rw [numberValue_layout, hdiv (Nat.pow_pos (by decide)), Nat.zero_min]
  exact Double.abs_mk (by split <;> decide) (Nat.two_pow_pos _)

/-- All the digits of a number are read as the number. `e` is the exponent of one in the unit of a magnitude. -/
theorem numberValue_digits {x : Double} (hx : x.isFinite) {e : Nat} (he : e = 1074) :
    numberValue (layout (decide (x.sign = 1)) (x.magnitude * 5 ^ e) (-(e : Int))) = x := by
  have hneg : (-(e : Int)).toNat = 0 := Int.toNat_of_nonpos (by omega)
  have hpos : (-(-(e : Int))).toNat = e := by omega
  have hten : (10 : Nat) ^ e = 5 ^ e * 2 ^ e := by rw [← Nat.mul_pow]
  rw [numberValue_layout, ← he, hneg, hpos]
  refine mk_of_magnitude hx (Nat.pow_pos (by decide)) ?_
  rw [Nat.pow_zero, Nat.mul_one, hten, Nat.mul_assoc, Nat.mul_comm]

/-- The first of some literals that is read as a number, or one that is. -/
theorem find_spec {x : Double} {l : List Number} (hl : ∀ n ∈ l, numberValue n = x → n.Valid) {n₀ : Number}
    (h₀ : n₀.Valid ∧ numberValue n₀ = x) :
    ((l.find? (fun n => numberValue n = x)).getD n₀).Valid ∧ numberValue ((l.find? (fun n => numberValue n = x)).getD n₀) = x := by
  cases hfind : l.find? (fun n => numberValue n = x) with
  | none => exact h₀
  | some n =>
    have hvalue : numberValue n = x := by simpa using List.find?_some hfind
    exact ⟨hl n (List.mem_of_find?_eq_some hfind) hvalue, hvalue⟩

/-- A candidate is a layout of some digits. -/
theorem layout_of_candidate {negative : Bool} {M k : Nat} {n : Number} (h : n ∈ candidates negative M k) :
    ∃ s q, n = layout negative s q := by
  unfold candidates at h
  dsimp only at h
  split at h
  all_goals
    simp only [List.mem_cons, List.not_mem_nil, or_false] at h
    exact h.elim (fun h => ⟨_, _, h⟩) (fun h => ⟨_, _, h⟩)

/-- The literal that `Number::toString` writes is one of the grammar, and is read as the number. -/
theorem shortestLiteral_spec {x : Double} (hx : x.isFinite) (hzero : x.abs ≠ 0) :
    (shortestLiteral x).Valid ∧ numberValue (shortestLiteral x) = x := by
  have hall : ∀ n ∈ (List.range 17).flatMap (fun k => candidates (decide (x.sign = 1)) x.magnitude (k + 1)),
      numberValue n = x → n.Valid := by
    intro n hn hvalue
    obtain ⟨k, -, hk⟩ := List.mem_flatMap.1 hn
    obtain ⟨s, q, rfl⟩ := layout_of_candidate hk
    refine layout_valid _ ?_ q
    rintro rfl
    exact hzero (by rw [← hvalue, numberValue_layout_zero])
  have hdigits : ∀ e : Nat, x.magnitude * 5 ^ e ≠ 0 := fun e => Nat.mul_ne_zero (magnitude_ne_zero hzero) (Nat.pow_pos (by decide)).ne'
  have hlast := numberValue_digits hx (e := oneExponent) rfl
  have hvalid := layout_valid (decide (x.sign = 1)) (hdigits oneExponent) (-(oneExponent : Int))
  unfold shortestLiteral
  dsimp only
  exact find_spec hall ⟨hvalid, hlast⟩

/-! ### Integers come back -/

/-- The literal that `BigInt::toString` writes. -/
def integerLiteral (n : Int) : Number := ⟨decide (n < 0), decimal n.natAbs, [], []⟩

theorem integerLiteral_valid (n : Int) : (integerLiteral n).Valid := ⟨isInt_decimal _, .none, .none⟩

theorem literal_integer (n : Int) : (integerLiteral n).literal = bigintText n := by
  unfold Number.literal integerLiteral bigintText
  dsimp only
  rw [List.append_nil, List.append_nil]
  by_cases h : n < 0
  · rw [if_pos h, decide_eq_true h, if_pos rfl, List.singleton_append]
  · rw [if_neg h, decide_eq_false h, if_neg Bool.false_ne_true, List.nil_append]

theorem intValue_integer (n : Int) : intValue (integerLiteral n) = n := by
  unfold intValue integerLiteral
  dsimp only
  rw [digitsValue_decimal]
  by_cases h : n < 0
  · rw [decide_eq_true h, if_pos rfl]
    omega
  · rw [decide_eq_false h, if_neg Bool.false_ne_true]
    omega

theorem unsafe_integer (n : Int) : Unsafe (integerLiteral n) ↔ n > maxSafe ∨ n < -maxSafe := by
  unfold Unsafe
  rw [intValue_integer]
  exact ⟨fun h => h.2.2, fun h => ⟨rfl, rfl, h⟩⟩

/-- The number of an integer without fraction and exponent. `e` is the exponent of one in the unit of a magnitude. -/
theorem numberValue_plain {n : Number} (hfrac : n.frac = []) (hexp : n.exp = []) {e : Nat} (he : e = 1074) :
    numberValue n = .mk (if n.negative then 1 else 0) (min (binary64.round (digitsValue n.int * 2 ^ e)) binary64.inf) := by
  have hmantissa : mantissa n = digitsValue n.int := by
    unfold mantissa fractionDigits
    rw [hfrac, List.drop_nil, List.append_nil]
  have hpower : power n = 0 := by
    unfold power exponentValue fractionDigits
    rw [hfrac, hexp]
    rfl
  have hround := roundDiv_mul binary64 Nat.one_pos (digitsValue n.int * 2 ^ e)
  rw [Nat.one_mul] at hround
  rw [numberValue_eq, hmantissa, hpower, ← he, Int.neg_zero, Int.toNat_zero, Nat.pow_zero, Nat.mul_one, hround]

theorem numberValue_zero : numberValue (integerLiteral 0) = .mk 0 0 := by
  have hdigits : digitsValue (integerLiteral 0).int = 0 := digitsValue_decimal 0
  have hvalue := numberValue_plain (n := integerLiteral 0) rfl rfl (e := oneExponent) rfl
  rw [hdigits, Nat.zero_mul, round_zero, Nat.zero_min] at hvalue
  exact hvalue

/-- The double of a safe natural. -/
theorem round_safe {k : Nat} (hk : k < 2 ^ 53) {e : Nat} (he : e = 1074) :
    binary64.round (k * 2 ^ e) < binary64.inf ∧ binary64.magnitude (binary64.round (k * 2 ^ e)) = k * 2 ^ e := by
  obtain ⟨bits, hbits⟩ := exists_magnitude (F := binary64) hk e
  have hbits : binary64.magnitude bits = k * 2 ^ e := hbits
  have hround : binary64.round (k * 2 ^ e) = bits := by rw [← hbits, round_magnitude]
  rw [hround]
  refine ⟨(magnitude_strictMono binary64).lt_iff_lt.1 ?_, hbits⟩
  have hexponent : 53 + 1074 ≤ binary64.fraction + (2 ^ binary64.exponent - 2 + binary64.step) := by decide
  rw [hbits, magnitude_inf binary64 (by decide)]
  calc k * 2 ^ e < 2 ^ 53 * 2 ^ e := Nat.mul_lt_mul_of_pos_right hk (Nat.two_pow_pos e)
    _ = 2 ^ (53 + e) := (Nat.pow_add 2 53 e).symm
    _ ≤ _ := Nat.pow_le_pow_right (by decide) (he ▸ hexponent)

/-- A safe integer is read as the number that it is. -/
theorem widen_integer {n : Int} (h : ¬(n > maxSafe ∨ n < -maxSafe)) : widen (numberOf (integerLiteral n)) = .bigint n := by
  have hk : n.natAbs < 2 ^ 53 := by
    unfold maxSafe at h
    omega
  obtain ⟨hlt, hmagnitude⟩ := round_safe hk (e := oneExponent) rfl
  have hvalue := numberValue_plain (n := integerLiteral n) rfl rfl (e := oneExponent) rfl
  have hint : digitsValue (integerLiteral n).int = n.natAbs := digitsValue_decimal _
  rw [hint, Nat.min_eq_left (Nat.le_of_lt hlt)] at hvalue
  have hsign : (if (integerLiteral n).negative = true then 1 else 0) < 2 := by split <;> decide
  have hsign' := Double.sign_mk hsign (Nat.lt_trans hlt (inf_lt_signBit _))
  have habs := Double.abs_mk hsign (Nat.lt_trans hlt (inf_lt_signBit _))
  rw [← hvalue] at hsign' habs
  have hmag : (numberValue (integerLiteral n)).magnitude = n.natAbs * 2 ^ oneExponent := by
    unfold Double.magnitude
    rw [habs, hmagnitude]
  have hinteger : isInteger (numberValue (integerLiteral n)) := by
    refine ⟨habs.trans_lt hlt, ?_⟩
    rw [hmag, Nat.mul_mod_left]
  have hbig : bigInt (numberValue (integerLiteral n)) = n := by
    unfold bigInt
    rw [hsign', hmag, Nat.mul_div_cancel _ (Nat.two_pow_pos _)]
    by_cases hneg : n < 0
    · have htrue : (integerLiteral n).negative = true := decide_eq_true hneg
      rw [htrue, if_pos rfl, if_neg (by decide)]
      omega
    · have hfalse : (integerLiteral n).negative = false := decide_eq_false hneg
      rw [hfalse, if_neg Bool.false_ne_true, if_pos rfl]
      omega
  unfold numberOf
  rw [widen, if_pos hinteger, hbig]

/-- A literal past the safe range is read as an integer past it. -/
theorem past_safe {n : Number} (hn : Unsafe n) {x : Double} (hx : x.isFinite) (hvalue : numberValue n = x) :
    isInteger x ∧ (bigInt x > maxSafe ∨ bigInt x < -maxSafe) := by
  obtain ⟨hfrac, hexp, hpast⟩ := hn
  have hk : 2 ^ 53 ≤ digitsValue n.int := by
    unfold intValue maxSafe at hpast
    split at hpast <;> omega
  have hvalue' := numberValue_plain hfrac hexp (e := oneExponent) rfl
  rw [hvalue] at hvalue'
  have hsign : (if n.negative = true then 1 else 0) < 2 := by split <;> decide
  have habs : x.abs = min (binary64.round (digitsValue n.int * 2 ^ oneExponent)) binary64.inf := by
    rw [hvalue']
    exact Double.abs_mk hsign (Nat.lt_of_le_of_lt (Nat.min_le_right _ _) (inf_lt_signBit _))
  -- the double of 2^53 is one, so what is not below it does not round below it
  obtain ⟨bits, hbits⟩ := exists_magnitude (F := binary64) (q := 2 ^ 52) (by decide) (1 + oneExponent)
  have hstep : binary64.step = 0 := rfl
  have hexponent : 52 + (1 + oneExponent + binary64.step) = 53 + oneExponent := by
    rw [hstep]
    omega
  have hbits : binary64.magnitude bits = 2 ^ 53 * 2 ^ oneExponent := by
    rw [hbits, ← Nat.pow_add, ← Nat.pow_add, hexponent]
  have hround : bits ≤ binary64.round (digitsValue n.int * 2 ^ oneExponent) := by
    have h := round_mono binary64 (Nat.mul_le_mul_right (2 ^ oneExponent) hk)
    rwa [← hbits, round_magnitude] at h
  have hle : bits ≤ x.abs := by
    have hfinite : x.abs < binary64.inf := hx
    rw [habs] at hfinite ⊢
    omega
  have hmagnitude : 2 ^ 53 * 2 ^ oneExponent ≤ x.magnitude := by
    rw [← hbits]
    exact (magnitude_strictMono binary64).le_iff_le.2 hle
  have hdvd : 2 ^ oneExponent ∣ x.magnitude := by
    have hwidth : binary64.fraction + 1 = 53 := rfl
    refine dvd_magnitude (F := binary64) ?_
    rw [pow_add, hwidth]
    exact hmagnitude
  obtain ⟨c, hc⟩ := hdvd
  have hlarge : 2 ^ 53 ≤ c := by
    rw [hc, Nat.mul_comm] at hmagnitude
    exact Nat.le_of_mul_le_mul_left hmagnitude (Nat.two_pow_pos _)
  have hinteger : isInteger x := by
    refine ⟨hx, ?_⟩
    rw [hc, Nat.mul_mod_right]
  refine ⟨hinteger, ?_⟩
  have hdiv : x.magnitude / 2 ^ oneExponent = c := by rw [hc, Nat.mul_div_cancel_left _ (Nat.two_pow_pos _)]
  unfold bigInt maxSafe
  rw [hdiv]
  split <;> omega

/-- The literal of a number that is no integer, or a safe one, stays a number. -/
theorem exactOf_number {x : Double} (hx : x.isFinite) (hzero : x.abs ≠ 0)
    (hsafe : isInteger x → ¬(bigInt x > maxSafe ∨ bigInt x < -maxSafe)) : exactOf (shortestLiteral x) = .number x := by
  obtain ⟨-, hvalue⟩ := shortestLiteral_spec hx hzero
  unfold exactOf
  rw [if_neg, numberOf, hvalue]
  intro hn
  obtain ⟨hinteger, hpast⟩ := past_safe hn hx hvalue
  exact hsafe hinteger hpast

/-- A `bigint` comes back as itself past the safe range, and as a number that is it within. -/
theorem exactOf_integer (n : Int) :
    exactOf (integerLiteral n) = if n > maxSafe ∨ n < -maxSafe then .bigint n else numberOf (integerLiteral n) := by
  unfold exactOf
  rw [intValue_integer]
  exact if_congr (unsafe_integer n) rfl rfl

end BrainSdk.TypeScript.Json
