import BrainSdk.Cbor.Grammar

/-!
# What the two scanners do at a head

The arguments are read alike, and past its argument a head makes both go over the same string or the same number of items. The one
difference is a simple value or a float, whose argument the TypeScript scanner steps over unread.
-/

namespace BrainSdk.Cbor

open Library

theorem major_lt (ib : UInt8) : major ib < 8 := by
  have h := ib.toNat_lt
  unfold major
  rw [Nat.shiftRight_eq_div_pow]
  omega

theorem additionalInfo_lt (ib : UInt8) : additionalInfo ib < 32 := by
  unfold additionalInfo
  exact Nat.lt_of_le_of_lt Nat.and_le_right (by decide)

theorem argWidth_cases {ai : Nat} (hl : 24 ≤ ai) (hu : ai ≤ 27) :
    ai = 24 ∧ argWidth ai = 1 ∨ ai = 25 ∧ argWidth ai = 2 ∨ ai = 26 ∧ argWidth ai = 4 ∨ ai = 27 ∧ argWidth ai = 8 := by
  have h : ai = 24 ∨ ai = 25 ∨ ai = 26 ∨ ai = 27 := by omega
  rcases h with rfl | rfl | rfl | rfl <;> decide

end BrainSdk.Cbor

namespace BrainSdk.Python

open Library Cbor

theorem need_ok {data : Bytes} {i k : Nat} (h : i + k ≤ data.length) : cborItemEnd.need data i k = .ok () := if_neg (by omega)

theorem need_error {data : Bytes} {i k : Nat} (h : data.length < i + k) : ∃ e, cborItemEnd.need data i k = .error e :=
  ⟨_, if_pos h⟩

/-- An argument of `k` bytes is there in full, or the scan fails. -/
theorem wideArg_eq (data : Bytes) (i k : Nat) :
    i + k ≤ data.length ∧ cborItemEnd.wideArg data i k = .ok (some (fromBytesBE (slice data i (i + k))), i + k) ∨
      data.length < i + k ∧ ∃ e, cborItemEnd.wideArg data i k = .error e := by
  unfold cborItemEnd.wideArg
  rcases Nat.lt_or_ge data.length (i + k) with h | h
  · obtain ⟨e, he⟩ := need_error h
    rw [he]
    exact .inr ⟨h, e, rfl⟩
  · rw [need_ok h]
    exact .inl ⟨h, rfl⟩

theorem arg_wide {data : Bytes} {ai i : Nat} (hl : 24 ≤ ai) (hu : ai ≤ 27) :
    cborItemEnd.arg data ai i = cborItemEnd.wideArg data i (argWidth ai) := by
  rcases argWidth_cases hl hu with ⟨rfl, hw⟩ | ⟨rfl, hw⟩ | ⟨rfl, hw⟩ | ⟨rfl, hw⟩ <;> rw [hw] <;> rfl

theorem arg_reserved {data : Bytes} {ai i : Nat} (hl : 28 ≤ ai) (hu : ai ≤ 30) : ∃ e, cborItemEnd.arg data ai i = .error e := by
  unfold cborItemEnd.arg
  rw [if_neg (by omega), if_neg (by omega), if_neg (by omega), if_neg (by omega), if_neg (by omega), if_neg (by omega)]
  exact ⟨_, rfl⟩

/-- No item begins at the end of the data. -/
theorem scan_end {data : Bytes} {i : Nat} (h : data.length ≤ i) (left : Nat) : ∃ e, cborItemEnd.scan data left i = .error e := by
  rcases left with - | left
  · exact ⟨_, rfl⟩
  · obtain ⟨e, he⟩ := need_error (show data.length < i + 1 by omega)
    refine ⟨e, ?_⟩
    unfold cborItemEnd.scan
    rw [he]
    rfl

/-- Where there is a byte, a scan reads the argument and goes on by it. -/
theorem scan_succ {data : Bytes} {i : Nat} (hi : i < data.length) (left : Nat) :
    cborItemEnd.scan data (left + 1) i = (cborItemEnd.arg data (additionalInfo (data.getD i 0)) (i + 1)).bind
      (fun head => cborItemEnd.rest data (cborItemEnd.scan data left) (major (data.getD i 0)) head.1 head.2) := by
  conv_lhs => unfold cborItemEnd.scan
  rw [need_ok (by omega)]
  rfl

/-- A string ends where its bytes do, or the scan fails. -/
theorem rest_string (data : Bytes) (scan : Nat → Except CborError Nat) (a i : Nat) {m : Nat} (hmajor : m = 2 ∨ m = 3) :
    i + a ≤ data.length ∧ cborItemEnd.rest data scan m (some a) i = .ok (i + a) ∨
      data.length < i + a ∧ ∃ e, cborItemEnd.rest data scan m (some a) i = .error e := by
  have hrest : cborItemEnd.rest data scan m (some a) i = (cborItemEnd.need data i a).bind (fun _ => .ok (i + a)) := by
    rcases hmajor with rfl | rfl <;> rfl
  rw [hrest]
  rcases Nat.lt_or_ge data.length (i + a) with h | h
  · obtain ⟨e, he⟩ := need_error h
    rw [he]
    exact .inr ⟨h, e, rfl⟩
  · rw [need_ok h]
    exact .inl ⟨h, rfl⟩

/-- Any other head makes the scan go over the items inside. -/
theorem rest_group {data : Bytes} (scan : Nat → Except CborError Nat) {m a i : Nat} (hlt : m < 8) (hmajor : ¬(m = 2 ∨ m = 3)) :
    cborItemEnd.rest data scan m (some a) i = each scan (arity m a) i := by
  have hm : m = 0 ∨ m = 1 ∨ m = 4 ∨ m = 5 ∨ m = 6 ∨ m = 7 := by omega
  unfold cborItemEnd.rest
  rcases hm with rfl | rfl | rfl | rfl | rfl | rfl
  · rfl
  · rfl
  · rfl
  · simp [each_pair]
  · simp [each_one]
  · rfl

end BrainSdk.Python

namespace BrainSdk.TypeScript

open Library Cbor

/-! ### Numbers -/

theorem magnitude_self {n : Nat} (h : n ≤ 2 ^ 53) : Format.binary64.magnitude n = n := by
  rcases Format.binary64.fields n with hlt | ⟨e, m, hm, rfl⟩
  · rw [Format.magnitude_of_lt hlt]
    simp [Format.binary64]
  · have hfrac : Format.binary64.fraction = 52 := rfl
    have hstep : Format.binary64.step = 0 := rfl
    rw [Format.magnitude_normal e hm]
    rw [hfrac] at hm h ⊢
    rw [hstep]
    have he : e = 0 ∨ e = 1 ∧ m = 0 := by omega
    rcases he with rfl | ⟨rfl, rfl⟩
    · omega
    · omega

theorem toNumber_of_le {n : Nat} (h : n ≤ 2 ^ 53) : toNumber n = n := by
  unfold toNumber
  conv_lhs => rw [← magnitude_self h]
  rw [Format.round_magnitude, magnitude_self h]

theorem le_toNumber {n : Nat} (h : 2 ^ 53 ≤ n) : 2 ^ 53 ≤ toNumber n := by
  have hmono : toNumber (2 ^ 53) ≤ toNumber n :=
    Format.binary64.magnitude_strictMono.monotone (Format.binary64.round_mono h)
  rw [toNumber_of_le (Nat.le_refl _)] at hmono
  exact hmono

/-- Below the length of an array, and up to it, additions are exact; past it they stay past it. -/
theorem numberAdd_cases {data : Bytes} (hdata : data.length < 2 ^ 53) (a b : Nat) :
    a + b ≤ data.length ∧ numberAdd a b = a + b ∨ data.length < a + b ∧ data.length < numberAdd a b := by
  unfold numberAdd
  rcases Nat.lt_or_ge (2 ^ 53) (a + b) with h | h
  · have := le_toNumber (Nat.le_of_lt h)
    exact .inr ⟨by omega, by omega⟩
  · rw [toNumber_of_le h]
    omega

/-! ### Arguments -/

theorem byteAt_ok {bytes : Bytes} {i : Nat} (h : i < bytes.length) : cborItemLength.byteAt bytes i = .ok (bytes.getD i 0).toNat :=
  if_neg (by omega)

theorem byteAt_error {bytes : Bytes} {i : Nat} (h : bytes.length ≤ i) : ∃ e, cborItemLength.byteAt bytes i = .error e :=
  ⟨_, if_pos h⟩

/-- A byte more, shifted in. -/
theorem shiftIn_eq (v : Nat) (b : UInt8) : (v <<< 8) ||| b.toNat = v * 256 + b.toNat := by
  rw [← Nat.shiftLeft_add_eq_or_of_lt b.toNat_lt, Nat.shiftLeft_eq]

/-- The loop reads what the bytes spell, or runs off the end. -/
theorem readBytes_eq {data : Bytes} (hdata : data.length < 2 ^ 53) {pos : Nat} (hpos : pos ≤ data.length) (k : Nat) :
    pos + k ≤ data.length ∧ cborItemLength.readBytes data pos k = .ok (fromBytesBE (slice data pos (pos + k))) ∨
      data.length < pos + k ∧ ∃ e, cborItemLength.readBytes data pos k = .error e := by
  induction k with
  | zero =>
    refine .inl ⟨hpos, ?_⟩
    rw [Nat.add_zero, slice_self]
    rfl
  | succ k ih =>
    have hstep : cborItemLength.readBytes data pos (k + 1) = (cborItemLength.readBytes data pos k).bind (fun v =>
        (cborItemLength.byteAt data (numberAdd pos k)).bind (fun b => .ok ((v <<< 8) ||| b))) := by
      unfold cborItemLength.readBytes
      rw [List.range_succ, List.foldlM_append]
      simp only [List.foldlM_cons, List.foldlM_nil, bind_pure]
      rfl
    rw [hstep]
    rcases ih with ⟨hle, hok⟩ | ⟨hlt, e, he⟩
    · rw [hok]
      simp only [Except.bind]
      rcases Nat.lt_or_ge (pos + k) data.length with h | h
      · have hadd : numberAdd pos k = pos + k := by
          rcases numberAdd_cases hdata pos k with ⟨-, hadd⟩ | ⟨hlt, -⟩
          · exact hadd
          · omega
        rw [hadd, byteAt_ok h, ← Nat.add_assoc, fromBytesBE_slice_succ (Nat.le_add_right pos k) h]
        exact .inl ⟨h, congrArg Except.ok (shiftIn_eq _ _)⟩
      · have hend : data.length ≤ numberAdd pos k := by
          rcases numberAdd_cases hdata pos k with ⟨-, hadd⟩ | ⟨-, hlt⟩ <;> omega
        obtain ⟨e, he⟩ := byteAt_error hend
        rw [he]
        exact .inr ⟨by omega, e, rfl⟩
    · rw [he]
      exact .inr ⟨by omega, e, rfl⟩

/-- An argument of several bytes is read in full, or the walk fails. -/
theorem readArg_wide {data : Bytes} (hdata : data.length < 2 ^ 53) {pos : Nat} (hpos : pos ≤ data.length) {ib : UInt8}
    (hl : 24 ≤ additionalInfo ib) (hu : additionalInfo ib ≤ 27) :
    cborItemLength.readArg data ib.toNat pos = (cborItemLength.readBytes data pos (argWidth (additionalInfo ib))).bind
      (fun v => .ok (v, numberAdd pos (argWidth (additionalInfo ib)))) := by
  have hai : ib.toNat &&& 0x1F = additionalInfo ib := rfl
  have hzero : numberAdd pos 0 = pos := by
    rcases numberAdd_cases hdata pos 0 with ⟨-, h⟩ | ⟨h, -⟩ <;> omega
  unfold cborItemLength.readArg
  rw [hai]
  rcases argWidth_cases hl hu with ⟨h, hw⟩ | ⟨h, hw⟩ | ⟨h, hw⟩ | ⟨h, hw⟩ <;> rw [h] <;> rw [h] at hw <;> rw [hw]
  · unfold cborItemLength.readBytes
    simp only [List.range_succ, List.range_zero, List.nil_append, List.foldlM_cons, List.foldlM_nil, hzero, bind_pure]
    rcases cborItemLength.byteAt data pos with e | b
    · rfl
    · simp [bind, Except.bind, pure, Except.pure]
  · unfold cborItemLength.readBytes
    simp only [List.range_succ, List.range_zero, List.nil_append, List.cons_append, List.foldlM_cons, List.foldlM_nil, hzero, bind_pure]
    rcases cborItemLength.byteAt data pos with e | b
    · rfl
    · rcases cborItemLength.byteAt data (numberAdd pos 1) with e | b'
      · rfl
      · simp [bind, Except.bind, pure, Except.pure]
  · rfl
  · rfl

end BrainSdk.TypeScript
