import BrainSdk.Cbor.Checked
import BrainSdk.Cbor.ScanLemmas

/-!
# The Python scanner on arbitrary bytes

A scan that ends has read the bytes up to its end and no others: every loop over items inherits this from the scan of one item, and the
scan from its loops, by induction on the levels that are left. That a loop makes a step on every turn is also what ends it.
-/

namespace BrainSdk.Python

open Library Cbor

/-! ### What a scan depends on -/

/-- Two byte strings are the same up to an offset that both have. -/
def SameUpTo (j : Nat) (data data' : Bytes) : Prop := j ≤ data.length ∧ j ≤ data'.length ∧ data'.take j = data.take j

theorem SameUpTo.of_le {data data' : Bytes} {j k : Nat} (h : SameUpTo j data data') (hk : k ≤ j) : SameUpTo k data data' := by
  obtain ⟨hdata, hdata', htake⟩ := h
  refine ⟨hk.trans hdata, hk.trans hdata', ?_⟩
  rw [← Nat.min_eq_left hk, ← List.take_take, ← List.take_take, htake]

theorem SameUpTo.getD {data data' : Bytes} {i j : Nat} (h : SameUpTo j data data') (hi : i < j) : data'.getD i 0 = data.getD i 0 := by
  have hget := congrArg (fun l : Bytes => l[i]?) h.2.2
  simp only [List.getElem?_take, if_pos hi] at hget
  rw [List.getD_eq_getElem?_getD, List.getD_eq_getElem?_getD, hget]

theorem SameUpTo.slice {data data' : Bytes} {i j k : Nat} (h : SameUpTo j data data') (hk : k ≤ j) :
    slice data' i k = slice data i k := by
  unfold Library.slice
  rw [(h.of_le hk).2.2]

/-- A scan moves on, ends within the data, and does not depend on what follows its end. -/
def Stable (scan : Bytes → Nat → Except CborError Nat) : Prop :=
  ∀ data i j, scan data i = .ok j → i < j ∧ j ≤ data.length ∧ ∀ data', SameUpTo j data data' → scan data' i = .ok j

theorem bind_eq_ok {α β : Type} {x : Except CborError α} {f : α → Except CborError β} {y : β} (h : x.bind f = .ok y) :
    ∃ a, x = .ok a ∧ f a = .ok y := by
  cases x with
  | error e => cases h
  | ok a => exact ⟨a, rfl, h⟩

theorem need_eq_ok {data : Bytes} {i k : Nat} {u : Unit} (h : cborItemEnd.need data i k = .ok u) : i + k ≤ data.length := by
  by_contra hlt
  obtain ⟨e, he⟩ := need_error (Nat.lt_of_not_le hlt)
  rw [he] at h
  cases h

/-- A counted loop over a stable scan. -/
theorem each_stable {scan : Bytes → Nat → Except CborError Nat} (hscan : Stable scan) {data : Bytes} (n : Nat) {i j : Nat}
    (hi : i ≤ data.length) (h : each (scan data) n i = .ok j) :
    i ≤ j ∧ j ≤ data.length ∧ ∀ data', SameUpTo j data data' → each (scan data') n i = .ok j := by
  induction n generalizing i with
  | zero =>
    cases h
    exact ⟨Nat.le_refl _, hi, fun _ _ => rfl⟩
  | succ n ih =>
    obtain ⟨k, hk, hrest⟩ := bind_eq_ok h
    obtain ⟨hik, hkle, hsame⟩ := hscan data i k hk
    obtain ⟨hkj, hj, hsame'⟩ := ih hkle hrest
    refine ⟨by omega, hj, fun data' hd => ?_⟩
    rw [each, hsame data' (hd.of_le hkj), Cbor.ok_bind, hsame' data' hd]

theorem pair_stable {scan : Bytes → Nat → Except CborError Nat} (hscan : Stable scan) : Stable (fun data => pair (scan data)) := by
  intro data i j h
  obtain ⟨k, hk, hrest⟩ := bind_eq_ok h
  obtain ⟨hik, -, hsame⟩ := hscan data i k hk
  obtain ⟨hkj, hj, hsame'⟩ := hscan data k j hrest
  refine ⟨by omega, hj, fun data' hd => ?_⟩
  show (scan data' i).bind (scan data') = .ok j
  rw [hsame data' (hd.of_le (Nat.le_of_lt hkj)), Cbor.ok_bind, hsame' data' hd]

/-- A loop up to a break over a stable scan; what it needs of turns is bounded by what it goes over. -/
theorem untilBreak_stable {scan : Bytes → Nat → Except CborError Nat} (hscan : Stable scan) {data : Bytes} {fuel i j : Nat}
    (h : cborItemEnd.untilBreak data (scan data) fuel i = .ok j) :
    i < j ∧ j ≤ data.length ∧ ∀ data' fuel', SameUpTo j data data' → j ≤ i + fuel' →
      cborItemEnd.untilBreak data' (scan data') fuel' i = .ok j := by
  induction fuel generalizing i with
  | zero => cases h
  | succ fuel ih =>
    unfold cborItemEnd.untilBreak at h
    obtain ⟨u, hneed, h⟩ := bind_eq_ok h
    have hi := need_eq_ok hneed
    by_cases hbreak : data.getD i 0 = 0xFF
    · rw [if_pos hbreak] at h
      cases h
      refine ⟨Nat.lt_succ_self i, hi, fun data' fuel' hd hfuel => ?_⟩
      obtain ⟨fuel', rfl⟩ : ∃ k, fuel' = k + 1 := ⟨fuel' - 1, by omega⟩
      unfold cborItemEnd.untilBreak
      rw [need_ok hd.2.1, hd.getD (Nat.lt_succ_self i), hbreak]
      rfl
    · rw [if_neg hbreak] at h
      obtain ⟨k, hk, hrest⟩ := bind_eq_ok h
      obtain ⟨hik, -, hsame⟩ := hscan data i k hk
      obtain ⟨hkj, hj, hsame'⟩ := ih hrest
      refine ⟨by omega, hj, fun data' fuel' hd hfuel => ?_⟩
      obtain ⟨fuel', rfl⟩ : ∃ k, fuel' = k + 1 := ⟨fuel' - 1, by omega⟩
      have hone := hsame data' (hd.of_le (Nat.le_of_lt hkj))
      have hgo := hsame' data' fuel' hd (by omega)
      have hle := hd.2.1
      unfold cborItemEnd.untilBreak
      rw [need_ok (by omega), hd.getD (by omega)]
      simp only [bind, Except.bind, hbreak, if_false, hone, hgo]

theorem arg_stable {data : Bytes} {ai i j : Nat} {a : Option Nat} (hi : i ≤ data.length) (h : cborItemEnd.arg data ai i = .ok (a, j)) :
    i ≤ j ∧ j ≤ data.length ∧ ∀ data', SameUpTo j data data' → cborItemEnd.arg data' ai i = .ok (a, j) := by
  have hwide : ∀ k, cborItemEnd.wideArg data i k = .ok (a, j) →
      i ≤ j ∧ j ≤ data.length ∧ ∀ data', SameUpTo j data data' → cborItemEnd.wideArg data' i k = .ok (a, j) := by
    intro k hk
    rcases wideArg_eq data i k with ⟨hle, hok⟩ | ⟨-, e, he⟩
    · cases hok.symm.trans hk
      refine ⟨Nat.le_add_right i k, hle, fun data' hd => ?_⟩
      rcases wideArg_eq data' i k with ⟨-, hok'⟩ | ⟨hlt, -⟩
      · rw [hok', hd.slice (Nat.le_refl _)]
      · exact absurd hd.2.1 (Nat.not_le_of_lt hlt)
    · rw [he] at hk
      cases hk
  unfold cborItemEnd.arg at h ⊢
  split_ifs at h ⊢ with h24 h1 h2 h4 h8 h31
  · cases h
    exact ⟨Nat.le_refl _, hi, fun _ _ => rfl⟩
  · exact hwide 1 h
  · exact hwide 2 h
  · exact hwide 4 h
  · exact hwide 8 h
  · cases h
    exact ⟨Nat.le_refl _, hi, fun _ _ => rfl⟩

/-- What follows the head of an item, over a stable scan of the items inside. -/
theorem rest_stable {scan : Bytes → Nat → Except CborError Nat} (hscan : Stable scan) {data : Bytes} {m i j : Nat} {a : Option Nat}
    (hi : i ≤ data.length) (h : cborItemEnd.rest data (scan data) m a i = .ok j) :
    i ≤ j ∧ j ≤ data.length ∧ ∀ data', SameUpTo j data data' → cborItemEnd.rest data' (scan data') m a i = .ok j := by
  have hbreak : ∀ {f : Bytes → Nat → Except CborError Nat}, Stable f → cborItemEnd.untilBreak data (f data) (data.length + 1) i = .ok j →
      i ≤ j ∧ j ≤ data.length ∧ ∀ data', SameUpTo j data data' →
        cborItemEnd.untilBreak data' (f data') (data'.length + 1) i = .ok j := by
    intro f hf hloop
    obtain ⟨hij, hj, hsame⟩ := untilBreak_stable hf hloop
    refine ⟨Nat.le_of_lt hij, hj, fun data' hd => hsame data' _ hd ?_⟩
    have := hd.2.1
    omega
  unfold cborItemEnd.rest at h ⊢
  split_ifs at h ⊢ with h01 h7 h23 h4 h5 h6
  · cases h
    exact ⟨Nat.le_refl _, hi, fun _ _ => rfl⟩
  · cases h
    exact ⟨Nat.le_refl _, hi, fun _ _ => rfl⟩
  · cases a with
    | none => exact hbreak hscan h
    | some n =>
      obtain ⟨u, hneed, hend⟩ := bind_eq_ok h
      cases hend
      refine ⟨Nat.le_add_right i n, need_eq_ok hneed, fun data' hd => ?_⟩
      show (cborItemEnd.need data' i n).bind _ = _
      rw [need_ok hd.2.1]
      rfl
  · cases a with
    | none => exact hbreak hscan h
    | some n => exact each_stable hscan n hi h
  · cases a with
    | none => exact hbreak (pair_stable hscan) h
    | some n => exact each_stable (pair_stable hscan) n hi h
  · obtain ⟨hij, hj, hsame⟩ := hscan data i j h
    exact ⟨Nat.le_of_lt hij, hj, hsame⟩

theorem scan_stable (left : Nat) : Stable (fun data => cborItemEnd.scan data left) := by
  induction left with
  | zero => exact fun _ _ _ h => nomatch h
  | succ left ih =>
    intro data i j h
    have hi : i < data.length := by
      by_contra hge
      obtain ⟨e, he⟩ := scan_end (Nat.not_lt.1 hge) (left + 1)
      exact nomatch he.symm.trans h
    have h : cborItemEnd.scan data (left + 1) i = .ok j := h
    rw [scan_succ hi] at h
    obtain ⟨⟨a, k⟩, harg, hrest⟩ := bind_eq_ok h
    obtain ⟨hik, hk, hsame⟩ := arg_stable hi harg
    obtain ⟨hkj, hj, hsame'⟩ := rest_stable ih hk hrest
    refine ⟨by omega, hj, fun data' hd => ?_⟩
    have hi' : i < data'.length := by
      have := hd.2.1
      omega
    show cborItemEnd.scan data' (left + 1) i = .ok j
    rw [scan_succ hi', hd.getD (by omega), hsame data' (hd.of_le hkj)]
    exact hsame' data' hd

/-! ### The reads -/

open checkedItemEnd (lift)

theorem lift_bind {α β : Type} (x : Except CborError α) (f : α → Except CborError β) :
    lift (x.bind f) = (lift x).bind (fun a => lift (f a)) := by
  cases x <;> rfl

/-- A scan with its reads does what the scan does, which moves on within the data. -/
def Reads (data : Bytes) (scan : Nat → Except CborError Nat) (checked : Nat → Except ScanError Nat) : Prop :=
  ∀ i ≤ data.length, checked i = lift (scan i) ∧ ∀ j, scan i = .ok j → i < j ∧ j ≤ data.length

theorem wideArg_reads (data : Bytes) (i k : Nat) : checkedItemEnd.wideArg data i k = lift (cborItemEnd.wideArg data i k) := by
  unfold checkedItemEnd.wideArg cborItemEnd.wideArg
  rcases Nat.lt_or_ge data.length (i + k) with hlt | hle
  · obtain ⟨e, he⟩ := need_error hlt
    rw [he]
    rfl
  · have hslice : checkedItemEnd.sliceAt data i (i + k) = .ok (slice data i (i + k)) := if_pos hle
    rw [need_ok hle]
    simp only [lift, Except.mapError, bind, Except.bind, hslice]
    rfl

theorem arg_reads (data : Bytes) (ai i : Nat) : checkedItemEnd.arg data ai i = lift (cborItemEnd.arg data ai i) := by
  unfold checkedItemEnd.arg cborItemEnd.arg
  split_ifs
  · rfl
  · exact wideArg_reads data i 1
  · exact wideArg_reads data i 2
  · exact wideArg_reads data i 4
  · exact wideArg_reads data i 8
  · rfl
  · rfl

theorem each_reads {data : Bytes} {scan : Nat → Except CborError Nat} {checked : Nat → Except ScanError Nat}
    (h : Reads data scan checked) (n : Nat) {i : Nat} (hi : i ≤ data.length) : checkedItemEnd.each checked n i = lift (each scan n i) := by
  induction n generalizing i with
  | zero => rfl
  | succ n ih =>
    obtain ⟨hone, hmoves⟩ := h i hi
    rw [checkedItemEnd.each, each, hone, lift_bind]
    cases hscan : scan i with
    | error e => rfl
    | ok j => exact ih (hmoves j hscan).2

theorem pair_reads {data : Bytes} {scan : Nat → Except CborError Nat} {checked : Nat → Except ScanError Nat}
    (h : Reads data scan checked) : Reads data (pair scan) (checkedItemEnd.pair checked) := by
  intro i hi
  obtain ⟨hone, hmoves⟩ := h i hi
  constructor
  · rw [checkedItemEnd.pair, pair, hone, lift_bind]
    cases hscan : scan i with
    | error e => rfl
    | ok j => exact (h j (hmoves j hscan).2).1
  · intro j hj
    obtain ⟨k, hk, hrest⟩ := bind_eq_ok hj
    have hik := hmoves k hk
    have hkj := (h k hik.2).2 j hrest
    omega

/-- The bytes of the data are turns enough. -/
theorem untilBreak_reads {data : Bytes} {scan : Nat → Except CborError Nat} {checked : Nat → Except ScanError Nat}
    (h : Reads data scan checked) {fuel i : Nat} (hi : i ≤ data.length) (hfuel : data.length < i + fuel) :
    checkedItemEnd.untilBreak data checked fuel i = lift (cborItemEnd.untilBreak data scan fuel i) := by
  induction fuel generalizing i with
  | zero => omega
  | succ fuel ih =>
    unfold checkedItemEnd.untilBreak cborItemEnd.untilBreak
    rcases Nat.lt_or_ge data.length (i + 1) with hlt | hle
    · obtain ⟨e, he⟩ := need_error hlt
      rw [he]
      rfl
    · obtain ⟨hone, hmoves⟩ := h i hi
      have hbyte : checkedItemEnd.byteAt data i = .ok (data.getD i 0) := if_pos hle
      rw [need_ok hle]
      simp only [lift, Except.mapError, bind, Except.bind, hbyte]
      by_cases hbreak : data.getD i 0 = 0xFF
      · rw [if_pos hbreak, if_pos hbreak]
        rfl
      · rw [if_neg hbreak, if_neg hbreak, hone]
        cases hscan : scan i with
        | error e => rfl
        | ok j =>
          have hij := hmoves j hscan
          exact ih hij.2 (by omega)

theorem rest_reads {data : Bytes} {scan : Nat → Except CborError Nat} {checked : Nat → Except ScanError Nat} (h : Reads data scan checked)
    (m : Nat) (a : Option Nat) {i : Nat} (hi : i ≤ data.length) :
    checkedItemEnd.rest data checked m a i = lift (cborItemEnd.rest data scan m a i) := by
  have hfuel : data.length < i + (data.length + 1) := by omega
  unfold checkedItemEnd.rest cborItemEnd.rest
  split_ifs
  · rfl
  · rfl
  · cases a with
    | none => exact untilBreak_reads h hi hfuel
    | some n =>
      dsimp only
      rw [lift_bind]
      rfl
  · cases a with
    | none => exact untilBreak_reads h hi hfuel
    | some n => exact each_reads h n hi
  · cases a with
    | none => exact untilBreak_reads (pair_reads h) hi hfuel
    | some n => exact each_reads (pair_reads h) n hi
  · exact (h i hi).1
  · rfl

theorem scan_reads (data : Bytes) (left : Nat) : Reads data (cborItemEnd.scan data left) (checkedItemEnd.scan data left) := by
  induction left with
  | zero => exact fun _ _ => ⟨rfl, fun _ h => nomatch h⟩
  | succ left ih =>
    intro i hi
    refine ⟨?_, fun j hj => ?_⟩
    · rcases Nat.lt_or_ge i data.length with hlt | hge
      · have hbyte : checkedItemEnd.byteAt data i = .ok (data.getD i 0) := if_pos hlt
        rw [scan_succ hlt, lift_bind, ← arg_reads]
        unfold checkedItemEnd.scan
        rw [need_ok hlt]
        simp only [lift, Except.mapError, bind, Except.bind, hbyte]
        cases harg : cborItemEnd.arg data (additionalInfo (data.getD i 0)) (i + 1) with
        | error e =>
          rw [arg_reads, harg]
          rfl
        | ok head =>
          have hhead := (arg_stable hlt (show _ = Except.ok (head.1, head.2) from harg)).2.1
          rw [arg_reads, harg]
          exact rest_reads ih _ _ hhead
      · obtain ⟨e, he⟩ := need_error (show data.length < i + 1 by omega)
        unfold cborItemEnd.scan checkedItemEnd.scan
        rw [he]
        rfl
    · have hstable := scan_stable (left + 1) data i j hj
      exact ⟨hstable.1, hstable.2.1⟩

/-- For every byte string: a scan that ends does so within the data, behind at least one byte; it ends there whatever follows, and fails
where the data ends before. It reads nothing outside of the data, and its loops end. -/
theorem scan_safe (data : Bytes) :
    (∀ n, cborItemEnd data 0 = .ok n →
      0 < n ∧ n ≤ data.length ∧ (∀ t, cborItemEnd (data.take n ++ t) 0 = .ok n) ∧
        ∀ k < n, ∃ e, cborItemEnd (data.take k) 0 = .error e) ∧
    checkedItemEnd data 0 = lift (cborItemEnd data 0) := by
  refine ⟨fun n hn => ?_, (scan_reads data _ 0 (Nat.zero_le _)).1⟩
  obtain ⟨hpos, hle, hsame⟩ := scan_stable _ data 0 n hn
  refine ⟨hpos, hle, fun t => hsame _ ⟨hle, ?_, ?_⟩, fun k hk => ?_⟩
  · rw [List.length_append, List.length_take_of_le hle]
    exact Nat.le_add_right n _
  · rw [List.take_append_of_le_length (Nat.le_of_eq (List.length_take_of_le hle).symm), List.take_take, Nat.min_self]
  · cases hcut : cborItemEnd (data.take k) 0 with
    | error e => exact ⟨e, rfl⟩
    | ok m =>
      -- an end within the prefix would be the end in the whole
      obtain ⟨-, hm, hsame'⟩ := scan_stable _ (data.take k) 0 m hcut
      have hmk : m ≤ k := hm.trans (List.length_take_le k data)
      have hwhole := hsame' data ⟨hm, by omega, by rw [List.take_take, Nat.min_eq_left hmk]⟩
      have hend : m = n := Except.ok.inj (hwhole.symm.trans hn)
      omega

end BrainSdk.Python
