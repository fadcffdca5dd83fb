import BrainSdk.Cbor.ScanLemmas

/-!
# The two CBOR scanners

On data of definite lengths that does not nest too deep, the scanners go over the same heads. They part where the data ends in the
argument of a simple value or a float: the TypeScript scanner steps over it without a look at the bounds. Another head after that would
still run off the end, so only an item whose last head is cut in this way is measured longer than the data.
-/

namespace BrainSdk.Cbor

open Library

/-- What `tame` says of each offset that a counted loop begins an item at. -/
def tameEach (tame : Nat → Bool) (scan : Nat → Except CborError Nat) : Nat → Nat → Bool
  | 0, _ => true
  | n + 1, i => tame i && match scan i with | .ok j => tameEach tame scan n j | .error _ => true

/-- The scan of the item at `i` meets no head with additional information 31, and none below the levels that are left. -/
def tame (data : Bytes) : Nat → Nat → Bool
  | 0, i => data.length ≤ i
  | left + 1, i =>
    data.length ≤ i || additionalInfo (data.getD i 0) ≠ 31 &&
      match Python.cborItemEnd.arg data (additionalInfo (data.getD i 0)) (i + 1) with
      | .ok (some a, j) => tameEach (tame data left) (Python.cborItemEnd.scan data left) (arity (major (data.getD i 0)) a) j
      | _ => true

theorem CutFloat.lt_length {data : Bytes} {i : Nat} (h : CutFloat (data.drop i)) : i < data.length := by
  have := h.length_pos
  rw [List.length_drop] at this
  omega

/-- How the scanners come out on the item at `i`: at the same end, both with an error, or on a cut float with the end past the
data. -/
inductive Outcomes (data : Bytes) (i : Nat) (py ts : Except CborError Nat) : Prop
  | both {j : Nat} (hpy : py = .ok j) (hts : ts = .ok j) (hlt : i < j) (hle : j ≤ data.length) (hitem : Item (slice data i j))
  | neither (hpy : ∃ e, py = .error e) (hts : ∃ e, ts = .error e)
  | cut {p : Nat} (hpy : ∃ e, py = .error e) (hts : ts = .ok p) (hlt : data.length < p) (hcut : CutFloat (data.drop i))

/-- How the scanners come out on `n` items from `i` on. -/
inductive EachOutcomes (data : Bytes) (n i : Nat) (py ts : Except CborError Nat) : Prop
  | both {j : Nat} (items : List Bytes) (hpy : py = .ok j) (hts : ts = .ok j) (hle : i ≤ j ∧ j ≤ data.length)
      (hlen : items.length = n) (hitems : ∀ x ∈ items, Item x) (hslice : slice data i j = items.flatten)
  | neither (hpy : ∃ e, py = .error e) (hts : ∃ e, ts = .error e)
  | cut {p : Nat} {x : Bytes} (items : List Bytes) (hpy : ∃ e, py = .error e) (hts : ts = .ok p) (hlt : data.length < p)
      (hlen : items.length + 1 = n) (hitems : ∀ y ∈ items, Item y) (hcut : CutFloat x) (hdrop : data.drop i = items.flatten ++ x)

end BrainSdk.Cbor

namespace BrainSdk.TypeScript

open Library Cbor

/-- No item begins at the end of the data. -/
theorem walk_end {data : Bytes} {i : Nat} (h : data.length ≤ i) (fuel : Nat) : ∃ e, cborItemLength.walk data fuel i = .error e := by
  rcases fuel with - | fuel
  · exact ⟨_, rfl⟩
  · obtain ⟨e, he⟩ := byteAt_error h
    refine ⟨e, ?_⟩
    unfold cborItemLength.walk
    rw [he]
    rfl

/-- Where there is a byte, a walk goes on by it. -/
theorem walk_succ {data : Bytes} (hdata : data.length < 2 ^ 53) {i : Nat} (hi : i < data.length) (fuel : Nat) :
    cborItemLength.walk data (fuel + 1) i =
      cborItemLength.rest data (cborItemLength.walk data fuel) (data.getD i 0).toNat (i + 1) := by
  have hadd : numberAdd i 1 = i + 1 := by
    rcases numberAdd_cases hdata i 1 with ⟨-, h⟩ | ⟨h, -⟩ <;> omega
  conv_lhs => unfold cborItemLength.walk
  rw [byteAt_ok hi, hadd]
  rfl

/-- A head that is no string and no simple value makes the walk go over the items inside. -/
theorem rest_items (data : Bytes) (walk : Nat → Except CborError Nat) (ib : UInt8) (pos : Nat)
    (hmajor : ¬(major ib = 2 ∨ major ib = 3)) (h7 : major ib ≠ 7) :
    cborItemLength.rest data walk ib.toNat pos = (cborItemLength.readArg data ib.toNat pos).bind
      (fun r => each walk (arity (major ib) (toNumber r.1)) r.2) := by
  have hlt := major_lt ib
  have hm : ib.toNat >>> 5 = major ib := rfl
  unfold cborItemLength.rest
  rw [hm]
  generalize major ib = m at hmajor h7 hlt
  have hcases : m = 0 ∨ m = 1 ∨ m = 4 ∨ m = 5 ∨ m = 6 := by omega
  rcases hcases with rfl | rfl | rfl | rfl | rfl
  · rfl
  · rfl
  · simp only [arity_array]
    rfl
  · simp only [arity_map, each_pair]
    rfl
  · simp only [arity_tag, each_one]
    rfl

/-- A head of a string makes the walk go to the end of the string. -/
theorem rest_content (data : Bytes) (walk : Nat → Except CborError Nat) (ib : UInt8) (pos : Nat)
    (hmajor : major ib = 2 ∨ major ib = 3) :
    cborItemLength.rest data walk ib.toNat pos = (cborItemLength.readArg data ib.toNat pos).bind
      (fun r => cborItemLength.string data (toNumber r.1) r.2) := by
  have hm : ib.toNat >>> 5 = major ib := rfl
  unfold cborItemLength.rest
  rw [hm]
  rcases hmajor with h | h <;> rw [h] <;> rfl

theorem rest_simple (data : Bytes) (walk : Nat → Except CborError Nat) (ib : UInt8) (pos : Nat) (h7 : major ib = 7) :
    cborItemLength.rest data walk ib.toNat pos = cborItemLength.simple ib.toNat pos := by
  have hm : ib.toNat >>> 5 = major ib := rfl
  unfold cborItemLength.rest
  rw [hm, h7]
  rfl

theorem simple_of_le {ib : UInt8} (hu : additionalInfo ib ≤ 27) {pos : Nat} (hzero : numberAdd pos 0 = pos) :
    cborItemLength.simple ib.toNat pos = .ok (numberAdd pos (argWidth (additionalInfo ib))) := by
  have hai : ib.toNat &&& 0x1F = additionalInfo ib := rfl
  unfold cborItemLength.simple
  rw [hai]
  rcases Nat.lt_or_ge (additionalInfo ib) 24 with hlt | hge
  · have hw : argWidth (additionalInfo ib) = 0 := if_pos hlt
    dsimp only
    rw [hw, hzero, if_neg (by omega), if_neg (by omega), if_neg (by omega), if_neg (by omega), if_neg (by omega)]
  · rcases argWidth_cases hge hu with ⟨h, hw⟩ | ⟨h, hw⟩ | ⟨h, hw⟩ | ⟨h, hw⟩ <;> rw [hw, h] <;> rfl

theorem simple_reserved {ib : UInt8} (hl : 28 ≤ additionalInfo ib) (pos : Nat) : ∃ e, cborItemLength.simple ib.toNat pos = .error e := by
  have hai : ib.toNat &&& 0x1F = additionalInfo ib := rfl
  unfold cborItemLength.simple
  rw [hai]
  dsimp only
  rw [if_neg (by omega), if_neg (by omega), if_neg (by omega), if_neg (by omega), if_pos hl]
  exact ⟨_, rfl⟩

theorem readArg_reserved {ib : UInt8} (hl : 28 ≤ additionalInfo ib) (data : Bytes) (pos : Nat) :
    ∃ e, cborItemLength.readArg data ib.toNat pos = .error e := by
  have hai : ib.toNat &&& 0x1F = additionalInfo ib := rfl
  unfold cborItemLength.readArg
  rw [hai]
  dsimp only
  rw [if_neg (by omega), if_neg (by omega), if_neg (by omega), if_neg (by omega), if_neg (by omega)]
  exact ⟨_, rfl⟩

end BrainSdk.TypeScript

namespace BrainSdk.Cbor

open Library

/-- The scanners read the same argument; or both fail, on a reserved head or on one that the data cuts off. -/
theorem args_agree {data : Bytes} (hdata : data.length < 2 ^ 53) {ib : UInt8} {i : Nat} (hi : i ≤ data.length)
    (h31 : additionalInfo ib ≠ 31) :
    (∃ a, Python.cborItemEnd.arg data (additionalInfo ib) i = .ok (some a, i + argWidth (additionalInfo ib)) ∧
      TypeScript.cborItemLength.readArg data ib.toNat i = .ok (a, i + argWidth (additionalInfo ib)) ∧
      additionalInfo ib ≤ 27 ∧ i + argWidth (additionalInfo ib) ≤ data.length ∧
      IsHead (major ib) a (ib :: slice data i (i + argWidth (additionalInfo ib)))) ∨
    (∃ e, Python.cborItemEnd.arg data (additionalInfo ib) i = .error e) ∧
      (∃ e, TypeScript.cborItemLength.readArg data ib.toNat i = .error e) ∧
      (28 ≤ additionalInfo ib ∨
        24 ≤ additionalInfo ib ∧ additionalInfo ib ≤ 27 ∧ data.length < i + argWidth (additionalInfo ib)) := by
  have hlt := additionalInfo_lt ib
  rcases Nat.lt_or_ge (additionalInfo ib) 24 with h | h
  · have hw : argWidth (additionalInfo ib) = 0 := if_pos h
    refine .inl ⟨additionalInfo ib, ?_, ?_, by omega, by omega, ?_⟩
    · rw [hw]
      exact if_pos h
    · rw [hw]
      exact if_pos h
    · rw [hw, Nat.add_zero, slice_self]
      exact .immediate h
  · rcases Nat.lt_or_ge (additionalInfo ib) 28 with hu | hu
    · have hle : additionalInfo ib ≤ 27 := by omega
      rw [Python.arg_wide h hle, TypeScript.readArg_wide hdata hi h hle]
      rcases Python.wideArg_eq data i (argWidth (additionalInfo ib)) with ⟨hfits, hpy⟩ | ⟨hcut, e, hpy⟩
      · have hadd : TypeScript.numberAdd i (argWidth (additionalInfo ib)) = i + argWidth (additionalInfo ib) := by
          rcases TypeScript.numberAdd_cases hdata i (argWidth (additionalInfo ib)) with ⟨-, hadd⟩ | ⟨hcut, -⟩ <;> omega
        rcases TypeScript.readBytes_eq hdata hi (argWidth (additionalInfo ib)) with ⟨-, hts⟩ | ⟨hcut, -⟩
        · refine .inl ⟨_, hpy, ?_, hle, hfits, ?_⟩
          · rw [hts, hadd]
            rfl
          · refine .wide h hle ?_
            rw [slice_length hfits]
            omega
        · omega
      · rcases TypeScript.readBytes_eq hdata hi (argWidth (additionalInfo ib)) with ⟨hfits, -⟩ | ⟨-, e', hts⟩
        · omega
        · refine .inr ⟨⟨e, hpy⟩, ⟨e', ?_⟩, .inr ⟨h, hle, hcut⟩⟩
          rw [hts]
          rfl
    · exact .inr ⟨Python.arg_reserved hu (by omega), TypeScript.readArg_reserved hu data i, .inl hu⟩

/-- A string ends at the same place for both, or both fail. -/
theorem string_agree {data : Bytes} (hdata : data.length < 2 ^ 53) (a j : Nat) :
    j + a ≤ data.length ∧ TypeScript.cborItemLength.string data (TypeScript.toNumber a) j = .ok (j + a) ∨
      data.length < j + a ∧ ∃ e, TypeScript.cborItemLength.string data (TypeScript.toNumber a) j = .error e := by
  unfold TypeScript.cborItemLength.string
  rcases Nat.lt_or_ge (2 ^ 53) a with hbig | hsmall
  · have hnum := TypeScript.le_toNumber (Nat.le_of_lt hbig)
    have hpast : data.length < TypeScript.numberAdd j (TypeScript.toNumber a) := by
      rcases TypeScript.numberAdd_cases hdata j (TypeScript.toNumber a) with ⟨hle, -⟩ | ⟨-, hpast⟩ <;> omega
    exact .inr ⟨by omega, _, if_pos hpast⟩
  · rw [TypeScript.toNumber_of_le hsmall]
    rcases TypeScript.numberAdd_cases hdata j a with ⟨hle, hadd⟩ | ⟨hlt, hpast⟩
    · rw [hadd]
      exact .inl ⟨hle, if_neg (by omega)⟩
    · exact .inr ⟨hlt, _, if_pos hpast⟩

/-- A count that rounds is larger than the data, and still is when rounded. -/
theorem arity_toNumber {data : Bytes} (hdata : data.length < 2 ^ 53) (m a : Nat) :
    arity m (TypeScript.toNumber a) = arity m a ∨ data.length < arity m a ∧ data.length < arity m (TypeScript.toNumber a) := by
  rcases Nat.lt_or_ge (2 ^ 53) a with hbig | hsmall
  · have hnum := TypeScript.le_toNumber (Nat.le_of_lt hbig)
    generalize TypeScript.toNumber a = n at hnum
    unfold arity
    split_ifs
    · exact .inr ⟨by omega, by omega⟩
    · exact .inr ⟨by omega, by omega⟩
    · exact .inl rfl
    · exact .inl rfl
  · rw [TypeScript.toNumber_of_le hsmall]
    exact .inl rfl

section Each

variable {data : Bytes} {scan walk : Nat → Except CborError Nat} {good : Nat → Bool} {low : Nat}

theorem each_ok {f : Nat → Except CborError Nat} {i j : Nat} (h : f i = .ok j) (n : Nat) : each f (n + 1) i = each f n j := by
  simp [each, h, Except.bind]

theorem each_error {f : Nat → Except CborError Nat} {i : Nat} (h : ∃ e, f i = .error e) (n : Nat) :
    ∃ e, each f (n + 1) i = .error e := by
  obtain ⟨e, he⟩ := h
  exact ⟨e, by simp [each, he, Except.bind]⟩

/-- Past the end of the data no item begins, so a loop with a turn left fails. -/
theorem each_past (hend : ∀ i, data.length ≤ i → ∃ e, walk i = .error e) {p : Nat} (hp : data.length < p) (n : Nat) :
    ∃ e, each walk (n + 1) p = .error e :=
  each_error (hend p (Nat.le_of_lt hp)) n

/-- Loops over the same number of items come out alike when each item does. -/
theorem each_outcomes (hend : ∀ i, data.length ≤ i → ∃ e, walk i = .error e)
    (hitem : ∀ i, low ≤ i → i ≤ data.length → good i = true → Outcomes data i (scan i) (walk i)) {n i : Nat} (hlow : low ≤ i)
    (hi : i ≤ data.length) (hgood : tameEach good scan n i = true) : EachOutcomes data n i (each scan n i) (each walk n i) := by
  induction n generalizing i with
  | zero => exact .both [] rfl rfl ⟨Nat.le_refl i, hi⟩ rfl nofun (slice_self data i)
  | succ n ih =>
    simp only [tameEach, Bool.and_eq_true] at hgood
    rcases hitem i hlow hi hgood.1 with ⟨hpy, hts, hlt, hle, hone⟩ | ⟨hpy, hts⟩ | ⟨hpy, hts, hlt, hcut⟩
    · rename_i j
      have hmore := hgood.2
      rw [hpy] at hmore
      rw [each_ok hpy, each_ok hts]
      have hslice : ∀ {k}, j ≤ k → slice data i k = slice data i j ++ slice data j k :=
        fun hk => (slice_append data (Nat.le_of_lt hlt) hk).symm
      rcases ih (by omega) hle hmore with
        ⟨items, hpy', hts', hle', hlen, hitems, hflat⟩ | ⟨hpy', hts'⟩ | ⟨items, hpy', hts', hlt', hlen, hitems, hcut, hdrop⟩
      · refine .both (slice data i j :: items) hpy' hts' ⟨by omega, hle'.2⟩ (by simp [hlen]) ?_ ?_
        · exact List.forall_mem_cons.2 ⟨hone, hitems⟩
        · rw [hslice hle'.1, hflat, List.flatten_cons]
      · exact .neither hpy' hts'
      · refine .cut (slice data i j :: items) hpy' hts' hlt' (by simp [hlen]) (List.forall_mem_cons.2 ⟨hone, hitems⟩) hcut ?_
        rw [List.flatten_cons, List.append_assoc, ← hdrop]
        exact drop_eq_slice_append data (Nat.le_of_lt hlt)
    · exact .neither (each_error hpy n) (each_error hts n)
    · rename_i p
      rcases n with - | n
      · exact .cut [] (each_error hpy 0) (by rw [each_ok hts]; rfl) hlt rfl nofun hcut rfl
      · refine .neither (each_error hpy _) ?_
        rw [each_ok hts]
        exact each_past hend hlt n

/-- Loops over more items than there are bytes fail. -/
theorem each_outcomes_long (hend : ∀ i, data.length ≤ i → ∃ e, walk i = .error e)
    (hitem : ∀ i, low ≤ i → i ≤ data.length → good i = true → Outcomes data i (scan i) (walk i)) {n n' i : Nat} (hlow : low ≤ i)
    (hi : i ≤ data.length) (hgood : tameEach good scan n i = true) (hn : data.length < i + n) (hn' : data.length < i + n') :
    (∃ e, each scan n i = .error e) ∧ ∃ e, each walk n' i = .error e := by
  induction n generalizing i n' with
  | zero => omega
  | succ n ih =>
    simp only [tameEach, Bool.and_eq_true] at hgood
    obtain ⟨n', rfl⟩ : ∃ k, n' = k + 1 := ⟨n' - 1, by omega⟩
    rcases hitem i hlow hi hgood.1 with ⟨hpy, hts, hlt, hle, -⟩ | ⟨hpy, hts⟩ | ⟨hpy, hts, hlt, hcut⟩
    · have hmore := hgood.2
      rw [hpy] at hmore
      rw [each_ok hpy, each_ok hts]
      exact ih (by omega) hle hmore (by omega) (by omega)
    · exact ⟨each_error hpy n, each_error hts n'⟩
    · refine ⟨each_error hpy n, ?_⟩
      have hi' : i < data.length := hcut.lt_length
      obtain ⟨n', rfl⟩ : ∃ k, n' = k + 1 := ⟨n' - 1, by omega⟩
      rw [each_ok hts]
      exact each_past hend hlt n'

end Each

/-- The bytes of a head as they stand in the data. -/
theorem slice_head {data : Bytes} {i : Nat} (hi : i < data.length) (w : Nat) :
    slice data i (i + 1 + w) = data.getD i 0 :: slice data (i + 1) (i + 1 + w) := by
  rw [← slice_append data (Nat.le_succ i) (Nat.le_add_right (i + 1) w), slice_succ hi]
  rfl

/-- What the scanners do with the items behind a head is what they do with the item. -/
theorem EachOutcomes.item {data : Bytes} {i j m a : Nat} {py ts : Except CborError Nat} (hij : i < j)
    (hhead : IsHead m a (slice data i j)) (hcontent : contentLength m a = 0) (h : EachOutcomes data (arity m a) j py ts) :
    Outcomes data i py ts := by
  rcases h with ⟨items, hpy, hts, hle, hlen, hitems, hslice⟩ | ⟨hpy, hts⟩ | ⟨items, hpy, hts, hlt, hlen, hitems, hcut, hdrop⟩
  · refine .both hpy hts (by omega) hle.2 ?_
    have hone : Item (slice data i j ++ [] ++ items.flatten) := .mk hhead (by rw [hcontent]; rfl) hlen hitems
    rw [← slice_append data (Nat.le_of_lt hij) hle.1, hslice]
    rwa [List.append_nil] at hone
  · exact .neither hpy hts
  · refine .cut hpy hts hlt ?_
    rw [drop_eq_slice_append data (Nat.le_of_lt hij), hdrop, ← List.append_assoc]
    exact .last hhead hlen hitems hcut

/-- The head of a string. -/
theorem string_outcomes {data : Bytes} (hdata : data.length < 2 ^ 53) {i j m a : Nat} (hij : i < j)
    (hhead : IsHead m a (slice data i j)) (hstring : m = 2 ∨ m = 3) (scan : Nat → Except CborError Nat) :
    Outcomes data i (Python.cborItemEnd.rest data scan m (some a) j)
      (TypeScript.cborItemLength.string data (TypeScript.toNumber a) j) := by
  rcases string_agree hdata a j with ⟨hle, hts⟩ | ⟨hlt, hts⟩ <;>
    rcases Python.rest_string data scan a j hstring with ⟨hle', hpy⟩ | ⟨hlt', hpy⟩
  · refine .both hpy hts (by omega) hle ?_
    have hlen : (slice data j (j + a)).length = contentLength m a := by
      rw [slice_length hle, contentLength, if_pos hstring]
      omega
    have hone : Item (slice data i j ++ slice data j (j + a) ++ List.flatten []) :=
      .mk hhead hlen (by rw [arity_eq_zero hstring]; rfl) nofun
    rw [← slice_append data (Nat.le_of_lt hij) (Nat.le_add_right j a)]
    rwa [List.flatten_nil, List.append_nil] at hone
  · omega
  · omega
  · exact .neither hpy hts

/-- The head of a simple value or a float, with its argument in full. -/
theorem simple_outcomes {data : Bytes} (hdata : data.length < 2 ^ 53) {i a : Nat} {ib : UInt8} (h27 : additionalInfo ib ≤ 27)
    (h7 : major ib = 7) (hfits : i + 1 + argWidth (additionalInfo ib) ≤ data.length)
    (hhead : IsHead (major ib) a (slice data i (i + 1 + argWidth (additionalInfo ib)))) (scan : Nat → Except CborError Nat) :
    Outcomes data i (each scan (arity (major ib) a) (i + 1 + argWidth (additionalInfo ib)))
      (TypeScript.cborItemLength.simple ib.toNat (i + 1)) := by
  have hadd : ∀ w, i + 1 + w ≤ data.length → TypeScript.numberAdd (i + 1) w = i + 1 + w := by
    intro w hw
    rcases TypeScript.numberAdd_cases hdata (i + 1) w with ⟨-, h⟩ | ⟨h, -⟩ <;> omega
  have harity : arity (major ib) a = 0 := by
    rw [h7]
    rfl
  rw [TypeScript.simple_of_le h27 (hadd 0 (by omega)), hadd _ hfits]
  refine EachOutcomes.item (by omega) hhead (contentLength_eq_zero (by omega)) ?_
  rw [harity]
  exact .both [] rfl rfl ⟨Nat.le_refl _, hfits⟩ rfl nofun (slice_self data _)

/-- A head that is reserved, or that the data cuts off. -/
theorem refused_outcomes {data : Bytes} (hdata : data.length < 2 ^ 53) {i : Nat} (hi : i < data.length) {e e' : CborError}
    (hts : TypeScript.cborItemLength.readArg data (data.getD i 0).toNat (i + 1) = .error e')
    (hwhy : 28 ≤ additionalInfo (data.getD i 0) ∨ 24 ≤ additionalInfo (data.getD i 0) ∧ additionalInfo (data.getD i 0) ≤ 27 ∧
      data.length < i + 1 + argWidth (additionalInfo (data.getD i 0))) (walk : Nat → Except CborError Nat) :
    Outcomes data i (.error e) (TypeScript.cborItemLength.rest data walk (data.getD i 0).toNat (i + 1)) := by
  by_cases h7 : major (data.getD i 0) = 7
  · rw [TypeScript.rest_simple _ _ _ _ h7]
    rcases hwhy with h28 | ⟨h24, h27, hcut⟩
    · exact .neither ⟨e, rfl⟩ (TypeScript.simple_reserved h28 _)
    · -- the walk steps over bytes that are not there
      have hzero : TypeScript.numberAdd (i + 1) 0 = i + 1 := by
        rcases TypeScript.numberAdd_cases hdata (i + 1) 0 with ⟨-, h⟩ | ⟨h, -⟩ <;> omega
      have hpast : data.length < TypeScript.numberAdd (i + 1) (argWidth (additionalInfo (data.getD i 0))) := by
        rcases TypeScript.numberAdd_cases hdata (i + 1) (argWidth (additionalInfo (data.getD i 0))) with ⟨h, -⟩ | ⟨-, h⟩ <;> omega
      refine .cut ⟨e, rfl⟩ (TypeScript.simple_of_le h27 hzero) hpast ?_
      rw [drop_eq_slice_append data (Nat.le_succ i), slice_succ hi, List.singleton_append]
      refine .argument h7 h24 h27 ?_
      rw [List.length_drop]
      omega
  · refine .neither ⟨e, rfl⟩ ⟨e', ?_⟩
    by_cases hstring : major (data.getD i 0) = 2 ∨ major (data.getD i 0) = 3
    · rw [TypeScript.rest_content data walk _ _ hstring, hts, error_bind]
    · rw [TypeScript.rest_items data walk _ _ hstring h7, hts, error_bind]

/-- The scanners on one head, where they come out alike on the items behind it. -/
theorem head_outcomes {data : Bytes} (hdata : data.length < 2 ^ 53) {i left fuel : Nat} (hi : i < data.length)
    (hitem : ∀ k, i + 1 ≤ k → k ≤ data.length → tame data left k = true →
      Outcomes data k (Python.cborItemEnd.scan data left k) (TypeScript.cborItemLength.walk data fuel k))
    (htame : tame data (left + 1) i = true) :
    Outcomes data i (Python.cborItemEnd.scan data (left + 1) i) (TypeScript.cborItemLength.walk data (fuel + 1) i) := by
  have hend : ∀ k, data.length ≤ k → ∃ e, TypeScript.cborItemLength.walk data fuel k = .error e :=
    fun k hk => TypeScript.walk_end hk fuel
  simp only [tame, Nat.not_le.2 hi, decide_false, Bool.false_or, Bool.and_eq_true, decide_eq_true_eq] at htame
  obtain ⟨h31, hmore⟩ := htame
  rw [Python.scan_succ hi, TypeScript.walk_succ hdata hi]
  rcases args_agree hdata (show i + 1 ≤ data.length from hi) h31 with ⟨a, hpy, hts, h27, hfits, hhead⟩ | ⟨⟨e, hpy⟩, ⟨e', hts⟩, hwhy⟩
  · rw [hpy] at hmore
    rw [hpy, ok_bind]
    rw [← slice_head hi] at hhead
    generalize data.getD i 0 = ib at *
    by_cases hstring : major ib = 2 ∨ major ib = 3
    · rw [TypeScript.rest_content data _ ib _ hstring, hts, ok_bind]
      exact string_outcomes hdata (by omega) hhead hstring _
    · rw [Python.rest_group _ (major_lt ib) hstring]
      by_cases h7 : major ib = 7
      · rw [TypeScript.rest_simple _ _ _ _ h7]
        exact simple_outcomes hdata h27 h7 hfits hhead _
      · rw [TypeScript.rest_items data _ ib _ hstring h7, hts, ok_bind]
        rcases arity_toNumber hdata (major ib) a with hsame | ⟨hlong, hlong'⟩
        · rw [hsame]
          exact (each_outcomes hend hitem (by omega) hfits hmore).item (by omega) hhead (contentLength_eq_zero hstring)
        · obtain ⟨hpy', hts'⟩ := each_outcomes_long hend hitem (by omega) hfits hmore (Nat.lt_add_left _ hlong) (Nat.lt_add_left _ hlong')
          exact .neither hpy' hts'
  · rw [hpy, error_bind]
    exact refused_outcomes hdata hi hts hwhy _

/-- The scanners on every item whose heads are tame. -/
theorem scan_outcomes {data : Bytes} (hdata : data.length < 2 ^ 53) {left fuel i : Nat} (hi : i ≤ data.length)
    (hfuel : data.length < i + fuel) (htame : tame data left i = true) :
    Outcomes data i (Python.cborItemEnd.scan data left i) (TypeScript.cborItemLength.walk data fuel i) := by
  induction left generalizing fuel i with
  | zero =>
    have hend : data.length ≤ i := of_decide_eq_true htame
    exact .neither (Python.scan_end hend 0) (TypeScript.walk_end hend fuel)
  | succ left ih =>
    rcases Nat.lt_or_ge i data.length with hlt | hge
    · obtain ⟨fuel, rfl⟩ : ∃ k, fuel = k + 1 := ⟨fuel - 1, by omega⟩
      exact head_outcomes hdata hlt (fun k hk hle htame => ih hle (by omega) htame) htame
    · exact .neither (Python.scan_end hge _) (TypeScript.walk_end hge fuel)

/-! ### What a walk does on an item, and on a cut one -/

/-- Where a head stands in the data, the walk reads its argument. -/
theorem walk_head {data : Bytes} (hdata : data.length < 2 ^ 53) {i m a : Nat} {head t : Bytes} (hhead : IsHead m a head)
    (hdrop : data.drop i = head ++ t) :
    i < data.length ∧ m = major (data.getD i 0) ∧ additionalInfo (data.getD i 0) ≤ 27 ∧
      head.length = 1 + argWidth (additionalInfo (data.getD i 0)) ∧ i + head.length ≤ data.length ∧
      TypeScript.cborItemLength.readArg data (data.getD i 0).toNat (i + 1) = .ok (a, i + head.length) := by
  obtain ⟨ib, bs, rfl, rfl, h27, hlen⟩ := hhead.eq_cons
  have hlength : data.length - i = 1 + bs.length + t.length := by
    have := congrArg List.length hdrop
    rw [List.length_drop] at this
    simp only [List.length_cons, List.length_append] at this
    omega
  have hib : data.getD i 0 = ib := by
    have := congrArg (List.getD · 0 0) hdrop
    simpa [List.getD_eq_getElem?_getD] using this
  have hbs : slice data (i + 1) (i + 1 + argWidth (additionalInfo ib)) = bs := by
    rw [← hlen, slice, List.drop_take]
    have htail : data.drop (i + 1) = bs ++ t := by rw [← List.drop_drop, hdrop]; rfl
    rw [htail, Nat.add_sub_cancel_left, List.take_left]
  rw [hib]
  refine ⟨by omega, rfl, h27, by simp [hlen]; omega, by simp; omega, ?_⟩
  rcases args_agree hdata (show i + 1 ≤ data.length by omega) (show additionalInfo ib ≠ 31 by omega) with
    ⟨a', -, hts, -, -, hhead'⟩ | ⟨-, -, h28 | ⟨-, -, hcut⟩⟩
  · rw [hbs] at hhead'
    rw [hts, hhead.arg_unique hhead', List.length_cons, hlen]
    congr 2
    omega
  · omega
  · omega

/-- A loop of the walk over whole items, which leaves the turns after them. -/
theorem each_items {data : Bytes} {walk : Nat → Except CborError Nat} {items : List Bytes} {i : Nat} {t : Bytes}
    (hwalk : ∀ x ∈ items, ∀ k u, i ≤ k → data.drop k = x ++ u → walk k = .ok (k + x.length))
    (hdrop : data.drop i = items.flatten ++ t) (n : Nat) :
    each walk (items.length + n) i = each walk n (i + items.flatten.length) := by
  induction items generalizing i with
  | nil => simp
  | cons x items ih =>
    rw [List.flatten_cons, List.append_assoc] at hdrop
    have hx := hwalk x List.mem_cons_self i _ (Nat.le_refl i) hdrop
    have hrest : data.drop (i + x.length) = items.flatten ++ t := by rw [← List.drop_drop, hdrop, List.drop_left]
    have hcount : (x :: items).length + n = items.length + n + 1 := by
      rw [List.length_cons]
      omega
    rw [hcount, each_ok hx, ih (fun y hy k u hk => hwalk y (List.mem_cons_of_mem x hy) k u (by omega)) hrest, List.flatten_cons,
      List.length_append, Nat.add_assoc]

/-- Where the walk finds items behind a head, it goes over as many as the head says. -/
theorem walk_group {data : Bytes} (hdata : data.length < 2 ^ 53) {i m a fuel : Nat} {head t : Bytes} (hhead : IsHead m a head)
    (hdrop : data.drop i = head ++ t) (hstring : ¬(m = 2 ∨ m = 3)) (h7 : m ≠ 7) (hcount : arity m a ≤ data.length) :
    TypeScript.cborItemLength.walk data (fuel + 1) i =
      each (TypeScript.cborItemLength.walk data fuel) (arity m a) (i + head.length) := by
  obtain ⟨hi, rfl, -, -, -, hread⟩ := walk_head hdata hhead hdrop
  rw [TypeScript.walk_succ hdata hi, TypeScript.rest_items _ _ _ _ hstring h7, hread, ok_bind]
  rcases arity_toNumber hdata (major (data.getD i 0)) a with hsame | ⟨hlong, -⟩
  · rw [hsame]
  · omega

/-- The walk measures every item. -/
theorem walk_item {data x : Bytes} (hdata : data.length < 2 ^ 53) (hx : Item x) {i fuel : Nat} {t : Bytes}
    (hdrop : data.drop i = x ++ t) (hfuel : data.length < i + fuel) :
    TypeScript.cborItemLength.walk data fuel i = .ok (i + x.length) := by
  induction hx generalizing i fuel t with
  | @mk m a head content items hhead hcontent hlen hitems ih =>
    rw [List.append_assoc, List.append_assoc] at hdrop
    obtain ⟨hi, hm, h27, hw, hfits, hread⟩ := walk_head hdata hhead hdrop
    obtain ⟨fuel, rfl⟩ : ∃ k, fuel = k + 1 := ⟨fuel - 1, by omega⟩
    have hlength : data.length - i = head.length + (content.length + (items.flatten.length + t.length)) := by
      have := congrArg List.length hdrop
      simpa only [List.length_drop, List.length_append] using this
    by_cases hstring : m = 2 ∨ m = 3
    · have hitems : items = [] := by
        rw [arity_eq_zero hstring] at hlen
        exact List.length_eq_zero_iff.1 hlen
      rw [contentLength, if_pos hstring] at hcontent
      subst hitems
      rw [TypeScript.walk_succ hdata hi, TypeScript.rest_content _ _ _ _ (by rw [← hm]; exact hstring), hread, ok_bind]
      rcases string_agree hdata a (i + head.length) with ⟨-, hts⟩ | ⟨hcut, -⟩
      · rw [hts]
        simp [hcontent, Nat.add_assoc]
      · simp only [List.flatten_nil, List.length_nil] at hlength
        omega
    · have hcontent : content = [] := by
        rw [contentLength_eq_zero hstring] at hcontent
        exact List.length_eq_zero_iff.1 hcontent
      subst hcontent
      by_cases h7 : m = 7
      · have hitems : items = [] := by
          rw [h7] at hlen
          exact List.length_eq_zero_iff.1 hlen
        subst hitems
        have hadd : ∀ w, i + 1 + w ≤ data.length → TypeScript.numberAdd (i + 1) w = i + 1 + w := by
          intro w hwle
          rcases TypeScript.numberAdd_cases hdata (i + 1) w with ⟨-, h⟩ | ⟨h, -⟩ <;> omega
        rw [TypeScript.walk_succ hdata hi, TypeScript.rest_simple _ _ _ _ (by rw [← hm, h7]),
          TypeScript.simple_of_le h27 (hadd 0 (by omega)), hadd _ (by omega)]
        simp [hw, Nat.add_assoc]
      · have hle := length_le_flatten hitems
        have hpos := hhead.length_pos
        rw [walk_group hdata hhead hdrop hstring h7 (by omega), ← hlen]
        have hrest : data.drop (i + head.length) = items.flatten ++ t := by rw [← List.drop_drop, hdrop, List.drop_left]; rfl
        have hwalk : ∀ y ∈ items, ∀ k u, i + head.length ≤ k → data.drop k = y ++ u →
            TypeScript.cborItemLength.walk data fuel k = .ok (k + y.length) := fun y hy k u hk hd => ih y hy hd (by omega)
        have hgo := each_items hwalk hrest 0
        rw [Nat.add_zero] at hgo
        rw [hgo]
        simp [each, Nat.add_assoc]

/-- The walk measures an item that is cut in its last float as longer than the data. -/
theorem walk_cutFloat {data x : Bytes} (hdata : data.length < 2 ^ 53) (hx : CutFloat x) {i fuel : Nat} (hdrop : data.drop i = x)
    (hfuel : data.length < i + fuel) : ∃ p, TypeScript.cborItemLength.walk data fuel i = .ok p ∧ data.length < p := by
  induction hx generalizing i fuel with
  | @argument ib bs h7 h24 h27 hlen =>
    have hlength : data.length - i = 1 + bs.length := by
      have := congrArg List.length hdrop
      rw [List.length_drop, List.length_cons] at this
      omega
    have hib : data.getD i 0 = ib := by
      have := congrArg (List.getD · 0 0) hdrop
      simpa [List.getD_eq_getElem?_getD] using this
    have hi : i < data.length := by omega
    have hzero : TypeScript.numberAdd (i + 1) 0 = i + 1 := by
      rcases TypeScript.numberAdd_cases hdata (i + 1) 0 with ⟨-, h⟩ | ⟨h, -⟩ <;> omega
    obtain ⟨fuel, rfl⟩ : ∃ k, fuel = k + 1 := ⟨fuel - 1, by omega⟩
    refine ⟨TypeScript.numberAdd (i + 1) (argWidth (additionalInfo ib)), ?_, ?_⟩
    · rw [TypeScript.walk_succ hdata hi, hib, TypeScript.rest_simple _ _ _ _ h7, TypeScript.simple_of_le h27 hzero]
    · rcases TypeScript.numberAdd_cases hdata (i + 1) (argWidth (additionalInfo ib)) with ⟨h, -⟩ | ⟨-, h⟩ <;> omega
  | @last m a head cut items hhead hlen hitems hcut ih =>
    rw [List.append_assoc] at hdrop
    have hlength : data.length - i = head.length + (items.flatten.length + cut.length) := by
      have := congrArg List.length hdrop
      simpa only [List.length_drop, List.length_append] using this
    have hpos := hhead.length_pos
    have hcutpos := hcut.length_pos
    have hle := length_le_flatten hitems
    have hgroup : m = 4 ∨ m = 5 ∨ m = 6 := by
      unfold arity at hlen
      split_ifs at hlen <;> omega
    obtain ⟨fuel, rfl⟩ : ∃ k, fuel = k + 1 := ⟨fuel - 1, by omega⟩
    have hrest : data.drop (i + head.length) = items.flatten ++ cut := by rw [← List.drop_drop, hdrop, List.drop_left]
    have hlast : data.drop (i + head.length + items.flatten.length) = cut := by rw [← List.drop_drop, hrest, List.drop_left]
    have hwalk : ∀ y ∈ items, ∀ k u, i + head.length ≤ k → data.drop k = y ++ u →
        TypeScript.cborItemLength.walk data fuel k = .ok (k + y.length) :=
      fun y hy k u hk hd => walk_item hdata (hitems y hy) hd (by omega)
    rw [walk_group hdata hhead hdrop (by omega) (by omega) (by omega), ← hlen, each_items hwalk hrest 1, each_one]
    exact ih hlast (by omega)

/-! ### Agreement -/

/-- Both scanners end at the same place or both report a `CborError`, and TypeScript never gives a length past the data. -/
def ScannersAgree (array : TypeScript.Uint8Array) : Prop :=
  (∀ n, TypeScript.cborItemLength array = .ok n ↔ Python.cborItemEnd array.bytes 0 = .ok n) ∧
  ((∀ n, TypeScript.cborItemLength array ≠ .ok n) →
    (∃ e, TypeScript.cborItemLength array = .error e) ∧ ∃ e, Python.cborItemEnd array.bytes 0 = .error e) ∧
  ∀ n, TypeScript.cborItemLength array = .ok n → n ≤ array.bytes.length

/-- On every byte string whose scan meets no head with additional information 31 and nests at most `_MAX_NESTING_DEPTH` levels, the
scanners agree exactly when the item is not cut off in the argument of its last head, a simple value or a float. -/
theorem scanners_agree_iff (array : TypeScript.Uint8Array) (htame : tame array.bytes (Python.maxNestingDepth + 1) 0 = true) :
    ScannersAgree array ↔ ¬CutFloat array.bytes := by
  obtain ⟨bytes, hdata⟩ := array
  have hfuel : bytes.length < 0 + (bytes.length + 1) := by omega
  unfold ScannersAgree TypeScript.cborItemLength Python.cborItemEnd
  dsimp only at htame ⊢
  constructor
  · rintro ⟨-, -, hle⟩ hcut
    obtain ⟨p, hp, hlt⟩ := walk_cutFloat hdata hcut List.drop_zero hfuel
    have := hle p hp
    omega
  · intro hcut
    rcases scan_outcomes hdata (Nat.zero_le _) hfuel htame with ⟨hpy, hts, -, hle, -⟩ | ⟨⟨e, hpy⟩, ⟨e', hts⟩⟩ | ⟨-, -, -, hfloat⟩
    · rw [hpy, hts]
      refine ⟨fun n => Iff.rfl, fun hnone => absurd rfl (hnone _), ?_⟩
      intro n hn
      obtain rfl := Except.ok.inj hn
      exact hle
    · rw [hpy, hts]
      exact ⟨by simp, fun _ => ⟨⟨_, rfl⟩, ⟨_, rfl⟩⟩, by simp⟩
    · exact absurd hfloat hcut

/-- An array of a float and an integer: both scanners end after its five bytes, so nothing of it is cut off. -/
theorem scanners_agree_iff_array : ¬CutFloat [0x82, 0xF9, 0x3C, 0x00, 0x01] := by
  refine (scanners_agree_iff ⟨[0x82, 0xF9, 0x3C, 0x00, 0x01], by decide⟩ (by decide)).1 ?_
  have hts : TypeScript.cborItemLength ⟨[0x82, 0xF9, 0x3C, 0x00, 0x01], by decide⟩ = .ok 5 := by decide
  have hpy : Python.cborItemEnd [0x82, 0xF9, 0x3C, 0x00, 0x01] 0 = .ok 5 := by decide
  unfold ScannersAgree
  rw [hts, hpy]
  refine ⟨fun n => Iff.rfl, fun hnone => absurd rfl (hnone _), ?_⟩
  intro n hn
  obtain rfl := Except.ok.inj hn
  decide

/-- The initial byte of a half-precision float and nothing else: TypeScript measures three bytes of it, Python reports an error. -/
theorem cutFloat_measured : tame [0xF9] (Python.maxNestingDepth + 1) 0 = true ∧
    TypeScript.cborItemLength ⟨[0xF9], by decide⟩ = .ok 3 ∧ ¬ScannersAgree ⟨[0xF9], by decide⟩ := by
  have hts : TypeScript.cborItemLength ⟨[0xF9], by decide⟩ = .ok 3 := by decide
  refine ⟨by decide, hts, ?_⟩
  rintro ⟨-, -, hle⟩
  exact absurd (hle 3 hts) (by decide)

end BrainSdk.Cbor
