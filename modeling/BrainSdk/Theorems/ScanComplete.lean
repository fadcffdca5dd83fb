import BrainSdk.Cbor.WellFormed
import BrainSdk.Theorems.CborScan

/-!
# The Python scanner measures every well-formed item

By induction on how the item is formed. A loop over items ends where they do, and one that waits for a break ends behind it, as no item
begins with the break.
-/

namespace BrainSdk.Python

open Library Cbor

/-- Where a head stands in the data, the scan reads its argument. -/
theorem arg_head {data head t : Bytes} {i m a : Nat} (hhead : IsHead m a head) (hdrop : data.drop i = head ++ t) :
    i < data.length ∧ major (data.getD i 0) = m ∧
      cborItemEnd.arg data (additionalInfo (data.getD i 0)) (i + 1) = .ok (some a, i + head.length) := by
  have hlength : data.length - i = head.length + t.length := by
    have := congrArg List.length hdrop
    simpa only [List.length_drop, List.length_append] using this
  have hpos := hhead.length_pos
  cases hhead with
  | @immediate ib hlt =>
    have hib : data.getD i 0 = ib := by
      have := congrArg (List.getD · 0 0) hdrop
      simpa [List.getD_eq_getElem?_getD] using this
    rw [hib]
    exact ⟨by omega, rfl, if_pos hlt⟩
  | @wide ib bs hl hu hlen =>
    have hib : data.getD i 0 = ib := by
      have := congrArg (List.getD · 0 0) hdrop
      simpa [List.getD_eq_getElem?_getD] using this
    have htail : data.drop (i + 1) = bs ++ t := by
      rw [← List.drop_drop, hdrop]
      rfl
    have hbs : slice data (i + 1) (i + 1 + argWidth (additionalInfo ib)) = bs := by
      rw [← hlen, slice, List.drop_take, htail, Nat.add_sub_cancel_left, List.take_left]
    have hend : i + (ib :: bs).length = i + 1 + argWidth (additionalInfo ib) := by
      rw [List.length_cons, hlen]
      omega
    rw [List.length_cons] at hlength
    rw [hib, arg_wide hl hu, hend]
    refine ⟨by omega, rfl, ?_⟩
    rcases wideArg_eq data (i + 1) (argWidth (additionalInfo ib)) with ⟨-, h⟩ | ⟨h, -⟩
    · rw [h, hbs]
    · omega

theorem getD_of_drop {data bs : Bytes} {i : Nat} {b : UInt8} (hdrop : data.drop i = b :: bs) : i < data.length ∧ data.getD i 0 = b := by
  constructor
  · have := congrArg List.length hdrop
    rw [List.length_drop, List.length_cons] at this
    omega
  · have := congrArg (List.getD · 0 0) hdrop
    simpa [List.getD_eq_getElem?_getD] using this

theorem arg_indefinite (data : Bytes) (i : Nat) : cborItemEnd.arg data 31 i = .ok (none, i) := rfl

theorem rest_scalar (data : Bytes) (scan : Nat → Except CborError Nat) (arg : Option Nat) (i : Nat) {m : Nat}
    (hm : m = 0 ∨ m = 1 ∨ m = 7) : cborItemEnd.rest data scan m arg i = .ok i := by
  rcases hm with rfl | rfl | rfl <;> rfl

theorem rest_indefinite (data : Bytes) (scan : Nat → Except CborError Nat) (i : Nat) {m : Nat} (hm : m = 2 ∨ m = 3 ∨ m = 4) :
    cborItemEnd.rest data scan m none i = cborItemEnd.untilBreak data scan (data.length + 1) i := by
  rcases hm with rfl | rfl | rfl <;> rfl

/-- The loop up to the break goes over the items before it. -/
theorem untilBreak_items {data : Bytes} {scan : Nat → Except CborError Nat} {items : List Bytes} {i fuel : Nat} {t : Bytes}
    (hscan : ∀ x ∈ items, ∀ k u, data.drop k = x ++ u → scan k = .ok (k + x.length)) (hstarts : ∀ x ∈ items, StartsItem x)
    (hdrop : data.drop i = items.flatten ++ breakByte :: t) (hfuel : items.length < fuel) :
    cborItemEnd.untilBreak data scan fuel i = .ok (i + items.flatten.length + 1) := by
  induction items generalizing i fuel with
  | nil =>
    obtain ⟨fuel, rfl⟩ : ∃ k, fuel = k + 1 := ⟨fuel - 1, by omega⟩
    obtain ⟨hi, hget⟩ := getD_of_drop hdrop
    unfold cborItemEnd.untilBreak
    rw [need_ok (by omega), hget]
    rfl
  | cons x items ih =>
    obtain ⟨fuel, rfl⟩ : ∃ k, fuel = k + 1 := ⟨fuel - 1, by omega⟩
    rw [List.flatten_cons, List.append_assoc] at hdrop
    obtain ⟨b, bs, hx, hb⟩ := hstarts x List.mem_cons_self
    have hfirst : data.drop i = b :: (bs ++ (items.flatten ++ breakByte :: t)) := by
      rw [hdrop, hx]
      rfl
    obtain ⟨hi, hget⟩ := getD_of_drop hfirst
    have hone := hscan x List.mem_cons_self i _ hdrop
    have hrest : data.drop (i + x.length) = items.flatten ++ breakByte :: t := by rw [← List.drop_drop, hdrop, List.drop_left]
    have hgo := ih (fun y hy => hscan y (List.mem_cons_of_mem x hy)) (fun y hy => hstarts y (List.mem_cons_of_mem x hy)) hrest
      (Nat.lt_of_succ_lt_succ hfuel)
    have hne : ¬b = 0xFF := hb
    unfold cborItemEnd.untilBreak
    rw [need_ok (by omega), hget]
    simp only [bind, Except.bind, hne, if_false, hone, hgo]
    rw [List.flatten_cons, List.length_append, Nat.add_assoc i]

/-- There are no more items before a break than bytes. -/
theorem length_le_of_starts {items : List Bytes} (h : ∀ x ∈ items, StartsItem x) : items.length ≤ items.flatten.length := by
  induction items with
  | nil => exact Nat.le_refl 0
  | cons x items ih =>
    obtain ⟨b, bs, rfl, -⟩ := h x List.mem_cons_self
    have := ih (fun y hy => h y (List.mem_cons_of_mem _ hy))
    simp only [List.length_cons, List.flatten_cons, List.length_append]
    omega

/-- The loop behind a head of indefinite length ends behind the break. -/
theorem untilBreak_indefinite {data : Bytes} {scan : Nat → Except CborError Nat} {items : List Bytes} {i : Nat} {ib : UInt8} {t : Bytes}
    (hscan : ∀ x ∈ items, ∀ k u, data.drop k = x ++ u → scan k = .ok (k + x.length)) (hstarts : ∀ x ∈ items, StartsItem x)
    (hdrop : data.drop i = ib :: (items.flatten ++ [breakByte]) ++ t) :
    cborItemEnd.untilBreak data scan (data.length + 1) (i + 1) = .ok (i + (ib :: (items.flatten ++ [breakByte])).length) := by
  have htail : data.drop (i + 1) = items.flatten ++ breakByte :: t := by
    rw [← List.drop_drop, hdrop]
    simp
  have hfuel : items.length < data.length + 1 := by
    have hlength := congrArg List.length htail
    have hle := length_le_of_starts hstarts
    simp only [List.length_drop, List.length_append, List.length_cons] at hlength
    omega
  rw [untilBreak_items hscan hstarts htail hfuel]
  simp only [List.length_cons, List.length_append, List.length_nil]
  congr 1
  omega

/-- The scan measures a string of a definite length. -/
theorem scan_string {data x t : Bytes} {m i : Nat} (hm : m = 2 ∨ m = 3) (hx : IsString m x) (hdrop : data.drop i = x ++ t) (left : Nat) :
    cborItemEnd.scan data (left + 1) i = .ok (i + x.length) := by
  obtain @⟨arg, head, content, hhead, hcontent⟩ := hx
  rw [List.append_assoc] at hdrop
  obtain ⟨hi, hmajor, harg⟩ := arg_head hhead hdrop
  have hlength : data.length - i = head.length + (content.length + t.length) := by
    have := congrArg List.length hdrop
    simpa only [List.length_drop, List.length_append] using this
  have hpos := hhead.length_pos
  rw [scan_succ hi, harg, ok_bind, hmajor]
  rcases rest_string data (cborItemEnd.scan data left) arg (i + head.length) hm with ⟨-, h⟩ | ⟨h, -⟩
  · rw [h, List.length_append, hcontent, Nat.add_assoc]
  · omega

/-- Two items, one after the other. -/
theorem pair_items {data : Bytes} {scan : Nat → Except CborError Nat} {x y : Bytes}
    (hx : ∀ k u, data.drop k = x ++ u → scan k = .ok (k + x.length)) (hy : ∀ k u, data.drop k = y ++ u → scan k = .ok (k + y.length))
    (k : Nat) (u : Bytes) (hdrop : data.drop k = x ++ y ++ u) : pair scan k = .ok (k + (x ++ y).length) := by
  rw [List.append_assoc] at hdrop
  have hrest : data.drop (k + x.length) = y ++ u := by rw [← List.drop_drop, hdrop, List.drop_left]
  unfold pair
  rw [hx k _ hdrop, ok_bind, hy _ _ hrest, List.length_append, Nat.add_assoc]

/-- The scan measures every well-formed item that does not nest deeper than the levels that are left. -/
theorem scan_wellFormed {data x : Bytes} {n : Nat} (hx : WellFormed n x) {i left : Nat} {t : Bytes} (hdrop : data.drop i = x ++ t)
    (hleft : n < left) : cborItemEnd.scan data left i = .ok (i + x.length) := by
  induction hx generalizing i left t with
  | @integer n m arg head hm hhead =>
    obtain ⟨left, rfl⟩ : ∃ k, left = k + 1 := ⟨left - 1, by omega⟩
    obtain ⟨hi, hmajor, harg⟩ := arg_head hhead hdrop
    rw [scan_succ hi, harg, ok_bind, hmajor]
    exact rest_scalar data _ _ _ (by omega)
  | @simple n arg head hhead hshort =>
    obtain ⟨left, rfl⟩ : ∃ k, left = k + 1 := ⟨left - 1, by omega⟩
    obtain ⟨hi, hmajor, harg⟩ := arg_head hhead hdrop
    rw [scan_succ hi, harg, ok_bind, hmajor]
    exact rest_scalar data _ _ _ (by omega)
  | @string n m x hm hx =>
    obtain ⟨left, rfl⟩ : ∃ k, left = k + 1 := ⟨left - 1, by omega⟩
    exact scan_string hm hx hdrop left
  | @chunks n m ib chunks hm hmajor hai hlevel hchunks =>
    obtain ⟨left, rfl⟩ : ∃ k, left = k + 1 := ⟨left - 1, by omega⟩
    obtain ⟨hi, hget⟩ := getD_of_drop hdrop
    have hscan : ∀ x ∈ chunks, ∀ k u, data.drop k = x ++ u → cborItemEnd.scan data left k = .ok (k + x.length) := by
      intro x hmem k u hd
      have hpos := hlevel (List.ne_nil_of_mem hmem)
      obtain ⟨left, rfl⟩ : ∃ k, left = k + 1 := ⟨left - 1, by omega⟩
      exact scan_string hm (hchunks x hmem) hd left
    rw [scan_succ hi, hget, hai, arg_indefinite, ok_bind, hmajor, rest_indefinite data _ _ (by omega)]
    exact untilBreak_indefinite hscan (fun x hmem => (hchunks x hmem).starts) hdrop
  | @group n m arg head items hm hhead hlen hlevel hitems ih =>
    obtain ⟨left, rfl⟩ : ∃ k, left = k + 1 := ⟨left - 1, by omega⟩
    rw [List.append_assoc] at hdrop
    obtain ⟨hi, hmajor, harg⟩ := arg_head hhead hdrop
    have hrest : data.drop (i + head.length) = items.flatten ++ t := by rw [← List.drop_drop, hdrop, List.drop_left]
    have hscan : ∀ x ∈ items, ∀ k u, i + head.length ≤ k → data.drop k = x ++ u →
        cborItemEnd.scan data left k = .ok (k + x.length) := by
      intro x hmem k u _ hd
      have hpos := hlevel (List.ne_nil_of_mem hmem)
      exact ih x hmem hd (by omega)
    have hgo := each_items hscan hrest 0
    rw [Nat.add_zero] at hgo
    rw [scan_succ hi, harg, ok_bind, hmajor, rest_group _ (by omega) (by omega), ← hlen, hgo, List.length_append, ← Nat.add_assoc]
    rfl
  | @indefiniteArray n ib items hmajor hai hlevel hitems ih =>
    obtain ⟨left, rfl⟩ : ∃ k, left = k + 1 := ⟨left - 1, by omega⟩
    obtain ⟨hi, hget⟩ := getD_of_drop hdrop
    have hscan : ∀ x ∈ items, ∀ k u, data.drop k = x ++ u → cborItemEnd.scan data left k = .ok (k + x.length) := by
      intro x hmem k u hd
      have hpos := hlevel (List.ne_nil_of_mem hmem)
      exact ih x hmem hd (by omega)
    rw [scan_succ hi, hget, hai, arg_indefinite, ok_bind, hmajor, rest_indefinite data _ _ (by omega)]
    exact untilBreak_indefinite hscan (fun x hmem => (hitems x hmem).starts) hdrop
  | @indefiniteMap n ib entries hmajor hai hlevel hkeys hvalues ihkeys ihvalues =>
    obtain ⟨left, rfl⟩ : ∃ k, left = k + 1 := ⟨left - 1, by omega⟩
    obtain ⟨hi, hget⟩ := getD_of_drop hdrop
    have hscan : ∀ x ∈ entries.map (fun e => e.1 ++ e.2), ∀ k u, data.drop k = x ++ u →
        pair (cborItemEnd.scan data left) k = .ok (k + x.length) := by
      intro x hmem
      obtain ⟨e, he, rfl⟩ := List.mem_map.1 hmem
      have hpos := hlevel (List.ne_nil_of_mem he)
      exact pair_items (fun k u hd => ihkeys e he hd (by omega)) (fun k u hd => ihvalues e he hd (by omega))
    have hstarts : ∀ x ∈ entries.map (fun e => e.1 ++ e.2), StartsItem x := by
      intro x hmem
      obtain ⟨e, he, rfl⟩ := List.mem_map.1 hmem
      exact (hkeys e he).starts.append _
    rw [scan_succ hi, hget, hai, arg_indefinite, ok_bind, hmajor]
    exact untilBreak_indefinite hscan hstarts hdrop

/-- An item at the front of the data is measured to its end. -/
theorem cborItemEnd_wellFormed {item : Bytes} (hitem : WellFormed maxNestingDepth item) (tail : Bytes) :
    cborItemEnd (item ++ tail) 0 = .ok item.length := by
  unfold cborItemEnd
  rw [scan_wellFormed hitem List.drop_zero (Nat.lt_succ_self _), Nat.zero_add]

/-- For every well-formed item that nests at most `_MAX_NESTING_DEPTH` levels and every tail, the scanner ends where the item does. -/
theorem scan_complete {item : Bytes} (hitem : WellFormed maxNestingDepth item) (tail : Bytes) :
    cborItemEnd (item ++ tail) 0 = .ok item.length :=
  cborItemEnd_wellFormed hitem tail

/-- An array without a length, of an integer and of an array of a string in chunks and a half, before more bytes. -/
theorem scan_complete_nested :
    cborItemEnd ([0x9F, 0x01, 0x82, 0x7F, 0x61, 0x61, 0xFF, 0xF9, 0x3C, 0x00, 0xFF] ++ [0x00, 0xFF]) 0 = .ok 11 := by
  have hhead : ∀ ib : UInt8, additionalInfo ib < 24 → IsHead (major ib) (additionalInfo ib) [ib] := fun _ h => .immediate h
  have hone : WellFormed 127 [0x01] := .integer (.inl rfl) (hhead 0x01 (by decide))
  have ha : IsString 3 ([0x61] ++ [0x61]) := .mk (hhead 0x61 (by decide)) (by decide)
  have hstring : WellFormed 126 (0x7F :: ([[0x61, 0x61]].flatten ++ [breakByte])) :=
    .chunks (.inr rfl) (by decide) (by decide) (by decide) (by simpa using ha)
  have hwide : IsHead (major 0xF9) (fromBytesBE [0x3C, 0x00]) [0xF9, 0x3C, 0x00] := .wide (by decide) (by decide) (by decide)
  have hhalf : WellFormed 126 [0xF9, 0x3C, 0x00] := .simple hwide (by decide)
  have hinner : WellFormed 127 ([0x82] ++ [[0x7F, 0x61, 0x61, 0xFF], [0xF9, 0x3C, 0x00]].flatten) :=
    .group (.inl rfl) (hhead 0x82 (by decide)) (by decide) (by decide) (by simpa using ⟨hstring, hhalf⟩)
  have hitem : WellFormed maxNestingDepth
      (0x9F :: ([[0x01], [0x82, 0x7F, 0x61, 0x61, 0xFF, 0xF9, 0x3C, 0x00]].flatten ++ [breakByte])) :=
    .indefiniteArray (by decide) (by decide) (by decide) (by simpa using ⟨hone, hinner⟩)
  exact scan_complete hitem [0x00, 0xFF]

end BrainSdk.Python
