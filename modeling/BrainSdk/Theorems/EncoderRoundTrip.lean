import BrainSdk.Cbor.Decode
import BrainSdk.Cbor.WriterLemmas
import BrainSdk.Theorems.CborScan
import BrainSdk.Theorems.FloatWidth

/-!
# What the TypeScript encoder writes is read back

By induction on the value: each of its cases writes an item of definite length that stands for the value, so the reference decoder reads
the value back and the scanner of the SDK measures the item. Integral numbers go the way of integers, and below -2^64 that way ends in a
`CborError`.
-/

namespace BrainSdk.TypeScript

open Library Cbor Format

/-! ### Values -/

mutual

/-- What a value is as data. `undefined` is null, an integral number is an integer, and an `F32` holds its single. -/
def Value.data : Value → Data
  | .null => .null
  | .undefined => .null
  | .boolean b => .bool b
  | .bigint n => .int n
  | .number x => if isInteger x then .int (bigInt x) else .float x
  | .string s => .text s
  | .uint8Array bytes => .bytes bytes
  | .f32 x => .float (fround x)
  | .f64 x => .float x
  | .array items => .array (itemsData items)
  | .map entries => .map (entriesData entries)

/-- The elements of an array. -/
def itemsData : List Value → List Data
  | [] => []
  | x :: xs => x.data :: itemsData xs

/-- The entries of a map, in their order. -/
def entriesData : List (String × Value) → List (Data × Data)
  | [] => []
  | (k, v) :: rest => (.text k, v.data) :: entriesData rest

end

/-- -0. -/
def negativeZero : Double := .mk 1 0

mutual

/-- Integers from -2^64 on, as bigints and as integral numbers, no -0 and no NaN. -/
def Encodable : Value → Prop
  | .null => True
  | .undefined => True
  | .boolean _ => True
  | .bigint n => -2 ^ 64 ≤ n
  | .number x => x.isFinite ∧ x ≠ negativeZero ∧ (isInteger x → -2 ^ 64 ≤ bigInt x)
  | .string _ => True
  | .uint8Array _ => True
  | .f32 x => ¬x.isNaN
  | .f64 x => ¬x.isNaN
  | .array items => EncodableItems items
  | .map entries => (entries.map Prod.fst).Nodup ∧ EncodableEntries entries

/-- Every element. -/
def EncodableItems : List Value → Prop
  | [] => True
  | x :: xs => Encodable x ∧ EncodableItems xs

/-- Every entry. -/
def EncodableEntries : List (String × Value) → Prop
  | [] => True
  | (_, v) :: rest => Encodable v ∧ EncodableEntries rest

end

/-! ### Scalars -/

/-- A bignum stands for its integer. -/
theorem writeBignum_encoding (n : Nat) (hlen : (writeBignum n).length < 2 ^ 64) : Encoding (.int n) (writeBignum n) := by
  have hdigits : ∀ d ∈ Nat.digits 256 n, d < 256 := fun d hd => Nat.digits_lt_base (by decide) hd
  unfold writeBignum at hlen ⊢
  dsimp only at hlen ⊢
  generalize hb : (if ((Nat.digits 256 n).reverse.map UInt8.ofNat).length = 0 then [0]
    else (Nat.digits 256 n).reverse.map UInt8.ofNat) = b at hlen ⊢
  have hvalue : fromBytesBE b = n := by
    rw [← hb]
    split_ifs with hzero
    · rw [List.length_map, List.length_reverse, List.length_eq_zero_iff, Nat.digits_eq_nil_iff_eq_zero] at hzero
      rw [hzero]
      rfl
    · rw [fromBytesBE_digits hdigits, Nat.ofDigits_digits]
  have htag : IsHead 6 bignumTag (shortestHead 6 2) := isHead_shortest (by decide) (by decide)
  rw [List.length_append] at hlen
  have hhead : IsHead 2 b.length (shortestHead 2 b.length) := isHead_shortest (by decide) (by omega)
  have h := Encoding.bignum htag hhead
  rwa [hvalue, ← List.append_assoc, ← pushHead_eq, ← pushHead_eq] at h

/-- An integer from -2^64 on is written, and what is written stands for it. -/
theorem writeInteger_encoding {n : Int} (hn : -2 ^ 64 ≤ n) :
    ∃ bytes, writeInteger n = .ok bytes ∧ (bytes.length < 2 ^ 64 → Encoding (.int n) bytes) := by
  unfold writeInteger
  by_cases hpos : n ≥ 0
  · have hcast : ((n.toNat : Nat) : Int) = n := Int.toNat_of_nonneg hpos
    by_cases hu : n ≤ 2 ^ 64 - 1
    · have h := Encoding.uint (isHead_shortest (by decide : 0 < 8) (show n.toNat < 2 ^ 64 by omega))
      rw [hcast, ← pushHead_eq] at h
      rw [if_pos hpos, if_pos hu]
      exact ⟨_, rfl, fun _ => h⟩
    · rw [if_pos hpos, if_neg hu]
      refine ⟨_, rfl, fun hlen => ?_⟩
      have h := writeBignum_encoding n.toNat hlen
      rwa [hcast] at h
  · have hcast : -1 - (((-1 - n).toNat : Nat) : Int) = n := by omega
    have h := Encoding.nint (isHead_shortest (by decide : 1 < 8) (show (-1 - n).toNat < 2 ^ 64 by omega))
    rw [hcast, ← pushHead_eq] at h
    rw [if_neg hpos, if_pos (by omega)]
    exact ⟨_, rfl, fun _ => h⟩

theorem writeHalf_encoding {bits : Nat} (h : bits < 2 * binary16.signBit) : Encoding (.float (widen binary16 bits)) (writeHalf bits) := by
  have hbits : bits < 256 ^ 2 := h
  have henc := Encoding.half (length_toBytesBE 2 bits)
  rwa [fromBytesBE_toBytesBE_of_lt hbits, ← writeHalf_eq] at henc

theorem float32Bits_lt (x : Double) : float32Bits x < 256 ^ 4 := by
  have hsign : binary32.signBit = 2147483648 := by decide
  have hinf : binary32.inf = 2139095040 := by decide
  have hquiet : 2 ^ (binary32.fraction - 1) = 4194304 := by decide
  have hmin : min (binary32.round x.magnitude) binary32.inf ≤ binary32.inf := Nat.min_le_right _ _
  have hbound : ∀ s r : Nat, s < 2 → r ≤ 2139095040 + 4194304 → s * 2147483648 + r < 256 ^ 4 := by
    intro s r hs hr
    omega
  unfold float32Bits
  rw [hsign, hquiet]
  refine hbound _ _ x.sign_lt ?_
  rw [hinf] at hmin ⊢
  split_ifs
  · exact Nat.le_trans hmin (Nat.le_add_right _ _)
  · exact Nat.le_add_right _ _
  · exact Nat.le_refl _

/-- A single stands for the value rounded to single precision. -/
theorem writeSingle_encoding (x : Double) : Encoding (.float (fround x)) (writeSingle x) := by
  have henc := Encoding.single (length_toBytesBE 4 (float32Bits x))
  rwa [fromBytesBE_toBytesBE_of_lt (float32Bits_lt x)] at henc

theorem writeDouble_encoding (x : Double) : Encoding (.float x) (writeDouble x) := by
  have hx : x.toNat < 256 ^ 8 := x.isLt
  have henc := Encoding.double (length_toBytesBE 8 x.toNat)
  rwa [fromBytesBE_toBytesBE_of_lt hx, BitVec.ofNat_toNat, BitVec.setWidth_eq] at henc

/-- What the bit test finds is the value. -/
theorem toHalf_some {x : Double} {half : Nat} (h : toHalfBitsExact x = some half) :
    binary16.Has x.magnitude ∧ half < 2 * binary16.signBit ∧ widen binary16 half = x := by
  have hfound : x.abs = 0 ∨ HasNormalHalf x.magnitude := by
    by_contra hnone
    rw [not_or] at hnone
    rw [toHalf_none hnone.1 hnone.2] at h
    cases h
  have hhalf : toHalfBitsExact x = some (x.sign * binary16.signBit + binary16.round x.magnitude) := by
    rcases hfound with hzero | hnormal
    · exact toHalf_zero hzero
    · exact toHalf_normal hnormal
  have hhas : binary16.Has x.magnitude := by
    rcases hfound with hzero | hnormal
    · exact hasHalf_iff.2 (.inl hzero)
    · exact hasHalf_iff.2 (.inr (.inr hnormal))
  rw [h] at hhalf
  rw [Option.some.inj hhalf]
  exact ⟨hhas, narrow_binary16.widen_round hhas⟩

/-- Rounding keeps what single precision has. -/
theorem fround_of_has {x : Double} (h : binary32.Has x.magnitude) : fround x = x := by
  obtain ⟨hfits, -⟩ := has_iff_round.1 h
  obtain ⟨-, hwiden⟩ := narrow_binary32.widen_round h
  have hfinite : x.isFinite := by
    have habs := (narrow_binary32.widen_finite x.sign_lt hfits).2
    rw [hwiden] at habs
    unfold Double.isFinite
    rw [habs]
    exact narrow_binary32.round_lt hfits
  unfold fround
  rw [float32Bits_of_has hfinite h, hwiden]

/-- An `F32` stands for the value rounded to single precision. -/
theorem writeF32_encoding (x : Double) : Encoding (.float (fround x)) (writeF32 x) := by
  unfold writeF32
  rcases hhalf : toHalfBitsExact x with - | half
  · exact writeSingle_encoding x
  · obtain ⟨hhas, hlt, hwiden⟩ := toHalf_some hhalf
    rw [fround_of_has (hasSingle_of_hasHalf hhas)]
    conv =>
      arg 1
      rw [← hwiden]
    exact writeHalf_encoding hlt

/-- An `F64` stands for the value. -/
theorem writeF64_encoding (x : Double) : Encoding (.float x) (writeF64 x) := by
  unfold writeF64
  rcases hhalf : toHalfBitsExact x with - | half
  · rw [Option.elim_none]
    by_cases hsame : (fround x).eq x
    · have heq : fround x = x := by
        unfold Double.eq at hsame
        simp only [Bool.and_eq_true, Bool.or_eq_true, decide_eq_true_eq] at hsame
        rcases hsame.2 with h | ⟨-, hzero⟩
        · exact h
        · rw [toHalf_zero hzero] at hhalf
          cases hhalf
      have h := writeSingle_encoding x
      rw [if_pos hsame]
      rwa [heq] at h
    · rw [if_neg hsame]
      exact writeDouble_encoding x
  · obtain ⟨-, hlt, hwiden⟩ := toHalf_some hhalf
    conv =>
      arg 1
      rw [← hwiden]
    exact writeHalf_encoding hlt

/-! ### Trees -/

theorem length_itemsData (items : List Value) : (itemsData items).length = items.length := by
  induction items with
  | nil => rfl
  | cons x items ih => rw [itemsData, List.length_cons, ih, List.length_cons]

theorem length_entriesData (entries : List (String × Value)) : (entriesData entries).length = entries.length := by
  induction entries with
  | nil => rfl
  | cons e entries ih => rw [entriesData, List.length_cons, ih, List.length_cons]

theorem simple_encoding (n : Nat) (hn : n < 24) : Encoding (simpleValue n) [UInt8.ofNat (7 * 32 + n)] := by
  obtain ⟨hmajor, hai⟩ := initialByte_fields (by decide : 7 < 8) (by omega : n < 32)
  have hhead := IsHead.immediate (by rwa [hai] : additionalInfo (UInt8.ofNat (7 * 32 + n)) < 24)
  rw [hmajor, hai] at hhead
  exact .simple hhead rfl

/-- The text of a string, or of a key. -/
theorem text_encoding {s : String} (hlen : (utf8 s).length < 2 ^ 64) : Encoding (.text s) (pushHead 3 (utf8 s).length ++ utf8 s) := by
  rw [pushHead_eq]
  exact .text (isHead_shortest (by decide) hlen)

/-- Items in a row: there are no more of them than bytes. -/
theorem array_encoding {xs : List (Data × Bytes)} (h : ∀ x ∈ xs, x.2.length < 2 ^ 64 → Encoding x.1 x.2)
    (hlen : (xs.map Prod.snd).flatten.length < 2 ^ 64) :
    Encoding (.array (xs.map Prod.fst)) (pushHead 4 xs.length ++ (xs.map Prod.snd).flatten) := by
  have hall : ∀ x ∈ xs, Encoding x.1 x.2 := by
    intro x hx
    have hle := le_length_flatten (List.mem_map_of_mem (f := Prod.snd) hx)
    exact h x hx (by omega)
  have hitems : ∀ y ∈ xs.map Prod.snd, Item y := by
    intro y hy
    obtain ⟨x, hx, rfl⟩ := List.mem_map.1 hy
    exact (hall x hx).item
  have hcount := length_le_flatten hitems
  rw [List.length_map] at hcount
  rw [pushHead_eq]
  exact .array (isHead_shortest (by decide) (by omega)) hall

/-- Entries in a row. -/
theorem map_encoding {xs : List ((Data × Bytes) × (Data × Bytes))} (hkeys : ∀ e ∈ xs, e.1.2.length < 2 ^ 64 → Encoding e.1.1 e.1.2)
    (hvalues : ∀ e ∈ xs, e.2.2.length < 2 ^ 64 → Encoding e.2.1 e.2.2)
    (hlen : (xs.map (fun e => e.1.2 ++ e.2.2)).flatten.length < 2 ^ 64) :
    Encoding (.map (xs.map (fun e => (e.1.1, e.2.1)))) (pushHead 5 xs.length ++ (xs.map (fun e => e.1.2 ++ e.2.2)).flatten) := by
  have hle : ∀ e ∈ xs, e.1.2.length + e.2.2.length ≤ (xs.map (fun e => e.1.2 ++ e.2.2)).flatten.length := by
    intro e he
    rw [← List.length_append]
    exact le_length_flatten (List.mem_map_of_mem (f := fun e : (Data × Bytes) × (Data × Bytes) => e.1.2 ++ e.2.2) he)
  have hkeys' : ∀ e ∈ xs, Encoding e.1.1 e.1.2 := by
    intro e he
    have := hle e he
    exact hkeys e he (by omega)
  have hvalues' : ∀ e ∈ xs, Encoding e.2.1 e.2.2 := by
    intro e he
    have := hle e he
    exact hvalues e he (by omega)
  have hcount : xs.length ≤ (xs.map (fun e => e.1.2 ++ e.2.2)).flatten.length := by
    clear hle hlen hvalues hkeys hvalues'
    induction xs with
    | nil => exact Nat.le_refl 0
    | cons e xs ih =>
      have hpos := (hkeys' e List.mem_cons_self).item.length_pos
      have := ih (fun e he => hkeys' e (List.mem_cons_of_mem _ he))
      simp only [List.map_cons, List.flatten_cons, List.length_append, List.length_cons]
      omega
  rw [pushHead_eq]
  exact .map (isHead_shortest (by decide) (by omega)) hkeys' hvalues'

mutual

/-- Every encodable value is written, and what is written stands for it. -/
theorem writeValue_encoding : (v : Value) → Encodable v →
    ∃ bytes, writeValue v = .ok bytes ∧ (bytes.length < 2 ^ 64 → Encoding v.data bytes)
  | .null, _ => ⟨_, rfl, fun _ => simple_encoding 22 (by decide)⟩
  | .undefined, _ => ⟨_, rfl, fun _ => simple_encoding 22 (by decide)⟩
  | .boolean true, _ => ⟨_, rfl, fun _ => simple_encoding 21 (by decide)⟩
  | .boolean false, _ => ⟨_, rfl, fun _ => simple_encoding 20 (by decide)⟩
  | .bigint n, h => by
    rw [Encodable] at h
    rw [writeValue, Value.data]
    exact writeInteger_encoding h
  | .number x, h => by
    rw [Encodable] at h
    rw [writeValue, Value.data]
    by_cases hint : isInteger x
    · rw [if_pos hint, if_pos hint]
      exact writeInteger_encoding (h.2.2 hint)
    · rw [if_neg hint, if_neg hint]
      exact ⟨_, rfl, fun _ => writeF64_encoding x⟩
  | .string s, _ => by
    rw [writeValue, Value.data]
    refine ⟨_, rfl, fun hlen => text_encoding ?_⟩
    rw [List.length_append] at hlen
    omega
  | .uint8Array bytes, _ => by
    rw [writeValue, Value.data, pushHead_eq]
    refine ⟨_, rfl, fun hlen => .bytes (isHead_shortest (by decide) ?_)⟩
    rw [List.length_append] at hlen
    omega
  | .f32 x, _ => by
    rw [writeValue, Value.data]
    exact ⟨_, rfl, fun _ => writeF32_encoding x⟩
  | .f64 x, _ => by
    rw [writeValue, Value.data]
    exact ⟨_, rfl, fun _ => writeF64_encoding x⟩
  | .array items, h => by
    rw [Encodable] at h
    obtain ⟨xs, hdata, hwrite, henc⟩ := writeItems_encoding items h
    have hcount : xs.length = items.length := by rw [← length_itemsData, ← hdata, List.length_map]
    rw [writeValue, Value.data, hwrite, ← hdata, ← hcount]
    refine ⟨_, rfl, fun hlen => array_encoding henc ?_⟩
    rw [List.length_append] at hlen
    omega
  | .map entries, h => by
    rw [Encodable] at h
    obtain ⟨xs, hdata, hwrite, hkeys, hvalues⟩ := writeEntries_encoding entries h.2
    have hcount : xs.length = entries.length := by rw [← length_entriesData, ← hdata, List.length_map]
    rw [writeValue, Value.data, hwrite, ← hdata, ← hcount]
    refine ⟨_, rfl, fun hlen => map_encoding hkeys hvalues ?_⟩
    rw [List.length_append] at hlen
    omega

theorem writeItems_encoding : (items : List Value) → EncodableItems items →
    ∃ xs : List (Data × Bytes), xs.map Prod.fst = itemsData items ∧ writeItems items = .ok (xs.map Prod.snd).flatten ∧
      ∀ x ∈ xs, x.2.length < 2 ^ 64 → Encoding x.1 x.2
  | [], _ => ⟨[], rfl, rfl, fun x hx => absurd hx List.not_mem_nil⟩
  | v :: items, h => by
    rw [EncodableItems] at h
    obtain ⟨bytes, hwrite, henc⟩ := writeValue_encoding v h.1
    obtain ⟨xs, hdata, hwrite', henc'⟩ := writeItems_encoding items h.2
    refine ⟨(v.data, bytes) :: xs, ?_, ?_, List.forall_mem_cons.2 ⟨henc, henc'⟩⟩
    · rw [List.map_cons, hdata, itemsData]
    · rw [writeItems, hwrite, hwrite']
      rfl

theorem writeEntries_encoding : (entries : List (String × Value)) → EncodableEntries entries →
    ∃ xs : List ((Data × Bytes) × (Data × Bytes)), xs.map (fun e => (e.1.1, e.2.1)) = entriesData entries ∧
      writeEntries entries = .ok (xs.map (fun e => e.1.2 ++ e.2.2)).flatten ∧
      (∀ e ∈ xs, e.1.2.length < 2 ^ 64 → Encoding e.1.1 e.1.2) ∧ (∀ e ∈ xs, e.2.2.length < 2 ^ 64 → Encoding e.2.1 e.2.2)
  | [], _ => ⟨[], rfl, rfl, fun x hx => absurd hx List.not_mem_nil, fun x hx => absurd hx List.not_mem_nil⟩
  | (k, v) :: entries, h => by
    rw [EncodableEntries] at h
    obtain ⟨bytes, hwrite, henc⟩ := writeValue_encoding v h.1
    obtain ⟨xs, hdata, hwrite', hkeys, hvalues⟩ := writeEntries_encoding entries h.2
    have hkey : (pushHead 3 (utf8 k).length ++ utf8 k).length < 2 ^ 64 → Encoding (.text k) (pushHead 3 (utf8 k).length ++ utf8 k) := by
      intro hlen
      rw [List.length_append] at hlen
      exact text_encoding (by omega)
    refine ⟨((.text k, pushHead 3 (utf8 k).length ++ utf8 k), (v.data, bytes)) :: xs, ?_, ?_, List.forall_mem_cons.2 ⟨hkey, hkeys⟩,
      List.forall_mem_cons.2 ⟨henc, hvalues⟩⟩
    · rw [List.map_cons, hdata, entriesData]
    · rw [writeEntries, hwrite, hwrite']
      rfl

end

/-- The bytes of a value fit in a buffer. Past this, doubling asks for a buffer longer than any array, and the writer throws. -/
def Fits (v : Value) : Prop := ∀ bytes, toCbor v = .ok bytes → bytes.length ≤ maxContents

/-- Every encodable value is written by `toCbor`; the reference decoder reads it back off all of the bytes; and before any tail the
scanner measures just these bytes. -/
theorem toCbor_round_trip {v : Value} (hv : Encodable v) (hfits : Fits v) :
    ∃ array, Writer.toCbor v = .ok array ∧ decode array.bytes = some (v.data, []) ∧
      ∀ (t : Bytes) (whole : Uint8Array), whole.bytes = array.bytes ++ t → cborItemLength whole = .ok array.bytes.length := by
  obtain ⟨bytes, hwrite, henc⟩ := writeValue_encoding v hv
  have hroom : bytes.length ≤ maxContents := hfits bytes hwrite
  obtain ⟨array, harray, hbytes⟩ := Writer.toCbor_eq hwrite hroom
  have hmax : maxContents < 2 ^ 64 := by decide
  have hencoding := henc (Nat.lt_of_le_of_lt hroom hmax)
  refine ⟨array, harray, ?_, ?_⟩
  · rw [hbytes, ← List.append_nil bytes]
    exact decode_encoding hencoding []
  · intro t whole hwhole
    rw [hbytes] at hwhole ⊢
    have hdrop : whole.bytes.drop 0 = bytes ++ t := hwhole
    have hlevels : whole.bytes.length < 0 + (whole.bytes.length + 1) := by omega
    have hwalk := walk_item whole.length_lt hencoding.item hdrop hlevels
    rwa [Nat.zero_add] at hwalk

/-- A map of an array with null, a bignum, a negative integer and an `F32`, and of an integral number. -/
def nestedValue : Value :=
  .map [("a", .array [.undefined, .bigint (2 ^ 64), .bigint (-1), .f32 0x3FB999999999999A]), ("b", .number 0x4039000000000000)]

theorem toCbor_round_trip_nested :
    ∃ array, Writer.toCbor nestedValue = .ok array ∧ decode array.bytes = some (nestedValue.data, []) ∧
      ∀ (t : Bytes) (whole : Uint8Array), whole.bytes = array.bytes ++ t → cborItemLength whole = .ok array.bytes.length := by
  have hencodable : Encodable nestedValue := by
    simp only [nestedValue, Encodable, EncodableEntries, EncodableItems]
    decide +kernel
  have hbytes : toCbor nestedValue = .ok [0xA2, 0x61, 0x61, 0x84, 0xF6, 0xC2, 0x49, 1, 0, 0, 0, 0, 0, 0, 0, 0, 0x20, 0xFA, 0x3D, 0xCC,
      0xCC, 0xCD, 0x61, 0x62, 0x18, 0x19] := by
    decide +kernel
  refine toCbor_round_trip hencodable (fun bytes h => ?_)
  rw [hbytes] at h
  rw [← Except.ok.inj h]
  decide

/-- There is no form for an integer below -2^64. -/
theorem Writer.writeInteger_below (w : Writer) {n : Int} (h : n < -2 ^ 64) : ∃ e, w.writeInteger n = .error (.cborError e) := by
  unfold writeInteger
  rw [if_neg (by omega), if_neg (by omega)]
  exact ⟨_, rfl⟩

/-- -2^65 is a finite number, and `toCbor` throws on it. -/
theorem toCbor_throws_below : Double.isFinite 0xC400000000000000 ∧ (0xC400000000000000 : Double) ≠ negativeZero ∧
    ∃ e, Writer.toCbor (.number 0xC400000000000000) = .error (.cborError e) := by
  have hint : isInteger 0xC400000000000000 := by decide +kernel
  have hvalue : bigInt 0xC400000000000000 = -2 ^ 65 := by decide +kernel
  obtain ⟨e, he⟩ := Writer.new.writeInteger_below (by decide : (-2 ^ 65 : Int) < -2 ^ 64)
  refine ⟨by decide +kernel, by decide +kernel, e, ?_⟩
  unfold Writer.toCbor Writer.writeValue
  rw [if_pos hint, hvalue, he]
  rfl

end BrainSdk.TypeScript
