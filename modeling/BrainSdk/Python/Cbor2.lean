import BrainSdk.Cbor.Decode
import BrainSdk.Cbor.EncodeLemmas
import BrainSdk.Python.Codec
import BrainSdk.Theorems.ScanComplete
import BrainSdk.Theorems.ShortestFloat

/-!
# The two directions of cbor2

`cbor2.dumps` and `cbor2.loads` in their default mode, as one parameter: each item of definite length and in its shortest form, maps in
insertion order, an integer past 64 bits as a bignum, and `loads` the inverse of `dumps`. A `bytes` object has fewer than 2^63 bytes, and
within that `dumps` writes one well-formed item that nests as the value does.
-/

namespace BrainSdk.Cbor

open Library Format

/-- A narrowest encoding is one item. -/
theorem Narrowest.wellFormed {x : Double} {bytes : Bytes} (h : Narrowest x bytes) (n : Nat) : WellFormed n bytes := by
  have hwide : ∀ {ib : UInt8} {w : Nat} (bits : Nat), major ib = 7 → 24 ≤ additionalInfo ib → additionalInfo ib ≤ 27 →
      argWidth (additionalInfo ib) = w → 2 ≤ w → WellFormed n (ib :: toBytesBE w bits) := by
    intro ib w bits hmajor hl hu hw hw2
    have hlen : (toBytesBE w bits).length = argWidth (additionalInfo ib) := by rw [length_toBytesBE, hw]
    have hhead := IsHead.wide hl hu hlen
    rw [hmajor] at hhead
    refine .simple hhead (fun hshort => ?_)
    rw [List.length_cons, length_toBytesBE] at hshort
    omega
  cases h with
  | half _ _ => exact hwide _ (by decide) (by decide) (by decide) (by decide) (by decide)
  | single _ _ _ => exact hwide _ (by decide) (by decide) (by decide) (by decide) (by decide)
  | double _ _ => exact hwide _ (by decide) (by decide) (by decide) (by decide) (by decide)

end BrainSdk.Cbor

namespace BrainSdk.Python

open Library Format Cbor

mutual

/-- What `cbor2.loads` gives for a value: a float where a float field was. -/
def Value.loaded : Value → Value
  | .none => .none
  | .bool b => .bool b
  | .int n => .int n
  | .float x => .float x
  | .str s => .str s
  | .bytes b => .bytes b
  | .list items => .list (loadedItems items)
  | .dict entries => .dict (loadedEntries entries)
  | .floatField x => .float x

def loadedItems : List Value → List Value
  | [] => []
  | x :: xs => x.loaded :: loadedItems xs

def loadedEntries : List (String × Value) → List (String × Value)
  | [] => []
  | (k, v) :: rest => (k, v.loaded) :: loadedEntries rest

end

theorem loadedItems_eq (items : List Value) : loadedItems items = items.map Value.loaded := by
  induction items with
  | nil => rfl
  | cons x items ih => rw [loadedItems, ih, List.map_cons]

theorem loadedEntries_eq (entries : List (String × Value)) : loadedEntries entries = entries.map (fun e => (e.1, e.2.loaded)) := by
  induction entries with
  | nil => rfl
  | cons e entries ih => rw [loadedEntries, ih, List.map_cons]

/-- The bytes of an integer past 64 bits. -/
def bignumBytes (n : Nat) : Bytes := (Nat.digits 256 n).reverse.map UInt8.ofNat

/-- `sys.maxsize + 1`. -/
def maxBytes : Nat := 2 ^ 63

/-- The values that the payload classes give to `to_cbor`: lists and dicts nested so deep at most, of integers from 0 on and of floats
that the SDK's own encoder writes. -/
inductive Plain : Nat → Value → Prop
  | none {n : Nat} : Plain n .none
  | bool {n : Nat} (b : Bool) : Plain n (.bool b)
  | int {n : Nat} {i : Int} (hi : 0 ≤ i) : Plain n (.int i)
  | str {n : Nat} (s : String) : Plain n (.str s)
  | bytes {n : Nat} (b : Bytes) : Plain n (.bytes b)
  | floatField {n : Nat} {x : Double} (hx : x.isFinite) (hover : ¬OverSingle x) : Plain n (.floatField x)
  | list {n : Nat} {items : List Value} (hitems : ∀ x ∈ items, Plain n x) : Plain (n + 1) (.list items)
  | dict {n : Nat} {entries : List (String × Value)} (hkeys : (entries.map Prod.fst).Nodup) (hentries : ∀ e ∈ entries, Plain n e.2) :
      Plain (n + 1) (.dict entries)

/-- How deep the payload classes nest, at most. -/
def payloadDepth : Nat := 3

/-- `cbor2.dumps` and `cbor2.loads` in their default mode, which nests deeper. -/
structure Cbor2Codec extends Cbor2 where
  loads : Bytes → Except PyException Value
  none_eq : ∀ hook, dumps hook .none = .ok [0xF6]
  bignum_eq : ∀ hook (n : Nat), 2 ^ 64 ≤ n →
    dumps hook (.int n) = .ok (shortestHead 6 2 ++ shortestHead 2 (bignumBytes n).length ++ bignumBytes n)
  loads_dumps : ∀ (v : Value) (bytes : Bytes), Plain payloadDepth v → dumps shortestFloatBytes v = .ok bytes →
    bytes.length < maxBytes → loads bytes = .ok v.loaded

theorem Plain.mono {n m : Nat} {v : Value} (h : Plain n v) (hle : n ≤ m) : Plain m v := by
  induction h generalizing m with
  | none => exact .none
  | bool b => exact .bool b
  | int hi => exact .int hi
  | str s => exact .str s
  | bytes b => exact .bytes b
  | floatField hx hover => exact .floatField hx hover
  | list _ ih =>
    obtain ⟨m, rfl⟩ : ∃ k, m = k + 1 := ⟨m - 1, by omega⟩
    exact .list (fun x hx => ih x hx (by omega))
  | dict hkeys _ ih =>
    obtain ⟨m, rfl⟩ : ∃ k, m = k + 1 := ⟨m - 1, by omega⟩
    exact .dict hkeys (fun e he => ih e he (by omega))

/-! ### What is written is well-formed -/

theorem isString_shortest {m : Nat} {b : Bytes} (hm : m < 8) (hlen : b.length < 2 ^ 64) : IsString m (shortestHead m b.length ++ b) :=
  .mk (isHead_shortest hm hlen) rfl

/-- Pairs of items in a row, as items in a row. -/
theorem exists_items {n : Nat} {parts : List Bytes} (h : ∀ part ∈ parts, ∃ k v, part = k ++ v ∧ WellFormed n k ∧ WellFormed n v) :
    ∃ items : List Bytes, items.flatten = parts.flatten ∧ items.length = 2 * parts.length ∧ ∀ x ∈ items, WellFormed n x := by
  induction parts with
  | nil => exact ⟨[], rfl, rfl, fun x hx => absurd hx List.not_mem_nil⟩
  | cons part parts ih =>
    obtain ⟨k, v, rfl, hk, hv⟩ := h part List.mem_cons_self
    obtain ⟨items, hflat, hlen, hall⟩ := ih (fun p hp => h p (List.mem_cons_of_mem _ hp))
    refine ⟨k :: v :: items, ?_, ?_, List.forall_mem_cons.2 ⟨hk, List.forall_mem_cons.2 ⟨hv, hall⟩⟩⟩
    · rw [List.flatten_cons, List.flatten_cons, hflat, List.flatten_cons, List.append_assoc]
    · simp only [List.length_cons, hlen]
      omega

/-- What is written for each element, as a list. -/
theorem concatM_items {α ε : Type} {write : α → Except ε Bytes} {xs : List α} {P : α → Bytes → Prop}
    (h : ∀ x ∈ xs, ∃ bytes, write x = .ok bytes ∧ P x bytes) :
    ∃ parts : List Bytes, concatM write xs = .ok parts.flatten ∧ parts.length = xs.length ∧ ∀ part ∈ parts, ∃ x ∈ xs, P x part := by
  induction xs with
  | nil => exact ⟨[], rfl, rfl, fun part hpart => absurd hpart List.not_mem_nil⟩
  | cons x xs ih =>
    obtain ⟨bytes, hx, hP⟩ := h x List.mem_cons_self
    obtain ⟨parts, hparts, hlen, hall⟩ := ih (fun y hy => h y (List.mem_cons_of_mem x hy))
    refine ⟨bytes :: parts, ?_, ?_, ?_⟩
    · rw [concatM, hx, hparts]
      rfl
    · rw [List.length_cons, hlen, List.length_cons]
    · intro part hpart
      rcases List.mem_cons.1 hpart with rfl | hmem
      · exact ⟨x, List.mem_cons_self, hP⟩
      · obtain ⟨y, hy, hPy⟩ := hall part hmem
        exact ⟨y, List.mem_cons_of_mem x hy, hPy⟩

section

variable (C : Cbor2Codec)

/-- A plain value is written, as one well-formed item that nests no deeper than the value and a bignum. -/
theorem dumps_wellFormed {n : Nat} {v : Value} (h : Plain n v) :
    ∃ bytes, C.dumps shortestFloatBytes v = .ok bytes ∧ (bytes.length < maxBytes → WellFormed (n + 1) bytes) := by
  have hmax : maxBytes < 2 ^ 64 := by decide
  induction h with
  | none => exact ⟨_, C.none_eq _, fun _ => .simple (.immediate (by decide : additionalInfo 0xF6 < 24)) (by decide)⟩
  | bool b =>
    refine ⟨_, C.bool_eq _ b, fun _ => ?_⟩
    rcases b with - | -
    · exact .simple (.immediate (by decide : additionalInfo 0xF4 < 24)) (by decide)
    · exact .simple (.immediate (by decide : additionalInfo 0xF5 < 24)) (by decide)
  | @int n i hi =>
    obtain ⟨k, rfl⟩ : ∃ k : Nat, i = k := ⟨i.toNat, by omega⟩
    rcases Nat.lt_or_ge k (2 ^ 64) with hlt | hge
    · exact ⟨_, C.uint_eq _ k hlt, fun _ => .integer (.inl rfl) (isHead_shortest (by decide) hlt)⟩
    · refine ⟨_, C.bignum_eq _ k hge, fun hlen => ?_⟩
      simp only [List.length_append] at hlen
      have hstring : WellFormed n (shortestHead 2 (bignumBytes k).length ++ bignumBytes k) :=
        .string (.inl rfl) (isString_shortest (by decide) (by omega))
      have htag : IsHead 6 2 (shortestHead 6 2) := isHead_shortest (by decide) (by decide)
      have hgroup : WellFormed (n + 1) (shortestHead 6 2 ++ [shortestHead 2 (bignumBytes k).length ++ bignumBytes k].flatten) :=
        .group (.inr (.inr rfl)) htag (by rw [arity_tag]; rfl) (fun _ => Nat.succ_pos n) (fun x hx => by
          rw [List.mem_singleton.1 hx]
          exact hstring)
      rwa [List.flatten_singleton, ← List.append_assoc] at hgroup
  | str s =>
    refine ⟨_, C.str_eq _ s, fun hlen => .string (.inr rfl) (isString_shortest (by decide) ?_)⟩
    rw [List.length_append] at hlen
    omega
  | bytes b =>
    refine ⟨_, C.bytes_eq _ b, fun hlen => .string (.inl rfl) (isString_shortest (by decide) ?_)⟩
    rw [List.length_append] at hlen
    omega
  | floatField hx hover =>
    obtain ⟨bytes, hbytes, hnarrow⟩ := shortest_narrowest hx hover
    exact ⟨bytes, by rw [C.hook_eq, hbytes], fun _ => hnarrow.wellFormed _⟩
  | @list n items hitems ih =>
    obtain ⟨parts, hparts, hlen, hall⟩ := concatM_items ih
    refine ⟨_, by rw [C.list_eq, hparts]; rfl, fun hbytes => ?_⟩
    rw [List.length_append] at hbytes
    have hwell : ∀ part ∈ parts, WellFormed (n + 1) part := by
      intro part hpart
      have hle := le_length_flatten hpart
      obtain ⟨x, -, hx⟩ := hall part hpart
      exact hx (by omega)
    have hcount := length_le_of_starts (fun part hpart => (hwell part hpart).starts)
    rw [← hlen] at hbytes ⊢
    exact .group (.inl rfl) (isHead_shortest (by decide) (by omega)) (arity_array _).symm (fun _ => Nat.succ_pos _) hwell
  | @dict n entries hkeys hentries ih =>
    have hentry : ∀ e ∈ entries, ∃ bytes,
        (C.dumps shortestFloatBytes e.2).map ((shortestHead 3 (utf8 e.1).length ++ utf8 e.1) ++ ·) = .ok bytes ∧
        ∃ v, bytes = shortestHead 3 (utf8 e.1).length ++ utf8 e.1 ++ v ∧ (v.length < maxBytes → WellFormed (n + 1) v) := by
      intro e he
      obtain ⟨v, hv, hwell⟩ := ih e he
      exact ⟨_, by rw [hv]; rfl, v, rfl, hwell⟩
    obtain ⟨parts, hparts, hlen, hall⟩ := concatM_items hentry
    refine ⟨_, by rw [C.dict_eq, hparts]; rfl, fun hbytes => ?_⟩
    rw [List.length_append] at hbytes
    have hpair : ∀ part ∈ parts, ∃ k v, part = k ++ v ∧ WellFormed (n + 1) k ∧ WellFormed (n + 1) v := by
      intro part hpart
      have hle := le_length_flatten hpart
      obtain ⟨e, -, v, hv, hwell⟩ := hall part hpart
      rw [hv, List.length_append, List.length_append] at hle
      exact ⟨_, v, hv, .string (.inr rfl) (isString_shortest (by decide) (by omega)), hwell (by omega)⟩
    obtain ⟨items, hflat, hcount, hitems⟩ := exists_items hpair
    have hle := length_le_of_starts (fun x hx => (hitems x hx).starts)
    rw [hflat, hcount] at hle
    rw [← hlen] at hbytes ⊢
    rw [← hflat]
    exact .group (.inr (.inl rfl)) (isHead_shortest (by decide) (by omega)) (by rw [hcount, arity_map]) (fun _ => Nat.succ_pos _) hitems

/-- A value of a payload class is written, and its bytes are measured to their end and read back. -/
theorem toCborBytes_plain {v : Value} (h : Plain payloadDepth v) :
    ∃ bytes, Types.toCborBytes C.toCbor2 v = .ok bytes ∧ (bytes.length < maxBytes →
      (∀ tail, cborItemEnd (bytes ++ tail) 0 = .ok bytes.length) ∧ C.loads bytes = .ok v.loaded) := by
  obtain ⟨bytes, hdumps, hwell⟩ := dumps_wellFormed C (h.mono (show payloadDepth ≤ 127 by decide))
  refine ⟨bytes, ?_, fun hlen => ⟨cborItemEnd_wellFormed (hwell hlen), C.loads_dumps v bytes h hdumps hlen⟩⟩
  unfold Types.toCborBytes toCbor
  rw [hdumps]
  rfl

end

end BrainSdk.Python
