import BrainSdk.Cbor.EncodeLemmas
import BrainSdk.Theorems.FloatWidth

/-!
# Statement objects on the wire

The Python and the TypeScript SDK write a statement object with the same bytes, variant by variant, but for a float: `StatementValue`
hands `cbor2` a bare float, which it writes as a double, where TypeScript wraps it in an `F64` and writes its narrowest form.
-/

namespace BrainSdk.Cbor

open Library Format

/-! ### One value, two encoders -/

/-- The two encoders write the same bytes. -/
def SameBytes (C : Python.Cbor2) (p : Python.Value) (t : TypeScript.Value) : Prop :=
  ∃ bytes, Python.toCbor C p = .ok bytes ∧ TypeScript.toCbor t = .ok bytes

section

variable (C : Python.Cbor2)

/-- A map of one entry is written alike exactly when its value is. -/
theorem sameBytes_entry (key : String) (p : Python.Value) (t : TypeScript.Value) :
    SameBytes C (.dict [(key, p)]) (.map [(key, t)]) ↔ SameBytes C p t := by
  have hpy : Python.toCbor C (.dict [(key, p)]) =
      (Python.toCbor C p).map (fun b => shortestHead 5 1 ++ (shortestHead 3 (utf8 key).length ++ utf8 key ++ b)) := by
    unfold Python.toCbor
    rw [C.dict_eq, concatM, concatM]
    cases C.dumps Python.shortestFloatBytes p with
    | ok b => simp [Except.map, bind, Except.bind, pure, Except.pure]
    | error e => rfl
  have hts : TypeScript.toCbor (.map [(key, t)]) =
      (TypeScript.toCbor t).map (fun b => shortestHead 5 1 ++ (shortestHead 3 (utf8 key).length ++ utf8 key ++ b)) := by
    unfold TypeScript.toCbor
    rw [TypeScript.writeValue, TypeScript.writeEntries, TypeScript.writeEntries, TypeScript.pushHead_eq, TypeScript.pushHead_eq]
    cases TypeScript.writeValue t with
    | ok b => simp [Except.map, bind, Except.bind, pure, Except.pure]
    | error e => rfl
  unfold SameBytes
  rw [hpy, hts]
  constructor
  · rintro ⟨bytes, hp, ht⟩
    cases hp' : Python.toCbor C p with
    | error e =>
      rw [hp'] at hp
      cases hp
    | ok b =>
      cases ht' : TypeScript.toCbor t with
      | error e =>
        rw [ht'] at ht
        cases ht
      | ok b' =>
        rw [hp'] at hp
        rw [ht'] at ht
        have heq := (Except.ok.inj hp).trans (Except.ok.inj ht).symm
        exact ⟨b, rfl, by rw [List.append_cancel_left (List.append_cancel_left heq)]⟩
  · rintro ⟨b, hp, ht⟩
    rw [hp, ht]
    exact ⟨_, rfl, rfl⟩

theorem sameBytes_bytes (b : Bytes) : SameBytes C (.bytes b) (.uint8Array b) := by
  refine ⟨_, C.bytes_eq _ b, ?_⟩
  rw [TypeScript.toCbor, TypeScript.writeValue, TypeScript.pushHead_eq]

theorem sameBytes_text (s : String) : SameBytes C (.str s) (.string s) := by
  refine ⟨_, C.str_eq _ s, ?_⟩
  rw [TypeScript.toCbor, TypeScript.writeValue, TypeScript.pushHead_eq]

theorem sameBytes_bool (b : Bool) : SameBytes C (.bool b) (.boolean b) := by
  refine ⟨_, C.bool_eq _ b, ?_⟩
  rw [TypeScript.toCbor, TypeScript.writeValue]

/-- An integer that needs no tag is its head in both. -/
theorem sameBytes_integer {n : Int} (h : Untagged n) : SameBytes C (.int n) (.bigint n) := by
  obtain ⟨hl, hu⟩ := h
  unfold SameBytes Python.toCbor TypeScript.toCbor
  rw [TypeScript.writeValue]
  rcases Int.lt_or_le n 0 with hn | hn
  · obtain ⟨m, hm⟩ := Int.eq_ofNat_of_zero_le (by omega : 0 ≤ -1 - n)
    have hn' : n = -1 - m := by omega
    rw [hn']
    exact ⟨_, C.nint_eq _ m (by omega), TypeScript.writeInteger_nint (by omega)⟩
  · obtain ⟨m, rfl⟩ := Int.eq_ofNat_of_zero_le hn
    exact ⟨_, C.uint_eq _ m (by omega), TypeScript.writeInteger_uint (by omega)⟩

/-- A list of bytes is written byte by byte by `cbor2`. -/
theorem concatM_bytes (bytes : Bytes) : concatM (C.dumps Python.shortestFloatBytes) (bytes.map (fun b => .int b.toNat)) =
    .ok (bytes.flatMap (fun b => shortestHead 0 b.toNat)) := by
  induction bytes with
  | nil => rfl
  | cons b bytes ih =>
    have hb := b.toNat_lt
    rw [List.map_cons, concatM, C.uint_eq _ b.toNat (by omega), ih]
    rfl

theorem sameBytes_blob (bytes : Bytes) :
    SameBytes C (.list (bytes.map (fun b => .int b.toNat))) (.array (bytes.map TypeScript.byteNumber)) := by
  unfold SameBytes Python.toCbor TypeScript.toCbor
  rw [C.list_eq, concatM_bytes, TypeScript.writeValue, TypeScript.writeItems_bytes, TypeScript.pushHead_eq, List.length_map,
    List.length_map]
  exact ⟨_, rfl, rfl⟩

/-- A bare float is written as the `F64` of it exactly when single precision does not have it. -/
theorem sameBytes_float {x : Double} (hx : x.isFinite) : SameBytes C (.float x) (.f64 x) ↔ ¬binary32.Has x.magnitude := by
  have hpy : Python.toCbor C (.float x) = .ok (0xFB :: toBytesBE 8 x.toNat) := C.float_eq _ x hx
  have hsame : SameBytes C (.float x) (.f64 x) ↔ TypeScript.writeF64 x = 0xFB :: toBytesBE 8 x.toNat := by
    unfold SameBytes
    rw [hpy, TypeScript.toCbor, TypeScript.writeValue]
    constructor
    · rintro ⟨bytes, hp, ht⟩
      exact (Except.ok.inj ht).trans (Except.ok.inj hp).symm
    · intro h
      exact ⟨_, rfl, by rw [h]⟩
  rw [hsame]
  by_cases hhalf : x.abs = 0 ∨ TypeScript.HasNormalHalf x.magnitude
  · have hhas : binary16.Has x.magnitude := hasHalf_iff.2 (hhalf.imp_right .inr)
    rw [writeF64_of_half hhalf]
    refine iff_of_false (fun h => ?_) (not_not_intro (hasSingle_of_hasHalf hhas))
    exact absurd (List.cons.inj h).1 (by decide)
  · obtain ⟨hzero, hnormal⟩ := not_or.1 hhalf
    rw [writeF64_of_not_half hzero hnormal]
    by_cases hsingle : binary32.Has x.magnitude
    · rw [if_pos ((TypeScript.fround_eq_iff hx).2 hsingle), TypeScript.writeSingle]
      refine iff_of_false (fun h => ?_) (not_not_intro hsingle)
      exact absurd (List.cons.inj h).1 (by decide)
    · rw [if_neg (fun h => hsingle ((TypeScript.fround_eq_iff hx).1 h)), TypeScript.writeDouble]
      exact iff_of_true rfl hsingle

/-! ### Values and objects -/

/-- A scalar is written alike unless it is a float that single precision has. -/
theorem sameBytes_value {v : StatementValue} (h : v.InRange) :
    SameBytes C (Python.StatementValue.toCborValue v) (TypeScript.encodeStatementValue v) ↔
      ∀ x, v = .float x → ¬binary32.Has x.magnitude := by
  cases v with
  | float x =>
    refine (sameBytes_entry C "Float" (.float x) (.f64 x)).trans ((sameBytes_float C h).trans ⟨?_, fun h => h x rfl⟩)
    rintro hx y heq
    rwa [← StatementValue.float.inj heq]
  | text s => exact iff_of_true ((sameBytes_entry C "Text" _ _).2 (sameBytes_text C s)) (by simp)
  | integer n => exact iff_of_true ((sameBytes_entry C "Integer" _ _).2 (sameBytes_integer C h)) (by simp)
  | bool b => exact iff_of_true ((sameBytes_entry C "Bool" _ _).2 (sameBytes_bool C b)) (by simp)
  | unixNanos n => exact iff_of_true ((sameBytes_entry C "UnixNanos" _ _).2 (sameBytes_integer C h)) (by simp)
  | blob bytes => exact iff_of_true ((sameBytes_entry C "Blob" _ _).2 (sameBytes_blob C bytes)) (by simp)

/-- Whatever `cbor2` is within its documentation, Python and TypeScript write a statement object with the same bytes, exactly when the
object is no float that single precision has. -/
theorem statement_bytes_agree_iff (o : StatementObject) (h : o.InRange) :
    SameBytes C (Python.StatementObject.toCborValue o) (TypeScript.encodeStatementObject o) ↔
      ∀ x, o = .value (.float x) → ¬binary32.Has x.magnitude := by
  cases o with
  | value v =>
    refine (sameBytes_entry C "Value" _ _).trans ((sameBytes_value C h).trans ?_)
    simp only [StatementObject.value.injEq]
  | entityRef id => exact iff_of_true ((sameBytes_entry C "EntityRef" _ _).2 (sameBytes_bytes C id)) (by simp)
  | memoryRef id => exact iff_of_true ((sameBytes_entry C "MemoryRef" _ _).2 (sameBytes_bytes C id)) (by simp)
  | statementRef id => exact iff_of_true ((sameBytes_entry C "StatementRef" _ _).2 (sameBytes_bytes C id)) (by simp)

end

/-! ### An encoder within the documentation -/

/-- A byte string under a tag: an integer past 64 bits. -/
def plainBignum (tag n : Nat) : Bytes :=
  let bytes := (Nat.digits 256 n).reverse.map UInt8.ofNat
  shortestHead 6 tag ++ shortestHead 2 bytes.length ++ bytes

mutual

/-- An encoder that does what the documentation of `cbor2` says. Past 64 bits an integer is a tagged byte string. -/
def plainDumps (hook : Double → Except Python.OverflowError Bytes) : Python.Value → Except Python.OverflowError Bytes
  | .none => .ok [0xF6]
  | .bool b => .ok [if b then 0xF5 else 0xF4]
  | .int (.ofNat n) => .ok (if n < 2 ^ 64 then shortestHead 0 n else plainBignum 2 n)
  | .int (.negSucc n) => .ok (if n < 2 ^ 64 then shortestHead 1 n else plainBignum 3 n)
  | .float x => .ok (0xFB :: toBytesBE 8 x.toNat)
  | .str s => .ok (shortestHead 3 (utf8 s).length ++ utf8 s)
  | .bytes b => .ok (shortestHead 2 b.length ++ b)
  | .list items => (plainItems hook items).map (shortestHead 4 items.length ++ ·)
  | .dict entries => (plainEntries hook entries).map (shortestHead 5 entries.length ++ ·)
  | .floatField x => hook x

def plainItems (hook : Double → Except Python.OverflowError Bytes) : List Python.Value → Except Python.OverflowError Bytes
  | [] => .ok []
  | x :: xs => do return (← plainDumps hook x) ++ (← plainItems hook xs)

def plainEntries (hook : Double → Except Python.OverflowError Bytes) : List (String × Python.Value) → Except Python.OverflowError Bytes
  | [] => .ok []
  | (k, v) :: rest => do
    return (← (plainDumps hook v).map ((shortestHead 3 (utf8 k).length ++ utf8 k) ++ ·)) ++ (← plainEntries hook rest)

end

theorem plainItems_eq (hook : Double → Except Python.OverflowError Bytes) (items : List Python.Value) :
    plainItems hook items = concatM (plainDumps hook) items := by
  induction items with
  | nil => rfl
  | cons x xs ih => rw [plainItems, concatM, ih]

theorem plainEntries_eq (hook : Double → Except Python.OverflowError Bytes) (entries : List (String × Python.Value)) :
    plainEntries hook entries =
      concatM (fun e => (plainDumps hook e.2).map ((shortestHead 3 (utf8 e.1).length ++ utf8 e.1) ++ ·)) entries := by
  induction entries with
  | nil => rfl
  | cons e rest ih => rw [plainEntries, concatM, ih]

/-- It is within the documentation. -/
def plainCbor2 : Python.Cbor2 where
  dumps := plainDumps
  bool_eq _ _ := by rw [plainDumps]
  uint_eq _ n h := by
    have hn : (n : Int) = .ofNat n := rfl
    rw [hn, plainDumps, if_pos h]
  nint_eq _ n h := by
    have hn : (-1 - n : Int) = .negSucc n := by omega
    rw [hn, plainDumps, if_pos h]
  float_eq _ _ _ := by rw [plainDumps]
  bytes_eq _ _ := by rw [plainDumps]
  str_eq _ _ := by rw [plainDumps]
  list_eq _ _ := by rw [plainDumps, plainItems_eq]
  dict_eq _ _ := by rw [plainDumps, plainEntries_eq]
  hook_eq _ _ := by rw [plainDumps]

/-- A blob, and 0.1, which single precision does not have. -/
theorem statement_bytes_agree_iff_blob :
    SameBytes plainCbor2 (Python.StatementObject.toCborValue (.value (.blob [0, 255])))
      (TypeScript.encodeStatementObject (.value (.blob [0, 255]))) ∧
    SameBytes plainCbor2 (Python.StatementObject.toCborValue (.value (.float 0x3FB999999999999A#64)))
      (TypeScript.encodeStatementObject (.value (.float 0x3FB999999999999A#64))) := by
  refine ⟨(statement_bytes_agree_iff plainCbor2 (.value (.blob [0, 255])) trivial).2 (by simp), ?_⟩
  refine (statement_bytes_agree_iff plainCbor2 (.value (.float 0x3FB999999999999A#64)) ?_).2 ?_
  · show Double.isFinite 0x3FB999999999999A#64
    decide
  · intro x heq hhas
    have hx : 0x3FB999999999999A#64 = x := StatementValue.float.inj (StatementObject.value.inj heq)
    rw [← hx, has_iff_round] at hhas
    exact absurd hhas.2 (by decide +kernel)

/-- 1.5 is a double to Python and a half to TypeScript. -/
theorem statement_bytes_differ :
    Python.toCbor plainCbor2 (Python.StatementObject.toCborValue (.value (.float 0x3FF8000000000000#64))) =
      .ok ([0xA1, 0x65, 0x56, 0x61, 0x6C, 0x75, 0x65, 0xA1, 0x65, 0x46, 0x6C, 0x6F, 0x61, 0x74] ++
        [0xFB, 0x3F, 0xF8, 0x00, 0x00, 0x00, 0x00, 0x00, 0x00]) ∧
    TypeScript.toCbor (TypeScript.encodeStatementObject (.value (.float 0x3FF8000000000000#64))) =
      .ok ([0xA1, 0x65, 0x56, 0x61, 0x6C, 0x75, 0x65, 0xA1, 0x65, 0x46, 0x6C, 0x6F, 0x61, 0x74] ++ [0xF9, 0x3E, 0x00]) ∧
    (StatementObject.value (.float 0x3FF8000000000000#64)).InRange ∧
    ¬SameBytes plainCbor2 (Python.StatementObject.toCborValue (.value (.float 0x3FF8000000000000#64)))
      (TypeScript.encodeStatementObject (.value (.float 0x3FF8000000000000#64))) := by
  have hpy : Python.toCbor plainCbor2 (Python.StatementObject.toCborValue (.value (.float 0x3FF8000000000000#64))) =
      .ok ([0xA1, 0x65, 0x56, 0x61, 0x6C, 0x75, 0x65, 0xA1, 0x65, 0x46, 0x6C, 0x6F, 0x61, 0x74] ++
        [0xFB, 0x3F, 0xF8, 0x00, 0x00, 0x00, 0x00, 0x00, 0x00]) := by decide
  have hts : TypeScript.toCbor (TypeScript.encodeStatementObject (.value (.float 0x3FF8000000000000#64))) =
      .ok ([0xA1, 0x65, 0x56, 0x61, 0x6C, 0x75, 0x65, 0xA1, 0x65, 0x46, 0x6C, 0x6F, 0x61, 0x74] ++ [0xF9, 0x3E, 0x00]) := by
    decide
  refine ⟨hpy, hts, ?_, ?_⟩
  · show Double.isFinite 0x3FF8000000000000#64
    decide
  · rintro ⟨bytes, hp, ht⟩
    rw [hpy] at hp
    rw [hts] at ht
    have heq := (Except.ok.inj hp).trans (Except.ok.inj ht).symm
    exact absurd heq (by decide)

end BrainSdk.Cbor
