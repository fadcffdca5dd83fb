import BrainSdk.Library.Aligned
import BrainSdk.Python.PlainClasses
import BrainSdk.Python.PlainCodec
import BrainSdk.Python.Requests
import BrainSdk.Theorems.EncoderRoundTrip
import BrainSdk.Theorems.StatementBytes
import BrainSdk.TypeScript.JsonNumbers
import BrainSdk.TypeScript.Requests

/-!
# Requests on the wire

The Python and the TypeScript SDK write a request with the same bytes, but for its floats. Python rounds a float field to single precision
and then looks for the narrowest form, so packing may overflow, and the rounding may come to a half. TypeScript looks at the field as it
is, so it writes a single there.
-/

namespace BrainSdk.Requests

open Library Format Cbor

/-! ### One value, two encoders -/

section

variable {C : Python.Cbor2Codec}

/-- Both encoders write the value: alike when `P` holds, and with a difference within both when not. -/
def Alike (C : Python.Cbor2Codec) (P : Prop) (p : Python.Value) (t : TypeScript.Value) : Prop :=
  ∃ a b, Python.toCbor C.toCbor2 p = .ok a ∧ TypeScript.toCbor t = .ok b ∧ Aligned P a b

/-- The same of entries of a map in a row. -/
def EntriesAlike (C : Python.Cbor2Codec) (P : Prop) (ps : List (String × Python.Value)) (ts : List (String × TypeScript.Value)) : Prop :=
  ps.length = ts.length ∧ ∃ a b,
    concatM (fun e => (Python.toCbor C.toCbor2 e.2).map ((shortestHead 3 (utf8 e.1).length ++ utf8 e.1) ++ ·)) ps = .ok a ∧
    TypeScript.writeEntries ts = .ok b ∧ Aligned P a b

theorem Alike.congr {P Q : Prop} {p : Python.Value} {t : TypeScript.Value} (h : Alike C P p t) (hiff : P ↔ Q) : Alike C Q p t := by
  obtain ⟨a, b, hp, ht, hab⟩ := h
  exact ⟨a, b, hp, ht, hab.congr hiff⟩

theorem alike_of_same {p : Python.Value} {t : TypeScript.Value} (h : SameBytes C.toCbor2 p t) : Alike C True p t := by
  obtain ⟨bytes, hp, ht⟩ := h
  exact ⟨bytes, bytes, hp, ht, .refl bytes⟩

theorem alike_text (s : String) : Alike C True (.str s) (.string s) := alike_of_same (sameBytes_text C.toCbor2 s)

theorem alike_bytes (b : Bytes) : Alike C True (.bytes b) (.uint8Array b) := alike_of_same (sameBytes_bytes C.toCbor2 b)

theorem alike_bool (b : Bool) : Alike C True (.bool b) (.boolean b) := alike_of_same (sameBytes_bool C.toCbor2 b)

theorem alike_blob (bytes : Bytes) : Alike C True (Python.Requests.byteList bytes) (TypeScript.Requests.arrayFrom bytes) :=
  alike_of_same (sameBytes_blob C.toCbor2 bytes)

/-- A natural number, with a tag past 64 bits. -/
theorem alike_nat (n : Nat) : Alike C True (.int n) (.bigint n) := by
  apply alike_of_same
  rcases Nat.lt_or_ge n (2 ^ 64) with hlt | hge
  · exact sameBytes_integer C.toCbor2 ⟨by omega, by omega⟩
  · have hbytes : ¬((Nat.digits 256 n).reverse.map UInt8.ofNat).length = 0 := by
      rw [List.length_map, List.length_reverse, List.length_eq_zero_iff]
      exact Nat.digits_ne_nil_iff_ne_zero.2 (by omega)
    refine ⟨_, C.bignum_eq _ n hge, ?_⟩
    rw [TypeScript.toCbor, TypeScript.writeValue, TypeScript.writeInteger, if_pos (by omega), if_neg (by omega), Int.toNat_natCast,
      TypeScript.writeBignum, if_neg hbytes, TypeScript.pushHead_eq, TypeScript.pushHead_eq]
    rfl

/-- A number that a double has exactly. -/
theorem alike_count (n : Count) : Alike C True (.int n.val) (TypeScript.Requests.number n.val) := by
  obtain ⟨k, hk⟩ := n
  obtain ⟨hround, hmagnitude⟩ := TypeScript.Json.round_safe hk (e := TypeScript.oneExponent) rfl
  have hlt := Nat.lt_trans hround (inf_lt_signBit _)
  have habs := Double.abs_mk (by decide : 0 < 2) hlt
  have hmag : (Double.mk 0 (binary64.round (k * 2 ^ TypeScript.oneExponent))).magnitude = k * 2 ^ TypeScript.oneExponent := by
    unfold Double.magnitude
    rw [habs, hmagnitude]
  have hint : TypeScript.isInteger (Double.mk 0 (binary64.round (k * 2 ^ TypeScript.oneExponent))) := by
    refine ⟨?_, ?_⟩
    · unfold Double.isFinite
      rw [habs]
      exact hround
    · rw [hmag, Nat.mul_mod_left]
  have hval : TypeScript.bigInt (Double.mk 0 (binary64.round (k * 2 ^ TypeScript.oneExponent))) = (k : Nat) := by
    unfold TypeScript.bigInt
    rw [if_pos (Double.sign_mk (by decide) hlt), hmag, Nat.mul_div_cancel _ (Nat.two_pow_pos _)]
  apply alike_of_same
  refine ⟨_, C.uint_eq _ k (by omega), ?_⟩
  rw [TypeScript.Requests.number, TypeScript.toCbor, TypeScript.writeValue, if_pos hint, hval]
  exact TypeScript.writeInteger_uint (by omega)

theorem alike_none (C : Python.Cbor2Codec) : Alike C True .none .null := by
  apply alike_of_same
  refine ⟨_, C.none_eq _, ?_⟩
  rw [TypeScript.toCbor, TypeScript.writeValue]

theorem alike_nullable {α : Type} {P : α → Prop} {f : α → Python.Value} {g : α → TypeScript.Value}
    (h : ∀ x, Alike C (P x) (f x) (g x)) (v : Option α) :
    Alike C (∀ x ∈ v, P x) (Python.Requests.nullable f v) (TypeScript.Requests.nullable g v) := by
  cases v with
  | none => exact (alike_none C).congr (by simp)
  | some x => exact (h x).congr (by simp)

/-- An attribute that may be missing, of a kind that is written alike. -/
theorem alike_optional {α : Type} {f : α → Python.Value} {g : α → TypeScript.Value} (h : ∀ x, Alike C True (f x) (g x)) (v : Option α) :
    Alike C True (Python.Requests.nullable f v) (TypeScript.Requests.nullable g v) := (alike_nullable h v).congr (by simp)

/-- Items of a list, one after the other. -/
theorem alike_list {α : Type} {P : α → Prop} {f : α → Python.Value} {g : α → TypeScript.Value} {xs : List α}
    (h : ∀ x ∈ xs, Alike C (P x) (f x) (g x)) : Alike C (∀ x ∈ xs, P x) (.list (xs.map f)) (.array (xs.map g)) := by
  have hitems : ∃ a b, concatM (Python.toCbor C.toCbor2) (xs.map f) = .ok a ∧ TypeScript.writeItems (xs.map g) = .ok b ∧
      Aligned (∀ x ∈ xs, P x) a b := by
    induction xs with
    | nil => exact ⟨[], [], rfl, rfl, (Aligned.refl []).congr (by simp)⟩
    | cons x xs ih =>
      obtain ⟨a, b, hp, ht, hab⟩ := h x List.mem_cons_self
      obtain ⟨a', b', hps, hts, hab'⟩ := ih (fun y hy => h y (List.mem_cons_of_mem x hy))
      rw [TypeScript.toCbor] at ht
      refine ⟨a ++ a', b ++ b', ?_, ?_, (hab.append hab').congr List.forall_mem_cons.symm⟩
      · rw [List.map_cons, concatM, hp, hps]
        rfl
      · rw [List.map_cons, TypeScript.writeItems, ht, hts]
        rfl
  obtain ⟨a, b, hps, hts, hab⟩ := hitems
  refine ⟨shortestHead 4 xs.length ++ a, shortestHead 4 xs.length ++ b, ?_, ?_, hab.after _⟩
  · have hlist := C.list_eq Python.shortestFloatBytes (xs.map f)
    rw [List.length_map] at hlist
    exact hlist.trans (congrArg (Except.map (shortestHead 4 xs.length ++ ·)) hps)
  · rw [TypeScript.toCbor, TypeScript.writeValue, hts, TypeScript.pushHead_eq, List.length_map]
    rfl

theorem alike_items {α : Type} {f : α → Python.Value} {g : α → TypeScript.Value} (h : ∀ x, Alike C True (f x) (g x)) (xs : List α) :
    Alike C True (.list (xs.map f)) (.array (xs.map g)) := (alike_list (fun x _ => h x)).congr (by simp)

theorem alike_nats (ns : List Nat) : Alike C True (Python.Requests.intList ns) (TypeScript.Requests.bigints ns) := alike_items alike_nat ns

theorem alike_counts (ns : List Count) : Alike C True (Python.Requests.countList ns) (TypeScript.Requests.numbers ns) :=
  alike_items alike_count ns

/-! ### Maps -/

theorem EntriesAlike.nil : EntriesAlike C True [] [] := ⟨rfl, [], [], rfl, rfl, .refl []⟩

theorem EntriesAlike.congr {P Q : Prop} {ps : List (String × Python.Value)} {ts : List (String × TypeScript.Value)}
    (h : EntriesAlike C P ps ts) (hiff : P ↔ Q) : EntriesAlike C Q ps ts := by
  obtain ⟨hlen, a, b, hps, hts, hab⟩ := h
  exact ⟨hlen, a, b, hps, hts, hab.congr hiff⟩

theorem EntriesAlike.cons {P Q : Prop} {k : String} {p : Python.Value} {t : TypeScript.Value} {ps : List (String × Python.Value)}
    {ts : List (String × TypeScript.Value)} (h : Alike C P p t) (h' : EntriesAlike C Q ps ts) :
    EntriesAlike C (P ∧ Q) ((k, p) :: ps) ((k, t) :: ts) := by
  obtain ⟨a, b, hp, ht, hab⟩ := h
  obtain ⟨hlen, a', b', hps, hts, hab'⟩ := h'
  rw [TypeScript.toCbor] at ht
  refine ⟨by rw [List.length_cons, List.length_cons, hlen], _, _, ?_, ?_,
    (hab.after (shortestHead 3 (utf8 k).length ++ utf8 k)).append hab'⟩
  · rw [concatM, hps]
    simp only [hp]
    rfl
  · rw [TypeScript.writeEntries, ht, hts, TypeScript.pushHead_eq]
    rfl

/-- An entry of a kind that is written alike. -/
theorem EntriesAlike.same {P : Prop} {k : String} {p : Python.Value} {t : TypeScript.Value} {ps : List (String × Python.Value)}
    {ts : List (String × TypeScript.Value)} (h : Alike C True p t) (h' : EntriesAlike C P ps ts) :
    EntriesAlike C P ((k, p) :: ps) ((k, t) :: ts) := (EntriesAlike.cons h h').congr (by rw [true_and])

theorem concatM_append {α ε : Type} {write : α → Except ε Bytes} {xs ys : List α} {a b : Bytes} (hx : concatM write xs = .ok a)
    (hy : concatM write ys = .ok b) : concatM write (xs ++ ys) = .ok (a ++ b) := by
  induction xs generalizing a with
  | nil =>
    rw [← Except.ok.inj hx]
    exact hy
  | cons x xs ih =>
    rw [concatM] at hx
    rw [List.cons_append, concatM]
    cases hhead : write x with
    | error e =>
      rw [hhead] at hx
      cases hx
    | ok c =>
      cases htail : concatM write xs with
      | error e =>
        rw [hhead, htail] at hx
        cases hx
      | ok d =>
        rw [hhead, htail] at hx
        rw [ih htail, ← Except.ok.inj hx, List.append_assoc]
        rfl

/-- The entries of a map, as a row of writings. -/
theorem writeEntries_eq (entries : List (String × TypeScript.Value)) : TypeScript.writeEntries entries =
    concatM (fun e => (TypeScript.writeValue e.2).map (TypeScript.pushHead 3 (utf8 e.1).length ++ utf8 e.1 ++ ·)) entries := by
  induction entries with
  | nil => rfl
  | cons e rest ih =>
    rw [TypeScript.writeEntries, concatM, ih]
    cases TypeScript.writeValue e.2 <;> rfl

theorem EntriesAlike.append {P Q : Prop} {ps ps' : List (String × Python.Value)} {ts ts' : List (String × TypeScript.Value)}
    (h : EntriesAlike C P ps ts) (h' : EntriesAlike C Q ps' ts') : EntriesAlike C (P ∧ Q) (ps ++ ps') (ts ++ ts') := by
  obtain ⟨hlen, a, b, hps, hts, hab⟩ := h
  obtain ⟨hlen', a', b', hps', hts', hab'⟩ := h'
  rw [writeEntries_eq] at hts hts'
  refine ⟨by rw [List.length_append, List.length_append, hlen, hlen'], a ++ a', b ++ b', concatM_append hps hps', ?_, hab.append hab'⟩
  rw [writeEntries_eq]
  exact concatM_append hts hts'

theorem EntriesAlike.dict {P : Prop} {ps : List (String × Python.Value)} {ts : List (String × TypeScript.Value)}
    (h : EntriesAlike C P ps ts) : Alike C P (.dict ps) (.map ts) := by
  obtain ⟨hlen, a, b, hps, hts, hab⟩ := h
  refine ⟨shortestHead 5 ps.length ++ a, shortestHead 5 ps.length ++ b, ?_, ?_, hab.after _⟩
  · exact (C.dict_eq Python.shortestFloatBytes ps).trans (congrArg (Except.map (shortestHead 5 ps.length ++ ·)) hps)
  · rw [TypeScript.toCbor, TypeScript.writeValue, hts, TypeScript.pushHead_eq, hlen]
    rfl

/-! ### Floats -/

/-- Where single precision makes a half of the float, the float is zero or a half in the normal range. -/
def KeepsWidth (x : Double) : Prop :=
  binary16.Has (TypeScript.fround x).magnitude → x.abs = 0 ∨ TypeScript.HasNormalHalf x.magnitude

theorem float32Bits_of_fits {x : Double} (hx : x.isFinite) (hover : ¬OverSingle x) :
    TypeScript.float32Bits x = x.sign * binary32.signBit + binary32.round x.magnitude := by
  unfold TypeScript.float32Bits
  rw [if_pos hx, Nat.min_eq_left (Nat.le_of_lt (round32_lt_iff.2 hover))]

/-- The float rounded to single precision: finite, of single precision, and with the bits of the single. -/
theorem fround_of_fits {x : Double} (hx : x.isFinite) (hover : ¬OverSingle x) :
    (TypeScript.fround x).isFinite ∧ binary32.Has (TypeScript.fround x).magnitude ∧
    TypeScript.float32Bits (TypeScript.fround x) = TypeScript.float32Bits x := by
  have hfits := round32_lt_iff.2 hover
  obtain ⟨hsign, habs⟩ := narrow_binary32.widen_finite x.sign_lt hfits
  have hround : TypeScript.fround x = widen binary32 (x.sign * binary32.signBit + binary32.round x.magnitude) := by
    unfold TypeScript.fround
    rw [float32Bits_of_fits hx hover]
  rw [← hround] at hsign habs
  have hmag : (TypeScript.fround x).magnitude = binary32.magnitude (binary32.round x.magnitude) := by
    rw [Double.magnitude, habs, narrow_binary32.magnitude_round]
  have hfinite : (TypeScript.fround x).isFinite := by
    unfold Double.isFinite
    rw [habs]
    exact narrow_binary32.round_lt hfits
  have hhas : binary32.Has (TypeScript.fround x).magnitude := ⟨_, hfits, hmag.symm⟩
  refine ⟨hfinite, hhas, ?_⟩
  rw [TypeScript.float32Bits_of_has hfinite hhas, hmag, round_magnitude, hsign, float32Bits_of_fits hx hover]

theorem packSingle_of_fits {x : Double} (hx : x.isFinite) (hover : ¬OverSingle x) :
    Python.Types.packSingle x = .ok (toBytesBE 4 (TypeScript.float32Bits x)).reverse := by
  unfold Python.Types.packSingle
  rw [Python.structPack_ok (round32_lt_iff.2 hover), float32Bits_of_fits hx hover]
  rfl

/-- `round_f32` of a float that does not overflow. -/
theorem roundF32_of_fits {x : Double} (hx : x.isFinite) (hover : ¬OverSingle x) :
    Python.Types.roundF32 (.float x) = .ok (.floatField (TypeScript.fround x)) := by
  have hunpack := narrow_binary32.unpack_pack x.sign_lt (round32_lt_iff.2 hover)
  rw [← float32Bits_of_fits hx hover] at hunpack
  rw [Python.Types.roundF32, packSingle_of_fits hx hover]
  unfold TypeScript.fround
  rw [← hunpack, ← List.reverse_reverse (toBytesBE 4 (TypeScript.float32Bits x))]
  rfl

/-- Packing a float that overflows raises. -/
theorem not_over_of_pack {x : Double} {data : Bytes} (h : Python.Types.packSingle x = .ok data) : ¬OverSingle x := by
  rw [← round32_lt_iff]
  by_contra hfits
  obtain ⟨e, he⟩ := Python.structPack_error (Nat.le_of_not_lt hfits) 4 "f"
  unfold Python.Types.packSingle at h
  rw [he] at h
  cases h

theorem not_over_of_round {x : Double} {v : Python.Value} (h : Python.Types.roundF32 (.float x) = .ok v) : ¬OverSingle x := by
  rw [Python.Types.roundF32] at h
  cases hpack : Python.Types.packSingle x with
  | ok data => exact not_over_of_pack hpack
  | error e =>
    rw [hpack] at h
    cases h

/-- A float field that does not overflow. -/
theorem alike_single {x : Double} (hx : x.isFinite) (hover : ¬OverSingle x) :
    Alike C (KeepsWidth x) (.floatField (TypeScript.fround x)) (.f32 x) := by
  obtain ⟨hfinite, hhas, hbits⟩ := fround_of_fits hx hover
  have hpy := C.hook_eq Python.shortestFloatBytes (TypeScript.fround x)
  have hts : TypeScript.toCbor (.f32 x) = .ok (TypeScript.writeF32 x) := by rw [TypeScript.toCbor, TypeScript.writeValue]
  by_cases hhalf : x.abs = 0 ∨ TypeScript.HasNormalHalf x.magnitude
  · -- TypeScript writes the half that the float is, and rounding keeps the float
    have hhas16 : binary16.Has x.magnitude := hasHalf_iff.2 (hhalf.imp_right .inr)
    have hhas32 := hasSingle_of_hasHalf hhas16
    rw [TypeScript.fround_of_has hhas32, Python.shortest_half hx hhas16] at hpy
    rw [writeF32_eq_writeF64 hx hhas32, writeF64_of_half hhalf] at hts
    rw [TypeScript.fround_of_has hhas32]
    exact ⟨_, _, hpy, hts, (Aligned.refl _).congr (iff_of_true trivial (fun _ => hhalf))⟩
  · obtain ⟨hzero, hnormal⟩ := not_or.1 hhalf
    have hsingle : TypeScript.writeF32 x = 0xFA :: toBytesBE 4 (TypeScript.float32Bits x) := by
      unfold TypeScript.writeF32
      rw [TypeScript.toHalf_none hzero hnormal, Option.elim_none, TypeScript.writeSingle]
    rw [hsingle] at hts
    by_cases hhas16 : binary16.Has (TypeScript.fround x).magnitude
    · -- rounding makes a half, which only Python writes
      rw [Python.shortest_half hfinite hhas16] at hpy
      refine ⟨_, _, hpy, hts, fun h => absurd (h hhas16) hhalf, fun _ => diverge_heads (by decide) _ _⟩
    · rw [Python.shortest_wide hfinite hhas16, Python.single_has hfinite hhas, ← TypeScript.float32Bits_of_has hfinite hhas, hbits] at hpy
      exact ⟨_, _, hpy, hts, (Aligned.refl _).congr (iff_of_true trivial (fun h => absurd h hhas16))⟩

/-- A bare float, and an `F64` of it. -/
theorem alike_double {x : Double} (hx : x.isFinite) : Alike C (¬binary32.Has x.magnitude) (.float x) (.f64 x) := by
  have hpy := C.float_eq Python.shortestFloatBytes x hx
  have hts : TypeScript.toCbor (.f64 x) = .ok (TypeScript.writeF64 x) := by rw [TypeScript.toCbor, TypeScript.writeValue]
  by_cases hhas : binary32.Has x.magnitude
  · refine ⟨_, _, hpy, hts, fun h => absurd hhas h, fun _ => ?_⟩
    by_cases hhalf : x.abs = 0 ∨ TypeScript.HasNormalHalf x.magnitude
    · rw [writeF64_of_half hhalf]
      exact diverge_heads (by decide) _ _
    · obtain ⟨hzero, hnormal⟩ := not_or.1 hhalf
      rw [writeF64_of_not_half hzero hnormal, if_pos ((TypeScript.fround_eq_iff hx).2 hhas), TypeScript.writeSingle]
      exact diverge_heads (by decide) _ _
  · have hhalf : x.abs ≠ 0 ∧ ¬TypeScript.HasNormalHalf x.magnitude :=
      not_or.1 (fun h => hhas (hasSingle_of_hasHalf (hasHalf_iff.2 (h.imp_right .inr))))
    rw [writeF64_of_not_half hhalf.1 hhalf.2, if_neg (fun h => hhas ((TypeScript.fround_eq_iff hx).1 h)), TypeScript.writeDouble] at hts
    exact ⟨_, _, hpy, hts, (Aligned.refl _).congr (iff_of_true trivial hhas)⟩

/-- The floats of an object, which Python writes as they are. -/
def objectFloats : StatementObject → List Double
  | .value (.float x) => [x]
  | _ => []

theorem alike_object {o : StatementObject} (h : o.InRange) : Alike C (∀ x ∈ objectFloats o, ¬binary32.Has x.magnitude)
    (Python.StatementObject.toCborValue o) (TypeScript.encodeStatementObject o) := by
  have hwrap : ∀ {P : Prop} (k : String) {p : Python.Value} {t : TypeScript.Value}, Alike C P p t →
      Alike C P (.dict [(k, p)]) (.map [(k, t)]) := by
    intro P k p t halike
    exact (EntriesAlike.cons halike .nil).dict.congr (by rw [and_true])
  cases o with
  | entityRef id => exact (hwrap "EntityRef" (alike_bytes id)).congr (by simp [objectFloats])
  | memoryRef id => exact (hwrap "MemoryRef" (alike_bytes id)).congr (by simp [objectFloats])
  | statementRef id => exact (hwrap "StatementRef" (alike_bytes id)).congr (by simp [objectFloats])
  | value v =>
    refine hwrap "Value" ?_
    cases v with
    | float x => exact (hwrap "Float" (alike_double h)).congr (by simp [objectFloats])
    | text s => exact (hwrap "Text" (alike_text s)).congr (by simp [objectFloats])
    | integer n => exact (hwrap "Integer" (alike_of_same (sameBytes_integer C.toCbor2 h))).congr (by simp [objectFloats])
    | bool b => exact (hwrap "Bool" (alike_bool b)).congr (by simp [objectFloats])
    | unixNanos n => exact (hwrap "UnixNanos" (alike_of_same (sameBytes_integer C.toCbor2 h))).congr (by simp [objectFloats])
    | blob bytes => exact (hwrap "Blob" (alike_blob bytes)).congr (by simp [objectFloats])

/-! ### Parts of requests -/

/-- `to_map` gives a value, the function of TypeScript encodes a value, and the two are alike. -/
def Agree (C : Python.Cbor2Codec) (P : Prop) (m : Except Python.PyException Python.Value) (t : Except CborError Bytes) : Prop :=
  ∃ v w, m = .ok v ∧ t = TypeScript.toCbor w ∧ Alike C P v w

theorem actAs_entries (a : Option ActAs) : ∃ es, Python.Requests.actAsEntry a = .ok es ∧
    EntriesAlike C True es (a.elim [] (fun a => [("act_as", TypeScript.Requests.encodeActAs a)])) := by
  cases a with
  | none => exact ⟨[], rfl, .nil⟩
  | some a =>
    refine ⟨_, rfl, .same (EntriesAlike.dict (.same (alike_text _) (.same (alike_text _) ?_))) .nil⟩
    by_cases hgrant : a.grant.val = 0
    · simp only [Python.Requests.actAs, hgrant, ne_eq, not_true_eq_false, if_false]
      exact .nil
    · have htruthy : Python.Types.truthy (.int a.grant.val) = true := by
        unfold Python.Types.truthy
        exact decide_eq_true (by omega)
      simp only [Python.Requests.actAs, htruthy, ne_eq, hgrant, not_false_eq_true, if_true]
      exact .same (alike_count a.grant) .nil

theorem alike_credentials (c : AuthCredentials) :
    Alike C True (Python.Requests.AuthCredentials.toCborValue c) (TypeScript.Requests.encodeCredentials c) := by
  cases c with
  | token token => exact EntriesAlike.dict (.same (alike_blob token) .nil)
  | mtls certFingerprint assertedSubject =>
    exact EntriesAlike.dict (.same (EntriesAlike.dict (.same (alike_bytes _) (.same (alike_text _) .nil))) .nil)

theorem alike_kind (k : StatementKind) :
    Alike C True (Python.Requests.StatementKind.toCborValue k) (TypeScript.Requests.encodeStatementKind k) := by
  cases k with
  | custom byte => exact EntriesAlike.dict (.same (alike_count byte) .nil)
  | _ => exact alike_text _

theorem alike_evidence (e : EvidenceRef) :
    Alike C True (Python.Requests.EvidenceRef.toCborValue e) (TypeScript.Requests.encodeEvidence e) := by
  cases e with
  | inline ids => exact EntriesAlike.dict (.same (alike_items alike_bytes ids) .nil)
  | overflow id => exact EntriesAlike.dict (.same (alike_bytes id) .nil)

theorem alike_reason (r : CancellationReason) :
    Alike C True (Python.Requests.CancellationReason.toCborValue r) (TypeScript.Requests.cancellationReason r) := by
  cases r with
  | other text => exact EntriesAlike.dict (.same (alike_text text) .nil)
  | _ => exact alike_text _

theorem scopeName_eq (s : RecallScope) : TypeScript.Requests.scopeName s = Python.Requests.RecallScope.name s := by
  cases s <;> rfl

/-! ### Requests without floats -/

theorem hello_agrees (p : HelloPayload) :
    Agree C True (.ok (Python.Requests.HelloPayload.toMap p)) (TypeScript.Requests.encodeHello p) := by
  refine ⟨_, _, rfl, rfl, EntriesAlike.dict (.same (alike_text _) (.same (alike_counts _) (.same ?_
    (.same (alike_optional alike_bytes _) .nil))))⟩
  exact EntriesAlike.dict (.same (alike_bool _) (.same (alike_bool _) (.same (alike_bool _) .nil)))

theorem auth_agrees (p : AuthPayload) : Agree C True (.ok (Python.Requests.AuthPayload.toMap p)) (TypeScript.Requests.encodeAuth p) :=
  ⟨_, _, rfl, rfl, EntriesAlike.dict (.same (alike_count _) (.same (alike_credentials _) .nil))⟩

theorem bye_agrees (p : ByeRequest) : Agree C True (.ok (Python.Requests.ByeRequest.toMap p)) (TypeScript.Requests.encodeBye p) :=
  ⟨_, _, rfl, rfl, EntriesAlike.dict (.same (alike_optional alike_text _) .nil)⟩

theorem ping_agrees (p : PingRequest) : Agree C True (.ok (Python.Requests.PingRequest.toMap p)) (TypeScript.Requests.encodePing p) :=
  ⟨_, _, rfl, rfl, EntriesAlike.dict (.same (alike_nat _) .nil)⟩

theorem clientPong_agrees (p : ClientPongRequest) :
    Agree C True (.ok (Python.Requests.ClientPongRequest.toMap p)) (TypeScript.Requests.encodeClientPong p) :=
  ⟨_, _, rfl, rfl, EntriesAlike.dict (.same (alike_nat _) (.same (alike_nat _) .nil))⟩

theorem cancelStream_agrees (p : CancelStreamRequest) :
    Agree C True (.ok (Python.Requests.CancelStreamRequest.toMap p)) (TypeScript.Requests.encodeCancelStream p) :=
  ⟨_, _, rfl, rfl, EntriesAlike.dict (.same (alike_count _) (.same (alike_reason _) .nil))⟩

theorem unsubscribe_agrees (p : UnsubscribeRequest) :
    Agree C True (.ok (Python.Requests.UnsubscribeRequest.toMap p)) (TypeScript.Requests.encodeUnsubscribe p) :=
  ⟨_, _, rfl, rfl, EntriesAlike.dict (.same (alike_count _) .nil)⟩

/-- `wait` and `allow_duplicates` are left out by both at their defaults. -/
theorem encode_agrees (p : EncodeRequest) : Agree C True (Python.Requests.EncodeRequest.toMap p) (TypeScript.Requests.encodeEncode p) := by
  obtain ⟨es, hes, hact⟩ := actAs_entries (C := C) p.actAs
  have hwait : EntriesAlike C True (if p.wait.val ≠ 0 then [("wait", .int p.wait.val)] else [])
      (if p.wait.val ≠ 0 then [("wait", TypeScript.Requests.number p.wait.val)] else []) := by
    split_ifs
    · exact .same (alike_count _) .nil
    · exact .nil
  have hdup : EntriesAlike C True (if p.allowDuplicates then [("allow_duplicates", .bool p.allowDuplicates)] else [])
      (if p.allowDuplicates then [("allow_duplicates", .boolean true)] else []) := by
    split_ifs with h
    · rw [h]
      exact .same (alike_bool true) .nil
    · exact .nil
  have hentries := (((EntriesAlike.same (k := "text") (alike_text (C := C) p.text) (.same (k := "session_id") (alike_nat p.sessionId)
    (.same (k := "request_id") (alike_bytes p.requestId) (.same (k := "txn_id") (alike_optional alike_bytes p.txnId)
    (.same (k := "occurred_at_unix_nanos") (alike_optional alike_nat p.occurredAtUnixNanos) .nil))))).append hact).append hwait).append hdup
  refine ⟨_, _, by rw [Python.Requests.EncodeRequest.toMap, hes]; rfl, ?_, hentries.dict.congr (by simp)⟩
  unfold TypeScript.Requests.encodeEncode TypeScript.Requests.requestMapWithActAs
  split_ifs <;> simp only [List.append_nil]

theorem forget_agrees (p : ForgetRequest) : Agree C True (Python.Requests.ForgetRequest.toMap p) (TypeScript.Requests.encodeForget p) := by
  obtain ⟨es, hes, hact⟩ := actAs_entries (C := C) p.actAs
  refine ⟨_, _, by rw [Python.Requests.ForgetRequest.toMap, hes]; rfl, rfl, EntriesAlike.dict ?_⟩
  exact .same (alike_nat _) (.same (alike_count _) (.same (alike_bytes _) (.same (alike_optional alike_bytes _) hact)))

theorem entityCreate_agrees (p : EntityCreateRequest) :
    Agree C True (Python.Requests.EntityCreateRequest.toMap p) (TypeScript.Requests.encodeEntityCreate p) := by
  obtain ⟨es, hes, hact⟩ := actAs_entries (C := C) p.actAs
  refine ⟨_, _, by rw [Python.Requests.EntityCreateRequest.toMap, hes]; rfl, rfl, EntriesAlike.dict ?_⟩
  exact .same (alike_count _) (.same (alike_text _) (.same (alike_items alike_text _) (.same (alike_blob _) (.same (alike_nat _)
    (.same (alike_bytes _) hact)))))

theorem unlink_agrees (p : UnlinkRequest) : Agree C True (Python.Requests.UnlinkRequest.toMap p) (TypeScript.Requests.encodeUnlink p) := by
  obtain ⟨es, hes, hact⟩ := actAs_entries (C := C) p.actAs
  refine ⟨_, _, by rw [Python.Requests.UnlinkRequest.toMap, hes]; rfl, rfl, EntriesAlike.dict ?_⟩
  exact .same (alike_nat _) (.same (alike_nat _) (.same (alike_count _) (.same (alike_bytes _)
    (.same (alike_optional alike_bytes _) hact))))

/-! ### Requests with floats -/

theorem recall_agrees (p : RecallRequest) (hthreshold : ¬OverSingle p.confidenceThreshold) (hfloor : ¬OverSingle p.salienceFloor) :
    Agree C (KeepsWidth p.confidenceThreshold ∧ KeepsWidth p.salienceFloor) (Python.Requests.RecallRequest.toMap p)
      (TypeScript.Requests.encodeRecall p) := by
  obtain ⟨es, hes, hact⟩ := actAs_entries (C := C) p.actAs
  have hscope : EntriesAlike C True [("scope", .str (Python.Requests.RecallScope.name p.scope))]
      [("scope", .string (TypeScript.Requests.scopeName p.scope))] := by
    rw [scopeName_eq]
    exact .same (alike_text _) .nil
  refine ⟨_, _, by rw [Python.Requests.RecallRequest.toMap, roundF32_of_fits p.confidenceThreshold.2 hthreshold,
    roundF32_of_fits p.salienceFloor.2 hfloor, hes]; rfl, rfl, EntriesAlike.dict ?_⟩
  exact .same (alike_text _) (.same (alike_text _) (.same (alike_count _) (.cons (alike_single p.confidenceThreshold.2 hthreshold)
    (.same (alike_optional alike_nats _) (.same (alike_optional alike_nat _) (.same (alike_optional alike_nat _)
    (.same (alike_optional alike_counts _) ((EntriesAlike.cons (alike_single p.salienceFloor.2 hfloor)
    (.same (alike_bool _) (.same (alike_bool _) (.same (alike_bool _) (.same (alike_optional alike_bytes _)
    (.same (alike_optional alike_bytes _) (.same (alike_bool _) ((hact.append hscope).congr (and_self_iff))))))))).congr
    (by rw [and_true])))))))))

theorem memoryList_agrees (p : MemoryListRequest) (hmin : ¬OverSingle p.salienceMin) (hmax : ¬OverSingle p.salienceMax) :
    Agree C (KeepsWidth p.salienceMin ∧ KeepsWidth p.salienceMax) (Python.Requests.MemoryListRequest.toMap p)
      (TypeScript.Requests.encodeMemoryList p) := by
  obtain ⟨es, hes, hact⟩ := actAs_entries (C := C) p.actAs
  refine ⟨_, _, by rw [Python.Requests.MemoryListRequest.toMap, roundF32_of_fits p.salienceMin.2 hmin,
    roundF32_of_fits p.salienceMax.2 hmax, hes]; rfl, rfl, EntriesAlike.dict ?_⟩
  exact .same (alike_count _) (.same (alike_count _) (.same (alike_count _) (.same (alike_blob _) (.same (alike_counts _)
    (.same (alike_bool _) (.same (alike_count _) (.same (alike_nat _) (.same (alike_nat _) (.cons (alike_single p.salienceMin.2 hmin)
    ((EntriesAlike.cons (alike_single p.salienceMax.2 hmax) (.same (alike_text _) hact)).congr (by rw [and_true])))))))))))

theorem statementCreate_agrees (p : StatementCreateRequest) (hconfidence : ¬OverSingle p.confidence) :
    Agree C ((∀ x ∈ objectFloats p.object, ¬binary32.Has x.magnitude) ∧ KeepsWidth p.confidence)
      (Python.Requests.StatementCreateRequest.toMap p) (TypeScript.Requests.encodeStatementCreate p) := by
  obtain ⟨es, hes, hact⟩ := actAs_entries (C := C) p.actAs
  refine ⟨_, _, by rw [Python.Requests.StatementCreateRequest.toMap, roundF32_of_fits p.confidence.2 hconfidence, hes]; rfl, rfl,
    EntriesAlike.dict ?_⟩
  exact .same (alike_kind _) (.same (alike_bytes _) (.same (alike_text _) (.cons (alike_object p.object.2)
    ((EntriesAlike.cons (alike_single p.confidence.2 hconfidence) (.same (alike_evidence _) (.same (alike_count _) (.same (alike_nat _)
    (.same (alike_nat _) (.same (alike_nat _) (.same (alike_count _) (.same (alike_nat _) (.same (alike_bytes _) hact))))))))).congr
    (by rw [and_true])))))

theorem relationCreate_agrees (p : RelationCreateRequest) (hconfidence : ¬OverSingle p.confidence) :
    Agree C (KeepsWidth p.confidence) (Python.Requests.RelationCreateRequest.toMap p) (TypeScript.Requests.encodeRelationCreate p) := by
  obtain ⟨es, hes, hact⟩ := actAs_entries (C := C) p.actAs
  refine ⟨_, _, by rw [Python.Requests.RelationCreateRequest.toMap, roundF32_of_fits p.confidence.2 hconfidence, hes]; rfl, rfl,
    EntriesAlike.dict ?_⟩
  exact .same (alike_text _) (.same (alike_bytes _) (.same (alike_bytes _) (.same (alike_blob _) (.same (alike_evidence _)
    (.same (alike_count _) ((EntriesAlike.cons (alike_single p.confidence.2 hconfidence) (.same (alike_nat _) (.same (alike_nat _)
    (.same (alike_nat _) (.same (alike_bytes _) hact))))).congr (by rw [and_true])))))))

theorem link_agrees (p : LinkRequest) (hweight : ¬OverSingle p.weight) :
    Agree C (KeepsWidth p.weight) (Python.Requests.LinkRequest.toMap p) (TypeScript.Requests.encodeLink p) := by
  obtain ⟨es, hes, hact⟩ := actAs_entries (C := C) p.actAs
  refine ⟨_, _, by rw [Python.Requests.LinkRequest.toMap, roundF32_of_fits p.weight.2 hweight, hes]; rfl, rfl, EntriesAlike.dict ?_⟩
  exact .same (alike_nat _) (.same (alike_nat _) (.same (alike_count _) ((EntriesAlike.cons (alike_single p.weight.2 hweight)
    (.same (alike_bytes _) (.same (alike_optional alike_bytes _) hact))).congr (by rw [and_true]))))

/-- `similar_to` is the only float of a filter. -/
theorem filter_agrees (f : SubscriptionFilter) (hsimilar : ∀ s ∈ f.similarTo, ¬OverSingle s.threshold) :
    ∃ v, Python.Requests.SubscriptionFilter.toMap f = .ok v ∧
      Alike C (∀ s ∈ f.similarTo, KeepsWidth s.threshold) v (TypeScript.Requests.encodeSubscriptionFilter f) := by
  obtain ⟨similar, hround, halike⟩ : ∃ similar, Python.Types.noneOr Python.Requests.SimilarityFilter.toMap f.similarTo = .ok similar ∧
      Alike C (∀ s ∈ f.similarTo, KeepsWidth s.threshold) similar (TypeScript.Requests.nullable (fun s : SimilarityFilter =>
        .map [("reference_memory_id", .bigint s.referenceMemoryId), ("threshold", .f32 s.threshold)]) f.similarTo) := by
    cases hs : f.similarTo with
    | none => exact ⟨_, rfl, (alike_none C).congr (by simp)⟩
    | some s =>
      have hover := hsimilar s hs
      refine ⟨.dict [("reference_memory_id", .int s.referenceMemoryId), ("threshold", .floatField (TypeScript.fround s.threshold))], ?_, ?_⟩
      · rw [Python.Types.noneOr, Option.elim_some, Python.Requests.SimilarityFilter.toMap, roundF32_of_fits s.threshold.2 hover]
        rfl
      · exact (EntriesAlike.same (alike_nat _) (.cons (alike_single s.threshold.2 hover) .nil)).dict.congr (by simp)
  refine ⟨_, by rw [Python.Requests.SubscriptionFilter.toMap, hround]; rfl, EntriesAlike.dict ?_⟩
  exact .same (alike_optional alike_nats _) (.same (alike_optional alike_counts _) ((EntriesAlike.cons halike
    (.same (alike_optional (alike_items alike_bytes) _) (.same (alike_optional alike_nats _) .nil))).congr (by rw [and_true])))

theorem subscribe_agrees (p : SubscribeRequest) (hsimilar : ∀ s ∈ p.filter.similarTo, ¬OverSingle s.threshold) :
    Agree C (∀ s ∈ p.filter.similarTo, KeepsWidth s.threshold) (Python.Requests.SubscribeRequest.toMap p)
      (TypeScript.Requests.encodeSubscribe p) := by
  obtain ⟨es, hes, hact⟩ := actAs_entries (C := C) p.actAs
  obtain ⟨filter, hfilter, halike⟩ := filter_agrees (C := C) p.filter hsimilar
  refine ⟨_, _, by rw [Python.Requests.SubscribeRequest.toMap, hfilter, hes]; rfl, rfl, EntriesAlike.dict ?_⟩
  exact (EntriesAlike.cons halike (.same (alike_bool _) (.same (alike_optional alike_nat _) (.same (alike_count _) hact)))).congr
    (by rw [and_true])

theorem bind_of_ok {α β ε : Type} {x : Except ε α} {a : α} {f : α → Except ε β} (h : x = .ok a) : (x >>= f) = f a := by
  rw [h]
  rfl

theorem edge_toMap (e : EdgeRequest) : Python.Types.edgeRequest.toMapOf [.int e.target, .int e.kind.val, .float e.weight] =
    (Python.Types.roundF32 (.float e.weight)).map
      (fun weight => .dict [("target", .int e.target), ("kind", .int e.kind.val), ("weight", weight)]) := by
  have hget : ∀ {a : String × Python.Types.Annotation} {v : Python.Value},
      (a, v) ∈ Python.Types.edgeRequest.attributes.zip [.int e.target, .int e.kind.val, .float e.weight] →
      Python.Types.getAttribute Python.Types.edgeRequest [.int e.target, .int e.kind.val, .float e.weight] a.1 = .ok v := by
    intro a v hmem
    exact Python.Types.getAttribute_eq Python.Types.consistent_edgeRequest.2.1 (by simp [Python.Types.edgeRequest]) hmem
  have htarget := hget (a := ("target", .int)) (v := .int e.target) (by simp [Python.Types.edgeRequest])
  have hkind := hget (a := ("kind", .int)) (v := .int e.kind.val) (by simp [Python.Types.edgeRequest])
  have hweight := hget (a := ("weight", .float)) (v := .float e.weight) (by simp [Python.Types.edgeRequest])
  have hmap : Python.Types.edgeRequest.toMap =
      [Python.Types.plain "target", Python.Types.plain "kind", Python.Types.rounded "weight"] := rfl
  simp only [Python.Types.PlainClass.toMapOf, hmap, List.mapM_cons, List.mapM_nil, Python.Types.plain, Python.Types.rounded,
    Python.Types.MapEntry.write, if_true, Bool.false_eq_true, if_false, bind_assoc, pure_bind, htarget, hkind, hweight]
  rw [bind_of_ok rfl, bind_of_ok rfl, bind_of_ok rfl, bind_of_ok rfl, bind_of_ok rfl]
  generalize Python.Types.roundF32 (.float e.weight) = r
  cases r <;> rfl

theorem edges_toMap {edges : List EdgeRequest} (hedges : ∀ e ∈ edges, ¬OverSingle e.weight) :
    (edges.map (fun e => [.int e.target, .int e.kind.val, .float e.weight])).mapM Python.Types.edgeRequest.toMapOf =
      .ok (edges.map (fun e => .dict [("target", .int e.target), ("kind", .int e.kind.val),
        ("weight", .floatField (TypeScript.fround e.weight))])) := by
  apply Python.Types.mapM_of_forall₂
  rw [List.forall₂_map_left_iff, List.forall₂_map_right_iff, List.forall₂_same]
  intro e he
  rw [edge_toMap, roundF32_of_fits e.weight.2 (hedges e he)]
  rfl

/-- The map of a direct vector, and the section behind it. -/
theorem vectorDirect_agrees (p : EncodeVectorDirectRequest) (hhint : ¬OverSingle p.salienceHint)
    (hedges : ∀ e ∈ p.edges, ¬OverSingle e.weight) :
    ∃ v w, (Python.Requests.vectorDirect p).toMap = .ok v ∧
      TypeScript.Requests.encodeEncodeVectorDirect p =
        (TypeScript.toCbor w).map (· ++ TypeScript.Requests.f32ToLeBytes (p.vector.map Subtype.val)) ∧
      Alike C (KeepsWidth p.salienceHint ∧ ∀ e ∈ p.edges, KeepsWidth e.weight) v w := by
  obtain ⟨es, hes, hact⟩ := actAs_entries (C := C) p.actAs
  have hes' : (p.actAs.map Python.Requests.actAs).elim (.ok []) (fun a => a.toMap.map (fun m => [("act_as", m)])) = .ok es := by
    rw [← hes, Python.Requests.actAsEntry]
    cases p.actAs <;> rfl
  have hlist : Alike C (∀ e ∈ p.edges, KeepsWidth e.weight)
      (.list (p.edges.map (fun e => .dict [("target", .int e.target), ("kind", .int e.kind.val),
        ("weight", .floatField (TypeScript.fround e.weight))])))
      (.array (p.edges.map TypeScript.Requests.encodeEdge)) := by
    apply alike_list
    intro e he
    exact (EntriesAlike.same (alike_nat _) (.same (alike_count _) (.cons (alike_single e.weight.2 (hedges e he)) .nil))).dict.congr
      (by rw [and_true])
  refine ⟨_, _, by simp only [Python.Types.EncodeVectorDirectRequest.toMap, Python.Requests.vectorDirect,
    roundF32_of_fits p.salienceHint.2 hhint, edges_toMap hedges, hes']; rfl, rfl, EntriesAlike.dict ?_⟩
  exact .same (alike_text _) (.same (alike_bytes _) (.same (alike_nat _) (.same (alike_count _)
    (.cons (alike_single p.salienceHint.2 hhint) ((EntriesAlike.cons hlist (.same (alike_bytes _) (.same (alike_optional alike_bytes _)
    (.same (alike_bool _) hact)))).congr (by rw [and_true]))))))

/-- The section of a vector. -/
theorem section_eq {vector : List Finite} (hvector : ∀ x ∈ vector, ¬OverSingle x) :
    Python.Types.f32ListToLeBytes (vector.map Subtype.val) = .ok (TypeScript.Requests.f32ToLeBytes (vector.map Subtype.val)) := by
  induction vector with
  | nil => rfl
  | cons x xs ih =>
    rw [List.forall_mem_cons] at hvector
    rw [List.map_cons, Python.Types.f32ListToLeBytes, packSingle_of_fits x.2 hvector.1, ih hvector.2]
    rfl

/-! ### Any request -/

/-- The fields that are written as an `F32`. -/
def Request.singles : Request → List Finite
  | .encodeVectorDirect p => p.salienceHint :: p.edges.map EdgeRequest.weight
  | .recall_ p => [p.confidenceThreshold, p.salienceFloor]
  | .memoryList p => [p.salienceMin, p.salienceMax]
  | .statementCreate p => [p.confidence]
  | .relationCreate p => [p.confidence]
  | .link p => [p.weight]
  | .subscribe p => p.filter.similarTo.toList.map SimilarityFilter.threshold
  | _ => []

/-- The floats that are written as they are. -/
def Request.doubles : Request → List Double
  | .statementCreate p => objectFloats p.object
  | _ => []

/-- The vector behind the map. -/
def Request.vector : Request → List Finite
  | .encodeVectorDirect p => p.vector
  | _ => []

/-- No `struct.pack` of the request overflows. -/
structure Request.Packs (r : Request) : Prop where
  singles : ∀ x ∈ r.singles, ¬OverSingle x
  vector : ∀ x ∈ r.vector, ¬OverSingle x

/-- No float of the request is written in two widths. -/
structure Request.KeepsWidths (r : Request) : Prop where
  singles : ∀ x ∈ r.singles, KeepsWidth x
  doubles : ∀ x ∈ r.doubles, ¬binary32.Has x.magnitude

theorem Request.keepsWidths_iff (r : Request) :
    r.KeepsWidths ↔ (∀ x ∈ r.singles, KeepsWidth x) ∧ ∀ x ∈ r.doubles, ¬binary32.Has x.magnitude :=
  ⟨fun h => ⟨h.singles, h.doubles⟩, fun h => ⟨h.1, h.2⟩⟩

theorem first_written {α β ε : Type} {x : Except ε α} {f : α → Except ε β} {y : β} (h : (x >>= f) = .ok y) :
    ∃ a, x = .ok a ∧ f a = .ok y := by
  cases x with
  | error e => cases h
  | ok a => exact ⟨a, rfl, h⟩

/-- What Python has written did not overflow. -/
theorem not_over_of_edges {edges : List EdgeRequest} {ms : List Python.Value}
    (h : (edges.map (fun e => [Python.Value.int e.target, .int e.kind.val, .float e.weight])).mapM Python.Types.edgeRequest.toMapOf =
      .ok ms) : ∀ e ∈ edges, ¬OverSingle e.weight := by
  induction edges generalizing ms with
  | nil => exact List.forall_mem_nil _
  | cons e edges ih =>
    rw [List.map_cons, List.mapM_cons] at h
    obtain ⟨m, hm, h⟩ := first_written h
    obtain ⟨ms, hms, -⟩ := first_written h
    rw [edge_toMap] at hm
    refine List.forall_mem_cons.2 ⟨?_, ih hms⟩
    cases hround : Python.Types.roundF32 (.float e.weight) with
    | ok v => exact not_over_of_round hround
    | error err =>
      rw [hround] at hm
      cases hm

theorem not_over_of_section {vector : List Finite} {data : Bytes}
    (h : Python.Types.f32ListToLeBytes (vector.map Subtype.val) = .ok data) : ∀ x ∈ vector, ¬OverSingle x := by
  induction vector generalizing data with
  | nil => exact List.forall_mem_nil _
  | cons x xs ih =>
    rw [List.map_cons, Python.Types.f32ListToLeBytes] at h
    obtain ⟨a, ha, h⟩ := first_written h
    obtain ⟨b, hb, -⟩ := first_written h
    exact List.forall_mem_cons.2 ⟨not_over_of_pack ha, ih hb⟩

theorem fits_of_toMap {r : Request} {v : Python.Value} (h : Python.Requests.toMap r = .ok v) : ∀ x ∈ r.singles, ¬OverSingle x := by
  cases r with
  | encodeVectorDirect p =>
    rw [Python.Requests.toMap, Python.Types.EncodeVectorDirectRequest.toMap] at h
    obtain ⟨_, hhint, h⟩ := first_written h
    obtain ⟨_, hedges, -⟩ := first_written h
    exact List.forall_mem_cons.2 ⟨not_over_of_round hhint, List.forall_mem_map.2 (not_over_of_edges hedges)⟩
  | recall_ p =>
    rw [Python.Requests.toMap, Python.Requests.RecallRequest.toMap] at h
    obtain ⟨_, hthreshold, h⟩ := first_written h
    obtain ⟨_, hfloor, -⟩ := first_written h
    exact List.forall_mem_cons.2 ⟨not_over_of_round hthreshold, List.forall_mem_singleton.2 (not_over_of_round hfloor)⟩
  | memoryList p =>
    rw [Python.Requests.toMap, Python.Requests.MemoryListRequest.toMap] at h
    obtain ⟨_, hmin, h⟩ := first_written h
    obtain ⟨_, hmax, -⟩ := first_written h
    exact List.forall_mem_cons.2 ⟨not_over_of_round hmin, List.forall_mem_singleton.2 (not_over_of_round hmax)⟩
  | statementCreate p =>
    rw [Python.Requests.toMap, Python.Requests.StatementCreateRequest.toMap] at h
    obtain ⟨_, hconfidence, -⟩ := first_written h
    exact List.forall_mem_singleton.2 (not_over_of_round hconfidence)
  | relationCreate p =>
    rw [Python.Requests.toMap, Python.Requests.RelationCreateRequest.toMap] at h
    obtain ⟨_, hconfidence, -⟩ := first_written h
    exact List.forall_mem_singleton.2 (not_over_of_round hconfidence)
  | link p =>
    rw [Python.Requests.toMap, Python.Requests.LinkRequest.toMap] at h
    obtain ⟨_, hweight, -⟩ := first_written h
    exact List.forall_mem_singleton.2 (not_over_of_round hweight)
  | subscribe p =>
    rw [Python.Requests.toMap, Python.Requests.SubscribeRequest.toMap] at h
    obtain ⟨_, hfilter, -⟩ := first_written h
    rw [Python.Requests.SubscriptionFilter.toMap] at hfilter
    obtain ⟨_, hsimilar, -⟩ := first_written hfilter
    intro x hx
    obtain ⟨s, hs, rfl⟩ := List.mem_map.1 hx
    rw [Option.mem_toList.1 hs, Python.Types.noneOr, Option.elim_some, Python.Requests.SimilarityFilter.toMap] at hsimilar
    obtain ⟨_, hthreshold, -⟩ := first_written hsimilar
    exact not_over_of_round hthreshold
  | _ => exact List.forall_mem_nil _

/-- What Python writes packed all floats. -/
theorem packs_of_written {r : Request} {bytes : Bytes} (h : Python.Requests.encodePayload C.toCbor2 r = .ok bytes) : r.Packs := by
  cases r with
  | encodeVectorDirect p =>
    obtain ⟨_, hmap, h⟩ := first_written h
    obtain ⟨_, -, h⟩ := first_written h
    obtain ⟨_, hsection, -⟩ := first_written h
    exact ⟨fits_of_toMap (r := .encodeVectorDirect p) hmap, not_over_of_section hsection⟩
  | _ =>
    obtain ⟨_, hmap, -⟩ := first_written h
    exact ⟨fits_of_toMap hmap, List.forall_mem_nil _⟩

theorem Agree.congr {P Q : Prop} {m : Except Python.PyException Python.Value} {t : Except CborError Bytes} (h : Agree C P m t)
    (hiff : P ↔ Q) : Agree C Q m t := by
  obtain ⟨v, w, hm, ht, halike⟩ := h
  exact ⟨v, w, hm, ht, halike.congr hiff⟩

/-- A request without floats. -/
theorem Agree.plain {r : Request} {m : Except Python.PyException Python.Value} {t : Except CborError Bytes} (h : Agree C True m t)
    (hsingles : r.singles = []) (hdoubles : r.doubles = []) : Agree C r.KeepsWidths m t := by
  apply h.congr
  rw [r.keepsWidths_iff, hsingles, hdoubles]
  simp

/-- A request with nothing but singles. -/
theorem Agree.rounded {r : Request} {P : Prop} {m : Except Python.PyException Python.Value} {t : Except CborError Bytes} (h : Agree C P m t)
    (hdoubles : r.doubles = []) (hsingles : P ↔ ∀ x ∈ r.singles, KeepsWidth x) : Agree C r.KeepsWidths m t := by
  apply h.congr
  rw [r.keepsWidths_iff, hdoubles, hsingles]
  simp

/-- The maps of a request that packs. -/
theorem toMap_agrees (r : Request) (hr : r.Packs) (hdirect : ∀ p, r ≠ .encodeVectorDirect p) :
    Agree C r.KeepsWidths (Python.Requests.toMap r) (TypeScript.Requests.encode r) := by
  have hover := hr.singles
  cases r with
  | hello p => exact (hello_agrees p).plain rfl rfl
  | auth p => exact (auth_agrees p).plain rfl rfl
  | bye p => exact (bye_agrees p).plain rfl rfl
  | ping p => exact (ping_agrees p).plain rfl rfl
  | clientPong p => exact (clientPong_agrees p).plain rfl rfl
  | encode p => exact (encode_agrees p).plain rfl rfl
  | encodeVectorDirect p => exact absurd rfl (hdirect p)
  | recall_ p =>
    rw [Request.singles, List.forall_mem_cons, List.forall_mem_singleton] at hover
    exact (recall_agrees p hover.1 hover.2).rounded rfl (by simp [Request.singles])
  | forget p => exact (forget_agrees p).plain rfl rfl
  | memoryList p =>
    rw [Request.singles, List.forall_mem_cons, List.forall_mem_singleton] at hover
    exact (memoryList_agrees p hover.1 hover.2).rounded rfl (by simp [Request.singles])
  | entityCreate p => exact (entityCreate_agrees p).plain rfl rfl
  | statementCreate p =>
    rw [Request.singles, List.forall_mem_singleton] at hover
    apply (statementCreate_agrees p hover).congr
    rw [Request.keepsWidths_iff, Request.singles, Request.doubles, List.forall_mem_singleton]
    exact and_comm
  | relationCreate p =>
    rw [Request.singles, List.forall_mem_singleton] at hover
    exact (relationCreate_agrees p hover).rounded rfl (by simp [Request.singles])
  | link p =>
    rw [Request.singles, List.forall_mem_singleton] at hover
    exact (link_agrees p hover).rounded rfl (by simp [Request.singles])
  | unlink p => exact (unlink_agrees p).plain rfl rfl
  | cancelStream p => exact (cancelStream_agrees p).plain rfl rfl
  | subscribe p =>
    rw [Request.singles, List.forall_mem_map] at hover
    exact (subscribe_agrees p (fun s hs => hover s (Option.mem_toList.2 hs))).rounded rfl (by simp [Request.singles])
  | unsubscribe p => exact (unsubscribe_agrees p).plain rfl rfl

theorem toCborBytes_eq {v : Python.Value} {a : Bytes} (h : Python.toCbor C.toCbor2 v = .ok a) :
    Python.Types.toCborBytes C.toCbor2 v = .ok a := by
  rw [Python.Types.toCborBytes, h]
  rfl

/-- The bytes of a request that packs. -/
theorem written_of_packs (C : Python.Cbor2Codec) (r : Request) (hr : r.Packs) : ∃ a b,
    Python.Requests.encodePayload C.toCbor2 r = .ok a ∧ TypeScript.Requests.encode r = .ok b ∧ Aligned r.KeepsWidths a b := by
  by_cases hdirect : ∃ p, r = .encodeVectorDirect p
  · obtain ⟨p, rfl⟩ := hdirect
    have hover := hr.singles
    rw [Request.singles, List.forall_mem_cons, List.forall_mem_map] at hover
    obtain ⟨v, w, hmap, hencode, a, b, hp, ht, hab⟩ := vectorDirect_agrees (C := C) p hover.1 hover.2
    have hsection : Python.Types.f32ListToLeBytes (Python.Requests.vectorDirect p).vector =
        .ok (TypeScript.Requests.f32ToLeBytes (p.vector.map Subtype.val)) := section_eq hr.vector
    refine ⟨_, _, ?_, ?_, (hab.append (Aligned.refl (TypeScript.Requests.f32ToLeBytes (p.vector.map Subtype.val)))).congr ?_⟩
    · rw [Python.Requests.encodePayload, Python.Types.EncodeVectorDirectRequest.encodePayload, bind_of_ok hmap,
        bind_of_ok (toCborBytes_eq hp), bind_of_ok hsection]
      rfl
    · rw [TypeScript.Requests.encode, hencode, ht]
      rfl
    · simp [Request.keepsWidths_iff, Request.singles, Request.doubles]
  · have hpayload : Python.Requests.encodePayload C.toCbor2 r =
        (Python.Requests.toMap r >>= Python.Types.toCborBytes C.toCbor2) := by
      cases r with
      | encodeVectorDirect p => exact absurd ⟨p, rfl⟩ hdirect
      | _ => rfl
    obtain ⟨v, w, hmap, hencode, a, b, hp, ht, hab⟩ := toMap_agrees (C := C) r hr (fun p hp => hdirect ⟨p, hp⟩)
    exact ⟨a, b, by rw [hpayload, bind_of_ok hmap, toCborBytes_eq hp], hencode.trans ht, hab⟩

/-- Both SDKs write a request with the same bytes exactly when Python packs all of its floats, single precision leaves each float field in
its width, and no object is a float that a single has. -/
theorem requests_agree_iff (C : Python.Cbor2Codec) (r : Request) :
    (∃ bytes, Python.Requests.encodePayload C.toCbor2 r = .ok bytes ∧ TypeScript.Requests.encode r = .ok bytes) ↔
      r.Packs ∧ r.KeepsWidths := by
  constructor
  · rintro ⟨bytes, hp, ht⟩
    have hpacks := packs_of_written hp
    obtain ⟨a, b, ha, hb, hab⟩ := written_of_packs C r hpacks
    refine ⟨hpacks, hab.eq_iff.1 ?_⟩
    rw [Except.ok.inj (ha.symm.trans hp), Except.ok.inj (hb.symm.trans ht)]
  · rintro ⟨hpacks, hwidths⟩
    obtain ⟨a, b, ha, hb, hab⟩ := written_of_packs C r hpacks
    rw [hab.eq_iff.2 hwidths] at ha
    exact ⟨b, ha, hb⟩

/-- A LINK of some weight. -/
def linkOf (weight : Finite) : Request := .link ⟨1, 2, 3, weight, [4], none, none⟩

/-- A weight of 0.5 is the same half to both. Just above 1, single precision comes to the half 1.0, which only Python writes. -/
theorem requests_agree_iff_links :
    (∃ bytes, Python.Requests.encodePayload Python.plainCodec.toCbor2 (linkOf ⟨0x3FE0000000000000#64, by decide⟩) = .ok bytes ∧
      TypeScript.Requests.encode (linkOf ⟨0x3FE0000000000000#64, by decide⟩) = .ok bytes) ∧
    ¬∃ bytes, Python.Requests.encodePayload Python.plainCodec.toCbor2 (linkOf ⟨0x3FF0000000000001#64, by decide⟩) = .ok bytes ∧
      TypeScript.Requests.encode (linkOf ⟨0x3FF0000000000001#64, by decide⟩) = .ok bytes := by
  constructor
  · refine (requests_agree_iff Python.plainCodec _).2 ⟨⟨?_, List.forall_mem_nil _⟩, ?_, List.forall_mem_nil _⟩
    · refine List.forall_mem_singleton.2 ?_
      unfold OverSingle
      decide
    · exact List.forall_mem_singleton.2 (fun _ => .inr ⟨0x3800, by decide, by decide, by decide +kernel⟩)
  · intro h
    have hkeeps := List.forall_mem_singleton.1 ((requests_agree_iff Python.plainCodec _).1 h).2.singles
    have hround : binary16.Has (TypeScript.fround 0x3FF0000000000001#64).magnitude := ⟨0x3C00, by decide, by decide +kernel⟩
    have hnot : ¬binary16.Has (Double.magnitude 0x3FF0000000000001#64) := by
      rw [has_iff_round]
      decide +kernel
    exact hnot (hasHalf_iff.2 ((hkeeps hround).imp_right .inr))

end

end BrainSdk.Requests
