import BrainSdk.Cbor.Writer

/-!
# What the writer holds

A writer holds the bytes that were pushed, whatever its buffer has behind them. As long as they fit in the largest buffer there can be
after a doubling, each write appends what the encoder writes on lists of bytes.
-/

namespace BrainSdk.TypeScript

open Library Cbor

/-- The bytes that a buffer can grow to hold: doubling goes from below this to below the end of lengths. -/
def maxContents : Nat := 2 ^ 52

/-- The bytes of a writer. -/
structure Writer.Holds (w : Writer) (bytes : Bytes) : Prop where
  len : w.len = bytes.length
  contents : w.buf.bytes.take w.len = bytes
  pos : 0 < w.buf.bytes.length

/-- What a write does: it appends these bytes, where there is room for them. -/
def Appends (write : Writer → Except EncodeError Writer) (bytes : Bytes) : Prop :=
  ∀ (w : Writer) (pre : Bytes), w.Holds pre → pre.length + bytes.length ≤ maxContents →
    ∃ w', write w = .ok w' ∧ w'.Holds (pre ++ bytes)

theorem Writer.new_holds : Writer.new.Holds [] := by
  refine ⟨rfl, rfl, ?_⟩
  unfold Writer.new
  dsimp only
  rw [List.length_replicate]
  decide

/-- One write after the other. -/
theorem Appends.append {f g : Writer → Except EncodeError Writer} {a b : Bytes} (hf : Appends f a) (hg : Appends g b) :
    Appends (fun w => (f w).bind g) (a ++ b) := by
  intro w pre hw hroom
  rw [List.length_append] at hroom
  obtain ⟨w', hw', hholds⟩ := hf w pre hw (by omega)
  obtain ⟨w'', hw'', hholds'⟩ := hg w' _ hholds (by rw [List.length_append]; omega)
  refine ⟨w'', ?_, ?_⟩
  · dsimp only
    rw [hw']
    exact hw''
  · rwa [← List.append_assoc]

theorem Appends.nil : Appends .ok [] := by
  intro w pre hw _
  exact ⟨w, rfl, by rwa [List.append_nil]⟩

/-! ### The buffer -/

/-- Doubling ends at what is needed, or at the start, and passes it by less than as much again. -/
theorem Writer.double_spec {need : Nat} (turns : Nat) {next : Nat} (hpos : 0 < next) (hturns : need ≤ next + turns) :
    need ≤ double need turns next ∧ (double need turns next < 2 * need ∨ double need turns next = next) := by
  induction turns generalizing next with
  | zero => exact ⟨hturns, .inr rfl⟩
  | succ turns ih =>
    unfold double
    by_cases hlt : next < need
    · rw [if_pos hlt]
      obtain ⟨hle, hless⟩ := ih (by omega : 0 < next * 2) (by omega)
      refine ⟨hle, .inl ?_⟩
      rcases hless with h | h
      · exact h
      · omega
    · rw [if_neg hlt]
      exact ⟨Nat.le_of_not_lt hlt, .inr rfl⟩

theorem Uint8Array.new_ok {n : Nat} (h : n < 2 ^ 53) : ∃ array, Uint8Array.new n = .ok array ∧ array.bytes = List.replicate n 0 :=
  ⟨_, dif_pos h, rfl⟩

theorem Uint8Array.set_ok {array : Uint8Array} {source : Bytes} {offset : Nat} (h : offset + source.length ≤ array.bytes.length) :
    ∃ array', array.set source offset = .ok array' ∧ array'.bytes = setSlice array.bytes offset source :=
  ⟨_, dif_pos h, rfl⟩

/-- `ensure` makes room and keeps the bytes. -/
theorem Writer.ensure_spec {w : Writer} {bytes : Bytes} (hw : w.Holds bytes) {extra : Nat} (hroom : bytes.length + extra ≤ maxContents) :
    ∃ w', w.ensure extra = .ok w' ∧ w'.Holds bytes ∧ bytes.length + extra ≤ w'.buf.bytes.length := by
  have hlen := hw.len
  unfold ensure
  by_cases hfits : w.len + extra ≤ w.buf.bytes.length
  · rw [if_pos hfits]
    exact ⟨w, rfl, hw, by omega⟩
  · have hpos := hw.pos
    obtain ⟨hge, hlt⟩ := double_spec (w.len + extra) (by omega : 0 < w.buf.bytes.length * 2) (Nat.le_add_left (w.len + extra) _)
    have hbound : double (w.len + extra) (w.len + extra) (w.buf.bytes.length * 2) < 2 ^ 53 := by
      have hmax : maxContents = 2 ^ 52 := rfl
      omega
    have hold : slice w.buf.bytes 0 w.len = bytes := hw.contents
    rw [if_neg hfits, hold]
    generalize double (w.len + extra) (w.len + extra) (w.buf.bytes.length * 2) = next at hge hbound
    obtain ⟨grown, hnew, hzero⟩ := Uint8Array.new_ok hbound
    have hset : 0 + bytes.length ≤ grown.bytes.length := by
      rw [hzero, List.length_replicate]
      omega
    obtain ⟨copied, hcopied, hbytes⟩ := Uint8Array.set_ok hset
    have hlength : copied.bytes.length = next := by rw [hbytes, length_setSlice hset, hzero, List.length_replicate]
    rw [hnew]
    simp only [bind, Except.bind, hcopied]
    refine ⟨{ w with buf := copied }, rfl, ⟨hlen, ?_, ?_⟩, ?_⟩
    · dsimp only
      rw [hlen, hbytes]
      unfold setSlice
      rw [List.take_zero, List.nil_append, List.take_left]
    · dsimp only
      omega
    · dsimp only
      omega

/-- `pushBytes` appends its bytes. -/
theorem Writer.pushBytes_appends (bytes : Bytes) : Appends (pushBytes · bytes) bytes := by
  intro w pre hw hroom
  obtain ⟨w', hw', hholds, hfits⟩ := ensure_spec hw hroom
  have hlen := hholds.len
  have hset : w'.len + bytes.length ≤ w'.buf.bytes.length := by omega
  obtain ⟨buf, hbuf, hbytes⟩ := Uint8Array.set_ok hset
  have htotal : w'.len + bytes.length = (pre ++ bytes).length := by rw [List.length_append, hlen]
  refine ⟨{ buf := buf, len := w'.len + bytes.length }, ?_, htotal, ?_, ?_⟩
  · simp only [pushBytes, bind, Except.bind, hw', hbuf]
    rfl
  · dsimp only
    rw [hbytes]
    unfold setSlice
    rw [hholds.contents, htotal, List.take_left]
  · dsimp only
    rw [hbytes, length_setSlice hset]
    exact hholds.pos

/-- `pushByte` appends its byte. -/
theorem Writer.pushByte_appends (b : Nat) : Appends (pushByte · b) [UInt8.ofNat b] := by
  intro w pre hw hroom
  have hb : UInt8.ofNat (b &&& 0xFF) = UInt8.ofNat b := by
    have h := ofNat_shiftRight b 0
    rwa [Nat.shiftRight_zero, Nat.pow_zero, Nat.div_one] at h
  obtain ⟨w', hw', hholds, hfits⟩ := ensure_spec hw hroom
  have hlen := hholds.len
  have hlt : w'.len < w'.buf.bytes.length := by
    rw [hlen]
    exact hfits
  refine ⟨{ buf := w'.buf.store w'.len (UInt8.ofNat b), len := w'.len + 1 }, ?_, ?_, ?_, ?_⟩
  · dsimp only [List.length_singleton] at hw'
    simp only [pushByte, bind, Except.bind, hw', hb]
    rfl
  · dsimp only
    rw [List.length_append, hlen]
    rfl
  · dsimp only [Uint8Array.store]
    have hset : ∀ x : UInt8, (pre ++ [x]).set w'.len (UInt8.ofNat b) = pre ++ [UInt8.ofNat b] := by
      intro x
      rw [hlen, List.set_append_right _ _ (Nat.le_refl _), Nat.sub_self]
      rfl
    rw [List.take_set, List.take_succ_eq_append_getElem hlt, hholds.contents, hset]
  · dsimp only [Uint8Array.store]
    rw [List.length_set]
    exact hholds.pos

/-! ### The encoder -/

theorem Writer.pushHead_appends (major arg : Nat) : Appends (pushHead · major arg) (TypeScript.pushHead major arg) := by
  unfold pushHead TypeScript.pushHead
  dsimp only
  by_cases h1 : arg < 24
  · simp only [if_pos h1]
    exact pushByte_appends _
  by_cases h2 : arg ≤ 0xFF
  · simp only [if_neg h1, if_pos h2]
    exact (pushByte_appends _).append (pushByte_appends _)
  by_cases h3 : arg ≤ 0xFFFF
  · simp only [if_neg h1, if_neg h2, if_pos h3]
    exact (pushByte_appends _).append ((pushByte_appends _).append (pushByte_appends _))
  by_cases h4 : arg ≤ 0xFFFFFFFF
  · simp only [if_neg h1, if_neg h2, if_neg h3, if_pos h4]
    exact (pushByte_appends _).append ((pushByte_appends _).append ((pushByte_appends _).append ((pushByte_appends _).append
      (pushByte_appends _))))
  · have hloop : ∀ shifts : List Nat, Appends (fun w => shifts.foldlM (fun w shift => w.pushByte ((arg >>> shift) &&& 0xFF)) w)
        (shifts.map (fun shift => UInt8.ofNat ((arg >>> shift) &&& 0xFF))) := by
      intro shifts
      induction shifts with
      | nil => exact Appends.nil
      | cons shift shifts ih =>
        simp only [List.foldlM_cons]
        exact (pushByte_appends _).append ih
    simp only [if_neg h1, if_neg h2, if_neg h3, if_neg h4]
    exact (pushByte_appends _).append (hloop _)

theorem Writer.writeBignum_appends (n : Nat) : Appends (writeBignum · n) (TypeScript.writeBignum n) := by
  unfold writeBignum TypeScript.writeBignum
  dsimp only
  rw [List.append_assoc]
  exact (pushHead_appends _ _).append ((pushHead_appends _ _).append (pushBytes_appends _))

theorem Writer.writeInteger_appends {n : Int} {bytes : Bytes} (h : TypeScript.writeInteger n = .ok bytes) :
    Appends (writeInteger · n) bytes := by
  unfold TypeScript.writeInteger at h
  unfold writeInteger
  by_cases hn : n ≥ 0
  · by_cases hu : n ≤ 2 ^ 64 - 1
    · simp only [if_pos hn, if_pos hu] at h ⊢
      rw [← Except.ok.inj h]
      exact pushHead_appends _ _
    · simp only [if_pos hn, if_neg hu] at h ⊢
      rw [← Except.ok.inj h]
      exact writeBignum_appends _
  · by_cases hu : -1 - n ≤ 2 ^ 64 - 1
    · simp only [if_neg hn, if_pos hu] at h ⊢
      rw [← Except.ok.inj h]
      exact pushHead_appends _ _
    · simp only [if_neg hn, if_neg hu] at h
      cases h

theorem Writer.writeHalf_appends (bits : Nat) : Appends (writeHalf · bits) (TypeScript.writeHalf bits) :=
  (pushByte_appends _).append ((pushByte_appends _).append (pushByte_appends _))

theorem Writer.writeSingle_appends (x : Double) : Appends (writeSingle · x) (TypeScript.writeSingle x) := by
  have hhead : UInt8.ofNat (7 <<< 5 ||| 26) = 0xFA := by decide
  unfold writeSingle TypeScript.writeSingle
  rw [hhead]
  exact pushBytes_appends _

theorem Writer.writeDouble_appends (x : Double) : Appends (writeDouble · x) (TypeScript.writeDouble x) := by
  have hhead : UInt8.ofNat (7 <<< 5 ||| 27) = 0xFB := by decide
  unfold writeDouble TypeScript.writeDouble
  rw [hhead]
  exact pushBytes_appends _

theorem Writer.writeF32_appends (x : Double) : Appends (writeF32 · x) (TypeScript.writeF32 x) := by
  unfold writeF32 TypeScript.writeF32
  rcases toHalfBitsExact x with - | bits
  · simp only [Option.elim_none]
    exact writeSingle_appends x
  · simp only [Option.elim_some]
    exact writeHalf_appends bits

theorem Writer.writeF64_appends (x : Double) : Appends (writeF64 · x) (TypeScript.writeF64 x) := by
  unfold writeF64 TypeScript.writeF64
  generalize toHalfBitsExact x = half
  generalize (fround x).eq x = single
  rcases half with - | bits
  · rcases single with - | -
    · exact writeDouble_appends x
    · exact writeSingle_appends x
  · exact writeHalf_appends bits

theorem Writer.writeText_appends (s : String) : Appends (writeText · s) (TypeScript.pushHead 3 (utf8 s).length ++ utf8 s) :=
  (pushHead_appends _ _).append (pushBytes_appends _)

/-- What a computation comes to, if its first part came to something. -/
theorem map_ok {ε α β : Type} {r : Except ε α} {f : α → β} {b : β} (h : r.map f = .ok b) : ∃ a, r = .ok a ∧ f a = b := by
  rcases r with e | a
  · cases h
  · exact ⟨a, rfl, Except.ok.inj h⟩

theorem writeItems_cons {x : Value} {xs : List Value} {bytes : Bytes} (h : TypeScript.writeItems (x :: xs) = .ok bytes) :
    ∃ a b, TypeScript.writeValue x = .ok a ∧ TypeScript.writeItems xs = .ok b ∧ bytes = a ++ b := by
  rw [TypeScript.writeItems] at h
  rcases hx : TypeScript.writeValue x with e | a
  · rw [hx] at h
    cases h
  · rw [hx] at h
    rcases hxs : TypeScript.writeItems xs with e | b
    · rw [hxs] at h
      cases h
    · rw [hxs] at h
      exact ⟨a, b, rfl, rfl, (Except.ok.inj h).symm⟩

theorem writeEntries_cons {k : String} {v : Value} {rest : List (String × Value)} {bytes : Bytes}
    (h : TypeScript.writeEntries ((k, v) :: rest) = .ok bytes) :
    ∃ a b, TypeScript.writeValue v = .ok a ∧ TypeScript.writeEntries rest = .ok b ∧
      bytes = TypeScript.pushHead 3 (utf8 k).length ++ utf8 k ++ a ++ b := by
  rw [TypeScript.writeEntries] at h
  rcases hv : TypeScript.writeValue v with e | a
  · rw [hv] at h
    cases h
  · rw [hv] at h
    rcases hrest : TypeScript.writeEntries rest with e | b
    · rw [hrest] at h
      cases h
    · rw [hrest] at h
      exact ⟨a, b, rfl, rfl, (Except.ok.inj h).symm⟩

mutual

/-- The writer comes to hold what the encoder gives. -/
theorem Writer.writeValue_appends : (v : Value) → {bytes : Bytes} → TypeScript.writeValue v = .ok bytes → Appends (writeValue · v) bytes
  | .null, _, h => by
    cases h
    exact pushByte_appends _
  | .undefined, _, h => by
    cases h
    exact pushByte_appends _
  | .boolean b, _, h => by
    cases h
    rcases b with - | -
    · exact pushByte_appends _
    · exact pushByte_appends _
  | .bigint n, _, h => writeInteger_appends h
  | .number x, _, h => by
    unfold TypeScript.writeValue at h
    unfold writeValue
    by_cases hint : isInteger x
    · simp only [if_pos hint] at h ⊢
      exact writeInteger_appends h
    · simp only [if_neg hint] at h ⊢
      rw [← Except.ok.inj h]
      exact writeF64_appends x
  | .string s, _, h => by
    cases h
    exact writeText_appends s
  | .uint8Array bytes, _, h => by
    cases h
    exact (pushHead_appends _ _).append (pushBytes_appends _)
  | .f32 x, _, h => by
    cases h
    exact writeF32_appends x
  | .f64 x, _, h => by
    cases h
    exact writeF64_appends x
  | .array items, _, h => by
    rw [TypeScript.writeValue] at h
    obtain ⟨bytes, hitems, rfl⟩ := map_ok h
    exact (pushHead_appends _ _).append (writeItems_appends items hitems)
  | .map entries, _, h => by
    rw [TypeScript.writeValue] at h
    obtain ⟨bytes, hentries, rfl⟩ := map_ok h
    exact (pushHead_appends _ _).append (writeEntries_appends entries hentries)

theorem Writer.writeItems_appends : (items : List Value) → {bytes : Bytes} → TypeScript.writeItems items = .ok bytes →
    Appends (writeItems · items) bytes
  | [], _, h => by
    cases h
    exact Appends.nil
  | x :: xs, _, h => by
    obtain ⟨a, b, hx, hxs, rfl⟩ := writeItems_cons h
    exact (writeValue_appends x hx).append (writeItems_appends xs hxs)

theorem Writer.writeEntries_appends : (entries : List (String × Value)) → {bytes : Bytes} →
    TypeScript.writeEntries entries = .ok bytes → Appends (writeEntries · entries) bytes
  | [], _, h => by
    cases h
    exact Appends.nil
  | (k, v) :: rest, _, h => by
    obtain ⟨a, b, hv, hrest, rfl⟩ := writeEntries_cons h
    rw [List.append_assoc]
    exact (writeText_appends k).append ((writeValue_appends v hv).append (writeEntries_appends rest hrest))

end

/-- Where the encoder gives bytes that fit, the writer ends with them. -/
theorem Writer.toCbor_eq {v : Value} {bytes : Bytes} (h : TypeScript.toCbor v = .ok bytes) (hroom : bytes.length ≤ maxContents) :
    ∃ array, Writer.toCbor v = .ok array ∧ array.bytes = bytes := by
  obtain ⟨w, hw, hholds⟩ := writeValue_appends v h new [] new_holds (by rwa [List.length_nil, Nat.zero_add])
  refine ⟨w.finish, ?_, hholds.contents⟩
  dsimp only at hw
  unfold toCbor
  rw [hw]
  rfl

end BrainSdk.TypeScript
