import Mathlib.Tactic.Ring
import Mathlib.Data.List.Basic
import Mathlib.Data.List.Induction

/-!
# Bytes

Byte strings as lists of `UInt8`, unsigned big-endian integers of a fixed width, and the two slice operations a header is built and
read with: `slice` reads `bs[a:b]`, `setSlice` overwrites the bytes from an offset on.
-/

namespace BrainSdk.Library

/-- A byte string. -/
abbrev Bytes : Type := List UInt8

/-- The `w` big-endian bytes of `n`; what does not fit in `w` bytes is cut off. -/
def toBytesBE : Nat → Nat → Bytes
  | 0, _ => []
  | w + 1, n => toBytesBE w (n / 256) ++ [UInt8.ofNat n]

/-- The unsigned integer a byte string spells, big-endian. -/
def fromBytesBE (bs : Bytes) : Nat := bs.foldl (fun acc b => acc * 256 + b.toNat) 0

/-- The bytes of `bs` from offset `a` up to, not including, offset `b`. -/
def slice (bs : Bytes) (a b : Nat) : Bytes := (bs.take b).drop a

/-- `bs` with the bytes from offset `a` on overwritten by `new`. -/
def setSlice (bs : Bytes) (a : Nat) (new : Bytes) : Bytes := bs.take a ++ new ++ bs.drop (a + new.length)

theorem fromBytesBE_snoc (bs : Bytes) (b : UInt8) : fromBytesBE (bs ++ [b]) = fromBytesBE bs * 256 + b.toNat := by
  simp [fromBytesBE]

theorem length_toBytesBE (w n : Nat) : (toBytesBE w n).length = w := by
  induction w generalizing n with
  | zero => rfl
  | succ w ih => rw [toBytesBE, List.length_append, ih, List.length_singleton]

/-- Reading back the big-endian bytes of `n` gives `n` modulo what the width holds. -/
theorem fromBytesBE_toBytesBE (w n : Nat) : fromBytesBE (toBytesBE w n) = n % 256 ^ w := by
  induction w generalizing n with
  | zero => simp [toBytesBE, fromBytesBE, Nat.mod_one]
  | succ w ih =>
    have hb : (UInt8.ofNat n).toNat = n % 256 := UInt8.toNat_ofNat'
    rw [toBytesBE, fromBytesBE_snoc, ih, hb, pow_succ', Nat.mod_mul]
    ring

/-- An integer that fits in the width is read back unchanged. -/
theorem fromBytesBE_toBytesBE_of_lt {w n : Nat} (h : n < 256 ^ w) : fromBytesBE (toBytesBE w n) = n := by
  rw [fromBytesBE_toBytesBE, Nat.mod_eq_of_lt h]

/-- What a byte string spells fits in its length. -/
theorem fromBytesBE_lt (bs : Bytes) : fromBytesBE bs < 256 ^ bs.length := by
  induction bs using List.reverseRecOn with
  | nil => simp [fromBytesBE]
  | append_singleton bs b ih =>
    have hb := b.toNat_lt
    rw [fromBytesBE_snoc, List.length_append, List.length_singleton, pow_succ]
    omega

/-- The big-endian bytes of what a byte string spells are the string. -/
theorem toBytesBE_fromBytesBE (bs : Bytes) : toBytesBE bs.length (fromBytesBE bs) = bs := by
  induction bs using List.reverseRecOn with
  | nil => rfl
  | append_singleton bs b ih =>
    have hb := b.toNat_lt
    have hdiv : (fromBytesBE bs * 256 + b.toNat) / 256 = fromBytesBE bs := by omega
    have hmod : UInt8.ofNat (fromBytesBE bs * 256 + b.toNat) = b := by
      apply UInt8.toNat_inj.1
      rw [UInt8.toNat_ofNat']
      omega
    rw [fromBytesBE_snoc, List.length_append, List.length_singleton, toBytesBE, hdiv, ih, hmod]

/-- Two slices end to end. -/
theorem slice_append (bs : Bytes) {a b c : Nat} (hab : a ≤ b) (hbc : b ≤ c) : slice bs a b ++ slice bs b c = slice bs a c := by
  unfold slice
  have htake : bs.take b = (bs.take c).take b := by rw [List.take_take, Nat.min_eq_left hbc]
  rw [htake]
  generalize bs.take c = l
  conv_rhs => rw [← List.take_append_drop b l]
  rw [List.drop_append]
  by_cases hb : b ≤ l.length
  · have hlen : (l.take b).length = b := List.length_take_of_le hb
    rw [hlen, Nat.sub_eq_zero_of_le hab, List.drop_zero]
  · rw [List.drop_eq_nil_of_le (by omega : l.length ≤ b), List.drop_nil]

theorem slice_succ {bs : Bytes} {a : Nat} (h : a < bs.length) : slice bs a (a + 1) = [bs.getD a 0] := by
  unfold slice
  have hget : bs.getD a 0 = bs[a] := by rw [List.getD_eq_getElem?_getD, List.getElem?_eq_getElem h, Option.getD_some]
  rw [hget, List.take_succ_eq_append_getElem h, List.drop_left' (List.length_take_of_le (by omega))]

/-- A slice one byte longer spells one byte more. -/
theorem fromBytesBE_slice_succ {bs : Bytes} {a b : Nat} (hab : a ≤ b) (h : b < bs.length) :
    fromBytesBE (slice bs a (b + 1)) = fromBytesBE (slice bs a b) * 256 + (bs.getD b 0).toNat := by
  rw [← slice_append bs hab (Nat.le_succ b), slice_succ h, fromBytesBE_snoc]

theorem slice_self (bs : Bytes) (a : Nat) : slice bs a a = [] := by
  unfold slice
  exact List.drop_eq_nil_of_le (List.length_take_le a bs)

theorem drop_eq_slice_append (bs : Bytes) {a b : Nat} (hab : a ≤ b) : bs.drop a = slice bs a b ++ bs.drop b := by
  unfold slice
  conv_lhs => rw [← List.take_append_drop b bs]
  rw [List.drop_append]
  by_cases hb : b ≤ bs.length
  · rw [List.length_take_of_le hb, Nat.sub_eq_zero_of_le hab, List.drop_zero]
  · rw [List.drop_eq_nil_of_le (by omega : bs.length ≤ b), List.drop_nil]

theorem slice_length {bs : Bytes} {a b : Nat} (h : b ≤ bs.length) : (slice bs a b).length = b - a := by
  unfold slice
  rw [List.length_drop, List.length_take_of_le h]

/-- The UTF-8 bytes of a string. -/
def utf8 (s : String) : Bytes := s.toUTF8.data.toList

/-- The UTF-8 bytes of a string are those of its characters, one after the other. -/
theorem utf8_eq_flatMap (s : String) : utf8 s = s.toList.flatMap String.utf8EncodeChar := by
  unfold utf8
  rw [String.toUTF8_eq_toByteArray, ← String.utf8Encode_toList, List.utf8Encode, List.toList_data_toByteArray]

/-- Two strings with the same UTF-8 bytes are the same. -/
theorem utf8_injective : Function.Injective utf8 := by
  intro s t h
  have hbytes : s.toByteArray = t.toByteArray := ByteArray.ext (Array.toList_inj.1 h)
  exact String.toByteArray_inj.1 hbytes

end BrainSdk.Library
