import BrainSdk.Library.Crc
import BrainSdk.Wire.Crc32c

/-!
# The table and the turns

An entry of the table is eight turns of its index, so a look-up is the turns of one byte and the checksum is a run of them.
-/

namespace BrainSdk.Wire

open Library Crc

theorem crcBit_eq_turn : crcBit = turn crcPoly := by
  funext crc
  unfold crcBit turn
  rw [Nat.testBit_zero, Nat.and_one_is_mod]
  rcases Nat.mod_two_eq_zero_or_one crc with h | h <;> rw [h] <;> rfl

theorem crcTable_getD {n : Nat} (hn : n < 256) : crcTable.getD n 0 = (turn crcPoly)^[8] n := by
  have hget : (List.range 256)[n]? = some n := List.getElem?_range hn
  rw [List.getD_eq_getElem?_getD, crcTable, buildTable, List.getElem?_map, hget, ← crcBit_eq_turn]
  rfl

/-- A number is its low byte and what is above it. -/
theorem eq_low_xor_high (v : Nat) : v = (v &&& 0xFF) ^^^ ((v >>> 8) <<< 8) := by
  apply Nat.eq_of_testBit_eq
  intro i
  have hmask : (0xFF : Nat) = 2 ^ 8 - 1 := rfl
  rw [Nat.testBit_xor, Nat.testBit_and, Nat.testBit_shiftLeft, Nat.testBit_shiftRight, hmask, Nat.testBit_two_pow_sub_one]
  rcases Nat.lt_or_ge i 8 with hlt | hge
  · simp [hlt, Nat.not_le_of_lt hlt]
  · simp [hge, Nat.not_lt_of_le hge]

/-- A look-up in the table is the turns of a byte. -/
theorem crcByte_eq_byteTurns : crcByte = byteTurns crcPoly := by
  funext crc byte
  have hlow : (crc ^^^ byte.toNat) &&& 0xFF < 256 := Nat.lt_succ_of_le Nat.and_le_right
  have hbyte : byte.toNat >>> 8 = 0 := by
    rw [Nat.shiftRight_eq_div_pow]
    exact Nat.div_eq_of_lt byte.toNat_lt
  have hhigh : (crc ^^^ byte.toNat) >>> 8 = crc >>> 8 := by rw [Nat.shiftRight_xor_distrib, hbyte, Nat.xor_zero]
  unfold crcByte byteTurns
  rw [crcTable_getD hlow]
  conv_rhs => rw [eq_low_xor_high (crc ^^^ byte.toNat)]
  rw [iterate_turn_xor, iterate_turn_shiftLeft, hhigh, Nat.xor_comm]

theorem crcPoly_testBit : crcPoly.testBit 31 = true := by decide

/-- A checksum tells apart two messages of one length that differ in a burst of at most 32 bits. -/
theorem crc32c_ne_of_burst {bs bs' : Bytes} (hlen : bs'.length = bs.length) {e k : Nat} (he : e ≠ 0) (hburst : e < 2 ^ 32)
    (hdiff : messageBits bs ^^^ messageBits bs' = e <<< k) : crc32c bs' ≠ crc32c bs := by
  unfold crc32c
  rw [crcByte_eq_byteTurns]
  intro h
  exact foldl_ne_of_burst crcPoly_lt crcPoly_testBit hlen he hburst hdiff 0xFFFFFFFF (Nat.xor_left_injective h)

end BrainSdk.Wire
