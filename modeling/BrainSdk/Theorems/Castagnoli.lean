import BrainSdk.TypeScript.FrameLemmas
import BrainSdk.Wire.CrcLemmas

/-!
# The checksum is the Castagnoli CRC

`wire/crc32c.py` and `wire/crc32c.ts` look a byte up in a table. Both compute the reflected CRC of the Castagnoli polynomial, which takes
the message in bit after bit.
-/

namespace BrainSdk

open Library

/-- CRC32C bit after bit: polynomial `0x1EDC6F41`, reflected, with `0xFFFFFFFF` at the start and added at the end. -/
def castagnoli (data : Bytes) : Nat := Crc.bitwise 32 0x1EDC6F41 0xFFFFFFFF 0xFFFFFFFF data

/-- `_POLY` is the Castagnoli polynomial reflected. -/
theorem crcPoly_eq_reflect : Wire.crcPoly = Crc.reflect 32 0x1EDC6F41 := by decide

/-- The look-ups of a message are its bits, one after the other. -/
theorem wire_crc32c_eq (data : Bytes) : Wire.crc32c data = castagnoli data := by
  rw [Wire.crc32c, Wire.crcByte_eq_byteTurns, castagnoli, Crc.bitwise, Crc.foldl_flatMap_byteBits, crcPoly_eq_reflect]

/-- Both SDKs compute the Castagnoli CRC of every byte string, an unsigned 32-bit integer that is 0 for the empty one. -/
theorem crc32c_is_castagnoli (data : Bytes) :
    Wire.crc32c data = castagnoli data ∧ TypeScript.crc32c data = (castagnoli data : Int) ∧
      TypeScript.crc32c data = (Wire.crc32c data : Int) ∧ castagnoli data ≤ 2 ^ 32 - 1 ∧
      Wire.crc32c [] = 0 ∧ TypeScript.crc32c [] = 0 := by
  have hwire := wire_crc32c_eq data
  have hscript := TypeScript.crc32c_eq data
  have hlt := Wire.crc32c_lt data
  refine ⟨hwire, ?_, hscript, ?_, by decide, by decide⟩
  · rw [hscript, hwire]
  · rw [← hwire]
    exact Nat.le_pred_of_lt hlt

end BrainSdk
