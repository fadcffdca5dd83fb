import BrainSdk.Library.Bytes
import Mathlib.Data.Nat.Bitwise

/-!
# CRC32C (Castagnoli)

The table-driven checksum of `wire/crc32c.py`, over unbounded integers as Python has them. That every value stays below `2 ^ 32`,
which is what lets the frame codec write it in four bytes, is `crc32c_lt`.
-/

namespace BrainSdk.Wire

open Library

/-- `_POLY`: the reflected polynomial. -/
def crcPoly : Nat := 0x82F63B78

/-- One turn of the inner loop of `_build_table`. -/
def crcBit (crc : Nat) : Nat := if crc &&& 1 ≠ 0 then (crc >>> 1) ^^^ crcPoly else crc >>> 1

/-- `_build_table`: entry `n` is `n` after eight turns. -/
def buildTable : List Nat :=
  (List.range 256).map (fun n => (List.range 8).foldl (fun crc _ => crcBit crc) n)

/-- `_TABLE`. -/
def crcTable : List Nat := buildTable

/-- One turn of the loop of `crc32c`. -/
def crcByte (crc : Nat) (byte : UInt8) : Nat := (crc >>> 8) ^^^ crcTable.getD ((crc ^^^ byte.toNat) &&& 0xFF) 0

/-- `crc32c`: the checksum of a byte string. -/
def crc32c (data : Bytes) : Nat := data.foldl crcByte 0xFFFFFFFF ^^^ 0xFFFFFFFF

theorem crcPoly_lt : crcPoly < 2 ^ 32 := by decide

theorem crcBit_lt {crc : Nat} (h : crc < 2 ^ 32) : crcBit crc < 2 ^ 32 := by
  have hs : crc >>> 1 < 2 ^ 32 := lt_of_le_of_lt (Nat.shiftRight_le crc 1) h
  unfold crcBit
  split
  · exact Nat.xor_lt_two_pow hs crcPoly_lt
  · exact hs

theorem foldl_crcBit_lt (turns : List Nat) {crc : Nat} (h : crc < 2 ^ 32) :
    turns.foldl (fun crc _ => crcBit crc) crc < 2 ^ 32 := by
  induction turns generalizing crc with
  | nil => exact h
  | cons _ turns ih => exact ih (crcBit_lt h)

/-- Every entry of the table fits in 32 bits, and so does the default of a lookup outside it. -/
theorem crcTable_getD_lt (i : Nat) : crcTable.getD i 0 < 2 ^ 32 := by
  rw [List.getD_eq_getElem?_getD, crcTable, buildTable, List.getElem?_map]
  cases hi : (List.range 256)[i]? with
  | none => simp
  | some n =>
    have hn : n < 256 := List.mem_range.1 (List.mem_of_getElem? hi)
    exact foldl_crcBit_lt _ (by omega)

theorem crcByte_lt {crc : Nat} (h : crc < 2 ^ 32) (byte : UInt8) : crcByte crc byte < 2 ^ 32 :=
  Nat.xor_lt_two_pow (lt_of_le_of_lt (Nat.shiftRight_le crc 8) h) (crcTable_getD_lt _)

theorem foldl_crcByte_lt (data : Bytes) {crc : Nat} (h : crc < 2 ^ 32) : data.foldl crcByte crc < 2 ^ 32 := by
  induction data generalizing crc with
  | nil => exact h
  | cons b data ih => exact ih (crcByte_lt h b)

/-- The checksum of any byte string fits in four bytes. -/
theorem crc32c_lt (data : Bytes) : crc32c data < 2 ^ 32 :=
  Nat.xor_lt_two_pow (foldl_crcByte_lt data (by decide)) (by decide)

/-- The check vector the source pins the table with. -/
example : crc32c [0x31, 0x32, 0x33, 0x34, 0x35, 0x36, 0x37, 0x38, 0x39] = 0xE3069283 := by decide

end BrainSdk.Wire
