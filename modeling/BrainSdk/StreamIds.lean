import Mathlib.Tactic.Ring
import Mathlib.Data.UInt

/-!
# Stream-id allocation

The three allocators: `_take_stream_id` of `mux.py`, `takeStreamId` of `mux.ts` and `alloc_stream_id` of `mux.rs`. Each hands out
the value of a counter that starts at 1 and steps by 2; the first two wrap to 1 past `0xFFFFFFFF`, the third adds in `u32`. All
three hand out `idAt n` as their `n`-th id, counted from 0.
-/

namespace BrainSdk

/-- What `_take_stream_id` of `mux.py` leaves in `_next_stream_id`. -/
def Python.nextStreamIdAfter (n : Nat) : Nat := if n + 2 ≤ 0xFFFFFFFF then n + 2 else 1

/-- What `takeStreamId` of `mux.ts` leaves in `nextStreamId`. -/
def TypeScript.nextStreamIdAfter (n : Nat) : Nat := if n + 2 > 0xFFFFFFFF then 1 else n + 2

/-- What `fetch_add(2)` on the `AtomicU32` of `mux.rs` leaves in `next_stream_id`. -/
def Rust.nextStreamIdAfter (n : UInt32) : UInt32 := n + 2

/-- The `n`-th id handed out, counted from 0: the odd numbers below `2 ^ 32` in order, and again from 1. -/
def idAt (n : Nat) : Nat := 2 * (n % 2 ^ 31) + 1

theorem idAt_odd (n : Nat) : idAt n % 2 = 1 := by
  unfold idAt
  omega

theorem idAt_range (n : Nat) : 1 ≤ idAt n ∧ idAt n ≤ 2 ^ 32 - 1 := by
  unfold idAt
  omega

theorem idAt_ne_zero (n : Nat) : idAt n ≠ 0 := by
  unfold idAt
  omega

/-- Two turns of the counter give the same id exactly when they are a multiple of `2 ^ 31` apart. -/
theorem idAt_eq_iff (m n : Nat) : idAt m = idAt n ↔ m % 2 ^ 31 = n % 2 ^ 31 := by
  unfold idAt
  omega

/-- Within the first `2 ^ 31` turns no id comes twice. -/
theorem idAt_inj {m n : Nat} (hm : m < 2 ^ 31) (hn : n < 2 ^ 31) (h : idAt m = idAt n) : m = n := by
  have := (idAt_eq_iff m n).1 h
  omega

theorem Python.nextStreamIdAfter_idAt (n : Nat) : Python.nextStreamIdAfter (idAt n) = idAt (n + 1) := by
  unfold Python.nextStreamIdAfter idAt
  split <;> omega

theorem TypeScript.nextStreamIdAfter_idAt (n : Nat) : TypeScript.nextStreamIdAfter (idAt n) = idAt (n + 1) := by
  unfold TypeScript.nextStreamIdAfter idAt
  split <;> omega

theorem Rust.nextStreamIdAfter_idAt {i : UInt32} {n : Nat} (h : i.toNat = idAt n) :
    (Rust.nextStreamIdAfter i).toNat = idAt (n + 1) := by
  have hadd : (Rust.nextStreamIdAfter i).toNat = (i.toNat + 2) % 2 ^ 32 := UInt32.toNat_add i 2
  rw [hadd, h]
  unfold idAt
  omega

end BrainSdk
