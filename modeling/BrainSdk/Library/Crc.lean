import BrainSdk.Library.Bytes
import Mathlib.Data.Nat.Bitwise
import Mathlib.Logic.Function.Iterate

/-!
# Reflected cyclic redundancy checks

A turn of a reflected CRC shifts its state one bit down and, when the bit that leaves is set, adds the polynomial. The state and the
message are numbers, the bits of the message least significant first in each byte, so the whole message can be added to the state before
the first turn: what has not come down yet is only shifted. A turn is linear, and one-to-one where the polynomial has the top bit of the
state, and these two facts are all there is to the detection of bursts.
-/

namespace BrainSdk.Library.Crc

/-- One turn. -/
def turn (poly s : Nat) : Nat := if s.testBit 0 then (s >>> 1) ^^^ poly else s >>> 1

/-- The turns of one byte, which is added to the state before them. -/
def byteTurns (poly s : Nat) (b : UInt8) : Nat := (turn poly)^[8] (s ^^^ b.toNat)

/-- The bits of a byte, least significant first. -/
def byteBits (b : UInt8) : List Bool := (List.range 8).map b.toNat.testBit

/-- The turn of one bit, which is added to the state before it. -/
def bitTurn (poly s : Nat) (bit : Bool) : Nat := turn poly (s ^^^ bit.toNat)

/-- The first `w` bits of a polynomial, in the other order. -/
def reflect (w poly : Nat) : Nat := (List.range w).foldl (fun r i => 2 * r + (poly.testBit i).toNat) 0

/-- A reflected CRC of width `w`, one bit of the message after the other. -/
def bitwise (w poly init out : Nat) (bs : Bytes) : Nat := (bs.flatMap byteBits).foldl (bitTurn (reflect w poly)) init ^^^ out

/-- A message as a number: its bits, least significant first in each byte. -/
def messageBits : Bytes → Nat
  | [] => 0
  | b :: bs => b.toNat ^^^ (messageBits bs <<< 8)

/-! ### Messages -/

theorem messageBits_lt (bs : Bytes) : messageBits bs < 2 ^ (8 * bs.length) := by
  induction bs with
  | nil => exact Nat.one_pos
  | cons b bs ih =>
    have hpow : 2 ^ (8 * (b :: bs).length) = 2 ^ (8 * bs.length) * 2 ^ 8 := by
      rw [← Nat.pow_add]
      rfl
    have hpos := Nat.two_pow_pos (8 * bs.length)
    rw [messageBits]
    apply Nat.xor_lt_two_pow
    · refine Nat.lt_of_lt_of_le b.toNat_lt ?_
      rw [hpow]
      exact Nat.le_mul_of_pos_left _ hpos
    · rw [Nat.shiftLeft_eq, hpow]
      exact Nat.mul_lt_mul_of_pos_right ih (by decide)

theorem xor_cancel (a b c d : Nat) : a ^^^ b ^^^ (c ^^^ d) = a ^^^ c ^^^ (b ^^^ d) := by
  rw [Nat.xor_assoc, Nat.xor_assoc, ← Nat.xor_assoc b c d, ← Nat.xor_assoc c b d, Nat.xor_comm b c]

/-- A byte that changes adds its change to the message, at its place. -/
theorem messageBits_set {bs : Bytes} {i : Nat} (hi : i < bs.length) (b : UInt8) :
    messageBits (bs.set i b) = messageBits bs ^^^ (((bs.getD i 0).toNat ^^^ b.toNat) <<< (8 * i)) := by
  induction bs generalizing i with
  | nil => exact absurd hi (Nat.not_lt_zero i)
  | cons a bs ih =>
    cases i with
    | zero =>
      rw [List.set_cons_zero, messageBits, messageBits, List.getD_cons_zero, Nat.mul_zero, Nat.shiftLeft_zero, Nat.xor_comm a.toNat,
        Nat.xor_assoc, ← Nat.xor_assoc a.toNat, Nat.xor_self, Nat.zero_xor, Nat.xor_comm]
    | succ i =>
      have hplace : 8 * (i + 1) = 8 * i + 8 := by omega
      rw [List.set_cons_succ, messageBits, messageBits, List.getD_cons_succ, ih (Nat.lt_of_succ_lt_succ hi), Nat.shiftLeft_xor_distrib,
        ← Nat.shiftLeft_add, hplace, Nat.xor_assoc]

/-! ### Turns -/

variable {poly : Nat}

/-- A turn is linear. -/
theorem turn_xor (a b : Nat) : turn poly (a ^^^ b) = turn poly a ^^^ turn poly b := by
  unfold turn
  rw [Nat.testBit_xor, Nat.shiftRight_xor_distrib]
  cases a.testBit 0 with
  | false =>
    cases b.testBit 0 with
    | false => simp
    | true => simp [Nat.xor_assoc]
  | true =>
    cases b.testBit 0 with
    | false => simp [Nat.xor_assoc, Nat.xor_comm poly]
    | true =>
      have hcancel : (a >>> 1 ^^^ poly) ^^^ (b >>> 1 ^^^ poly) = a >>> 1 ^^^ b >>> 1 := by
        rw [xor_cancel, Nat.xor_self, Nat.xor_zero]
      simp [hcancel]

theorem iterate_turn_xor (n a b : Nat) : (turn poly)^[n] (a ^^^ b) = (turn poly)^[n] a ^^^ (turn poly)^[n] b := by
  induction n generalizing a b with
  | zero => rfl
  | succ n ih => rw [Function.iterate_succ_apply, Function.iterate_succ_apply, Function.iterate_succ_apply, turn_xor, ih]

/-- A turn of an even number is a shift. -/
theorem turn_shiftLeft (s k : Nat) : turn poly (s <<< (k + 1)) = s <<< k := by
  have hlow : (s <<< (k + 1)).testBit 0 = false := by simp
  have hpow : (0 : Nat) < 2 ^ 1 := by decide
  unfold turn
  rw [hlow, if_neg (by decide), Nat.shiftLeft_eq, Nat.shiftLeft_eq, Nat.shiftRight_eq_div_pow, Nat.pow_succ, ← Nat.mul_assoc]
  exact Nat.mul_div_cancel _ hpow

theorem iterate_turn_shiftLeft (s k : Nat) : (turn poly)^[k] (s <<< k) = s := by
  induction k with
  | zero => exact Nat.shiftLeft_zero
  | succ k ih => rw [Function.iterate_succ_apply, turn_shiftLeft, ih]

/-- The turns of the bytes of a message are as many turns of the state with the whole message added. -/
theorem foldl_byteTurns (s : Nat) (bs : Bytes) :
    bs.foldl (byteTurns poly) s = (turn poly)^[8 * bs.length] (s ^^^ messageBits bs) := by
  induction bs generalizing s with
  | nil => simp [messageBits]
  | cons b bs ih =>
    have hsplit : 8 * (b :: bs).length = 8 * bs.length + 8 := by
      rw [List.length_cons]
      omega
    have hfirst : (turn poly)^[8] (s ^^^ messageBits (b :: bs)) = byteTurns poly s b ^^^ messageBits bs := by
      rw [messageBits, ← Nat.xor_assoc, iterate_turn_xor, iterate_turn_shiftLeft]
      rfl
    rw [List.foldl_cons, ih, hsplit, Function.iterate_add_apply, hfirst]

theorem mod_two_pow_succ (v n : Nat) : v % 2 ^ (n + 1) = v % 2 ^ n ^^^ ((v.testBit n).toNat <<< n) := by
  apply Nat.eq_of_testBit_eq
  intro i
  rw [Nat.testBit_xor, Nat.testBit_mod_two_pow, Nat.testBit_mod_two_pow, Nat.testBit_shiftLeft]
  rcases Nat.lt_trichotomy i n with hlt | rfl | hgt
  · simp [hlt, Nat.lt_succ_of_lt hlt, Nat.not_le_of_lt hlt]
  · cases h : v.testBit i <;> simp
  · have hbit : ∀ b : Bool, b.toNat.testBit (i - n) = false := by
      have hpos : i - n ≠ 0 := Nat.sub_ne_zero_of_lt hgt
      intro b
      exact Nat.testBit_lt_two_pow (Nat.lt_of_le_of_lt b.toNat_le (Nat.one_lt_two_pow hpos))
    simp [Nat.not_lt_of_lt hgt, Nat.not_lt_of_le (Nat.succ_le_of_lt hgt), hbit]

/-- The turns of the low bits of a number are as many turns of the state with these bits added at once. -/
theorem foldl_bitTurn (s v n : Nat) :
    ((List.range n).map v.testBit).foldl (bitTurn poly) s = (turn poly)^[n] (s ^^^ v % 2 ^ n) := by
  induction n with
  | zero => simp [Nat.mod_one]
  | succ n ih =>
    have hbit : (turn poly)^[n] ((v.testBit n).toNat <<< n) = (v.testBit n).toNat := iterate_turn_shiftLeft _ n
    rw [List.range_succ, List.map_append, List.foldl_append, ih, mod_two_pow_succ, ← Nat.xor_assoc, Function.iterate_succ_apply',
      iterate_turn_xor n (s ^^^ v % 2 ^ n), hbit]
    rfl

/-- The turns of a byte, bit after bit. -/
theorem foldl_byteBits (s : Nat) (b : UInt8) : (byteBits b).foldl (bitTurn poly) s = byteTurns poly s b := by
  have hbyte : b.toNat % 2 ^ 8 = b.toNat := Nat.mod_eq_of_lt b.toNat_lt
  rw [byteBits, foldl_bitTurn, hbyte, byteTurns]

/-- The turns of a message, bit after bit, are those of its bytes. -/
theorem foldl_flatMap_byteBits (s : Nat) (bs : Bytes) :
    (bs.flatMap byteBits).foldl (bitTurn poly) s = bs.foldl (byteTurns poly) s := by
  induction bs generalizing s with
  | nil => rfl
  | cons b bs ih => rw [List.flatMap_cons, List.foldl_append, foldl_byteBits, ih, List.foldl_cons]

/-- Where the polynomial has the top bit of the state, a turn loses nothing. -/
theorem turn_ne_zero {w s : Nat} (hpoly : poly.testBit w = true) (hs : s < 2 ^ (w + 1)) (hne : s ≠ 0) : turn poly s ≠ 0 := by
  have hshift : s >>> 1 < 2 ^ w := by
    rw [Nat.shiftRight_eq_div_pow, Nat.div_lt_iff_lt_mul (by decide), ← Nat.pow_succ]
    exact hs
  unfold turn
  split
  · intro h
    have htop := congrArg (fun n => n.testBit w) h
    simp [Nat.testBit_xor, Nat.testBit_lt_two_pow hshift, hpoly] at htop
  · rename_i hlow
    intro h
    rw [Nat.shiftRight_eq_div_pow] at h
    rw [Nat.testBit_zero] at hlow
    simp only [decide_eq_true_eq] at hlow
    omega

theorem turn_lt {w s : Nat} (hpoly : poly < 2 ^ (w + 1)) (hs : s < 2 ^ (w + 1)) : turn poly s < 2 ^ (w + 1) := by
  have hshift : s >>> 1 < 2 ^ (w + 1) := Nat.lt_of_le_of_lt (Nat.shiftRight_le s 1) hs
  unfold turn
  split
  · exact Nat.xor_lt_two_pow hshift hpoly
  · exact hshift

theorem iterate_turn_ne_zero {w : Nat} (hpoly : poly < 2 ^ (w + 1)) (htop : poly.testBit w = true) (n : Nat) {s : Nat}
    (hs : s < 2 ^ (w + 1)) (hne : s ≠ 0) : (turn poly)^[n] s ≠ 0 := by
  induction n generalizing s with
  | zero => exact hne
  | succ n ih =>
    rw [Function.iterate_succ_apply]
    exact ih (turn_lt hpoly hs) (turn_ne_zero htop hs hne)

/-- Two messages of one length that differ in a burst no longer than the state leave different states. -/
theorem foldl_ne_of_burst {w : Nat} (hpoly : poly < 2 ^ (w + 1)) (htop : poly.testBit w = true) {bs bs' : Bytes}
    (hlen : bs'.length = bs.length) {e k : Nat} (he : e ≠ 0) (hburst : e < 2 ^ (w + 1))
    (hdiff : messageBits bs ^^^ messageBits bs' = e <<< k) (s : Nat) : bs'.foldl (byteTurns poly) s ≠ bs.foldl (byteTurns poly) s := by
  have hk : k ≤ 8 * bs.length := by
    by_contra hlt
    have hbound := Nat.xor_lt_two_pow (messageBits_lt bs) (hlen ▸ messageBits_lt bs')
    have hge : 2 ^ k ≤ e <<< k := by
      rw [Nat.shiftLeft_eq]
      exact Nat.le_mul_of_pos_left _ (Nat.pos_of_ne_zero he)
    have hpow : 2 ^ (8 * bs.length) ≤ 2 ^ k := Nat.pow_le_pow_right (by decide) (by omega)
    rw [hdiff] at hbound
    omega
  have herror : (turn poly)^[8 * bs.length] (e <<< k) ≠ 0 := by
    rw [← Nat.sub_add_cancel hk, Function.iterate_add_apply, iterate_turn_shiftLeft]
    exact iterate_turn_ne_zero hpoly htop _ hburst he
  intro h
  rw [foldl_byteTurns, foldl_byteTurns, hlen] at h
  refine herror ?_
  have hsum : (s ^^^ messageBits bs) ^^^ (s ^^^ messageBits bs') = e <<< k := by rw [xor_cancel, Nat.xor_self, Nat.zero_xor, hdiff]
  rw [← hsum, iterate_turn_xor, h, Nat.xor_self]

end BrainSdk.Library.Crc
