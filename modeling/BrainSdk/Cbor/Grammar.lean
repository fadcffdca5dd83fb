import BrainSdk.Cbor.Scan

/-!
# CBOR items of definite length

What a scanner is to measure: the byte strings that are one item, and those that are an item cut off in the argument of its last head,
where that head is a simple value or a float. A scanner that takes the bytes of a float for granted cannot tell the second kind from the
first.
-/

namespace BrainSdk.Cbor

open Library

/-- How many bytes of argument follow an initial byte. -/
def argWidth (ai : Nat) : Nat := if ai < 24 then 0 else 2 ^ (ai - 24)

/-- The bytes of a head: an initial byte, then its argument in full. -/
inductive IsHead : Nat → Nat → Bytes → Prop
  | immediate {ib : UInt8} (h : additionalInfo ib < 24) : IsHead (major ib) (additionalInfo ib) [ib]
  | wide {ib : UInt8} {bs : Bytes} (hl : 24 ≤ additionalInfo ib) (hu : additionalInfo ib ≤ 27)
      (hlen : bs.length = argWidth (additionalInfo ib)) : IsHead (major ib) (fromBytesBE bs) (ib :: bs)

/-- How many bytes of a string follow a head. -/
def contentLength (major arg : Nat) : Nat := if major = 2 ∨ major = 3 then arg else 0

/-- How many items follow a head: the elements of an array, the keys and values of a map, the item of a tag. -/
def arity (major arg : Nat) : Nat := if major = 4 then arg else if major = 5 then 2 * arg else if major = 6 then 1 else 0

/-- A byte string that is one item: a head, the bytes of a string, the items inside. -/
inductive Item : Bytes → Prop
  | mk {major arg : Nat} {head content : Bytes} {items : List Bytes} (hhead : IsHead major arg head)
      (hcontent : content.length = contentLength major arg) (hlen : items.length = arity major arg)
      (hitems : ∀ x ∈ items, Item x) : Item (head ++ content ++ items.flatten)

/-- An item that ends in the argument of its last head, which is a simple value or a float. -/
inductive CutFloat : Bytes → Prop
  | argument {ib : UInt8} {bs : Bytes} (hmajor : major ib = 7) (hl : 24 ≤ additionalInfo ib) (hu : additionalInfo ib ≤ 27)
      (hlen : bs.length < argWidth (additionalInfo ib)) : CutFloat (ib :: bs)
  | last {major arg : Nat} {head cut : Bytes} {items : List Bytes} (hhead : IsHead major arg head)
      (hlen : items.length + 1 = arity major arg) (hitems : ∀ x ∈ items, Item x) (hcut : CutFloat cut) :
      CutFloat (head ++ items.flatten ++ cut)

theorem ok_bind {α : Type} (x : α) (f : α → Except CborError Nat) : (Except.ok x).bind f = f x := rfl

theorem error_bind {α : Type} (e : CborError) (f : α → Except CborError Nat) : (Except.error e).bind f = .error e := rfl

@[simp] theorem arity_array (arg : Nat) : arity 4 arg = arg := if_pos rfl

@[simp] theorem arity_map (arg : Nat) : arity 5 arg = 2 * arg := by simp [arity]

@[simp] theorem arity_tag (arg : Nat) : arity 6 arg = 1 := by simp [arity]

theorem arity_eq_zero {major arg : Nat} (h : major = 2 ∨ major = 3) : arity major arg = 0 := by
  unfold arity
  rcases h with rfl | rfl <;> rfl

theorem contentLength_eq_zero {major arg : Nat} (h : ¬(major = 2 ∨ major = 3)) : contentLength major arg = 0 := if_neg h

theorem IsHead.length_pos {m a : Nat} {head : Bytes} (h : IsHead m a head) : 0 < head.length := by
  rcases h with h | ⟨-, -, -⟩ <;> simp

/-- The bytes of a head determine its argument. -/
theorem IsHead.arg_unique {m m' a a' : Nat} {head : Bytes} (h : IsHead m a head) (h' : IsHead m' a' head) : a = a' := by
  rcases h with h | ⟨hl, -, -⟩
  · rcases h' with h' | ⟨hl', -, -⟩
    · rfl
    · omega
  · rcases h' with h' | ⟨-, -, -⟩
    · omega
    · rfl

theorem IsHead.eq_cons {m a : Nat} {head : Bytes} (h : IsHead m a head) :
    ∃ ib bs, head = ib :: bs ∧ m = major ib ∧ additionalInfo ib ≤ 27 ∧ bs.length = argWidth (additionalInfo ib) := by
  rcases h with @⟨ib, hlt⟩ | @⟨ib, bs, hl, hu, hlen⟩
  · exact ⟨ib, [], rfl, rfl, by omega, (if_pos hlt).symm⟩
  · exact ⟨ib, bs, rfl, rfl, hu, hlen⟩

theorem Item.length_pos {bs : Bytes} (h : Item bs) : 0 < bs.length := by
  obtain ⟨hhead, -, -, -⟩ := h
  have := hhead.length_pos
  simp only [List.length_append]
  omega

/-- There are no more items than bytes. -/
theorem length_le_flatten {items : List Bytes} (h : ∀ x ∈ items, Item x) : items.length ≤ items.flatten.length := by
  induction items with
  | nil => simp
  | cons x items ih =>
    obtain ⟨hx, hitems⟩ := List.forall_mem_cons.1 h
    have hpos := hx.length_pos
    have hle := ih hitems
    simp only [List.length_cons, List.flatten_cons, List.length_append]
    omega

theorem CutFloat.length_pos {bs : Bytes} (h : CutFloat bs) : 0 < bs.length := by
  induction h with
  | argument _ _ _ _ => exact Nat.succ_pos _
  | last hhead _ _ _ _ =>
    have := hhead.length_pos
    simp only [List.length_append]
    omega

/-- A loop over pairs is a loop over twice as many items. -/
theorem each_pair (scan : Nat → Except CborError Nat) (n i : Nat) : each (pair scan) n i = each scan (2 * n) i := by
  induction n generalizing i with
  | zero => rfl
  | succ n ih =>
    have hnext : 2 * (n + 1) = 2 * n + 1 + 1 := by omega
    rw [hnext]
    simp only [each, pair]
    rcases scan i with e | j
    · rfl
    · simp only [Except.bind]
      rcases scan j with e | k
      · rfl
      · exact ih k

theorem each_one (scan : Nat → Except CborError Nat) (i : Nat) : each scan 1 i = scan i := by
  simp only [each]
  rcases scan i with e | j <;> rfl

end BrainSdk.Cbor
