import BrainSdk.Cbor.Grammar

/-!
# Well-formed CBOR

The data items of RFC 8949, with every width of argument and both ways to end a string, an array or a map, and how deep they nest: the
elements of an array or a map, the content of a tag and the chunks of a string are one level down.
-/

namespace BrainSdk.Cbor

open Library

/-- The break that ends what has no length. -/
def breakByte : UInt8 := 0xFF

/-- A string of a definite length. -/
inductive IsString (m : Nat) : Bytes → Prop
  | mk {arg : Nat} {head content : Bytes} (hhead : IsHead m arg head) (hcontent : content.length = arg) : IsString m (head ++ content)

/-- A byte string that is one well-formed item, of at most `n` levels below its own. -/
inductive WellFormed : Nat → Bytes → Prop
  | integer {n m arg : Nat} {head : Bytes} (hm : m = 0 ∨ m = 1) (hhead : IsHead m arg head) : WellFormed n head
  /-- a simple value or a float; the short simple values are not written with another byte -/
  | simple {n arg : Nat} {head : Bytes} (hhead : IsHead 7 arg head) (hshort : head.length = 2 → 32 ≤ arg) : WellFormed n head
  | string {n m : Nat} {x : Bytes} (hm : m = 2 ∨ m = 3) (hx : IsString m x) : WellFormed n x
  /-- a string in chunks of its own kind -/
  | chunks {n m : Nat} {ib : UInt8} {chunks : List Bytes} (hm : m = 2 ∨ m = 3) (hmajor : major ib = m) (hai : additionalInfo ib = 31)
      (hlevel : chunks ≠ [] → 0 < n) (hchunks : ∀ x ∈ chunks, IsString m x) : WellFormed n (ib :: (chunks.flatten ++ [breakByte]))
  /-- an array or a map of a definite length, or a tag -/
  | group {n m arg : Nat} {head : Bytes} {items : List Bytes} (hm : m = 4 ∨ m = 5 ∨ m = 6) (hhead : IsHead m arg head)
      (hlen : items.length = arity m arg) (hlevel : items ≠ [] → 0 < n) (hitems : ∀ x ∈ items, WellFormed (n - 1) x) :
      WellFormed n (head ++ items.flatten)
  | indefiniteArray {n : Nat} {ib : UInt8} {items : List Bytes} (hmajor : major ib = 4) (hai : additionalInfo ib = 31)
      (hlevel : items ≠ [] → 0 < n) (hitems : ∀ x ∈ items, WellFormed (n - 1) x) : WellFormed n (ib :: (items.flatten ++ [breakByte]))
  | indefiniteMap {n : Nat} {ib : UInt8} {entries : List (Bytes × Bytes)} (hmajor : major ib = 5) (hai : additionalInfo ib = 31)
      (hlevel : entries ≠ [] → 0 < n) (hkeys : ∀ e ∈ entries, WellFormed (n - 1) e.1)
      (hvalues : ∀ e ∈ entries, WellFormed (n - 1) e.2) :
      WellFormed n (ib :: ((entries.map (fun e => e.1 ++ e.2)).flatten ++ [breakByte]))

/-- What begins an item is not the break. -/
def StartsItem (x : Bytes) : Prop := ∃ b bs, x = b :: bs ∧ b ≠ breakByte

theorem StartsItem.append {x : Bytes} (h : StartsItem x) (y : Bytes) : StartsItem (x ++ y) := by
  obtain ⟨b, bs, rfl, hb⟩ := h
  exact ⟨b, bs ++ y, rfl, hb⟩

theorem IsHead.starts {m a : Nat} {head : Bytes} (h : IsHead m a head) : StartsItem head := by
  obtain ⟨ib, bs, rfl, -, h27, -⟩ := h.eq_cons
  refine ⟨ib, bs, rfl, ?_⟩
  rintro rfl
  exact absurd h27 (by decide)

theorem IsString.starts {m : Nat} {x : Bytes} (h : IsString m x) : StartsItem x := by
  obtain ⟨hhead, -⟩ := h
  exact hhead.starts.append _

theorem starts_of_major {ib : UInt8} (h : major ib ≠ 7) (bs : Bytes) : StartsItem (ib :: bs) := by
  refine ⟨ib, bs, rfl, ?_⟩
  rintro rfl
  exact h (by decide)

theorem WellFormed.starts {n : Nat} {x : Bytes} (h : WellFormed n x) : StartsItem x := by
  cases h with
  | integer _ hhead => exact hhead.starts
  | simple hhead _ => exact hhead.starts
  | string _ hx => exact hx.starts
  | chunks hm hmajor _ _ _ => exact starts_of_major (by omega) _
  | group _ hhead _ _ _ => exact hhead.starts.append _
  | indefiniteArray hmajor _ _ _ => exact starts_of_major (by omega) _
  | indefiniteMap hmajor _ _ _ _ => exact starts_of_major (by omega) _

end BrainSdk.Cbor
