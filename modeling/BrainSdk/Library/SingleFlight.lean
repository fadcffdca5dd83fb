import BrainSdk.Library.Machine

/-!
# Slots that are refreshed

A system keeps a value in each of its slots. A value may go stale, and then a caller fetches a new one and puts it into the slot. What
is seen of such a system, and what it means that the callers of one slot share one fetch.
-/

namespace BrainSdk.Library

/-- What is seen of a state. Slots, values, fetches and callers are numbered. -/
structure SlotView (σ : Type) where
  /-- The value in a slot. -/
  value : σ → Nat → Option Nat
  stale : σ → Nat → Prop
  /-- A fetch for a slot is under way. -/
  fetching : σ → Nat → Nat → Prop
  /-- A fetch for a slot has given a value, which has not been put there yet. -/
  fetched : σ → Nat → Nat → Nat → Prop
  /-- A caller of a slot has been given a value. -/
  returned : σ → Nat → Nat → Nat → Prop
  /-- The slot of the next caller, and the number of the fetch that it may start. -/
  next : σ → Nat
  nextFetch : σ → Nat
  /-- A caller waits for its turn at a slot. -/
  waiting : σ → Nat → Nat → Prop

namespace SlotView

variable {σ α : Type} (V : SlotView σ)

/-- The value of a slot is stale. -/
def Stale (s : σ) (i : Nat) : Prop := ∃ c, V.value s i = some c ∧ V.stale s c

/-- The next caller of slot `i` comes to fetch, by its own steps, when no other waits for its turn. -/
def NextFetches (M : Machine σ α) (own : Nat → α → Prop) (s : σ) (i : Nat) : Prop :=
  V.next s = i → V.Stale s i → (∀ k, ¬V.waiting s k i) →
    ∃ tr t, (∀ a ∈ tr, own (V.nextFetch s) a) ∧ M.exec s tr = some t ∧ V.fetching t (V.nextFetch s) i

/-- The callers of a slot share one fetch, in every run: fetches of one slot do not overlap, they start while its value is stale, a value
is only replaced by what was fetched for its slot and only when it is stale, a fetch that fails changes no value and leaves the slot to
the next caller, and a caller is given a value that was in its slot. -/
structure SingleFlight (M : Machine σ α) (own : Nat → α → Prop) : Prop where
  no_overlap : ∀ {tr s k k' i}, M.Runs tr s → V.fetching s k i → V.fetching s k' i → k = k'
  starts_stale : ∀ {tr s a s' k i}, M.Runs tr s → M.step s a = some s' → V.fetching s' k i → ¬V.fetching s k i → V.Stale s i
  replaced : ∀ {tr s a s' i}, M.Runs tr s → M.step s a = some s' → V.value s' i ≠ V.value s i →
    V.Stale s i ∧ ∃ k c, V.fetched s k i c ∧ V.value s' i = some c
  fetched_fetching : ∀ {tr s a s' k i c}, M.Runs tr s → M.step s a = some s' → V.fetched s' k i c →
    V.fetched s k i c ∨ V.fetching s k i
  failed : ∀ {tr s a s' k i}, M.Runs tr s → M.step s a = some s' → V.fetching s k i → ¬V.fetching s' k i →
    (∃ c, V.fetched s' k i c) ∨ (V.value s' = V.value s ∧ V.NextFetches M own s' i)
  returned_value : ∀ {tr s k i c}, M.Runs tr s → V.returned s k i c → M.Was (fun t => V.value t i = some c) tr

end SlotView

end BrainSdk.Library
