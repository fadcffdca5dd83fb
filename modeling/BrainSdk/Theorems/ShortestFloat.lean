import BrainSdk.Theorems.FloatWidth

/-!
# The shortest float of the Python encoder

Wherever it returns, the encoder writes the narrowest encoding. It returns for every finite double that single precision can round to a
finite number; past these the pack that is not guarded raises.
-/

namespace BrainSdk.Python

open Library Format Cbor

theorem shortest_overflow {x : Double} (hx : x.isFinite) (hover : OverSingle x) :
    ∃ e, shortestFloatBytes x = .error e := by
  have hhalf : ¬binary16.Has x.magnitude := fun hhas => not_overSingle_of_hasHalf hhas hover
  obtain ⟨e, he⟩ := single_overflow (Nat.le_of_not_lt (fun h => round32_lt_iff.1 h hover))
  refine ⟨e, ?_⟩
  rw [shortest_wide hx hhalf, he]

theorem shortest_narrowest {x : Double} (hx : x.isFinite) (hover : ¬OverSingle x) :
    ∃ bytes, shortestFloatBytes x = .ok bytes ∧ Narrowest x bytes := by
  by_cases hhalf : binary16.Has x.magnitude
  · obtain ⟨hlt, heq⟩ := narrow_binary16.widen_round hhalf
    exact ⟨_, shortest_half hx hhalf, .half hlt heq⟩
  · have hnoHalf : ∀ b < 2 * binary16.signBit, widen binary16 b ≠ x :=
      fun b hb heq => hhalf ((narrow_binary16.exists_widen_iff hx).1 ⟨b, hb, heq⟩)
    rw [shortest_wide hx hhalf]
    by_cases hsingle : binary32.Has x.magnitude
    · obtain ⟨hlt, heq⟩ := narrow_binary32.widen_round hsingle
      exact ⟨_, single_has hx hsingle, .single hnoHalf hlt heq⟩
    · have hnoSingle : ∀ b < 2 * binary32.signBit, widen binary32 b ≠ x :=
        fun b hb heq => hsingle ((narrow_binary32.exists_widen_iff hx).1 ⟨b, hb, heq⟩)
      exact ⟨_, single_not_has hx (round32_lt_iff.2 hover) hsingle, .double hnoHalf hnoSingle⟩

/-- For every finite double, the encoder returns its narrowest faithful encoding exactly when the double does not round past the largest
single. -/
theorem shortest_float_total_iff (x : Double) (hx : x.isFinite) :
    (∃ bytes, shortestFloatBytes x = .ok bytes ∧ Narrowest x bytes) ↔ ¬OverSingle x := by
  constructor
  · rintro ⟨bytes, hbytes, -⟩ hover
    obtain ⟨e, he⟩ := shortest_overflow hx hover
    rw [he] at hbytes
    cases hbytes
  · exact shortest_narrowest hx

/-- 0.1 is neither a half nor a single, and is written as a double. -/
theorem shortest_float_total_iff_tenth :
    ∃ bytes, shortestFloatBytes 0x3FB999999999999A#64 = .ok bytes ∧ Narrowest 0x3FB999999999999A#64 bytes := by
  have hover : ¬OverSingle 0x3FB999999999999A#64 := by
    unfold OverSingle
    decide +kernel
  exact (shortest_float_total_iff 0x3FB999999999999A#64 (by decide +kernel)).2 hover

/-- 1e300 raises. -/
theorem shortest_float_raises :
    Double.isFinite 0x7E37E43C8800759C#64 ∧
    ¬∃ bytes, shortestFloatBytes 0x7E37E43C8800759C#64 = .ok bytes ∧ Narrowest 0x7E37E43C8800759C#64 bytes := by
  have hraises : shortestFloatBytes 0x7E37E43C8800759C#64 = .error ⟨"float too large to pack with f format"⟩ := by decide +kernel
  refine ⟨by decide +kernel, ?_⟩
  rintro ⟨bytes, hbytes, -⟩
  rw [hraises] at hbytes
  cases hbytes

end BrainSdk.Python
