import BrainSdk.Wire.FrameLemmas
import BrainSdk.TypeScript.FrameLemmas

/-!
# One frame codec

What the Python codec accepts is exactly what it writes: a frame is read back from its own bytes, and a buffer that is accepted is the
encoding of the frame it was accepted as, followed by what was left over. The TypeScript codec is the same function on both sides, down
to the kind of every refusal, although it assembles its fields with signed 32-bit operators.
-/

namespace BrainSdk.Wire

open Library

/-- `encode_frame` writes every frame whose fields fit and whose payload is not too long. -/
theorem encodeFrame_total {opcode streamId flags : Nat} {payload : Bytes} (ho : opcode < 2 ^ 16) (hs : streamId < 2 ^ 32)
    (hf : flags < 2 ^ 8) (hl : payload.length ≤ maxPayloadBytes) : ∃ bytes, encodeFrame opcode streamId flags payload = .ok bytes := by
  unfold encodeFrame
  rw [if_neg (Nat.not_lt.2 hl), if_neg (Nat.not_le.2 ho), if_neg (Nat.not_le.2 hf), if_neg (Nat.not_le.2 hs)]
  exact ⟨_, rfl⟩

/-- `encode_frame` and `decode_frame` are inverse to each other: every frame in range comes back from its bytes with the tail left
alone, and every buffer that decodes is the encoding of what it decoded to, followed by the rest. -/
theorem frame_codec_bijective (opcode streamId flags : Nat) (payload tail buf rest : Bytes) (f : Frame) :
    (opcode < 2 ^ 16 → streamId < 2 ^ 32 → FlagsDefined flags → payload.length ≤ maxPayloadBytes →
      ∃ bytes, encodeFrame opcode streamId flags payload = .ok bytes ∧
        decodeFrame (bytes ++ tail) = .ok (⟨opcode, flags, streamId, payload⟩, tail)) ∧
    (decodeFrame buf = .ok (f, rest) → FlagsDefined f.flags ∧
      ∃ bytes, encodeFrame f.opcode f.streamId f.flags f.payload = .ok bytes ∧ bytes ++ rest = buf) := by
  constructor
  · intro ho hs hf hl
    obtain ⟨bytes, henc⟩ := encodeFrame_total ho hs hf.lt hl
    exact ⟨bytes, henc, decodeFrame_encodeFrame henc hf tail⟩
  · intro hdec
    exact encodeFrame_decodeFrame hdec

/-- The last opcode and the last stream id with every defined flag, read back in front of one more byte. -/
theorem frame_codec_bijective_last : ∃ bytes, encodeFrame 0xFFFF 0xFFFFFFFF 0xE0 [1, 2] = .ok bytes ∧
    decodeFrame (bytes ++ [7]) = .ok (⟨0xFFFF, 0xE0, 0xFFFFFFFF, [1, 2]⟩, [7]) :=
  (frame_codec_bijective 0xFFFF 0xFFFFFFFF 0xE0 [1, 2] [7] [] [] ⟨0, 0, 0, []⟩).1 (by decide) (by decide) (by unfold FlagsDefined; decide)
    (by decide)

end BrainSdk.Wire

namespace BrainSdk.TypeScript

open Library Wire

/-- The two codecs agree. On fields that fit, both write the same bytes or both refuse the payload as too long; on every byte string
both read the same frame and leave the same rest, or both refuse it with the same kind of error. -/
theorem frame_codecs_agree (opcode streamId flags : Nat) (payload buf : Bytes) :
    (opcode < 2 ^ 16 → streamId < 2 ^ 32 → flags < 2 ^ 8 →
      (∃ bytes, encodeFrame opcode streamId flags payload = .ok bytes ∧
        Wire.encodeFrame opcode streamId flags payload = .ok bytes) ∨
      ∃ e, encodeFrame opcode streamId flags payload = .error e ∧ e.kind = .oversizePayload ∧
        Wire.encodeFrame opcode streamId flags payload = .error (.oversizePayload payload.length)) ∧
    ((∃ f rest, decodeFrame buf = .ok (f, rest) ∧ Wire.decodeFrame buf = .ok (f, rest)) ∨
      ∃ e e', decodeFrame buf = .error e ∧ Wire.decodeFrame buf = .error e' ∧ e.kind = kindOf e') := by
  refine ⟨fun ho hs hf => encodeFrame_eq ho hs hf payload, ?_⟩
  have heq := decodeFrame_eq buf
  rcases hts : decodeFrame buf with e | ⟨f, rest⟩ <;> rcases hpy : Wire.decodeFrame buf with e' | ⟨f', rest'⟩ <;>
    rw [hts, hpy] at heq
  · exact .inr ⟨e, e', rfl, rfl, Except.error.inj heq⟩
  · exact absurd heq (by simp [Except.mapError])
  · exact absurd heq (by simp [Except.mapError])
  · obtain ⟨rfl, rfl⟩ := Prod.mk.inj (Except.ok.inj heq)
    exact .inl ⟨f, rest, rfl, rfl⟩

/-- Fields with their top bits set, which the signed operators turn negative on the way: the bytes are the same. -/
theorem frame_codecs_agree_topBits :
    ∃ bytes, encodeFrame 0xFFFF 0x80000001 0xFF [] = .ok bytes ∧ Wire.encodeFrame 0xFFFF 0x80000001 0xFF [] = .ok bytes := by
  rcases (frame_codecs_agree 0xFFFF 0x80000001 0xFF [] []).1 (by decide) (by decide) (by decide) with h | ⟨e, -, -, h⟩
  · exact h
  · simp [Wire.encodeFrame, maxPayloadBytes] at h

end BrainSdk.TypeScript
