import BrainSdk.Http.FeedLemmas
import BrainSdk.Theorems.SseParsers

/-!
# When a frame that has arrived is given out

`__next__` of `http/sse.py` reads 4096 bytes at a time, and a read of a blocking response returns only once they have all come or the body
has ended. So a frame waits for as many bytes as there are missing to the next multiple of 4096.
-/

namespace BrainSdk.Python

open Library Http

/-- `HTTPResponse.read(n)`, where `unread` are the bytes of the body that have come: what it returns and what is left, and `none` while it
blocks. -/
def read (n : Nat) (ended : Bool) (unread : Bytes) : Option (Bytes × Bytes) :=
  if n ≤ unread.length ∨ ended = true then some (unread.take n, unread.drop n) else none

/-- What comes of a call without a further byte of the body. -/
inductive Waited where
  | frame (frame : Frame)
  | stop
  | blocked
  deriving DecidableEq

/-- The bytes `__next__` asks for. -/
def readSize : Nat := 4096

/-- `__next__` on what has come, up to the first read that blocks. Every read shortens the rest, so its length is fuel enough. -/
def next (decode : Bytes → Text) (ended : Bool) :
    Nat → Subscription UInt8 (List Text) → Bytes → Waited × Subscription UInt8 (List Text) × Bytes
  | 0, sub, unread => (.blocked, sub, unread)
  | fuel + 1, sub, unread =>
    match takeFrame (sseLine decode) lineBuffer sub with
    | (some frame, sub') => (.frame frame, sub', unread)
    | (none, sub') =>
      match read readSize ended unread with
      | none => (.blocked, sub', unread)
      | some (chunk, rest) =>
        if chunk = [] then (.stop, sub', rest) else next decode ended fuel { sub' with buf := sub'.buf ++ chunk } rest

/-- `k` calls, one after the other, all return. After the end of the feed they do. -/
def callsReturn (decode : Bytes → Text) (ended : Bool) : Nat → Subscription UInt8 (List Text) → Bytes → Bool
  | 0, _, _ => true
  | k + 1, sub, unread =>
    match next decode ended (unread.length + 1) sub unread with
    | (.frame _, sub', rest) => callsReturn decode ended k sub' rest
    | (.stop, _, _) => true
    | (.blocked, _, _) => false

/-- The frames of a stream that are complete. -/
def completeFrames (decode : Bytes → Text) (stream : Bytes) : List Frame :=
  (foldLines lineBuffer ⟨none, lineBuffer.empty, none⟩ (lineTexts (sseLine decode) [] stream)).1

/-- Once the bytes that have come hold `k` complete frames, the `k`-th call can return without a further byte. -/
def Undelayed (decode : Bytes → Text) (ended : Bool) (arrived : Bytes) : Prop :=
  ∀ k ≤ (completeFrames decode arrived).length, callsReturn decode ended k (newSubscription lineBuffer) arrived = true

/-- The bytes that reads can return: all that have come once the body has ended, and whole reads before. -/
def readable (ended : Bool) (unread : Bytes) : Bytes :=
  if ended then unread else unread.take (readSize * (unread.length / readSize))

theorem readable_of_lt {unread : Bytes} (h : unread.length < readSize) : readable false unread = [] := by
  rw [readable, if_neg Bool.false_ne_true, Nat.div_eq_of_lt h, Nat.mul_zero, List.take_zero]

theorem read_eq_none {n : Nat} {ended : Bool} {unread : Bytes} : read n ended unread = none ↔ ¬(n ≤ unread.length ∨ ended = true) := by
  unfold read
  split <;> simp [*]

/-- Only the end of the body gives an empty read. -/
theorem ended_of_empty {ended : Bool} {unread rest : Bytes} (h : read readSize ended unread = some ([], rest)) :
    ended = true ∧ rest = [] := by
  unfold read at h
  split at h
  · rename_i hcond
    obtain ⟨htake, rfl⟩ := Prod.mk.inj (Option.some.inj h)
    have hnil : unread = [] := (List.take_eq_nil_iff.1 htake).resolve_left (by decide)
    subst hnil
    exact ⟨hcond.resolve_left (by decide), rfl⟩
  · cases h

/-- A read takes what it returns off what reads can return. -/
theorem readable_read {ended : Bool} {unread chunk rest : Bytes} (h : read readSize ended unread = some (chunk, rest)) :
    readable ended unread = chunk ++ readable ended rest ∧ (chunk ≠ [] → rest.length < unread.length) := by
  unfold read at h
  split at h
  · rename_i hcond
    cases h
    refine ⟨?_, fun hne => ?_⟩
    · cases ended with
      | true => exact (List.take_append_drop readSize unread).symm
      | false =>
        have hle : readSize ≤ unread.length := hcond.resolve_right Bool.false_ne_true
        have hdiv : unread.length / readSize = (unread.length - readSize) / readSize + 1 :=
          Nat.div_eq_sub_div (by decide) hle
        simp only [readable, Bool.false_eq_true, if_false, List.length_drop]
        rw [hdiv, Nat.mul_add, Nat.mul_one, Nat.add_comm, List.take_add]
    · have hpos : unread ≠ [] := fun hnil => hne (by rw [hnil]; rfl)
      have := List.length_pos_iff.2 hpos
      rw [List.length_drop]
      unfold readSize
      omega
  · cases h

variable (decode : Bytes → Text)

/-- A call gives the frame that is first in the buffer and what reads can return, and waits when there is none. -/
theorem next_eq {ended : Bool} {fuel : Nat} (sub : Subscription UInt8 (List Text)) {unread : Bytes} (hfuel : unread.length < fuel) :
    match takeFrame (sseLine decode) lineBuffer { sub with buf := sub.buf ++ readable ended unread } with
    | (some frame, sub') =>
      ∃ buf rest, next decode ended fuel sub unread = (.frame frame, ⟨sub'.fields, buf⟩, rest) ∧ buf ++ readable ended rest = sub'.buf
    | (none, _) => (next decode ended fuel sub unread).1 = if ended then .stop else .blocked := by
  induction fuel generalizing sub unread with
  | zero => exact absurd hfuel (Nat.not_lt_zero _)
  | succ fuel ih =>
    rw [takeFrame_append, next]
    cases htake : takeFrame (sseLine decode) lineBuffer sub with
    | mk frame sub' =>
      cases frame with
      | some frame => exact ⟨sub'.buf, unread, rfl, rfl⟩
      | none =>
        have hidle : takeFrame (sseLine decode) lineBuffer { sub' with buf := sub'.buf ++ [] } = (none, sub') := by
          have h := takeFrame_append (sseLine decode) lineBuffer sub []
          rw [htake] at h
          refine h.symm.trans ?_
          rw [List.append_nil]
          exact htake
        dsimp only
        cases hread : read readSize ended unread with
        | none =>
          obtain ⟨hlt, hopen⟩ := not_or.1 (read_eq_none.1 hread)
          obtain rfl := Bool.eq_false_iff.2 hopen
          rw [readable_of_lt (Nat.lt_of_not_le hlt), hidle]
          rfl
        | some r =>
          obtain ⟨chunk, rest⟩ := r
          obtain ⟨hreadable, hlt⟩ := readable_read hread
          rw [hreadable]
          dsimp only
          by_cases hchunk : chunk = []
          · obtain ⟨rfl, rfl⟩ := ended_of_empty (hchunk ▸ hread)
            rw [if_pos hchunk, hchunk, show readable true ([] : Bytes) = [] from rfl, List.append_nil, hidle]
            rfl
          · rw [if_neg hchunk, ← List.append_assoc]
            exact ih { sub' with buf := sub'.buf ++ chunk } (by have := hlt hchunk; omega)

/-- The calls that return: all once the body has ended, and as many as there are frames in what reads can return before. -/
theorem callsReturn_iff {ended : Bool} (k : Nat) (sub : Subscription UInt8 (List Text)) (unread : Bytes) :
    callsReturn decode ended k sub unread = true ↔
      ended = true ∨ k ≤ (foldLines lineBuffer sub.fields (lineTexts (sseLine decode) [] (sub.buf ++ readable ended unread))).1.length := by
  induction k generalizing sub unread with
  | zero => simp [callsReturn]
  | succ k ih =>
    have hnext := @next_eq decode ended _ sub unread (Nat.lt_succ_self unread.length)
    have hspec := takeFrame_loop_spec (sseLine decode) lineBuffer sub.fields [] (sub.buf ++ readable ended unread)
    unfold takeFrame at hnext
    dsimp only at hnext
    rw [callsReturn]
    revert hnext hspec
    cases takeFrame.loop (sseLine decode) lineBuffer sub.fields [] (sub.buf ++ readable ended unread) with
    | mk frame sub' =>
      cases frame with
      | some frame =>
        rintro ⟨buf, rest, heq, hbuf⟩ ⟨-, hfold, -⟩
        rw [heq, hfold]
        dsimp only
        rw [ih, List.length_cons, hbuf, Nat.succ_le_succ_iff]
      | none =>
        rintro heq ⟨hfold, -⟩
        rw [hfold]
        cases ended with
        | true =>
          have hstop : (next decode true (unread.length + 1) sub unread).1 = .stop := heq
          revert hstop
          cases next decode true (unread.length + 1) sub unread with
          | mk waited rest =>
            rintro rfl
            simp
        | false =>
          have hblocked : (next decode false (unread.length + 1) sub unread).1 = .blocked := heq
          revert hblocked
          cases next decode false (unread.length + 1) sub unread with
          | mk waited rest =>
            rintro rfl
            simp

/-- The frames of the first bytes of a stream are the first frames of it. -/
theorem completeFrames_take (n : Nat) (stream : Bytes) : completeFrames decode (stream.take n) <+: completeFrames decode stream := by
  unfold completeFrames
  conv_rhs => rw [← List.take_append_drop n stream]
  have hlines : lineTexts (sseLine decode) [] (stream.take n ++ stream.drop n) =
      lineTexts (sseLine decode) [] (stream.take n) ++
        lineTexts (sseLine decode) (linesFrom (sseLine decode).newline [] (stream.take n)).2 (stream.drop n) := by
    unfold lineTexts
    rw [linesFrom_append, List.map_append]
  rw [hlines, foldLines_append]
  exact List.prefix_append _ _

/-- One small event has come, and the response stays open: the call waits for more. -/
theorem small_event_delayed : ¬∀ (decode : Bytes → Text) (ended : Bool) (arrived : Bytes), Undelayed decode ended arrived := by
  intro h
  have hreturn := h (List.map toChar) false (utf8 "data: 1\n\n") 1 (by decide +kernel)
  exact absurd hreturn (by decide +kernel)

/-- The feed gives out each frame as soon as it has come exactly when the body has ended, or no frame is completed by the bytes after the
last whole read. -/
theorem undelayed_iff (ended : Bool) (arrived : Bytes) :
    Undelayed decode ended arrived ↔
      ended = true ∨ completeFrames decode (arrived.take (readSize * (arrived.length / readSize))) = completeFrames decode arrived := by
  unfold Undelayed
  simp only [callsReturn_iff]
  cases ended with
  | true => simp
  | false =>
    have hreadable : readable false arrived = arrived.take (readSize * (arrived.length / readSize)) := rfl
    have hprefix := completeFrames_take decode (readSize * (arrived.length / readSize)) arrived
    simp only [Bool.false_eq_true, false_or, hreadable]
    change (∀ k ≤ (completeFrames decode arrived).length,
      k ≤ (completeFrames decode (arrived.take (readSize * (arrived.length / readSize)))).length) ↔ _
    constructor
    · intro h
      exact hprefix.eq_of_length_le (h _ (Nat.le_refl _))
    · intro h k hk
      rw [h]
      exact hk

end BrainSdk.Python
