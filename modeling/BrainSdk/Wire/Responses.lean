import BrainSdk.Wire.Frame

/-!
# The frames of a response

The frames of a stream, what makes them a complete response, and what a request makes of them when none follow.
-/

namespace BrainSdk.Wire

open Library

/-- Frames of a response that is not complete: no ERROR frame, and none with the EOS flag. -/
def Unfinished (fs : List Frame) : Prop := ∀ f ∈ fs, f.opcode ≠ opError ∧ f.isEos = false

/-- The frames of a complete response: no ERROR frame, and the last one is the only one with the EOS flag. -/
def IsResponse (fs : List Frame) : Prop :=
  ∃ pre last, fs = pre ++ [last] ∧ Unfinished pre ∧ last.opcode ≠ opError ∧ last.isEos = true

/-- The frames of a stream. -/
def onStream (id : Nat) (fs : List Frame) : List Frame := fs.filter (fun f => f.streamId = id)

theorem unfinished_nil : Unfinished [] := fun _ h => nomatch h

theorem Unfinished.snoc {fs : List Frame} {f : Frame} (h : Unfinished fs) (ho : f.opcode ≠ opError) (he : f.isEos = false) :
    Unfinished (fs ++ [f]) := by
  intro g hg
  rcases List.mem_append.1 hg with hg | hg
  · exact h g hg
  · rw [List.mem_singleton.1 hg]
    exact ⟨ho, he⟩

/-- In a complete response the last frame, and no other, has the EOS flag, and none is an ERROR frame. -/
theorem IsResponse.at {resp fs rs : List Frame} {r : Frame} (h : IsResponse resp) (heq : resp = fs ++ r :: rs) :
    r.opcode ≠ opError ∧ (r.isEos = true ↔ rs = []) := by
  obtain ⟨pre, last, hresp, hun, ho, he⟩ := h
  rcases List.eq_nil_or_concat rs with rfl | ⟨rs', z, rfl⟩
  · obtain ⟨-, hlast⟩ := List.append_inj' (hresp.symm.trans heq) rfl
    cases hlast
    exact ⟨ho, iff_of_true he rfl⟩
  · have hcat : pre ++ [last] = fs ++ r :: rs' ++ [z] := by simpa using hresp.symm.trans heq
    obtain ⟨hpre, -⟩ := List.append_inj' hcat rfl
    have hr := hun r (by rw [hpre]; exact List.mem_append_right _ List.mem_cons_self)
    refine ⟨hr.1, ?_⟩
    simp [hr.2]

theorem onStream_nil (id : Nat) : onStream id [] = [] := rfl

theorem onStream_append (id : Nat) (fs gs : List Frame) : onStream id (fs ++ gs) = onStream id fs ++ onStream id gs :=
  List.filter_append fs gs

theorem onStream_singleton {f : Frame} {id : Nat} (h : f.streamId = id) : onStream id [f] = [f] := by
  simp [onStream, h]

theorem onStream_singleton_of_ne {f : Frame} {id : Nat} (h : f.streamId ≠ id) : onStream id [f] = [] := by
  simp [onStream, h]

/-- What a request makes of the frames behind those it has collected: `refused` of an ERROR frame, `returned` of a complete response, and
`failed` where they come to neither. -/
def verdict {α : Type} (refused : Bytes → α) (returned : List Frame → α) (failed : α) : List Frame → List Frame → α
  | _, [] => failed
  | frames, f :: fs =>
    if f.opcode = opError then refused f.payload
    else if f.isEos then returned (frames ++ [f])
    else verdict refused returned failed (frames ++ [f]) fs

/-- Frames that neither fail nor end a response are collected. -/
theorem verdict_append {α : Type} (refused : Bytes → α) (returned : List Frame → α) (failed : α) {fs : List Frame} (h : Unfinished fs)
    (frames rest : List Frame) :
    verdict refused returned failed frames (fs ++ rest) = verdict refused returned failed (frames ++ fs) rest := by
  induction fs generalizing frames with
  | nil => rw [List.nil_append, List.append_nil]
  | cons f fs ih =>
    obtain ⟨ho, he⟩ := h f List.mem_cons_self
    rw [List.cons_append, verdict, if_neg ho, if_neg (by rw [he]; exact Bool.false_ne_true),
      ih (fun g hg => h g (List.mem_cons_of_mem f hg)), List.append_assoc]
    rfl

end BrainSdk.Wire
