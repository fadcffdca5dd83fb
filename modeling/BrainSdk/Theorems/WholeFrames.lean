import BrainSdk.Rust.Writer

/-!
# Whole frames on the wire

The writer mutex keeps the frames of the Rust mux apart as long as every writer gets to the end of its frame. A future dropped inside
`write_all` releases the mutex with its frame unfinished, and the next frame goes out right behind the part that was written.
-/

namespace BrainSdk.Rust

open Library Wire

variable {ε υ : Type}

/-- The bytes on the wire are whole frames, and then a part of one more whose writer is still in `write_all`. Where a write has
failed the writer is gone, and the socket takes no more bytes. -/
def WholeFrames (s : State ε υ) : Prop := s.stream.Clean FrameBytes

/-- Along a run that cuts no writer off in its frame, the wire has whole frames and what the holder of the mutex has written. -/
theorem exact_of_uncut {Γ : Ctx ε υ} {m : Nat} {tr : List Action} {s : State ε υ} (hr : (mux Γ m).Runs tr s)
    (hm : (mux Γ m).Meets Uncut tr) : s.stream.Exact FrameBytes := by
  refine Machine.Runs.rec_on_meets (C := Uncut) (P := fun _ s => s.stream.Exact FrameBytes) ?_ ?_ hr hm
  · exact ⟨[], [], by simp, rfl, fun _ => rfl, fun _ => .inl rfl⟩
  · intro tr s a s' hrun ih huncut hst
    have hi := stream_inv_runs hrun
    obtain ⟨lost, hstep, hlost⟩ := (step_effect hst).stream hi
    rw [hlost.2 huncut] at hstep
    exact ih.step hi hstep

/-- In every run of the Rust mux, the wire has whole frames at every moment exactly when no step of the run cuts off, by dropping its
future or by aborting the reader, a writer that has written a part of its frame and not the rest. -/
theorem whole_frames_iff (Γ : Ctx ε υ) (m : Nat) {tr : List Action} {s : State ε υ} (hr : (mux Γ m).Runs tr s) :
    (mux Γ m).Throughout (fun _ s => WholeFrames s) tr ↔ (mux Γ m).Meets Uncut tr := by
  refine Machine.throughout_iff_meets (B := fun _ => True) (fun _ _ _ _ h => h) ?_ ?_ hr trivial
  · intro tr s hrun _ hm
    exact (exact_of_uncut hrun hm).clean (stream_inv_runs hrun)
  · intro tr s a s' hrun hm hst _ hcut
    have hi := stream_inv_runs hrun
    obtain ⟨lost, hstep, hlost⟩ := (step_effect hst).stream hi
    exact SharedStream.not_clean_of_lost frameBytes_prefixFree hi (exact_of_uncut hrun hm) hstep (fun h => hcut (hlost.1 h))

/-- Task `c`, a request with no payload, up to the writer mutex. -/
def requestLocked (c : Nat) : List Action :=
  [.start ⟨.request, 0x21, [], none⟩, .allocStreamId c, .register c, .check c, .acquire c]

/-- A request dropped while it waits for its response leaves a whole frame. -/
theorem cancelledWhileReceiving_whole :
    ∃ s : State Unit Unit, (mux Ctx.refusing maxPayloadBytes).Runs (requestLocked 0 ++ [.write 0 32] ++ [.cancel 0]) s ∧
      (mux Ctx.refusing maxPayloadBytes).Throughout (fun _ s => WholeFrames s)
        (requestLocked 0 ++ [.write 0 32] ++ [.cancel 0]) := by
  have hrun : ∃ s s' : State Unit Unit, (mux Ctx.refusing maxPayloadBytes).Runs (requestLocked 0 ++ [.write 0 32]) s ∧
      s.stream.part (.task 0) = none ∧ (mux Ctx.refusing maxPayloadBytes).step s (.cancel 0) = some s' := ⟨_, _, rfl, rfl, rfl⟩
  obtain ⟨s, s', hr, hp, hst⟩ := hrun
  refine ⟨s', hr.snoc hst, (whole_frames_iff Ctx.refusing maxPayloadBytes (hr.snoc hst)).2 ?_⟩
  refine Machine.Meets.snoc (Machine.meets_of_mem ?_) hr (uncut_of_part (fun x => (cuts_cancel 0 x).1) hp)
  intro a ha t
  refine uncut_of_ne ?_ ?_
  · rintro c rfl
    simp [requestLocked] at ha
  · rintro rfl
    simp [requestLocked] at ha

/-- A request dropped with one byte of its frame written, and the frame of the next request behind that byte. -/
theorem cancelledInWrite_not_whole :
    ¬∀ (tr : List Action) (s : State Unit Unit), (mux Ctx.refusing maxPayloadBytes).Runs tr s → WholeFrames s := by
  intro h
  have hrun : ∃ s : State Unit Unit, (mux Ctx.refusing maxPayloadBytes).Runs
      (requestLocked 0 ++ [.write 0 1, .cancel 0] ++ requestLocked 1 ++ [.write 1 32]) s ∧ s.lock = none ∧ s.broken = false ∧
      s.wire ≠ [] ∧ decodeFrame s.wire = .error .badMagic := ⟨_, rfl, rfl, rfl, nofun, rfl⟩
  obtain ⟨s, hr, hl, hb, hne, hbad⟩ := hrun
  obtain ⟨bs, p, hbs, hsent, hp⟩ := h _ s hr
  have hwire : s.wire = bs.flatten := by
    rcases hp with rfl | ⟨r, -, hbroken | ⟨x, hx, -⟩⟩
    · exact hsent.trans (List.append_nil _)
    · exact nomatch hb.symm.trans hbroken
    · exact nomatch hl.symm.trans hx
  rcases bs with - | ⟨b, bs⟩
  · exact hne hwire
  · obtain ⟨f, hf⟩ := (hbs b List.mem_cons_self).decode
    have hok : decodeFrame s.wire = .ok (f, bs.flatten) := by
      rw [hwire]
      exact hf bs.flatten
    exact nomatch hbad.symm.trans hok

end BrainSdk.Rust
