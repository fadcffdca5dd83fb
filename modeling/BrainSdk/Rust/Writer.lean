import BrainSdk.Library.SharedWriter
import BrainSdk.Rust.Invariant
import BrainSdk.Wire.FrameLemmas

/-!
# The writer mutex of the Rust mux

The tasks and the reader are the writers of one stream, under the writer mutex: each step of the mux is a step of one of them, or of
none. A future dropped in `write_all`, or the reader aborted in it, is a writer cut off in its frame.
-/

namespace BrainSdk.Rust

open Library Wire

variable {ε υ : Type}

/-- The bytes of a whole frame, as the mux writes it. -/
def FrameBytes (b : Bytes) : Prop :=
  ∃ (opcode : UInt16) (streamId : UInt32) (payload : Bytes), encode opcode streamId payload = .ok b

theorem encode_eq_ok {opcode : UInt16} {streamId : UInt32} {payload b : Bytes} (h : encode opcode streamId payload = .ok b) :
    encodeFrame opcode.toNat streamId.toNat flagEos payload = .ok b := by
  unfold encode at h
  unfold encodeFrame
  have hop : opcode.toNat < 2 ^ 16 := opcode.toNat_lt
  have hid : streamId.toNat < 2 ^ 32 := streamId.toNat_lt
  split at h
  · cases h
  · rename_i hlen
    rw [if_neg hlen, if_neg (by omega), if_neg (by decide), if_neg (by omega)]
    cases h
    rfl

/-- Whole frames decode, whatever follows them. -/
theorem FrameBytes.decode {b : Bytes} (h : FrameBytes b) : ∃ f, ∀ t, decodeFrame (b ++ t) = .ok (f, t) := by
  obtain ⟨opcode, streamId, payload, he⟩ := h
  exact ⟨_, fun t => decodeFrame_encodeFrame (encode_eq_ok he) rfl t⟩

theorem FrameBytes.ne_nil {b : Bytes} (h : FrameBytes b) : b ≠ [] := by
  rintro rfl
  obtain ⟨f, hf⟩ := h.decode
  cases hf []

/-- The header says how long a frame is, so no frame is a beginning of another. -/
theorem frameBytes_prefixFree : PrefixFree FrameBytes where
  ne_nil := fun _ h => h.ne_nil
  eq_of_le := by
    rintro a _ ha hb ⟨t, rfl⟩
    obtain ⟨f, hf⟩ := ha.decode
    obtain ⟨g, hg⟩ := hb.decode
    have heq := (hf t).symm.trans (by simpa using hg [])
    simp only [Except.ok.injEq, Prod.mk.injEq] at heq
    rw [heq.2, List.append_nil]

/-- What a task in `write_all` has written of its frame and has left. -/
def Pc.part : Pc υ → Option (Bytes × Bytes)
  | .writing written rest => some (written, rest)
  | _ => none

/-- What the reader in `write_all` has written of its frame and has left. -/
def Reader.part : Reader → Option (Bytes × Bytes)
  | .writing written rest => some (written, rest)
  | _ => none

/-- What each of the writers has written of its frame and has left. -/
def partOf (tasks : List (Task ε υ)) (reader : Reader) : Writer → Option (Bytes × Bytes)
  | .task c => tasks[c]?.bind (fun task => task.pc.part)
  | .reader => reader.part

/-- The writing half of the connection, as a stream with its writers. -/
def State.stream (s : State ε υ) : SharedStream Writer UInt8 :=
  { lock := s.lock, part := partOf s.tasks s.reader, sent := s.wire, broken := s.broken }

/-- The steps that cut a writer off: its future is dropped, or the reader is aborted. -/
def Cuts (x : Writer) (a : Action) : Prop := (∃ c, x = .task c ∧ a = .cancel c) ∨ (x = .reader ∧ a = .abort)

/-- No writer is cut off with a part of its frame written. -/
def Uncut (s : State ε υ) (a : Action) : Prop := ∀ x w r, s.stream.part x = some (w, r) → Cuts x a → w = []

theorem partOf_set {tasks : List (Task ε υ)} {c : Nat} {task : Task ε υ} (hc : tasks[c]? = some task) (task' : Task ε υ)
    (reader : Reader) :
    partOf (tasks.set c task') reader = Function.update (partOf tasks reader) (.task c) task'.pc.part := by
  funext x
  rcases x with d | -
  · by_cases hd : d = c
    · subst hd
      simp [partOf, getElem?_set_of_some hc]
    · rw [Function.update_of_ne (by simpa using hd)]
      simp [partOf, getElem?_set_of_some hc, hd]
  · rw [Function.update_of_ne (by simp)]
    rfl

theorem partOf_reader (tasks : List (Task ε υ)) (reader reader' : Reader) :
    partOf tasks reader' = Function.update (partOf tasks reader) .reader reader'.part := by
  funext x
  rcases x with d | -
  · rw [Function.update_of_ne (by simp)]
    rfl
  · rw [Function.update_self]
    rfl

/-- A task in no frame, before and after a step, is no writer. -/
theorem partOf_set_idle {tasks : List (Task ε υ)} {c : Nat} {task task' : Task ε υ} (hc : tasks[c]? = some task)
    (hp : task.pc.part = none) (hp' : task'.pc.part = none) (reader : Reader) :
    partOf (tasks.set c task') reader = partOf tasks reader := by
  rw [partOf_set hc, hp']
  refine Function.update_eq_self_iff.2 ?_
  simp [partOf, hc, hp]

theorem partOf_reader_idle (tasks : List (Task ε υ)) {r r' : Reader} (hp : r.part = none) (hp' : r'.part = none) :
    partOf tasks r' = partOf tasks r := by
  rw [partOf_reader tasks r, hp']
  exact Function.update_eq_self_iff.2 hp.symm

theorem begin_part (args : Args) : (Task.begin args : Task ε υ).pc.part = none := by
  unfold Task.begin
  dsimp only
  split <;> rfl

theorem partOf_begin (tasks : List (Task ε υ)) (args : Args) (reader : Reader) :
    partOf (tasks ++ [Task.begin args]) reader = partOf tasks reader := by
  funext x
  rcases x with d | -
  · simp only [partOf, getElem?_concat]
    split
    · rename_i hd
      rw [hd, List.getElem?_eq_none (Nat.le_refl _)]
      exact begin_part args
    · rfl
  · rfl

theorem partOf_deliver (tasks : List (Task ε υ)) (c : Nat) (f : Frame) (reader : Reader) :
    partOf (tasks.modify c (Task.deliver f)) reader = partOf tasks reader := by
  funext x
  rcases x with d | -
  · simp only [partOf, List.getElem?_modify]
    rcases tasks[d]? with - | task
    · rfl
    · by_cases hd : c = d
      · simp [hd, (deliver_fields f task).2.2.2]
      · simp [hd]
  · rfl

/-- A move is no step of a writer. -/
theorem Move.part {Γ : Ctx ε υ} {s : State ε υ} {c : Nat} {task task' : Task ε υ} {a : Action} (h : Move Γ s c task a task') :
    task.pc.part = none ∧ task'.pc.part = none := by
  cases h with
  | @collect f rest hpc _ =>
    refine ⟨by rw [hpc]; rfl, ?_⟩
    obtain ⟨-, -, -, hp | ⟨o, hp⟩ | ⟨o, hp⟩⟩ := collect_fields Γ { task with queue := rest } f <;> rw [hp]
    · exact congrArg Pc.part hpc
    · rfl
    · rfl
  | nextEnded hpc _ => exact ⟨by rw [hpc]; rfl, congrArg Pc.part hpc⟩
  | refuse hpc _ | tooLarge hpc | checked hpc | encodeFailed hpc | channelClosed hpc _ _ | advance hpc _ | nextNone hpc _ _
  | timeout hpc _ _ | closedError hpc | next hpc _ => exact ⟨by rw [hpc]; rfl, rfl⟩

theorem written_part (task : Task ε υ) : task.written.part = none := by
  rcases written_cases task with ⟨-, hw⟩ | ⟨-, hw⟩ <;> rw [hw] <;> rfl

/-- The guard of a writer in no frame is not the one that is held. -/
theorem release_of_part {s : State ε υ} (hi : s.stream.Inv FrameBytes) {x : Writer} (hp : s.stream.part x = none) :
    release s.lock x = s.lock := by
  refine if_neg (fun hl => ?_)
  obtain ⟨w, r, hpart⟩ := hi.held x hl
  exact nomatch hp.symm.trans hpart

/-- The guard of a writer in its frame is the one that is held. -/
theorem release_of_writing {s : State ε υ} (hi : s.stream.Inv FrameBytes) {x : Writer} {w r : Bytes}
    (hp : s.stream.part x = some (w, r)) : release s.lock x = none :=
  if_pos (hi.holder x w r hp)

/-- A step that cuts no one off meets the condition. -/
theorem uncut_of_ne {s : State ε υ} {a : Action} (hc : ∀ c, a ≠ .cancel c) (ha : a ≠ .abort) : Uncut s a := by
  rintro x w r - (⟨c, -, hcut⟩ | ⟨-, hcut⟩)
  · exact absurd hcut (hc c)
  · exact absurd hcut ha

/-- A step that cuts off no writer in its frame meets the condition. -/
theorem uncut_of_part {s : State ε υ} {a : Action} {y : Writer} (ha : ∀ x, Cuts x a → x = y) (hp : s.stream.part y = none) :
    Uncut s a := by
  intro x w r hx hcut
  rw [ha x hcut] at hx
  exact nomatch hp.symm.trans hx

/-- A step that cuts off a writer in its frame leaves what it has written. -/
theorem uncut_iff_of_writing {s : State ε υ} {a : Action} {y : Writer} {w r : Bytes} (ha : ∀ x, Cuts x a ↔ x = y)
    (hp : s.stream.part y = some (w, r)) : w = [] ↔ Uncut s a := by
  constructor
  · intro hw x w' r' hx hcut
    rw [(ha x).1 hcut] at hx
    cases hp.symm.trans hx
    exact hw
  · intro h
    exact h y w r hp ((ha y).2 rfl)

theorem cuts_cancel (c : Nat) (x : Writer) : Cuts x (.cancel c) ↔ x = .task c := by
  constructor
  · rintro (⟨d, rfl, hd⟩ | ⟨-, hd⟩)
    · cases hd
      rfl
    · cases hd
  · rintro rfl
    exact .inl ⟨c, rfl, rfl⟩

theorem cuts_abort (x : Writer) : Cuts x .abort ↔ x = .reader := by
  constructor
  · rintro (⟨d, -, hd⟩ | ⟨h, -⟩)
    · cases hd
    · exact h
  · rintro rfl
    exact .inr ⟨rfl, rfl⟩

/-- A step of no writer. -/
theorem stream_idle {s s' : State ε υ} {a : Action} (heq : s'.stream = s.stream) (hu : Uncut s a) :
    ∃ lost, s.stream.Step FrameBytes lost s'.stream ∧ (lost = [] ↔ Uncut s a) := by
  rw [heq]
  exact ⟨[], .idle, fun _ => hu, fun _ => rfl⟩

/-- A step of a writer that is not cut off. -/
theorem stream_kept {s s' : State ε υ} {a : Action} (h : s.stream.Step FrameBytes [] s'.stream) (hu : Uncut s a) :
    ∃ lost, s.stream.Step FrameBytes lost s'.stream ∧ (lost = [] ↔ Uncut s a) :=
  ⟨[], h, fun _ => hu, fun _ => rfl⟩

/-- A dropped future is a writer cut off, when it was in `write_all`. -/
theorem cancel_stream {s : State ε υ} {c : Nat} {task task' : Task ε υ} (hi : s.stream.Inv FrameBytes)
    (hc : s.tasks[c]? = some task) (hx : Cancel task task') :
    ∃ lost, s.stream.Step FrameBytes lost { s.setTask c task' with lock := release s.lock (.task c) }.stream ∧
      (lost = [] ↔ Uncut s (.cancel c)) := by
  have hpart : s.stream.part (.task c) = task.pc.part := by simp [State.stream, partOf, hc]
  have hidle : task.pc.part = none → task'.pc.part = none →
      ∃ lost, s.stream.Step FrameBytes lost { s.setTask c task' with lock := release s.lock (.task c) }.stream ∧
        (lost = [] ↔ Uncut s (.cancel c)) := by
    intro hp hp'
    refine stream_idle ?_ (uncut_of_part (fun x => (cuts_cancel c x).1) (hpart.trans hp))
    simp only [State.stream, State.setTask, partOf_set_idle hc hp hp', release_of_part hi (hpart.trans hp)]
  rcases hx with hpc | hpc | hpc
  · exact hidle (by rcases hpc with hpc | hpc <;> rw [hpc] <;> rfl) rfl
  · have hp : s.stream.part (.task c) = some _ := hpart.trans (congrArg Pc.part hpc)
    refine ⟨_, ?_, uncut_iff_of_writing (cuts_cancel c) hp⟩
    simp only [State.stream, State.setTask, partOf_set hc, release_of_writing hi hp]
    exact .cut hp
  · exact hidle (by rw [hpc]; rfl) rfl

/-- An aborted reader is a writer cut off, when it was in `write_all`. -/
theorem abort_stream {s : State ε υ} (hi : s.stream.Inv FrameBytes) :
    ∃ lost, s.stream.Step FrameBytes lost { s with reader := .ended .aborted, lock := release s.lock .reader }.stream ∧
      (lost = [] ↔ Uncut s .abort) := by
  rcases hp : s.reader.part with - | ⟨w, r⟩
  · refine stream_idle ?_ (uncut_of_part (fun x => (cuts_abort x).1) hp)
    simp only [State.stream, release_of_part hi (x := .reader) hp]
    rw [partOf_reader_idle s.tasks hp rfl]
  · refine ⟨w, ?_, uncut_iff_of_writing cuts_abort hp⟩
    simp only [State.stream, release_of_writing hi (x := .reader) hp]
    rw [partOf_reader s.tasks s.reader (.ended .aborted)]
    exact .cut hp

/-- Each step of the mux is a step of its writers, and leaves a part of a frame behind only where `Uncut` does not hold. -/
theorem Effect.stream {Γ : Ctx ε υ} {s s' : State ε υ} {a : Action} (h : Effect Γ s a s') (hi : s.stream.Inv FrameBytes) :
    ∃ lost, s.stream.Step FrameBytes lost s'.stream ∧ (lost = [] ↔ Uncut s a) := by
  have hset : ∀ {c : Nat} {task task' : Task ε υ}, s.tasks[c]? = some task → task.pc.part = none → task'.pc.part = none →
      partOf (s.tasks.set c task') s.reader = partOf s.tasks s.reader :=
    fun hc hp hp' => partOf_set_idle hc hp hp' s.reader
  have htask : ∀ {c : Nat} {task : Task ε υ} {w r : Bytes}, s.tasks[c]? = some task → task.pc = .writing w r →
      s.stream.part (.task c) = some (w, r) := by
    intro c task w r hc hpc
    simp [State.stream, partOf, hc, hpc, Pc.part]
  have hreader : ∀ {w r : Bytes}, s.reader = .writing w r → s.stream.part .reader = some (w, r) := by
    intro w r hr
    simp [State.stream, partOf, hr, Reader.part]
  cases h with
  | start _ _ | unsubscribe _ _ _ _ =>
    refine stream_idle ?_ (uncut_of_ne (by simp) (by simp))
    simp only [State.stream, partOf_begin]
  | alloc hc hpc | register hc hpc _ | deregister hc hpc | drop hc hpc _ =>
    refine stream_idle ?_ (uncut_of_ne (by simp) (by simp))
    simp only [State.stream, State.setTask]
    rw [hset hc (by rw [hpc]; rfl) rfl]
  | move hc hm =>
    obtain ⟨hp, hp'⟩ := hm.part
    refine stream_idle ?_ (uncut_of_ne (by rintro c rfl; cases hm) (by rintro rfl; cases hm))
    simp only [State.stream, State.setTask]
    rw [hset hc hp hp']
  | acquire hc hpc hl he =>
    refine stream_kept ?_ (uncut_of_ne (by simp) (by simp))
    simp only [State.stream, State.setTask, partOf_set hc]
    exact .take hl (FrameBytes.ne_nil ⟨_, _, _, he⟩) ⟨_, _, _, he⟩
  | write hc hpc hb _ hn =>
    refine stream_kept ?_ (uncut_of_ne (by simp) (by simp))
    simp only [State.stream, State.setTask, partOf_set hc]
    exact .write (htask hc hpc) hb hn
  | writeAll hc hpc hb _ =>
    refine stream_kept ?_ (uncut_of_ne (by simp) (by simp))
    simp only [State.stream, State.setTask, partOf_set hc, written_part, release_of_writing hi (htask hc hpc)]
    exact .finish (htask hc hpc) hb
  | writeError hc hpc =>
    refine stream_kept ?_ (uncut_of_ne (by simp) (by simp))
    simp only [State.stream, State.setTask, partOf_set hc, release_of_writing hi (htask hc hpc)]
    exact .fail (htask hc hpc)
  | cancel hc hx => exact cancel_stream hi hc hx
  | ping hr _ | readError hr | pongFailed hr =>
    refine stream_idle ?_ (uncut_of_ne (by simp) (by simp))
    simp only [State.stream]
    rw [partOf_reader_idle s.tasks (r := s.reader) (by rw [hr]; rfl) rfl]
  | miss _ _ | dropConnection _ _ => exact stream_idle rfl (uncut_of_ne (by simp) (by simp))
  | hit _ _ =>
    refine stream_idle ?_ (uncut_of_ne (by simp) (by simp))
    simp only [State.stream, partOf_deliver]
  | acquirePong hr hl he =>
    refine stream_kept ?_ (uncut_of_ne (by simp) (by simp))
    simp only [State.stream]
    rw [partOf_reader s.tasks s.reader (.writing _ _)]
    exact .take hl (FrameBytes.ne_nil ⟨_, _, _, he⟩) ⟨_, _, _, he⟩
  | writePong hr hb _ hn =>
    refine stream_kept ?_ (uncut_of_ne (by simp) (by simp))
    simp only [State.stream]
    rw [partOf_reader s.tasks s.reader (.writing _ _)]
    exact .write (hreader hr) hb hn
  | writePongAll hr hb _ =>
    refine stream_kept ?_ (uncut_of_ne (by simp) (by simp))
    simp only [State.stream, release_of_writing hi (hreader hr)]
    rw [partOf_reader s.tasks s.reader .reading]
    exact .finish (hreader hr) hb
  | writePongError hr =>
    refine stream_kept ?_ (uncut_of_ne (by simp) (by simp))
    simp only [State.stream, release_of_writing hi (hreader hr)]
    rw [partOf_reader s.tasks s.reader .reading]
    exact .fail (hreader hr)
  | abort _ _ => exact abort_stream hi

/-- The writers of every reachable state keep to the mutex. -/
theorem stream_inv_runs {Γ : Ctx ε υ} {m : Nat} {tr : List Action} {s : State ε υ} (hr : (mux Γ m).Runs tr s) :
    s.stream.Inv FrameBytes := by
  refine hr.invariant (P := fun s => s.stream.Inv FrameBytes) ?_ ?_
  · refine SharedStream.inv_of_nobody rfl (fun x => ?_)
    rcases x with c | - <;> rfl
  · intro s a s' hi hst
    obtain ⟨lost, hstep, -⟩ := (step_effect hst).stream hi
    exact hi.step hstep

end BrainSdk.Rust
