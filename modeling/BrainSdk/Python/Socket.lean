import BrainSdk.Library.Machine
import BrainSdk.Python.Mux
import BrainSdk.Wire.FrameLemmas

/-!
# The reader thread at its socket

`read_frame` of `transport.py` and `MuxConnection.close`, around a machine of the mux that takes the frames and the failures of
`read_frame` as they come. Here they come from the bytes of the socket: `read_frame` decodes what it has buffered, and blocks in `recv`
when that is too short. Closing the socket wakes no `recv` that is blocked on it already, and a peer that sends nothing further wakes none
either; any use of the socket after the close fails at once.
-/

namespace BrainSdk.Python

open Library Wire

/-- A machine of the mux, and what its socket needs to know of it. -/
structure Threads (σ α : Type) where
  machine : Machine σ α
  reader : σ → Reader
  routes : σ → Routes Nat
  /-- `read_frame` returns. -/
  readFrame : Frame → α
  /-- `read_frame` raises. -/
  readError : ReadFailure → α
  /-- The two above. -/
  reads : α → Bool
  /-- A step that writes to the socket, with success. -/
  writes : α → Bool
  /-- The other steps of the reader thread. -/
  isReader : α → Bool
  /-- `_fail_all`. -/
  fails : α → Bool
  /-- A thread may call `close`. -/
  mayClose : σ → Bool

namespace Socket

/-- `READ_CHUNK`. -/
def readChunk : Nat := 16 * 1024

/-- A machine with its socket. `given`, which no step reads, are the calls whose queues `_fail_all` found in the table. -/
structure State (σ : Type) where
  inner : σ
  /-- The buffer of `_reader_loop`. -/
  buf : Bytes
  /-- The reader is blocked in `recv`. -/
  receiving : Bool
  closed : Bool
  given : List Nat

/-- What one thread does in one step, and what `recv` comes to. -/
inductive Action (α : Type) where
  | step (a : α)
  /-- `read_frame` up to its `recv` -/
  | decode
  | recv (chunk : Bytes)
  | eof
  | osError (message : String)
  | close
  deriving DecidableEq

variable {σ α : Type}

/-- `read_frame` raises. -/
def State.fail (R : Threads σ α) (s : State σ) (e : ReadFailure) : Option (State σ) :=
  (R.machine.step s.inner (R.readError e)).map (fun t => { s with inner := t, receiving := false })

/-- A blocked `recv` can return only before the close. -/
def State.wakes (s : State σ) : Bool := s.receiving && !s.closed

/-- One step. -/
def step (R : Threads σ α) (s : State σ) : Action α → Option (State σ)
  | .step a =>
    if R.reads a || (s.closed && R.writes a) then none
    else
      (R.machine.step s.inner a).map (fun t =>
        { s with inner := t, given := if R.fails a then (R.routes s.inner).tasks else s.given })
  | .decode =>
    if R.reader s.inner = .reading && !s.receiving then
      match decodeFrame s.buf with
      | .ok (f, rest) => (R.machine.step s.inner (R.readFrame f)).map (fun t => { s with inner := t, buf := rest })
      | .error (.truncatedFrame _ _) =>
        if s.closed then s.fail R (.os "[Errno 9] Bad file descriptor") else some { s with receiving := true }
      | .error e => s.fail R (.frame e)
    else none
  | .recv chunk =>
    if s.wakes && !chunk.isEmpty && chunk.length ≤ readChunk then some { s with buf := s.buf ++ chunk, receiving := false }
    else none
  | .eof => if s.wakes then s.fail R (.closed "connection closed by peer") else none
  | .osError message => if s.wakes then s.fail R (.os message) else none
  | .close => if R.mayClose s.inner then some { s with closed := true } else none

/-- The machine with its socket, and nothing buffered. -/
def machine (R : Threads σ α) : Machine (State σ) (Action α) where
  init := ⟨R.machine.init, [], false, false, []⟩
  step := step R

/-- The steps of the reader thread. -/
def Action.isReader (R : Threads σ α) : Action α → Bool
  | .step a => R.isReader a
  | .decode => true
  | _ => false

/-- The reader thread goes on to its end by itself, and gives the sentinel to every queue that is in the table. -/
def Ends (R : Threads σ α) (s : State σ) : Prop :=
  ∃ own t, (∀ a ∈ own, a.isReader R = true) ∧ (machine R).exec s own = some t ∧ R.reader t.inner = .stopped ∧
    ∀ c ∈ (R.routes s.inner).tasks, c ∈ t.given

/-! ### What a step can do -/

/-- What each action needs of the state, and the state it leaves. -/
inductive Effect (R : Threads σ α) (s : State σ) : Action α → State σ → Prop
  | inner {a : α} {t : σ} (hreads : R.reads a = false) (hwrites : s.closed = true → R.writes a = false)
      (hs : R.machine.step s.inner a = some t) :
      Effect R s (.step a) { s with inner := t, given := if R.fails a then (R.routes s.inner).tasks else s.given }
  | frame {f : Frame} {rest : Bytes} {t : σ} (hr : R.reader s.inner = .reading) (hb : s.receiving = false)
      (hs : R.machine.step s.inner (R.readFrame f) = some t) : Effect R s .decode { s with inner := t, buf := rest }
  | block (hr : R.reader s.inner = .reading) (hc : s.closed = false) : Effect R s .decode { s with receiving := true }
  | raise {a : Action α} {e : ReadFailure} {t : σ} (ha : a ≠ .close ∧ ∀ b, a ≠ .step b)
      (hs : R.machine.step s.inner (R.readError e) = some t) : Effect R s a { s with inner := t, receiving := false }
  | recv {chunk : Bytes} : Effect R s (.recv chunk) { s with buf := s.buf ++ chunk, receiving := false }
  | close (hm : R.mayClose s.inner = true) : Effect R s .close { s with closed := true }

theorem fail_effect {R : Threads σ α} {s s' : State σ} {a : Action α} {e : ReadFailure} (ha : a ≠ .close ∧ ∀ b, a ≠ .step b)
    (h : s.fail R e = some s') : Effect R s a s' := by
  obtain ⟨t, ht, rfl⟩ := Option.map_eq_some_iff.1 h
  exact .raise ha ht

theorem step_effect {R : Threads σ α} {s s' : State σ} {a : Action α} (h : step R s a = some s') : Effect R s a s' := by
  cases a with
  | step a =>
    obtain ⟨hno, h⟩ := Option.ite_none_left_eq_some.1 h
    obtain ⟨t, ht, rfl⟩ := Option.map_eq_some_iff.1 h
    simp only [Bool.or_eq_true, Bool.and_eq_true, not_or, not_and, Bool.not_eq_true] at hno
    exact .inner hno.1 hno.2 ht
  | decode =>
    obtain ⟨hr, h⟩ := Option.ite_none_right_eq_some.1 h
    simp only [Bool.and_eq_true, decide_eq_true_eq, Bool.not_eq_true'] at hr
    split at h
    · obtain ⟨t, ht, rfl⟩ := Option.map_eq_some_iff.1 h
      exact .frame hr.1 hr.2 ht
    · split at h
      · exact fail_effect ⟨nofun, nofun⟩ h
      · rename_i hc
        cases h
        exact .block hr.1 (Bool.eq_false_of_not_eq_true hc)
    · exact fail_effect ⟨nofun, nofun⟩ h
  | recv chunk =>
    obtain ⟨-, h⟩ := Option.ite_none_right_eq_some.1 h
    cases h
    exact .recv
  | eof => exact fail_effect ⟨nofun, nofun⟩ (Option.ite_none_right_eq_some.1 h).2
  | osError message => exact fail_effect ⟨nofun, nofun⟩ (Option.ite_none_right_eq_some.1 h).2
  | close =>
    obtain ⟨hm, h⟩ := Option.ite_none_right_eq_some.1 h
    cases h
    exact .close hm

theorem Effect.closed {R : Threads σ α} {s s' : State σ} {a : Action α} (h : Effect R s a s') (hc : s.closed = true) :
    s'.closed = true := by
  cases h with
  | close hm => rfl
  | _ => exact hc

/-- Only `close` closes the socket, and only a `decode` on an open one blocks. -/
theorem Effect.receiving {R : Threads σ α} {s s' : State σ} {a : Action α} (h : Effect R s a s') (hno : a ≠ .close)
    (hb : s.closed = true → s.receiving = false) : s'.closed = true → s'.receiving = false := by
  cases h with
  | block hr hc =>
    intro hc'
    rw [show s.closed = true from hc'] at hc
    cases hc
  | raise _ _ => exact fun _ => rfl
  | recv => exact fun _ => rfl
  | close hm => exact absurd rfl hno
  | _ => exact hb

/-- A step of the reader thread inside, before `_fail_all`: it keeps the table, and no close stands in its way. -/
structure Own (R : Threads σ α) (s : σ) (a : α) (t : σ) : Prop where
  step : R.machine.step s a = some t
  isReader : R.isReader a = true
  reads : R.reads a = false
  writes : R.writes a = false
  fails : R.fails a = false
  routes : R.routes t = R.routes s

/-- What the steps of the reader thread do to it. -/
structure Reads (R : Threads σ α) : Prop where
  read : ∀ s f, R.reader s = .reading →
    ∃ t, R.machine.step s (R.readFrame f) = some t ∧ R.reader t = .afterRead f ∧ R.routes t = R.routes s
  error : ∀ s e, R.reader s = .reading →
    ∃ t, R.machine.step s (R.readError e) = some t ∧ R.reader t = .failing e ∧ R.routes t = R.routes s
  route : ∀ s f, R.reader s = .routing f → ∃ a t, Own R s a t ∧ (R.reader t = .reading ∨ ∃ c, R.reader t = .putting f c)
  put : ∀ s f c, R.reader s = .putting f c → ∃ a t, Own R s a t ∧ R.reader t = .reading
  pong : ∀ s f, R.reader s = .ponging f → ∃ a t, Own R s a t ∧ R.reader t = .reading
  fail : ∀ s e, R.reader s = .failing e →
    ∃ a t, R.isReader a = true ∧ R.reads a = false ∧ R.writes a = false ∧ R.fails a = true ∧ R.machine.step s a = some t ∧
      R.reader t = .stopped

/-! ### The reader ends by itself -/

theorem ends_of_stopped {R : Threads σ α} {s : State σ} (hr : R.reader s.inner = .stopped) (hroutes : (R.routes s.inner).tasks = []) :
    Ends R s := by
  refine ⟨[], s, nofun, rfl, hr, fun c hc => ?_⟩
  rw [hroutes] at hc
  cases hc

/-- A step of the reader that keeps the table may come first. -/
theorem Ends.step {R : Threads σ α} {s s' : State σ} {a : Action α} (h : Ends R s') (ha : a.isReader R = true)
    (hs : (machine R).step s a = some s') (hroutes : R.routes s'.inner = R.routes s.inner) : Ends R s := by
  obtain ⟨own, t, hown, hexec, hr, hgiven⟩ := h
  refine ⟨a :: own, t, ?_, ?_, hr, hroutes ▸ hgiven⟩
  · intro b hb
    rcases List.mem_cons.1 hb with rfl | hb
    · exact ha
    · exact hown b hb
  · show ((machine R).step s a).bind _ = _
    rw [hs]
    exact hexec

/-- A step of the machine inside, taken by the reader. -/
theorem step_own {R : Threads σ α} {s : State σ} {a : α} {t : σ} (hreads : R.reads a = false) (hwrites : R.writes a = false)
    (hs : R.machine.step s.inner a = some t) :
    (machine R).step s (.step a) = some { s with inner := t, given := if R.fails a then (R.routes s.inner).tasks else s.given } := by
  show step R s (.step a) = _
  simp only [step, hreads, hwrites, Bool.and_false, Bool.or_self, hs, Option.map_some]
  rfl

theorem Reads.ends_of_failing {R : Threads σ α} (hR : Reads R) {s : State σ} {e : ReadFailure} (hr : R.reader s.inner = .failing e) :
    Ends R s := by
  obtain ⟨a, t, hown, hreads, hwrites, hfails, hstep, hstop⟩ := hR.fail s.inner e hr
  refine ⟨[.step a], { s with inner := t, given := (R.routes s.inner).tasks }, ?_, ?_, hstop, fun c hc => hc⟩
  · intro b hb
    rw [List.mem_singleton.1 hb]
    exact hown
  · rw [Machine.exec_singleton, step_own hreads hwrites hstep, if_pos hfails]

/-- `read_frame` that raises brings the reader to its end. -/
theorem Reads.ends_of_fail {R : Threads σ α} (hR : Reads R) {s : State σ} {e : ReadFailure} (hr : R.reader s.inner = .reading)
    (hs : (machine R).step s .decode = s.fail R e) : Ends R s := by
  obtain ⟨t, hstep, hreader, hroutes⟩ := hR.error s.inner e hr
  have hfail : s.fail R e = some { s with inner := t, receiving := false } := by
    unfold State.fail
    rw [hstep]
    rfl
  have h : Ends R { s with inner := t, receiving := false } := hR.ends_of_failing hreader
  exact h.step rfl (hs.trans hfail) hroutes

/-- An own step of the reader inside may come first. -/
theorem Ends.own {R : Threads σ α} {s : State σ} {a : α} {t : σ} (h : Ends R { s with inner := t }) (ho : Own R s.inner a t) : Ends R s := by
  have hs : (machine R).step s (.step a) = some { s with inner := t } := by
    rw [step_own ho.reads ho.writes ho.step, if_neg (by rw [ho.fails]; exact Bool.false_ne_true)]
  exact Ends.step (a := .step a) h ho.isReader hs ho.routes

/-- Wherever it stands, the reader comes back to `read_frame` or ends. -/
theorem Reads.ends_of_reading {R : Threads σ α} (hR : Reads R) {s : State σ}
    (hstopped : R.reader s.inner = .stopped → (R.routes s.inner).tasks = [])
    (hback : ∀ t, R.reader t = .reading → Ends R { s with inner := t }) : Ends R s := by
  have hput : ∀ (u : σ) (f : Frame) (c : Nat), R.reader u = .putting f c → Ends R { s with inner := u } := by
    intro u f c hu
    obtain ⟨a, t, hown, ht⟩ := hR.put u f c hu
    exact Ends.own (s := { s with inner := u }) (hback t ht) hown
  cases hr : R.reader s.inner with
  | reading => exact hback s.inner hr
  | routing f =>
    obtain ⟨a, t, hown, ht | ⟨c, ht⟩⟩ := hR.route s.inner f hr
    · exact (hback t ht).own hown
    · exact (hput t f c ht).own hown
  | putting f c => exact hput s.inner f c hr
  | ponging f =>
    obtain ⟨a, t, hown, ht⟩ := hR.pong s.inner f hr
    exact (hback t ht).own hown
  | failing e => exact hR.ends_of_failing hr
  | stopped => exact ends_of_stopped hr (hstopped hr)

/-- Once the socket is closed, a reader that is not blocked in `recv` ends by itself. -/
theorem Reads.ends {R : Threads σ α} (hR : Reads R) {s : State σ} (hc : s.closed = true) (hblocked : s.receiving = false)
    (hstopped : R.reader s.inner = .stopped → (R.routes s.inner).tasks = []) : Ends R s := by
  -- by induction on what is buffered: `read_frame` takes a frame off it, or raises
  have hreading : ∀ (n : Nat) (s : State σ), s.buf.length = n → s.closed = true → s.receiving = false → R.reader s.inner = .reading →
      Ends R s := by
    intro n
    induction n using Nat.strong_induction_on with
    | h n ih =>
      intro s hn hc hblocked hr
      have hdecode : (machine R).step s .decode =
          match decodeFrame s.buf with
          | .ok (f, rest) => (R.machine.step s.inner (R.readFrame f)).map (fun t => { s with inner := t, buf := rest })
          | .error (.truncatedFrame _ _) => s.fail R (.os "[Errno 9] Bad file descriptor")
          | .error e => s.fail R (.frame e) := by
        show step R s .decode = _
        simp only [step, hr, hblocked, hc]
        rfl
      cases hbuf : decodeFrame s.buf with
      | error e =>
        rw [hbuf] at hdecode
        cases e <;> exact hR.ends_of_fail hr hdecode
      | ok r =>
        obtain ⟨f, rest⟩ := r
        rw [hbuf] at hdecode
        obtain ⟨t, hstep, hreader, hroutes⟩ := hR.read s.inner f hr
        dsimp only at hdecode
        rw [hstep] at hdecode
        have hshort : rest.length < n := by
          have hle := (decodeFrame_rest hbuf).1
          have hpos : 0 < headerSize := by decide
          omega
        have h : Ends R { s with inner := t, buf := rest } := by
          refine hR.ends_of_reading (fun hstop => ?_) fun u hu => ih rest.length hshort _ rfl hc hblocked hu
          have hstop : R.reader t = .stopped := hstop
          rw [hreader] at hstop
          unfold Reader.afterRead at hstop
          split at hstop <;> cases hstop
        exact h.step rfl hdecode hroutes
  exact hR.ends_of_reading hstopped fun t ht => hreading _ { s with inner := t } rfl hc hblocked ht

end Socket

end BrainSdk.Python
