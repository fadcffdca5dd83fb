import BrainSdk.Python.Handshake

/-!
# What a step of the handshake can do, and what always holds of it

The frames that the reader has routed are the frames that the handshake has taken and those on its queue, in that order, and how far the
handshake has come is fixed by what it has taken.
-/

namespace BrainSdk.Python.Handshake

open Library Wire

variable {ω α : Type}

/-- The HELLO frame of the handshake. -/
def helloFrame (Γ : Ctx ω α) : Frame := ⟨opHello, flagEos, handshakeStreamId, Γ.hello⟩

/-- The AUTH frame of the handshake. -/
def authFrame (Γ : Ctx ω α) : Frame := ⟨opAuth, flagEos, handshakeStreamId, Γ.auth⟩

/-- What each action needs of the state, and the state it leaves. -/
inductive Effect (Γ : Ctx ω α) (s : State ω α) : Action → State ω α → Prop
  | refuse {e : Exc} (hpc : s.pc = .registering) (he : s.closedError = some e) : Effect Γ s .register { s with pc := .done (.raised e) }
  | register (hpc : s.pc = .registering) (he : s.closedError = none) :
      Effect Γ s .register { s with routes := s.routes.insert handshakeStreamId 0, pc := .writingHello }
  | writeFailed {failure : Option String} {opcode : Nat} {payload : Bytes} {e : Exc}
      (hpc : (s.pc = .writingHello ∧ opcode = opHello ∧ payload = Γ.hello) ∨
        ∃ w, s.pc = .writingAuth w ∧ opcode = opAuth ∧ payload = Γ.auth)
      (he : tryWrite s.maxPayloadSize opcode handshakeStreamId payload failure = .error e) :
      Effect Γ s (.write failure) { s with pc := .leaving (.raised e) }
  | hello {failure : Option String} (hpc : s.pc = .writingHello) (hfits : Γ.hello.length ≤ s.maxPayloadSize) :
      Effect Γ s (.write failure) { s with sent := s.sent ++ [helloFrame Γ], pc := .awaitingWelcome }
  | auth {failure : Option String} {w : ω} (hpc : s.pc = .writingAuth w) (hfits : Γ.auth.length ≤ s.maxPayloadSize) :
      Effect Γ s (.write failure) { s with sent := s.sent ++ [authFrame Γ], pc := .awaitingAuthOk w }
  | noWelcome {item : Item} {rest : List Item} {e : Exc} (hpc : s.pc = .awaitingWelcome) (hq : s.queue = item :: rest)
      (he : welcomeOf Γ item = .error e) : Effect Γ s (.dequeue item) { s with queue := rest, pc := .leaving (.raised e) }
  | welcome {item : Item} {rest : List Item} {w : ω} (hpc : s.pc = .awaitingWelcome) (hq : s.queue = item :: rest)
      (hw : welcomeOf Γ item = .ok w) : Effect Γ s (.dequeue item) { s with queue := rest, pc := .writingAuth w }
  | noAuthOk {item : Item} {rest : List Item} {w : ω} {e : Exc} (hpc : s.pc = .awaitingAuthOk w) (hq : s.queue = item :: rest)
      (he : authOkOf Γ item = .error e) : Effect Γ s (.dequeue item) { s with queue := rest, pc := .leaving (.raised e) }
  | authOk {item : Item} {rest : List Item} {w : ω} {a : α} (hpc : s.pc = .awaitingAuthOk w) (hq : s.queue = item :: rest)
      (ha : authOkOf Γ item = .ok a) : Effect Γ s (.dequeue item) { s with queue := rest, pc := .accepting w a }
  | timeout {d : ℚ} (hpc : s.pc = .awaitingWelcome ∨ ∃ w, s.pc = .awaitingAuthOk w) (hq : s.queue = []) :
      Effect Γ s .timeout { s with pc := .leaving (.raised (.brainTimeout d)) }
  | accept {w : ω} {a : α} (hpc : s.pc = .accepting w a) :
      Effect Γ s .accept { s with maxPayloadSize := limitOf Γ w, pc := .leaving (.returned w a) }
  | deregister {o : Outcome ω α} (hpc : s.pc = .leaving o) :
      Effect Γ s .deregister { s with routes := s.routes.erase handshakeStreamId, pc := .done o }
  | interrupt (hpc : s.pc.isWait = true) : Effect Γ s .interrupt { s with pc := .leaving .interrupted }
  | read {f : Frame} {rest : List Frame} (hr : s.reader = .reading) (hi : s.inbox = f :: rest) :
      Effect Γ s (.readFrame f) { s with inbox := rest, reader := .afterRead f }
  | readError {e : ReadFailure} (hr : s.reader = .reading) : Effect Γ s (.readError e) { s with reader := .failing e }
  | pong {f : Frame} {now : Nat} {failure : Option String} {pongs : List Frame} (hr : s.reader = .ponging f)
      (hp : ∀ g ∈ pongs, g.opcode = opClientPong) :
      Effect Γ s (.pong now failure) { s with reader := .reading, sent := s.sent ++ pongs }
  | found {f : Frame} {c : Nat} (hr : s.reader = .routing f) (hl : s.routes.lookup f.streamId = some c) :
      Effect Γ s (.lookup f) { s with reader := .putting f c }
  | unknown {f : Frame} (hr : s.reader = .routing f) (hl : s.routes.lookup f.streamId = none) :
      Effect Γ s (.lookup f) { s with reader := .reading }
  | put {f : Frame} {c : Nat} (hr : s.reader = .putting f c) :
      Effect Γ s (.put f c) { s with reader := .reading, queue := s.queue ++ [.frame f] }
  | failAll {e : ReadFailure} (hr : s.reader = .failing e) :
      Effect Γ s .failAll
        { s with
          closedError := s.closedError.or (some e.error)
          queue := s.queue ++ s.routes.tasks.map (fun _ => .closed e.error)
          routes := ∅
          reader := .stopped }

/-- `_write` writes the frame it was given, or nothing. -/
theorem tryWrite_ok {m opcode streamId : Nat} {payload : Bytes} {failure : Option String} {f : Frame}
    (h : tryWrite m opcode streamId payload failure = .ok f) : f = ⟨opcode, flagEos, streamId, payload⟩ := by
  unfold tryWrite at h
  split at h
  · cases h
  · split at h
    · cases h
    · cases h
    · split at h
      · cases h
      · exact (Except.ok.inj h).symm

/-- What `_write` writes is within the limit. -/
theorem tryWrite_fits {m opcode streamId : Nat} {payload : Bytes} {failure : Option String} {f : Frame}
    (h : tryWrite m opcode streamId payload failure = .ok f) : payload.length ≤ m := by
  unfold tryWrite at h
  split at h
  · cases h
  · rename_i hle
    exact Nat.le_of_not_lt hle

theorem write_effect {Γ : Ctx ω α} {s s' : State ω α} {failure : Option String} (h : step Γ s (.write failure) = some s') :
    Effect Γ s (.write failure) s' := by
  simp only [step] at h
  split at h
  · rename_i hpc
    cases h
    unfold State.write
    cases hw : tryWrite s.maxPayloadSize opHello handshakeStreamId Γ.hello failure with
    | error e =>
      show Effect Γ s (.write failure) { s with sent := s.sent ++ [], pc := .leaving (.raised e) }
      rw [List.append_nil]
      exact .writeFailed (.inl ⟨hpc, rfl, rfl⟩) hw
    | ok f =>
      rw [tryWrite_ok hw]
      exact .hello hpc (tryWrite_fits hw)
  · rename_i w hpc
    cases h
    unfold State.write
    cases hw : tryWrite s.maxPayloadSize opAuth handshakeStreamId Γ.auth failure with
    | error e =>
      show Effect Γ s (.write failure) { s with sent := s.sent ++ [], pc := .leaving (.raised e) }
      rw [List.append_nil]
      exact .writeFailed (.inr ⟨w, hpc, rfl, rfl⟩) hw
    | ok f =>
      rw [tryWrite_ok hw]
      exact .auth hpc (tryWrite_fits hw)
  · cases h

theorem dequeue_effect {Γ : Ctx ω α} {s s' : State ω α} {item : Item} (h : step Γ s (.dequeue item) = some s') :
    Effect Γ s (.dequeue item) s' := by
  simp only [step] at h
  split at h
  · rename_i i rest hq
    obtain ⟨rfl, h⟩ := Option.ite_none_right_eq_some.1 h
    obtain ⟨pc, hpc, rfl⟩ := Option.map_eq_some_iff.1 h
    unfold Pc.afterDequeue at hpc
    split at hpc
    · rename_i hs
      cases hw : welcomeOf Γ i with
      | error e =>
        rw [hw] at hpc
        cases hpc
        exact .noWelcome hs hq hw
      | ok w =>
        rw [hw] at hpc
        cases hpc
        exact .welcome hs hq hw
    · rename_i w hs
      cases ha : authOkOf Γ i with
      | error e =>
        rw [ha] at hpc
        cases hpc
        exact .noAuthOk hs hq ha
      | ok a =>
        rw [ha] at hpc
        cases hpc
        exact .authOk hs hq ha
    · cases hpc
  · cases h

theorem step_effect {Γ : Ctx ω α} {s s' : State ω α} {a : Action} (h : step Γ s a = some s') : Effect Γ s a s' := by
  cases a with
  | register =>
    simp only [step] at h
    split at h
    · rename_i e hpc he
      cases h
      exact .refuse hpc he
    · rename_i hpc he
      cases h
      exact .register hpc he
    · cases h
  | write failure => exact write_effect h
  | dequeue item => exact dequeue_effect h
  | timeout =>
    simp only [step] at h
    split at h
    · rename_i hpc hq hd
      cases h
      exact .timeout (.inl hpc) hq
    · rename_i w d hpc hq hd
      cases h
      exact .timeout (.inr ⟨w, hpc⟩) hq
    · cases h
  | accept =>
    simp only [step] at h
    split at h
    · rename_i hpc
      cases h
      exact .accept hpc
    · cases h
  | deregister =>
    simp only [step] at h
    split at h
    · rename_i hpc
      cases h
      exact .deregister hpc
    · cases h
  | interrupt =>
    obtain ⟨hpc, h⟩ := Option.ite_none_right_eq_some.1 h
    cases h
    exact .interrupt hpc
  | readFrame f =>
    simp only [step] at h
    split at h
    · rename_i hr hi
      obtain ⟨rfl, h⟩ := Option.ite_none_right_eq_some.1 h
      cases h
      exact .read hr hi
    · cases h
  | readError e =>
    obtain ⟨hr, h⟩ := Option.ite_none_right_eq_some.1 h
    cases h
    exact .readError hr
  | pong now failure =>
    simp only [step] at h
    split at h
    · rename_i f hr
      cases h
      refine .pong hr fun g hg => ?_
      let payload := Γ.encodeClientPong (serverTimestamp Γ.toCtx f) now
      cases hw : tryWrite s.maxPayloadSize opClientPong handshakeStreamId payload failure with
      | error e =>
        simp only [payload] at hw
        rw [hw] at hg
        cases hg
      | ok p =>
        simp only [payload] at hw
        rw [hw] at hg
        rw [List.mem_singleton.1 hg, tryWrite_ok hw]
    · cases h
  | lookup f =>
    obtain ⟨hr, h⟩ := Option.ite_none_right_eq_some.1 h
    split at h
    · rename_i c hl
      cases h
      exact .found hr hl
    · rename_i hl
      cases h
      exact .unknown hr hl
  | put f c =>
    obtain ⟨hr, h⟩ := Option.ite_none_right_eq_some.1 h
    cases h
    exact .put hr
  | failAll =>
    simp only [step] at h
    split at h
    · rename_i e hr
      cases h
      exact .failAll hr
    · cases h

/-! ### What always holds -/

/-- The queue holds the frames `frames`, and after them the sentinels of a reader that has stopped. -/
def Queued (s : State ω α) (frames : List Frame) : Prop :=
  ∃ errors : List Exc, s.queue = frames.map .frame ++ errors.map .closed ∧ (errors ≠ [] → s.reader = .stopped)

/-- The frames begin with a WELCOME that the handshake accepts, and go on with `rest`. -/
def Welcomed (Γ : Ctx ω α) (frames : List Frame) (w : ω) (rest : List Frame) : Prop :=
  ∃ f, frames = f :: rest ∧ welcomeOf Γ (.frame f) = .ok w

/-- The frames begin with a WELCOME and an AUTH_OK that the handshake accepts. -/
def Accepted (Γ : Ctx ω α) (frames : List Frame) (w : ω) (a : α) : Prop :=
  ∃ g rest, Welcomed Γ frames w (g :: rest) ∧ authOkOf Γ (.frame g) = .ok a

/-- What a handshake that has ended has written, given the frames routed to it. -/
def Ended (Γ : Ctx ω α) (frames sent : List Frame) : Outcome ω α → Prop
  | .returned w a => handshakeWrites sent = [helloFrame Γ, authFrame Γ] ∧ Accepted Γ frames w a
  | .raised _ | .interrupted =>
    handshakeWrites sent = [] ∨ handshakeWrites sent = [helloFrame Γ] ∨
      (handshakeWrites sent = [helloFrame Γ, authFrame Γ] ∧ ∃ w rest, Welcomed Γ frames w rest)

/-- How far the handshake has come, given the frames routed to it. -/
def Stage (Γ : Ctx ω α) (frames : List Frame) (s : State ω α) : Prop :=
  match s.pc with
  | .registering => handshakeWrites s.sent = [] ∧ frames = [] ∧ s.queue = [] ∧ s.routes = ∅ ∧ ∀ f c, s.reader ≠ .putting f c
  | .writingHello => handshakeWrites s.sent = [] ∧ Queued s frames
  | .awaitingWelcome => handshakeWrites s.sent = [helloFrame Γ] ∧ Queued s frames
  | .writingAuth w => handshakeWrites s.sent = [helloFrame Γ] ∧ ∃ rest, Welcomed Γ frames w rest ∧ Queued s rest
  | .awaitingAuthOk w => handshakeWrites s.sent = [helloFrame Γ, authFrame Γ] ∧ ∃ rest, Welcomed Γ frames w rest ∧ Queued s rest
  | .accepting w a => handshakeWrites s.sent = [helloFrame Γ, authFrame Γ] ∧ Accepted Γ frames w a
  | .leaving o => Ended Γ frames s.sent o
  | .done o => Ended Γ frames s.sent o ∧ s.routes = ∅

/-- The payload limit is that of the WELCOME once the handshake has succeeded, and the limit of the format until then. -/
def LimitOk (Γ : Ctx ω α) (s : State ω α) : Prop :=
  s.maxPayloadSize =
    match s.pc with
    | .leaving (.returned w _) | .done (.returned w _) => limitOf Γ w
    | _ => maxPayloadBytes

/-- What always holds, given the frames routed to the handshake. -/
structure Inv (Γ : Ctx ω α) (frames : List Frame) (s : State ω α) : Prop where
  /-- The one route is that of the handshake. -/
  routes : s.routes = ∅ ∨ s.routes = (∅ : Routes Nat).insert handshakeStreamId 0
  routing : ∀ f, s.reader = .routing f → f.opcode ≠ opServerPing
  putting : ∀ f c, s.reader = .putting f c → isForHandshake f = true
  own : ∀ f ∈ frames, isForHandshake f = true
  stage : Stage Γ frames s
  limit : LimitOk Γ s

/-! #### What a step keeps -/

theorem Welcomed.append {Γ : Ctx ω α} {frames rest : List Frame} {w : ω} (h : Welcomed Γ frames w rest) (more : List Frame) :
    Welcomed Γ (frames ++ more) w (rest ++ more) := by
  obtain ⟨f, rfl, hw⟩ := h
  exact ⟨f, rfl, hw⟩

theorem Accepted.append {Γ : Ctx ω α} {frames : List Frame} {w : ω} {a : α} (h : Accepted Γ frames w a) (more : List Frame) :
    Accepted Γ (frames ++ more) w a := by
  obtain ⟨g, rest, hw, ha⟩ := h
  exact ⟨g, rest ++ more, hw.append more, ha⟩

theorem Ended.append {Γ : Ctx ω α} {frames sent : List Frame} {o : Outcome ω α} (h : Ended Γ frames sent o) (more : List Frame) :
    Ended Γ (frames ++ more) sent o := by
  have hraised : ∀ {frames}, (handshakeWrites sent = [] ∨ handshakeWrites sent = [helloFrame Γ] ∨
      (handshakeWrites sent = [helloFrame Γ, authFrame Γ] ∧ ∃ w rest, Welcomed Γ frames w rest)) →
      handshakeWrites sent = [] ∨ handshakeWrites sent = [helloFrame Γ] ∨
        (handshakeWrites sent = [helloFrame Γ, authFrame Γ] ∧ ∃ w rest, Welcomed Γ (frames ++ more) w rest) := by
    rintro frames (h | h | ⟨h, w, rest, hw⟩)
    · exact .inl h
    · exact .inr (.inl h)
    · exact .inr (.inr ⟨h, w, rest ++ more, hw.append more⟩)
  cases o with
  | returned w a => exact ⟨h.1, h.2.append more⟩
  | raised e => exact hraised h
  | interrupted => exact hraised h

/-- A queue without sentinels, when the reader has not stopped. -/
theorem Queued.of_running {s : State ω α} {frames : List Frame} (h : Queued s frames) (hr : s.reader ≠ .stopped) :
    s.queue = frames.map .frame := by
  obtain ⟨errors, hq, herr⟩ := h
  cases errors with
  | nil => rw [hq, List.map_nil, List.append_nil]
  | cons e errors => exact absurd (herr (List.cons_ne_nil _ _)) hr

theorem queued_of_eq {s : State ω α} {frames : List Frame} (h : s.queue = frames.map .frame) : Queued s frames :=
  ⟨[], by rw [h, List.map_nil, List.append_nil], fun h => absurd rfl h⟩

/-- A step of the reader that changes neither the handshake nor its queue. -/
theorem Stage.of_reader {Γ : Ctx ω α} {frames : List Frame} {s s' : State ω α} (h : Stage Γ frames s) (hr : s.reader ≠ .stopped)
    (hpc : s'.pc = s.pc) (hw : handshakeWrites s'.sent = handshakeWrites s.sent) (hq : s'.queue = s.queue)
    (hroutes : s'.routes = s.routes) (hput : s.routes = ∅ → ∀ f c, s'.reader ≠ .putting f c) : Stage Γ frames s' := by
  have hqueued : ∀ frames, Queued s frames → Queued s' frames := fun frames h => queued_of_eq (hq.trans (h.of_running hr))
  have hended : ∀ o, Ended Γ frames s.sent o → Ended Γ frames s'.sent o := by
    intro o h
    cases o <;> (unfold Ended at *; rw [hw]; exact h)
  unfold Stage at *
  rw [hpc]
  split at h
  · obtain ⟨hwrites, hframes, hqueue, hempty, -⟩ := h
    exact ⟨hw.trans hwrites, hframes, hq.trans hqueue, hroutes.trans hempty, hput hempty⟩
  · exact ⟨hw.trans h.1, hqueued _ h.2⟩
  · exact ⟨hw.trans h.1, hqueued _ h.2⟩
  · obtain ⟨hwrites, rest, hwel, hqueue⟩ := h
    exact ⟨hw.trans hwrites, rest, hwel, hqueued _ hqueue⟩
  · obtain ⟨hwrites, rest, hwel, hqueue⟩ := h
    exact ⟨hw.trans hwrites, rest, hwel, hqueued _ hqueue⟩
  · exact ⟨hw.trans h.1, h.2⟩
  · exact hended _ h
  · exact ⟨hended _ h.1, hroutes.trans h.2⟩

/-- The reader puts a frame on the queue. -/
theorem Stage.put {Γ : Ctx ω α} {frames : List Frame} {s : State ω α} {f : Frame} {c : Nat} (h : Stage Γ frames s)
    (hr : s.reader = .putting f c) :
    Stage Γ (frames ++ [f]) { s with reader := .reading, queue := s.queue ++ [.frame f] } := by
  have hrun : s.reader ≠ .stopped := by rw [hr]; exact nofun
  have hqueued : ∀ {frames}, Queued s frames →
      Queued { s with reader := .reading, queue := s.queue ++ [.frame f] } (frames ++ [f]) := by
    intro frames h
    refine queued_of_eq ?_
    show s.queue ++ [.frame f] = _
    rw [h.of_running hrun, List.map_append]
    rfl
  unfold Stage at *
  dsimp only
  split at h
  · exact absurd hr (h.2.2.2.2 f c)
  · exact ⟨h.1, hqueued h.2⟩
  · exact ⟨h.1, hqueued h.2⟩
  · obtain ⟨hwrites, rest, hwel, hqueue⟩ := h
    exact ⟨hwrites, rest ++ [f], hwel.append [f], hqueued hqueue⟩
  · obtain ⟨hwrites, rest, hwel, hqueue⟩ := h
    exact ⟨hwrites, rest ++ [f], hwel.append [f], hqueued hqueue⟩
  · exact ⟨h.1, h.2.append [f]⟩
  · exact h.append [f]
  · exact ⟨h.1.append [f], h.2⟩

/-- The reader fails the connection. -/
theorem Stage.failAll {Γ : Ctx ω α} {frames : List Frame} {s : State ω α} {e : ReadFailure} (h : Stage Γ frames s)
    (hr : s.reader = .failing e) (error : Option Exc) :
    Stage Γ frames
      { s with
        closedError := error
        queue := s.queue ++ s.routes.tasks.map (fun _ => .closed e.error)
        routes := ∅
        reader := .stopped } := by
  have hrun : s.reader ≠ .stopped := by rw [hr]; exact nofun
  have hqueued : ∀ {frames}, Queued s frames → Queued
      { s with closedError := error, queue := s.queue ++ s.routes.tasks.map (fun _ => .closed e.error), routes := ∅, reader := .stopped }
      frames := by
    intro frames h
    refine ⟨s.routes.tasks.map fun _ => e.error, ?_, fun _ => rfl⟩
    show s.queue ++ _ = _
    rw [h.of_running hrun, List.map_map]
    rfl
  unfold Stage at *
  dsimp only
  split at h
  · obtain ⟨hwrites, hframes, hqueue, hempty, -⟩ := h
    refine ⟨hwrites, hframes, ?_, rfl, nofun⟩
    show s.queue ++ s.routes.tasks.map _ = []
    rw [hqueue, hempty]
    rfl
  · exact ⟨h.1, hqueued h.2⟩
  · exact ⟨h.1, hqueued h.2⟩
  · obtain ⟨hwrites, rest, hwel, hqueue⟩ := h
    exact ⟨hwrites, rest, hwel, hqueued hqueue⟩
  · obtain ⟨hwrites, rest, hwel, hqueue⟩ := h
    exact ⟨hwrites, rest, hwel, hqueued hqueue⟩
  · exact h
  · exact h
  · exact ⟨h.1, rfl⟩

theorem handshakeWrites_append_pongs {sent pongs : List Frame} (h : ∀ g ∈ pongs, g.opcode = opClientPong) :
    handshakeWrites (sent ++ pongs) = handshakeWrites sent := by
  unfold handshakeWrites
  rw [List.filter_append]
  have hnone : pongs.filter (fun f => f.opcode ≠ opClientPong) = [] := by
    refine List.filter_eq_nil_iff.2 fun g hg => ?_
    simp [h g hg]
  rw [hnone, List.append_nil]

theorem handshakeWrites_append {sent : List Frame} {f : Frame} (h : f.opcode ≠ opClientPong) :
    handshakeWrites (sent ++ [f]) = handshakeWrites sent ++ [f] := by
  unfold handshakeWrites
  rw [List.filter_append, List.filter_cons_of_pos (by simpa using h), List.filter_nil]

/-- Only `put` routes a frame. -/
theorem routed_snoc {a : Action} (h : ∀ f c, a ≠ .put f c) (tr : List Action) : routed (tr ++ [a]) = routed tr := by
  unfold routed
  rw [List.filterMap_append]
  cases a with
  | put f c => exact absurd rfl (h f c)
  | _ => exact List.append_nil _

theorem routed_put (tr : List Action) (f : Frame) (c : Nat) : routed (tr ++ [.put f c]) = routed tr ++ [f] := List.filterMap_append

/-- The stage that each step leaves. -/
theorem Stage.step {Γ : Ctx ω α} {tr : List Action} {s s' : State ω α} {a : Action} (h : Stage Γ (routed tr) s)
    (he : Effect Γ s a s') (hroutes : s.routes = ∅ ∨ s.routes = (∅ : Routes Nat).insert handshakeStreamId 0) :
    Stage Γ (routed (tr ++ [a])) s' := by
  -- what the stage says when the handshake is known to be at `pc`
  have hat : ∀ {pc}, s.pc = pc → Stage Γ (routed tr) { s with pc := pc } := by
    rintro pc rfl
    exact h
  have hsame : (∀ f c, a ≠ .put f c) → routed (tr ++ [a]) = routed tr := fun ha => routed_snoc ha tr
  cases he with
  | refuse hpc he =>
    obtain ⟨hwrites, -, -, hempty, -⟩ := hat hpc
    rw [hsame nofun]
    exact ⟨.inl hwrites, hempty⟩
  | register hpc he =>
    obtain ⟨hwrites, hframes, hqueue, -, -⟩ := hat hpc
    rw [hsame nofun]
    refine ⟨hwrites, queued_of_eq ?_⟩
    show s.queue = _
    rw [hqueue, hframes]
    rfl
  | writeFailed hpc he =>
    rw [hsame nofun]
    rcases hpc with ⟨hpc, -, -⟩ | ⟨w, hpc, -, -⟩
    · exact .inl (hat hpc).1
    · exact .inr (.inl (hat hpc).1)
  | hello hpc hfits =>
    obtain ⟨hwrites, hqueue⟩ := hat hpc
    rw [hsame nofun]
    refine ⟨?_, hqueue⟩
    show handshakeWrites (s.sent ++ [helloFrame Γ]) = _
    have hno : (helloFrame Γ).opcode ≠ opClientPong := (by decide : opHello ≠ opClientPong)
    rw [handshakeWrites_append hno, show handshakeWrites s.sent = [] from hwrites]
    rfl
  | @auth _ w hpc hfits =>
    obtain ⟨hwrites, rest, hwel, hqueue⟩ := hat hpc
    rw [hsame nofun]
    refine ⟨?_, rest, hwel, hqueue⟩
    show handshakeWrites (s.sent ++ [authFrame Γ]) = _
    have hno : (authFrame Γ).opcode ≠ opClientPong := (by decide : opAuth ≠ opClientPong)
    rw [handshakeWrites_append hno, show handshakeWrites s.sent = [helloFrame Γ] from hwrites]
    rfl
  | noWelcome hpc hq he =>
    rw [hsame nofun]
    exact .inr (.inl (hat hpc).1)
  | @welcome item rest w hpc hq hw =>
    obtain ⟨hwrites, errors, hqueue, herr⟩ := hat hpc
    rw [hsame nofun]
    have hcons : item :: rest = (routed tr).map Item.frame ++ errors.map Item.closed := hq.symm.trans hqueue
    refine ⟨hwrites, ?_⟩
    cases hframes : routed tr with
    | nil =>
      -- a sentinel is no WELCOME
      rw [hframes] at hcons
      obtain ⟨e, errors, rfl⟩ : ∃ e es, errors = e :: es := by
        cases errors with
        | nil => cases hcons
        | cons e es => exact ⟨e, es, rfl⟩
      obtain ⟨rfl, -⟩ := List.cons.inj hcons
      cases hw
    | cons f frames =>
      rw [hframes] at hcons
      obtain ⟨rfl, hrest⟩ := List.cons.inj hcons
      exact ⟨frames, ⟨f, rfl, hw⟩, errors, hrest, herr⟩
  | @noAuthOk _ _ w _ hpc hq he =>
    obtain ⟨hwrites, rest, hwel, -⟩ := hat hpc
    rw [hsame nofun]
    exact .inr (.inr ⟨hwrites, w, rest, hwel⟩)
  | @authOk item rest w a hpc hq ha =>
    obtain ⟨hwrites, frames, hwel, errors, hqueue, herr⟩ := hat hpc
    rw [hsame nofun]
    have hcons : item :: rest = frames.map Item.frame ++ errors.map Item.closed := hq.symm.trans hqueue
    refine ⟨hwrites, ?_⟩
    cases frames with
    | nil =>
      obtain ⟨e, errors, rfl⟩ : ∃ e es, errors = e :: es := by
        cases errors with
        | nil => cases hcons
        | cons e es => exact ⟨e, es, rfl⟩
      obtain ⟨rfl, -⟩ := List.cons.inj hcons
      cases ha
    | cons g frames =>
      obtain ⟨rfl, -⟩ := List.cons.inj hcons
      exact ⟨g, frames, hwel, ha⟩
  | timeout hpc hq =>
    rw [hsame nofun]
    rcases hpc with hpc | ⟨w, hpc⟩
    · exact .inr (.inl (hat hpc).1)
    · obtain ⟨hwrites, rest, hwel, -⟩ := hat hpc
      exact .inr (.inr ⟨hwrites, w, rest, hwel⟩)
  | accept hpc =>
    rw [hsame nofun]
    exact hat hpc
  | deregister hpc =>
    rw [hsame nofun]
    refine ⟨hat hpc, ?_⟩
    show s.routes.erase handshakeStreamId = ∅
    rcases hroutes with h | h <;> (rw [h]; rfl)
  | interrupt hpc =>
    rw [hsame nofun]
    cases hs : s.pc with
    | writingHello => exact .inl (hat hs).1
    | awaitingWelcome => exact .inr (.inl (hat hs).1)
    | writingAuth w => exact .inr (.inl (hat hs).1)
    | awaitingAuthOk w =>
      obtain ⟨hwrites, rest, hwel, -⟩ := hat hs
      exact .inr (.inr ⟨hwrites, w, rest, hwel⟩)
    | _ =>
      rw [hs] at hpc
      cases hpc
  | @read f _ hr hi =>
    rw [hsame nofun]
    refine h.of_reader (by rw [hr]; exact nofun) rfl rfl rfl rfl fun _ g c => ?_
    show Reader.afterRead f ≠ .putting g c
    unfold Reader.afterRead
    split <;> exact nofun
  | readError hr =>
    rw [hsame nofun]
    exact h.of_reader (by rw [hr]; exact nofun) rfl rfl rfl rfl fun _ => nofun
  | pong hr hp =>
    rw [hsame nofun]
    exact h.of_reader (by rw [hr]; exact nofun) rfl (handshakeWrites_append_pongs hp) rfl rfl fun _ => nofun
  | found hr hl =>
    rw [hsame nofun]
    refine h.of_reader (by rw [hr]; exact nofun) rfl rfl rfl rfl fun hempty => ?_
    rw [hempty] at hl
    cases hl
  | unknown hr hl =>
    rw [hsame nofun]
    exact h.of_reader (by rw [hr]; exact nofun) rfl rfl rfl rfl fun _ => nofun
  | @put f c hr => exact routed_put tr f c ▸ h.put hr
  | failAll hr =>
    rw [hsame nofun]
    exact h.failAll hr _

theorem LimitOk.step {Γ : Ctx ω α} {s s' : State ω α} {a : Action} (h : LimitOk Γ s) (he : Effect Γ s a s') : LimitOk Γ s' := by
  have hat : ∀ {pc}, s.pc = pc → LimitOk Γ { s with pc := pc } := by
    rintro pc rfl
    exact h
  cases he with
  | refuse hpc he => exact (hat hpc :)
  | register hpc he => exact (hat hpc :)
  | writeFailed hpc he => rcases hpc with ⟨hpc, -, -⟩ | ⟨w, hpc, -, -⟩ <;> exact (hat hpc :)
  | hello hpc hfits => exact (hat hpc :)
  | auth hpc hfits => exact (hat hpc :)
  | noWelcome hpc hq he => exact (hat hpc :)
  | welcome hpc hq hw => exact (hat hpc :)
  | noAuthOk hpc hq he => exact (hat hpc :)
  | authOk hpc hq ha => exact (hat hpc :)
  | timeout hpc hq => rcases hpc with hpc | ⟨w, hpc⟩ <;> exact (hat hpc :)
  | accept hpc => rfl
  | @deregister o hpc =>
    have hlimit := hat hpc
    cases o <;> exact hlimit
  | interrupt hpc =>
    cases hs : s.pc with
    | writingHello => exact (hat hs :)
    | awaitingWelcome => exact (hat hs :)
    | writingAuth w => exact (hat hs :)
    | awaitingAuthOk w => exact (hat hs :)
    | _ =>
      rw [hs] at hpc
      cases hpc
  | _ => exact h

theorem inv_init (Γ : Ctx ω α) (frames : List Frame) : Inv Γ [] (State.init frames) where
  routes := .inl rfl
  routing := nofun
  putting := nofun
  own := nofun
  stage := ⟨rfl, rfl, rfl, rfl, nofun⟩
  limit := rfl

theorem Inv.step {Γ : Ctx ω α} {tr : List Action} {s s' : State ω α} {a : Action} (h : Inv Γ (routed tr) s) (he : Effect Γ s a s') :
    Inv Γ (routed (tr ++ [a])) s' where
  routes := by
    cases he with
    | register hpc he =>
      refine .inr ?_
      show s.routes.insert handshakeStreamId 0 = _
      rcases h.routes with h | h
      · rw [h]
      · rw [h]
        rfl
    | deregister hpc =>
      refine .inl ?_
      show s.routes.erase handshakeStreamId = _
      rcases h.routes with h | h <;> (rw [h]; rfl)
    | failAll hr => exact .inl rfl
    | _ => exact h.routes
  routing := by
    cases he with
    | @read f _ hr hi =>
      intro g hg
      have hg : Reader.afterRead f = .routing g := hg
      unfold Reader.afterRead at hg
      split at hg
      · cases hg
      · rename_i hne
        cases hg
        exact hne
    | readError hr => exact nofun
    | pong hr hp => exact nofun
    | found hr hl => exact nofun
    | unknown hr hl => exact nofun
    | put hr => exact nofun
    | failAll hr => exact nofun
    | _ => exact h.routing
  putting := by
    cases he with
    | @read f _ hr hi =>
      intro g c hg
      have hg : Reader.afterRead f = .putting g c := hg
      unfold Reader.afterRead at hg
      split at hg
      · cases hg
      · cases hg
    | @found f c hr hl =>
      intro g d hg
      cases hg
      have hzero : f.streamId = handshakeStreamId := by
        rcases h.routes with hroutes | hroutes
        · rw [hroutes] at hl
          cases hl
        · rw [hroutes, Routes.lookup_insert_eq] at hl
          split at hl
          · assumption
          · cases hl
      unfold isForHandshake
      rw [hzero]
      simp [h.routing f hr]
    | readError hr => exact nofun
    | pong hr hp => exact nofun
    | unknown hr hl => exact nofun
    | put hr => exact nofun
    | failAll hr => exact nofun
    | _ => exact h.putting
  own := by
    have hsame : (∀ f c, a ≠ .put f c) → routed (tr ++ [a]) = routed tr := fun ha => routed_snoc ha tr
    cases he with
    | @put f c hr =>
      intro g hg
      rw [routed_put] at hg
      rcases List.mem_append.1 hg with hg | hg
      · exact h.own g hg
      · rw [List.mem_singleton.1 hg]
        exact h.putting f c hr
    | _ =>
      rw [hsame nofun]
      exact h.own
  stage := h.stage.step he h.routes
  limit := h.limit.step he

theorem inv_runs {Γ : Ctx ω α} {frames : List Frame} {tr : List Action} {s : State ω α} (hr : (machine Γ frames).Runs tr s) :
    Inv Γ (routed tr) s :=
  Machine.Runs.rec_on (M := machine Γ frames) (P := fun tr s => Inv Γ (routed tr) s) (inv_init Γ frames)
    (fun _ _ _ _ _ h hs => h.step (step_effect hs)) hr

end BrainSdk.Python.Handshake
