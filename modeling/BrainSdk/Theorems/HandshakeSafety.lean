import BrainSdk.Library.Simulation
import BrainSdk.Python.HandshakeInvariant

/-!
# The Python handshake sends its credential only to a peer that has negotiated a version

What the handshake has written and how it ends is fixed by the frames routed to stream 0. SERVER_PING frames and frames of other streams
are hidden actions of the connection: with and without them it has the same runs.
-/

namespace BrainSdk.Python.Handshake

open Library Wire

variable {ω α : Type}

/-! ### Frames that are not for the handshake -/

/-- The actions that are not about a SERVER_PING or a frame of another stream. -/
def Action.isVisible : Action → Bool
  | .readFrame f => isForHandshake f
  | .lookup f => f.streamId = handshakeStreamId
  | .pong _ _ => false
  | _ => true

/-- The reader, when its dealing with a frame that is not for the handshake is left out. -/
def quietReader : Reader → Reader
  | .ponging _ => .reading
  | .routing f => if f.streamId = handshakeStreamId then .routing f else .reading
  | r => r

/-- The connection without the frames that are not for the handshake. -/
def State.quiet (s : State ω α) : State ω α :=
  { s with inbox := s.inbox.filter isForHandshake, reader := quietReader s.reader, sent := handshakeWrites s.sent }

/-- The steps that are the same with and without the frames that are not for the handshake. -/
def Action.isOwn : Action → Bool
  | .lookup f => f.streamId = handshakeStreamId
  | .readFrame _ | .readError _ | .pong _ _ => false
  | _ => true

/-- A reader that is not left out is at its place in both. -/
theorem quietReader_eq {r r' : Reader} (h : quietReader r' = r') (hne : r' ≠ .reading) : quietReader r = r' ↔ r = r' := by
  constructor
  · intro hr
    cases r with
    | ponging f => exact absurd hr.symm hne
    | routing f =>
      have hif : (if f.streamId = handshakeStreamId then Reader.routing f else .reading) = r' := hr
      split at hif
      · exact hif
      · exact absurd hif.symm hne
    | _ => exact hr
  · rintro rfl
    exact h

theorem handshakeWrites_tryWrite (m : Nat) {opcode : Nat} (hop : opcode ≠ opClientPong) (payload : Bytes) (failure : Option String)
    (sent : List Frame) :
    handshakeWrites (sent ++ (tryWrite m opcode handshakeStreamId payload failure).toOption.toList) =
      handshakeWrites sent ++ (tryWrite m opcode handshakeStreamId payload failure).toOption.toList := by
  cases hw : tryWrite m opcode handshakeStreamId payload failure with
  | error e =>
    show handshakeWrites (sent ++ []) = handshakeWrites sent ++ []
    rw [List.append_nil, List.append_nil]
  | ok f =>
    rw [tryWrite_ok hw]
    exact handshakeWrites_append hop

theorem step_quiet (Γ : Ctx ω α) (s : State ω α) {a : Action} (ha : a.isOwn = true) :
    step Γ s.quiet a = (step Γ s a).map State.quiet := by
  rcases s with ⟨inbox, reader, routes, queue, closedError, m, sent, pc⟩
  cases a with
  | register => cases pc <;> cases closedError <;> rfl
  | write failure =>
    cases pc with
    | writingHello =>
      simp only [step, State.quiet, State.write, Option.map_some, handshakeWrites_tryWrite m (by decide : opHello ≠ opClientPong)]
    | writingAuth w =>
      simp only [step, State.quiet, State.write, Option.map_some, handshakeWrites_tryWrite m (by decide : opAuth ≠ opClientPong)]
    | _ => rfl
  | dequeue item =>
    cases queue with
    | nil => rfl
    | cons i rest =>
      show (if i = item then (pc.afterDequeue Γ item).map _ else none) =
        Option.map State.quiet (if i = item then (pc.afterDequeue Γ item).map _ else none)
      split
      · rw [Option.map_map]
        rfl
      · rfl
  | timeout => cases hd : Γ.requestTimeout <;> cases queue <;> cases pc <;> simp [step, State.quiet, hd]
  | accept => cases pc <;> rfl
  | deregister => cases pc <;> rfl
  | interrupt => cases pc <;> rfl
  | put f c =>
    have hput : quietReader (.putting f c) = .putting f c := rfl
    simp only [step, State.quiet, quietReader_eq hput (by simp)]
    split <;> rfl
  | failAll =>
    cases reader with
    | routing f =>
      by_cases hf : f.streamId = handshakeStreamId
      · have hquiet : quietReader (.routing f) = .routing f := if_pos hf
        simp only [step, State.quiet, hquiet, Option.map_none]
      · have hquiet : quietReader (.routing f) = .reading := if_neg hf
        simp only [step, State.quiet, hquiet, Option.map_none]
    | _ => rfl
  | lookup f =>
    have hown : quietReader (.routing f) = .routing f := if_pos (of_decide_eq_true ha)
    simp only [step, State.quiet, quietReader_eq hown (by simp)]
    split
    · split
      · rfl
      · rfl
    · rfl
  | _ => cases ha

theorem isForHandshake_iff {f : Frame} : isForHandshake f = true ↔ f.opcode ≠ opServerPing ∧ f.streamId = handshakeStreamId := by
  unfold isForHandshake
  rw [Bool.and_eq_true, decide_eq_true_iff, decide_eq_true_iff]

/-- A reader at `read_frame` can take the next frame of the inbox. -/
theorem read_enabled (Γ : Ctx ω α) {s : State ω α} {f : Frame} {rest : List Frame} (hr : s.reader = .reading) (hi : s.inbox = f :: rest) :
    step Γ s (.readFrame f) = some { s with inbox := rest, reader := .afterRead f } := by
  simp only [step, hr, hi, if_true]

/-- The connection with the frames that are not for the handshake does what it does without them, and besides hidden actions. -/
theorem hides (Γ : Ctx ω α) (frames : List Frame) : Hides (machine Γ frames) (machine Γ (frames.filter isForHandshake)) Action.isVisible
    State.quiet (fun s => ∃ tr, Inv Γ (routed tr) s) where
  init := rfl
  invariant := ⟨[], inv_init Γ frames⟩
  keeps := fun s a s' ⟨tr, hinv⟩ hs => ⟨tr ++ [a], hinv.step (step_effect hs)⟩
  shown := by
    rintro s a s' - hs hv
    have hs : step Γ s a = some s' := hs
    have hown : a.isOwn = true → step Γ s.quiet a = some s'.quiet := fun ha => by
      rw [step_quiet Γ s ha, hs, Option.map_some]
    show step Γ s.quiet a = some s'.quiet
    cases a with
    | readFrame f =>
      cases step_effect hs with
      | @read _ rest hr hi =>
        have hrest : s.quiet.inbox = f :: rest.filter isForHandshake := by
          show s.inbox.filter isForHandshake = _
          rw [hi]
          exact List.filter_cons_of_pos (p := isForHandshake) hv
        have hafter : quietReader (.afterRead f) = .afterRead f := by
          unfold Reader.afterRead
          rw [if_neg (isForHandshake_iff.1 hv).1]
          exact if_pos (isForHandshake_iff.1 hv).2
        have hread : s.quiet.reader = .reading := by
          show quietReader s.reader = .reading
          rw [hr]
          rfl
        rw [read_enabled Γ hread hrest]
        unfold State.quiet
        dsimp only
        rw [hafter]
    | readError e =>
      cases step_effect hs with
      | readError hr =>
        have hread : s.quiet.reader = .reading := by
          show quietReader s.reader = .reading
          rw [hr]
          rfl
        exact if_pos hread
    | pong now failure => cases hv
    | lookup f => exact hown hv
    | _ => exact hown rfl
  hidden := by
    rintro s a s' ⟨tr, hinv⟩ hs hv
    cases step_effect hs with
    | @read f rest hr hi =>
      have hno : isForHandshake f = false := hv
      have hafter : quietReader (.afterRead f) = .reading := by
        unfold Reader.afterRead
        split
        · rfl
        · rename_i hop
          exact if_neg fun hid => Bool.false_ne_true (hno.symm.trans (isForHandshake_iff.2 ⟨hop, hid⟩))
      unfold State.quiet
      dsimp only
      rw [hr, hi, List.filter_cons_of_neg (by rw [hno]; exact Bool.false_ne_true), hafter]
      rfl
    | pong hr hp =>
      unfold State.quiet
      dsimp only
      rw [hr, handshakeWrites_append_pongs hp]
      rfl
    | @found f c hr hl =>
      -- the one route is that of stream 0
      have hid : f.streamId ≠ handshakeStreamId := of_decide_eq_false hv
      rcases hinv.routes with hroutes | hroutes
      · rw [hroutes] at hl
        cases hl
      · rw [hroutes, Routes.lookup_insert_eq, if_neg hid] at hl
        cases hl
    | @unknown f hr hl =>
      have hid : f.streamId ≠ handshakeStreamId := of_decide_eq_false hv
      unfold State.quiet
      dsimp only
      rw [hr]
      have hquiet : quietReader (.routing f) = .reading := if_neg hid
      rw [hquiet]
      rfl
    | _ => cases hv

/-- The reader is not dealing with a frame that is not for the handshake. -/
def Ready (Γ : Ctx ω α) (s : State ω α) : Prop := quietReader s.reader = s.reader ∧ ∃ tr, Inv Γ (routed tr) s

/-- The reader takes a frame that is not for the handshake off the inbox, and goes back to reading. -/
theorem skip_frame (Γ : Ctx ω α) (frames : List Frame) {s : State ω α} {f : Frame} {rest : List Frame} (hinv : ∃ tr, Inv Γ (routed tr) s)
    (hr : s.reader = .reading) (hi : s.inbox = f :: rest) (hf : isForHandshake f = false) :
    ∃ tr s', (machine Γ frames).exec s tr = some s' ∧ tr.filter Action.isVisible = [] ∧ s'.reader = .reading ∧ s'.inbox = rest ∧
      s'.quiet = s.quiet ∧ ∃ tr, Inv Γ (routed tr) s' := by
  have hH := hides Γ frames
  let u : State ω α := { s with inbox := rest, reader := .afterRead f }
  have hread : (machine Γ frames).step s (.readFrame f) = some u := read_enabled Γ hr hi
  -- what the reader does with the frame
  obtain ⟨b, s', hb, hvis, hreader, hinbox⟩ : ∃ b s', (machine Γ frames).step u b = some s' ∧ b.isVisible = false ∧
      s'.reader = .reading ∧ s'.inbox = rest := by
    by_cases hop : f.opcode = opServerPing
    · have hafter : u.reader = .ponging f := if_pos hop
      obtain ⟨v, hv⟩ : ∃ v, step Γ u (.pong 0 none) = some v := by
        simp only [step, hafter]
        exact ⟨_, rfl⟩
      refine ⟨.pong 0 none, v, hv, rfl, ?_⟩
      cases step_effect hv with
      | pong hr hp => exact ⟨rfl, rfl⟩
    · have hafter : u.reader = .routing f := if_neg hop
      have hid : f.streamId ≠ handshakeStreamId := fun hid => Bool.false_ne_true (hf.symm.trans (isForHandshake_iff.2 ⟨hop, hid⟩))
      have hnone : u.routes.lookup f.streamId = none := by
        obtain ⟨tr, hinv⟩ := hinv
        show s.routes.lookup f.streamId = none
        rcases hinv.routes with h | h
        · rw [h]
          rfl
        · rw [h, Routes.lookup_insert_eq, if_neg hid]
          rfl
      refine ⟨.lookup f, { u with reader := .reading }, ?_, decide_eq_false hid, rfl, rfl⟩
      show step Γ u (.lookup f) = some _
      simp only [step, hafter, if_true, hnone]
  have hhide : Action.isVisible (.readFrame f) = false := hf
  have hinv' := hH.keeps s _ u hinv hread
  refine ⟨[.readFrame f, b], s', ?_, ?_, hreader, hinbox, ?_, hH.keeps u b s' hinv' hb⟩
  · simp only [Machine.exec, hread, hb, Option.bind_some]
  · simp only [List.filter_cons, hhide, hvis, Bool.false_eq_true, if_false, List.filter_nil]
  · exact (hH.hidden u b s' hinv' hb hvis).trans (hH.hidden s _ u hinv hread hhide)

/-- The reader takes the next frame for the handshake, after those before it that are not. -/
theorem follow_read (Γ : Ctx ω α) (frames : List Frame) {s : State ω α} {f : Frame} {rest : List Frame} (hinv : ∃ tr, Inv Γ (routed tr) s)
    (hr : s.reader = .reading) (hi : s.inbox.filter isForHandshake = f :: rest) :
    ∃ tr s', (machine Γ frames).exec s tr = some s' ∧ tr.filter Action.isVisible = [.readFrame f] ∧
      s'.quiet = { s.quiet with inbox := rest, reader := .afterRead f } ∧ Ready Γ s' := by
  -- by induction on the frames of the inbox
  induction hbox : s.inbox generalizing s with
  | nil =>
    rw [hbox] at hi
    cases hi
  | cons g inbox ih =>
    rw [hbox] at hi
    cases hg : isForHandshake g with
    | true =>
      rw [List.filter_cons_of_pos hg] at hi
      obtain ⟨rfl, hrest⟩ := List.cons.inj hi
      let u : State ω α := { s with inbox := inbox, reader := .afterRead g }
      have hread : (machine Γ frames).step s (.readFrame g) = some u := read_enabled Γ hr hbox
      have hafter : quietReader (.afterRead g) = .afterRead g := by
        unfold Reader.afterRead
        rw [if_neg (isForHandshake_iff.1 hg).1]
        exact if_pos (isForHandshake_iff.1 hg).2
      refine ⟨[.readFrame g], u, (Machine.exec_singleton _ _).trans hread, ?_, ?_, hafter, (hides Γ frames).keeps s _ u hinv hread⟩
      · exact List.filter_cons_of_pos hg
      · unfold State.quiet
        dsimp only [u]
        rw [hrest, hafter]
    | false =>
      obtain ⟨tr, s', htr, hvis, hr', hinbox, hquiet, hinv'⟩ := skip_frame Γ frames hinv hr hbox hg
      rw [List.filter_cons_of_neg (by rw [hg]; exact Bool.false_ne_true)] at hi
      obtain ⟨tr', t, htr', hvis', ht, hready⟩ := ih hinv' hr' (hinbox ▸ hi) hinbox
      refine ⟨tr ++ tr', t, ?_, ?_, hquiet ▸ ht, hready⟩
      · rw [Machine.exec_append, htr]
        exact htr'
      · rw [List.filter_append, hvis, hvis']
        rfl

theorem follows (Γ : Ctx ω α) (frames : List Frame) :
    Follows (machine Γ frames) (machine Γ (frames.filter isForHandshake)) Action.isVisible State.quiet (Ready Γ) where
  init := rfl
  ready := ⟨rfl, [], inv_init Γ frames⟩
  follow := by
    rintro s a t ⟨hready, hinv⟩ ht
    have ht : step Γ s.quiet a = some t := ht
    have hone : ∀ s', step Γ s a = some s' → a.isVisible = true → s'.quiet = t → quietReader s'.reader = s'.reader →
        ∃ tr s', (machine Γ frames).exec s tr = some s' ∧ tr.filter Action.isVisible = [a] ∧ s'.quiet = t ∧ Ready Γ s' :=
      fun s' hs hv hquiet hready' => ⟨[a], s', (Machine.exec_singleton _ _).trans hs, List.filter_cons_of_pos hv, hquiet, hready',
        (hides Γ frames).keeps s a s' hinv hs⟩
    have hown : a.isOwn = true → a.isVisible = true →
        ∃ tr s', (machine Γ frames).exec s tr = some s' ∧ tr.filter Action.isVisible = [a] ∧ s'.quiet = t ∧ Ready Γ s' := by
      intro ha hv
      rw [step_quiet Γ s ha] at ht
      obtain ⟨s', hs, hquiet⟩ := Option.map_eq_some_iff.1 ht
      refine hone s' hs hv hquiet ?_
      cases step_effect hs with
      | read hr hi => cases ha
      | readError hr => cases ha
      | pong hr hp => cases ha
      | found hr hl => rfl
      | unknown hr hl => rfl
      | put hr => rfl
      | failAll hr => rfl
      | _ => exact hready
    cases a with
    | readFrame f =>
      cases step_effect ht with
      | @read _ rest hr hi =>
        obtain ⟨tr, s', htr, hvis, hquiet, hready'⟩ := follow_read Γ frames hinv (hready.symm.trans hr) hi
        exact ⟨tr, s', htr, hvis, hquiet, hready'⟩
    | readError e =>
      cases step_effect ht with
      | readError hr =>
        have hs : step Γ s (.readError e) = some { s with reader := .failing e } := if_pos (hready.symm.trans hr)
        exact hone _ hs rfl rfl rfl
    | pong now failure =>
      cases step_effect ht with
      | pong hr hp =>
        have hr : s.reader = _ := hready.symm.trans hr
        rw [hr] at hready
        cases hready
    | lookup f =>
      by_cases hf : f.streamId = handshakeStreamId
      · exact hown (decide_eq_true hf) (decide_eq_true hf)
      · have hr : s.quiet.reader = .routing f := (Option.ite_none_right_eq_some.1 ht).1
        have hr' : s.reader = .routing f := hready.symm.trans hr
        rw [hr'] at hready
        have hquiet : quietReader (.routing f) = .reading := if_neg hf
        exact nomatch hquiet.symm.trans hready
    | _ => exact hown rfl rfl

/-! ### The handshake -/

/-- What a handshake has done, given the actions of its run. -/
structure Lawful (Γ : Ctx ω α) (tr : List Action) (s : State ω α) : Prop where
  /-- What is routed to the handshake is on stream 0 and no SERVER_PING. -/
  routed : ∀ f ∈ routed tr, f.opcode ≠ opServerPing ∧ f.streamId = handshakeStreamId
  /-- HELLO is written first, then AUTH. -/
  writes : handshakeWrites s.sent <+: [helloFrame Γ, authFrame Γ]
  /-- AUTH is written only after a WELCOME came first, with a version that was offered. -/
  auth : authFrame Γ ∈ handshakeWrites s.sent → ∃ f rest w, Handshake.routed tr = f :: rest ∧ f.opcode = opWelcome ∧
    Γ.decodeWelcome f.payload = .ok w ∧ Γ.chosenVersion w ∈ Γ.offered
  /-- An outcome is returned only after an AUTH_OK came next. -/
  returned : ∀ w a, s.pc = .done (.returned w a) → handshakeWrites s.sent = [helloFrame Γ, authFrame Γ] ∧
    ∃ f g rest, Handshake.routed tr = f :: g :: rest ∧ f.opcode = opWelcome ∧ Γ.decodeWelcome f.payload = .ok w ∧
      Γ.chosenVersion w ∈ Γ.offered ∧ g.opcode = opAuthOk ∧ Γ.decodeAuthOk g.payload = .ok a
  /-- After the handshake stream 0 has no route, and the payload limit has changed only if the handshake has succeeded. -/
  exit : ∀ o, s.pc = .done o → s.routes.lookup handshakeStreamId = none ∧
    s.maxPayloadSize = match o with | .returned w _ => limitOf Γ w | .raised _ | .interrupted => maxPayloadBytes

theorem expect_ok {Γ : Ctx ω α} {name : String} {expected : Nat} {f g : Frame} (h : expect Γ name expected (.frame f) = .ok g) :
    g = f ∧ f.opcode = expected := by
  simp only [expect] at h
  split at h
  · cases h
  · split at h
    · cases h
    · rename_i hop
      exact ⟨(Except.ok.inj h).symm, not_not.1 hop⟩

theorem welcomeOf_ok {Γ : Ctx ω α} {f : Frame} {w : ω} (h : welcomeOf Γ (.frame f) = .ok w) :
    f.opcode = opWelcome ∧ Γ.decodeWelcome f.payload = .ok w ∧ Γ.chosenVersion w ∈ Γ.offered := by
  unfold welcomeOf at h
  split at h
  · cases h
  · rename_i g hg
    obtain ⟨rfl, hop⟩ := expect_ok hg
    split at h
    · cases h
    · rename_i v hv
      split at h
      · cases h
      · rename_i hin
        cases h
        exact ⟨hop, hv, not_not.1 hin⟩

theorem authOkOf_ok {Γ : Ctx ω α} {f : Frame} {a : α} (h : authOkOf Γ (.frame f) = .ok a) :
    f.opcode = opAuthOk ∧ Γ.decodeAuthOk f.payload = .ok a := by
  unfold authOkOf at h
  split at h
  · cases h
  · rename_i g hg
    obtain ⟨rfl, hop⟩ := expect_ok hg
    split at h
    · cases h
    · rename_i v hv
      cases h
      exact ⟨hop, hv⟩

/-- What has been written, at any stage. -/
theorem Stage.written {Γ : Ctx ω α} {frames : List Frame} {s : State ω α} (h : Stage Γ frames s) :
    handshakeWrites s.sent = [] ∨ handshakeWrites s.sent = [helloFrame Γ] ∨
      (handshakeWrites s.sent = [helloFrame Γ, authFrame Γ] ∧ ∃ w rest, Welcomed Γ frames w rest) := by
  have hended : ∀ o, Ended Γ frames s.sent o → handshakeWrites s.sent = [] ∨ handshakeWrites s.sent = [helloFrame Γ] ∨
      (handshakeWrites s.sent = [helloFrame Γ, authFrame Γ] ∧ ∃ w rest, Welcomed Γ frames w rest) := by
    intro o h
    cases o with
    | returned w a =>
      obtain ⟨hwrites, g, rest, hwel, -⟩ := h
      exact .inr (.inr ⟨hwrites, w, g :: rest, hwel⟩)
    | raised e => exact h
    | interrupted => exact h
  unfold Stage at h
  split at h
  · exact .inl h.1
  · exact .inl h.1
  · exact .inr (.inl h.1)
  · exact .inr (.inl h.1)
  · obtain ⟨hwrites, rest, hwel, -⟩ := h
    exact .inr (.inr ⟨hwrites, _, rest, hwel⟩)
  · obtain ⟨hwrites, g, rest, hwel, -⟩ := h
    exact .inr (.inr ⟨hwrites, _, g :: rest, hwel⟩)
  · exact hended _ h
  · exact hended _ h.1

theorem lawful_runs {Γ : Ctx ω α} {frames : List Frame} {tr : List Action} {s : State ω α} (hr : (machine Γ frames).Runs tr s) :
    Lawful Γ tr s := by
  have hinv := inv_runs hr
  have hat : ∀ {pc}, s.pc = pc → Stage Γ (routed tr) { s with pc := pc } := by
    rintro pc rfl
    exact hinv.stage
  refine ⟨fun f hf => isForHandshake_iff.1 (hinv.own f hf), ?_, ?_, ?_, ?_⟩
  · rcases hinv.stage.written with h | h | ⟨h, -⟩
    · rw [h]
      exact List.nil_prefix
    · rw [h]
      exact ⟨[authFrame Γ], rfl⟩
    · rw [h]
  · intro hauth
    have hne : authFrame Γ ≠ helloFrame Γ := fun h => nomatch (congrArg Frame.opcode h : opAuth = opHello)
    rcases hinv.stage.written with h | h | ⟨-, w, rest, f, hframes, hw⟩
    · rw [h] at hauth
      cases hauth
    · rw [h] at hauth
      exact absurd (List.mem_singleton.1 hauth) hne
    · exact ⟨f, rest, w, hframes, welcomeOf_ok hw⟩
  · intro w a hpc
    obtain ⟨⟨hwrites, g, rest, ⟨f, hframes, hw⟩, ha⟩, -⟩ := hat hpc
    obtain ⟨hop, hdec, hin⟩ := welcomeOf_ok hw
    exact ⟨hwrites, f, g, rest, hframes, hop, hdec, hin, authOkOf_ok ha⟩
  · intro o hpc
    obtain ⟨-, hroutes⟩ := hat hpc
    refine ⟨?_, ?_⟩
    · rw [show s.routes = ∅ from hroutes]
      rfl
    · have hlimit := hinv.limit
      unfold LimitOk at hlimit
      rw [hpc] at hlimit
      cases o <;> exact hlimit

/-- Two peers that differ only in SERVER_PING frames and in frames of other streams. -/
def SameForHandshake (frames frames' : List Frame) : Prop := frames.filter isForHandshake = frames'.filter isForHandshake

/-- The handshake is lawful in every run; and with the same frames for it, whatever else the peer sends in between, it has the same runs up
to what the reader does with the other frames, and its end and its writes are the same in all of them. -/
theorem handshake_safe (Γ : Ctx ω α) (frames : List Frame) :
    (∀ tr s, (machine Γ frames).Runs tr s → Lawful Γ tr s) ∧
    ∀ frames', SameForHandshake frames frames' → ∀ tr s, (machine Γ frames).Runs tr s →
      (∃ tr' s', (machine Γ frames').Runs tr' s' ∧ tr'.filter Action.isVisible = tr.filter Action.isVisible) ∧
      ∀ tr' s', (machine Γ frames').Runs tr' s' → tr'.filter Action.isVisible = tr.filter Action.isVisible →
        s'.pc = s.pc ∧ handshakeWrites s'.sent = handshakeWrites s.sent := by
  refine ⟨fun tr s hr => lawful_runs hr, fun frames' hsame tr s hr => ⟨?_, ?_⟩⟩
  · obtain ⟨-, hquiet⟩ := (hides Γ frames).runs hr
    rw [show frames.filter isForHandshake = frames'.filter isForHandshake from hsame] at hquiet
    obtain ⟨tr', s', hr', hvis, -, -⟩ := (follows Γ frames').runs hquiet
    exact ⟨tr', s', hr', hvis⟩
  · intro tr' s' hr' hvis
    obtain ⟨-, hquiet⟩ := (hides Γ frames).runs hr
    obtain ⟨-, hquiet'⟩ := (hides Γ frames').runs hr'
    rw [hvis, ← show frames.filter isForHandshake = frames'.filter isForHandshake from hsame] at hquiet'
    have heq : s.quiet = s'.quiet := hquiet.unique hquiet'
    exact ⟨(congrArg State.pc heq).symm, (congrArg State.sent heq).symm⟩

end BrainSdk.Python.Handshake
