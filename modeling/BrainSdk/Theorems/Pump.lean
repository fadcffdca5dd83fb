import BrainSdk.TypeScript.Pump

/-!
# The pump acts on a frame once

The frames of what has been received are handled once each and in order, however it is cut into chunks. Two things end that. At a
malformed frame `onData` returns from its loop without dropping what it has read, so every chunk that still arrives is drained from the
front of the same buffer again: the emptied route table drops those frames a second time, but a SERVER_PING among them is answered again.
And a SERVER_PING whose CLIENT_PONG cannot be encoded, or is over a limit, is not answered; where its answer throws, the frames behind it
are not handled and those before it stay in the buffer.
-/

namespace BrainSdk.TypeScript

open Library Wire

variable {ε υ : Type}

/-- The bytes of one step. -/
def Action.bytes : Action → Bytes
  | .data chunk _ => chunk
  | _ => []

/-- What the socket has delivered along a run. -/
def received (tr : List Action) : Bytes := tr.flatMap Action.bytes

/-- The frames received before the first malformed one. -/
def framesReceived (tr : List Action) : List Frame := (pumpDecoder.decodeAll (received tr)).1

/-- What the pump did along a run, frame by frame. -/
def actedOn (Γ : Ctx ε υ) (m : Nat) (tr : List Action) : List (Frame × Deed) :=
  (mux Γ m).outputs (record Γ) (State.init m) tr

/-- Each frame before the first malformed one is acted on once and in order, and answered where it is a SERVER_PING; whatever the loop
looks at after them it drops. -/
def ActedOnOnce (Γ : Ctx ε υ) (m : Nat) (tr : List Action) : Prop :=
  ∃ once again, actedOn Γ m tr = once ++ again ∧ once.map Prod.fst = framesReceived tr ∧ (∀ d ∈ once, d.2.isServed = true) ∧
    ∀ d ∈ again, d.2 = .dropped

/-- A chunk is delivered only while the bytes kept in the buffer hold no whole SERVER_PING, and every SERVER_PING that it completes can be
answered. -/
def PingsAnswerable (Γ : Ctx ε υ) (s : State ε υ) : Action → Prop
  | .data chunk now => (∀ f ∈ (pumpDecoder.decodeAll s.buf).1, f.opcode ≠ opServerPing) ∧
      ∀ f ∈ (pumpDecoder.decodeAll (s.buf ++ chunk)).1, f.opcode = opServerPing → Answerable Γ s.maxPayloadSize now f
  | _ => True

/-- Where the pump stands: no malformed frame so far, and the buffer has what the whole frames left; or the connection has failed on a
malformed frame, no route is set, and the buffer still has it. -/
inductive Pumped (Γ : Ctx ε υ) (m : Nat) (tr : List Action) (s : State ε υ) : Prop
  | live (hsplits : pumpDecoder.Splits (received tr) (framesReceived tr) s.buf) (hshort : pumpDecoder.decode s.buf = .short)
      (hlog : (actedOn Γ m tr).map Prod.fst = framesReceived tr) (hserved : ∀ d ∈ actedOn Γ m tr, d.2.isServed = true)
  | failed {k k' : FrameErrorKind} (hall : (pumpDecoder.decodeAll (received tr)).2 = some k)
      (hbuf : (pumpDecoder.decodeAll s.buf).2 = some k') (hroutes : ∀ id, s.routes.lookup id = none) (hclosed : s.closedError ≠ none)
      (honce : ActedOnOnce Γ m tr)

theorem received_snoc (tr : List Action) (a : Action) : received (tr ++ [a]) = received tr ++ a.bytes := by
  simp [received]

theorem actedOn_snoc {Γ : Ctx ε υ} {m : Nat} {tr : List Action} {s s' : State ε υ} {a : Action} (hr : (mux Γ m).Runs tr s)
    (hst : (mux Γ m).step s a = some s') : actedOn Γ m (tr ++ [a]) = actedOn Γ m tr ++ record Γ s a :=
  hr.outputs_snoc (record Γ) hst

theorem ne_threw_of_served {log : List (Frame × Deed)} (h : ∀ d ∈ log, d.2.isServed = true) : ∀ d ∈ log, d.2 ≠ .threw := by
  intro d hd hthrew
  have hserved := h d hd
  rw [hthrew] at hserved
  cases hserved

/-- What one chunk makes the loop do: the frames of the kept bytes and the chunk, by the routes as they are. -/
theorem record_data {Γ : Ctx ε υ} {s : State ε υ} {chunk : Bytes} {now : Nat} (hno : ∀ d ∈ record Γ s (.data chunk now), d.2 ≠ .threw) :
    record Γ s (.data chunk now) = (pumpDecoder.decodeAll (s.buf ++ chunk)).1.map (fun f => (f, s.deed Γ now f)) :=
  (drains_onData Γ s chunk now).log_eq hno

/-- Where every SERVER_PING can be answered, every frame is served. -/
theorem record_served {Γ : Ctx ε υ} {s : State ε υ} {chunk : Bytes} {now : Nat}
    (h : ∀ f ∈ (pumpDecoder.decodeAll (s.buf ++ chunk)).1, f.opcode = opServerPing → Answerable Γ s.maxPayloadSize now f) :
    ∀ d ∈ record Γ s (.data chunk now), d.2.isServed = true := by
  intro d hd
  obtain ⟨f, hf, rfl⟩ := List.mem_map.1 ((drains_onData Γ s chunk now).log_isPrefix.subset hd)
  exact isServed_deed.2 (h f hf)

/-- The loop comes to no more frames than there are, and to all of them unless it throws: one that cannot be served is in its way. -/
theorem record_unserved {Γ : Ctx ε υ} {s : State ε υ} {chunk : Bytes} {now : Nat} {f : Frame}
    (hf : f ∈ (pumpDecoder.decodeAll (s.buf ++ chunk)).1) (hping : f.opcode = opServerPing)
    (hno : ¬Answerable Γ s.maxPayloadSize now f) : ∃ d ∈ record Γ s (.data chunk now), d.2.isServed = false := by
  by_cases hthrew : ∀ d ∈ record Γ s (.data chunk now), d.2 ≠ .threw
  · refine ⟨(f, s.deed Γ now f), ?_, ?_⟩
    · rw [record_data hthrew]
      exact List.mem_map.2 ⟨f, hf, rfl⟩
    · exact Bool.eq_false_iff.2 (fun hserved => hno (isServed_deed.1 hserved hping))
  · push Not at hthrew
    obtain ⟨d, hd, hthrew⟩ := hthrew
    exact ⟨d, hd, by rw [hthrew]; rfl⟩

/-- A step that is no `onData` keeps where the pump stands. -/
theorem Pumped.quiet {Γ : Ctx ε υ} {m : Nat} {tr : List Action} {s s' : State ε υ} {a : Action} (hr : (mux Γ m).Runs tr s)
    (hp : Pumped Γ m tr s) (hst : step Γ s a = some s') (ha : ∀ chunk now, a ≠ .data chunk now) : Pumped Γ m (tr ++ [a]) s' := by
  have hquiet := step_quiet hst ha
  have hrec : record Γ s a = [] := by
    cases a with
    | data chunk now => exact absurd rfl (ha chunk now)
    | _ => rfl
  have hbytes : a.bytes = [] := by
    cases a with
    | data chunk now => exact absurd rfl (ha chunk now)
    | _ => rfl
  have hreceived : received (tr ++ [a]) = received tr := by rw [received_snoc, hbytes, List.append_nil]
  have hlog : actedOn Γ m (tr ++ [a]) = actedOn Γ m tr := by rw [actedOn_snoc hr hst, hrec, List.append_nil]
  have hframes : framesReceived (tr ++ [a]) = framesReceived tr := by rw [framesReceived, hreceived, framesReceived]
  rcases hp with ⟨hsplits, hshort, hacted, hserved⟩ | ⟨hall, hbuf, hroutes, hclosed, honce⟩
  · refine .live ?_ (by rw [hquiet.buf]; exact hshort) (by rw [hlog, hframes, hacted]) (by rw [hlog]; exact hserved)
    rw [hreceived, hframes, hquiet.buf]
    exact hsplits
  · refine .failed (by rw [hreceived]; exact hall) (by rw [hquiet.buf]; exact hbuf) ?_ (hquiet.closedError hclosed) ?_
    · intro id
      rcases step_kept hst with hkept | ⟨-, -, hopen, -⟩
      · by_contra hne
        obtain ⟨c, hc⟩ := Option.ne_none_iff_exists'.1 hne
        exact nomatch (hkept.routes id c hc).symm.trans (hroutes id)
      · exact absurd hopen hclosed
    · unfold ActedOnOnce
      rw [hlog, hframes]
      exact honce

/-- A chunk that reaches a connection with no malformed frame so far, and whose SERVER_PINGs can be answered. -/
theorem Pumped.data_of_live {Γ : Ctx ε υ} {m : Nat} {tr : List Action} {s : State ε υ} {chunk : Bytes} {now : Nat}
    (hlog : actedOn Γ m (tr ++ [.data chunk now]) = actedOn Γ m tr ++ record Γ s (.data chunk now))
    (hsplits : pumpDecoder.Splits (received tr) (framesReceived tr) s.buf)
    (hacted : (actedOn Γ m tr).map Prod.fst = framesReceived tr) (hserved : ∀ d ∈ actedOn Γ m tr, d.2.isServed = true)
    (hpings : PingsAnswerable Γ s (.data chunk now)) : Pumped Γ m (tr ++ [.data chunk now]) (s.onData Γ chunk now) := by
  have hreceived : received (tr ++ [.data chunk now]) = received tr ++ chunk := received_snoc tr _
  have hdecode := hsplits.decodeAll_append chunk
  have hframes : framesReceived (tr ++ [.data chunk now]) = framesReceived tr ++ (pumpDecoder.decodeAll (s.buf ++ chunk)).1 := by
    rw [framesReceived, hreceived, hdecode]
  have hrecord := record_served hpings.2
  have hno := ne_threw_of_served hrecord
  have hall : (actedOn Γ m (tr ++ [.data chunk now])).map Prod.fst = framesReceived (tr ++ [.data chunk now]) := by
    rw [hlog, record_data hno, hframes, List.map_append, hacted, List.map_map]
    simp [Function.comp_def]
  have hgood : ∀ d ∈ actedOn Γ m (tr ++ [.data chunk now]), d.2.isServed = true := by
    intro d hd
    rw [hlog] at hd
    exact (List.mem_append.1 hd).elim (hserved d) (hrecord d)
  have hdrains := drains_onData Γ s chunk now
  rcases hend : (pumpDecoder.decodeAll (s.buf ++ chunk)).2 with - | k
  · obtain ⟨hrest, hshort, -⟩ := hdrains.of_whole hno hend
    refine .live ?_ hshort hall hgood
    rw [hreceived, hframes]
    exact (hsplits.extend chunk).trans hrest
  · obtain ⟨hbuf, hroutes, hclosed⟩ := hdrains.of_malformed hno hend
    have hmalformed : (pumpDecoder.decodeAll (received (tr ++ [.data chunk now]))).2 = some k := by
      rw [hreceived, hdecode]
      exact hend
    refine .failed hmalformed (by rw [hbuf]; exact hend) (fun id => ?_) hclosed ⟨_, [], (List.append_nil _).symm, hall, hgood, nofun⟩
    rw [hroutes, AList.lookup_empty]

/-- A chunk that reaches a connection which has failed on a malformed frame, with no SERVER_PING in what it kept. -/
theorem Pumped.data_of_failed {Γ : Ctx ε υ} {m : Nat} {tr : List Action} {s : State ε υ} {chunk : Bytes} {now : Nat}
    {k k' : FrameErrorKind} (hlog : actedOn Γ m (tr ++ [.data chunk now]) = actedOn Γ m tr ++ record Γ s (.data chunk now))
    (hall : (pumpDecoder.decodeAll (received tr)).2 = some k) (hbuf : (pumpDecoder.decodeAll s.buf).2 = some k')
    (hroutes : ∀ id, s.routes.lookup id = none) (honce : ActedOnOnce Γ m tr) (hpings : PingsAnswerable Γ s (.data chunk now)) :
    Pumped Γ m (tr ++ [.data chunk now]) (s.onData Γ chunk now) := by
  have hreceived : received (tr ++ [.data chunk now]) = received tr ++ chunk := received_snoc tr _
  have hsame := Incremental.decodeAll_append_of_bad hall chunk
  have hkeep := Incremental.decodeAll_append_of_bad hbuf chunk
  have hno := ne_threw_of_served (record_served hpings.2)
  obtain ⟨hb, hr, hclosed⟩ := (drains_onData Γ s chunk now).of_malformed hno (by rw [hkeep]; exact hbuf)
  refine .failed (by rw [hreceived, hsame]; exact hall) (by rw [hb, hkeep]; exact hbuf) (fun id => by rw [hr, AList.lookup_empty])
    hclosed ?_
  obtain ⟨once, again, hacted, honce, hserved, hdropped⟩ := honce
  refine ⟨once, again ++ record Γ s (.data chunk now), by rw [hlog, hacted, List.append_assoc], ?_, hserved, ?_⟩
  · rw [honce, framesReceived, framesReceived, hreceived, hsame]
  · intro d hd
    rcases List.mem_append.1 hd with hd | hd
    · exact hdropped d hd
    · rw [record_data hno, hkeep] at hd
      obtain ⟨f, hf, rfl⟩ := List.mem_map.1 hd
      exact deed_of_empty hroutes (hpings.1 f hf)

/-- Along a run whose chunks come upon no kept SERVER_PING and bring none that cannot be answered, the pump stands in one of its two
places. -/
theorem pumped_of_meets {Γ : Ctx ε υ} {m : Nat} {tr : List Action} {s : State ε υ} (hr : (mux Γ m).Runs tr s)
    (hm : (mux Γ m).Meets (PingsAnswerable Γ) tr) : Pumped Γ m tr s := by
  refine Machine.Runs.rec_on_meets (C := PingsAnswerable Γ) (P := Pumped Γ m) ?_ ?_ hr hm
  · have hshort : pumpDecoder.decode [] = .short := rfl
    have hframes : framesReceived [] = [] := by
      rw [framesReceived]
      exact congrArg Prod.fst (pumpDecoder.decodeAll_short hshort)
    refine .live ?_ hshort ?_ nofun
    · rw [hframes]
      exact .nil
    · rw [hframes]
      rfl
  · intro tr s a s' hrun hp hpings hst
    by_cases ha : ∃ chunk now, a = .data chunk now
    · obtain ⟨chunk, now, rfl⟩ := ha
      have hlog := actedOn_snoc hrun hst
      obtain rfl : s' = s.onData Γ chunk now := by
        change (if s.socketClosed then none else some (s.onData Γ chunk now)) = some s' at hst
        split at hst
        · cases hst
        · exact (Option.some.inj hst).symm
      rcases hp with ⟨hsplits, -, hacted, hserved⟩ | ⟨hall, hbuf, hroutes, -, honce⟩
      · exact .data_of_live hlog hsplits hacted hserved hpings
      · exact .data_of_failed hlog hall hbuf hroutes honce hpings
    · exact hp.quiet hrun hst (fun chunk now h => ha ⟨chunk, now, h⟩)

theorem Pumped.once {Γ : Ctx ε υ} {m : Nat} {tr : List Action} {s : State ε υ} (hp : Pumped Γ m tr s) : ActedOnOnce Γ m tr := by
  rcases hp with ⟨-, -, hlog, hserved⟩ | ⟨-, -, -, -, honce⟩
  · exact ⟨_, [], (List.append_nil _).symm, hlog, hserved, nofun⟩
  · exact honce

/-- A SERVER_PING that cannot be answered, on a connection with no malformed frame so far. -/
theorem not_once_of_unanswerable {Γ : Ctx ε υ} {m : Nat} {tr : List Action} {s : State ε υ} {chunk : Bytes} {now : Nat} {f : Frame}
    (hlog : actedOn Γ m (tr ++ [.data chunk now]) = actedOn Γ m tr ++ record Γ s (.data chunk now))
    (hsplits : pumpDecoder.Splits (received tr) (framesReceived tr) s.buf) (hacted : (actedOn Γ m tr).map Prod.fst = framesReceived tr)
    (hf : f ∈ (pumpDecoder.decodeAll (s.buf ++ chunk)).1) (hping : f.opcode = opServerPing)
    (hno : ¬Answerable Γ s.maxPayloadSize now f) : ¬ActedOnOnce Γ m (tr ++ [.data chunk now]) := by
  rintro ⟨once, again, hall, honce, hserved, -⟩
  obtain ⟨d, hd, hunserved⟩ := record_unserved hf hping hno
  -- the record is no longer than the frames, so all of it is among what was to be acted on once
  have hframes : framesReceived (tr ++ [.data chunk now]) = framesReceived tr ++ (pumpDecoder.decodeAll (s.buf ++ chunk)).1 := by
    rw [framesReceived, received_snoc]
    exact congrArg Prod.fst (hsplits.decodeAll_append chunk)
  have hrecord := (drains_onData Γ s chunk now).log_isPrefix.length_le
  have hlen := congrArg List.length honce
  have hbefore := congrArg List.length hacted
  have hboth := congrArg List.length (hlog.symm.trans hall)
  rw [List.length_map] at hrecord hlen hbefore
  rw [List.length_append, List.length_append] at hboth
  rw [hframes, List.length_append] at hlen
  have hnil : again = [] := List.length_eq_zero_iff.1 (by omega)
  rw [hlog, hnil, List.append_nil] at hall
  rw [← hall] at hserved
  exact Bool.false_ne_true (hunserved.symm.trans (hserved d (List.mem_append_right _ hd)))

/-- A chunk on top of a kept SERVER_PING, on a connection that has failed on a malformed frame. -/
theorem not_once_of_keptPing {Γ : Ctx ε υ} {m : Nat} {tr : List Action} {s : State ε υ} {chunk : Bytes} {now : Nat}
    {k k' : FrameErrorKind} {f : Frame}
    (hlog : actedOn Γ m (tr ++ [.data chunk now]) = actedOn Γ m tr ++ record Γ s (.data chunk now))
    (hall : (pumpDecoder.decodeAll (received tr)).2 = some k) (hbuf : (pumpDecoder.decodeAll s.buf).2 = some k')
    (honce : ActedOnOnce Γ m tr) (hf : f ∈ (pumpDecoder.decodeAll s.buf).1) (hping : f.opcode = opServerPing) :
    ¬ActedOnOnce Γ m (tr ++ [.data chunk now]) := by
  obtain ⟨once, again, hacted, honce, -, -⟩ := honce
  rintro ⟨once', again', hacted', honce', -, hdropped⟩
  have hframes : framesReceived (tr ++ [.data chunk now]) = framesReceived tr := by
    rw [framesReceived, received_snoc]
    exact congrArg Prod.fst (Incremental.decodeAll_append_of_bad hall chunk)
  rw [hlog, hacted, List.append_assoc] at hacted'
  have hlen : once.length = once'.length := by
    have := congrArg List.length (honce.trans (hframes.symm.trans honce'.symm))
    simpa using this
  obtain ⟨-, rfl⟩ := List.append_inj hacted' hlen
  -- the record of this chunk is among what was to be dropped, and it comes to the ping or throws before it
  by_cases hno : ∀ d ∈ record Γ s (.data chunk now), d.2 ≠ .threw
  · have hmem : (f, s.deed Γ now f) ∈ record Γ s (.data chunk now) := by
      rw [record_data hno, Incremental.decodeAll_append_of_bad hbuf]
      exact List.mem_map.2 ⟨f, hf, rfl⟩
    exact deed_of_ping hping (hdropped _ (List.mem_append_right _ hmem))
  · push Not at hno
    obtain ⟨d, hd, hthrew⟩ := hno
    exact nomatch hthrew.symm.trans (hdropped d (List.mem_append_right _ hd))

/-- A chunk that comes upon a kept SERVER_PING, or brings one that cannot be answered. -/
theorem not_once_of_pings {Γ : Ctx ε υ} {m : Nat} {tr : List Action} {s s' : State ε υ} {a : Action} (hr : (mux Γ m).Runs tr s)
    (hp : Pumped Γ m tr s) (hst : (mux Γ m).step s a = some s') (hpings : ¬PingsAnswerable Γ s a) : ¬ActedOnOnce Γ m (tr ++ [a]) := by
  have hlog := actedOn_snoc hr hst
  rcases a with args | c | ⟨c, message⟩ | c | c | c | ⟨chunk, now⟩ | message | -
  case data =>
    rcases hp with ⟨hsplits, hshort, hacted, -⟩ | ⟨hall, hbuf, -, -, honce⟩
    · obtain ⟨f, hf, hping, hno⟩ : ∃ f ∈ (pumpDecoder.decodeAll (s.buf ++ chunk)).1, f.opcode = opServerPing ∧
          ¬Answerable Γ s.maxPayloadSize now f := by
        by_contra hall
        push Not at hall
        refine hpings ⟨fun f hf => ?_, hall⟩
        rw [pumpDecoder.decodeAll_short hshort] at hf
        cases hf
      exact not_once_of_unanswerable hlog hsplits hacted hf hping hno
    · obtain ⟨f, hf, hping⟩ : ∃ f ∈ (pumpDecoder.decodeAll s.buf).1, f.opcode = opServerPing := by
        by_contra hno
        push Not at hno
        refine hpings ⟨hno, fun f hf hping => ?_⟩
        rw [Incremental.decodeAll_append_of_bad hbuf] at hf
        exact absurd hping (hno f hf)
      exact not_once_of_keptPing hlog hall hbuf honce hf hping
  all_goals exact absurd trivial hpings

theorem step_data {Γ : Ctx ε υ} {m : Nat} {s : State ε υ} (h : s.socketClosed = false) (chunk : Bytes) (now : Nat) :
    (mux Γ m).step s (.data chunk now) = some (s.onData Γ chunk now) := by
  change (if s.socketClosed then none else some (s.onData Γ chunk now)) = _
  rw [h]
  rfl

/-- The first chunk of a run finds nothing kept. -/
theorem meets_firstData {Γ : Ctx ε υ} {m : Nat} {chunk : Bytes} {now : Nat}
    (h : ∀ f ∈ (pumpDecoder.decodeAll chunk).1, f.opcode = opServerPing → Answerable Γ m now f) :
    (mux Γ m).Meets (PingsAnswerable Γ) [.data chunk now] := by
  have hinit : (mux Γ m).Runs [] (State.init m) := rfl
  refine Machine.Meets.snoc (Machine.meets_nil _) hinit ⟨?_, h⟩
  intro f hf
  rw [pumpDecoder.decodeAll_short (show pumpDecoder.decode (State.init m : State ε υ).buf = .short from rfl)] at hf
  cases hf

/-- A SERVER_PING with no payload. -/
def serverPing : Bytes := (encodeFrame opServerPing handshakeStreamId flagEos []).toOption.getD []

/-- The codec of the concrete runs answers with no payload. -/
theorem answerable_refusing (m now : Nat) (f : Frame) : Answerable Ctx.refusing m now f := ⟨[], rfl, Nat.zero_le _, Nat.zero_le _⟩

end BrainSdk.TypeScript
