import BrainSdk.Rust.Link

/-!
# Deadlock of the mux, its reader and the peer

The reader answers a SERVER_PING itself, under the writer mutex, before it reads on. While it answers, the peer can place no more
than one buffer of output; a peer with more output than that stops reading, and a request then fills the buffer the other way.
`pings_deadlock_iff` says exactly which outputs of the peer allow this.
-/

namespace BrainSdk.Rust

open Library Wire

variable {ε υ : Type}

/-- The circular wait: the peer cannot place its output, the buffer to the server is full, and the reader, which alone could make
room for the output, waits for the mutex of a request that is in its write, or is itself in the write of a CLIENT_PONG. -/
def Link.Deadlocked (κ : Buffers) (s : Link ε υ) : Prop :=
  s.PeerBlocked κ ∧ s.toServer.length = κ.toServer ∧
    ((∃ payload c task written rest, s.client.reader = .locking payload ∧ s.client.lock = some (.task c) ∧
        s.client.tasks[c]? = some task ∧ task.pc = .writing written rest ∧ rest ≠ []) ∨
      ∃ written rest, s.client.reader = .writing written rest ∧ rest ≠ [])

/-- The reader of a deadlock is answering. -/
theorem Link.Deadlocked.answering {κ : Buffers} {s : Link ε υ} (h : s.Deadlocked κ) : s.client.reader.answering = true := by
  obtain ⟨-, -, ⟨payload, -, -, -, -, hr, -⟩ | ⟨written, rest, hr, -⟩⟩ := h <;> rw [hr] <;> rfl

/-- No SERVER_PING of the output is followed by more than the buffer to the client holds. -/
def PingsFit (κ : Buffers) (output : Bytes) : Prop :=
  ∀ fs f rest, Transport.frameDecoder.Splits output (fs ++ [f]) rest → f.opcode = opServerPing → rest.length ≤ κ.toClient

/-- A peer whose output after each SERVER_PING fits the buffer is never blocked while the reader answers. -/
theorem not_deadlocked_of_pingsFit {Γ : Ctx ε υ} {m : Nat} {κ : Buffers} {output : Bytes} (hfit : PingsFit κ output)
    {tr : List LinkAction} {s : Link ε υ} (hr : (link Γ m κ output).Runs tr s) : ¬s.Deadlocked κ := by
  intro hd
  obtain ⟨fs, hsplit, hping⟩ := taken_runs hr
  obtain ⟨before, f, rfl, hop⟩ := hping hd.answering
  have hle := hfit before f _ hsplit hop
  obtain ⟨⟨hout, hfull⟩, -, -⟩ := hd
  have hpos := List.length_pos_of_ne_nil hout
  simp only [Link.ahead, List.length_append] at hle
  omega

/-! ### The way into a deadlock -/

theorem leads_linkStep {Γ : Ctx ε υ} {m : Nat} {κ : Buffers} {output : Bytes} {s s' : Link ε υ} {a : LinkAction}
    (h : linkStep Γ κ s a = some s') : (link Γ m κ output).Leads s s' := Machine.Leads.step (M := link Γ m κ output) h

/-- A step of the mux that leaves the reader's buffer and whose bytes fit. -/
theorem leads_client {Γ : Ctx ε υ} {m : Nat} {κ : Buffers} {output : Bytes} {s : Link ε υ} {a : Action} {client : State ε υ}
    {sent : Bytes} (hbuf : bufAfter s.buf a = some s.buf) (hst : step Γ s.client a = some client)
    (hwire : client.wire = s.client.wire ++ sent) (hfit : s.toServer.length + sent.length ≤ κ.toServer) :
    (link Γ m κ output).Leads s { s with client := client, toServer := s.toServer ++ sent } := by
  refine leads_linkStep (a := .client a) ?_
  simp only [linkStep, hbuf, hst, Option.bind_some, hwire, List.drop_left, if_pos hfit]

/-- A step of the mux that leaves the reader's buffer and sends nothing. -/
theorem leads_quiet {Γ : Ctx ε υ} {m : Nat} {κ : Buffers} {output : Bytes} {s : Link ε υ} {a : Action} {client : State ε υ}
    (hfit : s.toServer.length ≤ κ.toServer) (hbuf : bufAfter s.buf a = some s.buf) (hst : step Γ s.client a = some client)
    (hwire : client.wire = s.client.wire) : (link Γ m κ output).Leads s { s with client := client } := by
  have h : (link Γ m κ output).Leads s { s with client := client, toServer := s.toServer ++ [] } :=
    leads_client hbuf hst (by rw [hwire, List.append_nil]) hfit
  rw [List.append_nil] at h
  exact h

/-- The peer's bytes, one at a time, up to the end of the frame they are a part of. -/
theorem leads_received {Γ : Ctx ε υ} {m : Nat} {κ : Buffers} {output : Bytes} (q : Bytes) :
    ∀ {s : Link ε υ} {f : Frame} {t : Bytes}, s.client.reader = .reading → s.toClient = [] → s.output = q ++ t →
      decodeFrame (s.buf ++ q) = .ok (f, []) →
      (link Γ m κ output).Leads s { s with buf := s.buf ++ q, output := t } := by
  induction q with
  | nil =>
    intro s f t _ _ hout _
    have hs : s = { s with buf := s.buf ++ [], output := t } := by
      rw [List.append_nil, ← List.nil_append t, ← hout]
    rw [← hs]
    exact .refl s
  | cons b q ih =>
    intro s f t hread hempty hout hdec
    have hshort : Transport.frameDecoder.decode s.buf = .short :=
      Incremental.short_of_item (Transport.frameVerdict_item.2 hdec) (List.cons_ne_nil b q)
    have hwants : wantsMore s.buf = true := by
      obtain ⟨n, k, hshort⟩ := Transport.frameVerdict_short.1 hshort
      simp [wantsMore, hshort, Transport.isTruncated]
    have hwrite : linkStep Γ κ s (.peerWrite 1) = some { s with toClient := [b], output := q ++ t } := by
      have hpos := κ.toClient_pos
      simp only [linkStep, hempty, hout]
      rw [if_pos (by simp; omega)]
      simp
    have hreceive : linkStep Γ κ { s with toClient := [b], output := q ++ t } (.receive 1) =
        some { s with buf := s.buf ++ [b], output := q ++ t } := by
      simp [linkStep, hread, hwants, readChunk, hempty]
    have hrest := ih (s := { s with buf := s.buf ++ [b], output := q ++ t }) (f := f) (t := t) hread hempty rfl
      (by simpa using hdec)
    refine (leads_linkStep hwrite).trans ((leads_linkStep hreceive).trans ?_)
    simpa using hrest

/-- The mux with nothing under way, and this left of the peer's output. -/
def Link.idle (client : State ε υ) (output : Bytes) : Link ε υ :=
  { client := client, buf := [], toServer := [], toClient := [], output := output }

/-- The next frame of the peer's output reaches the reader, and the reader takes it. -/
theorem leads_readFrame {Γ : Ctx ε υ} {m : Nat} {κ : Buffers} {output rest rest' : Bytes} {f : Frame} {client client' : State ε υ}
    (hdec : decodeFrame rest = .ok (f, rest')) (hst : step Γ client (.readFrame f 0) = some client')
    (hread : client.reader = .reading) (hwire : client'.wire = client.wire) :
    (link Γ m κ output).Leads (.idle client rest) (.idle client' rest') := by
  obtain ⟨-, used, rfl⟩ := decodeFrame_rest hdec
  have hused : decodeFrame ([] ++ used) = .ok (f, []) := decodeFrame_used hdec
  refine (leads_received (s := .idle client (used ++ rest')) used hread rfl rfl hused).trans (.step (a := .client (.readFrame f 0)) ?_)
  simp [link, linkStep, Link.idle, bufAfter, decodeFrame_used hdec, hst, hwire]

/-- Before the first request no frame but a SERVER_PING changes the mux: every frame of the output can be taken off it. -/
theorem leads_past {Γ : Ctx ε υ} {m : Nat} {κ : Buffers} {output rest : Bytes} {fs : List Frame}
    (h : Transport.frameDecoder.Splits output fs rest) (hno : ∀ f ∈ fs, f.opcode ≠ opServerPing) :
    (link Γ m κ output).Leads (.idle (State.init m) output) (.idle (State.init m) rest) := by
  induction h with
  | nil => exact .refl _
  | @snoc fs f rest rest' _ hd ih =>
    have hf : f.opcode ≠ opServerPing := hno f (List.mem_append_right _ (List.mem_singleton.2 rfl))
    have hst : step Γ (State.init m) (.readFrame f 0) = some (State.init m) := by
      simp [step, State.init, hf, State.route]
    exact (ih (fun g hg => hno g (List.mem_append_left _ hg))).trans
      (leads_readFrame (Transport.frameVerdict_item.1 hd) hst rfl rfl)

/-- A step of the task that was added last. -/
theorem onTask_last {s : State ε υ} {before : List (Task ε υ)} {task : Task ε υ} (h : s.tasks = before ++ [task])
    (f : Task ε υ → Option (Task ε υ)) (g : Task ε υ → State ε υ → State ε υ) :
    s.onTask before.length f g = (f task).map (fun task' => g task { s with tasks := before ++ [task'] }) := by
  simp [State.onTask, State.setTask, h]

/-- An open mux whose reader waits for the writer mutex. -/
structure Awaiting (payload : Bytes) (lock : Option Writer) (s : State ε υ) : Prop where
  reader : s.reader = .locking payload
  lock : s.lock = lock
  closed : s.closed = none
  connected : s.connected = true
  broken : s.broken = false

/-- The reader waits for the mutex that the newest request, which is in its write, holds. -/
structure Stuck (payload : Bytes) (c : Nat) (rest : Bytes) (s : State ε υ) : Prop extends Awaiting payload (some (.task c)) s where
  writing : ∃ before task written, s.tasks = before ++ [task] ∧ before.length = c ∧ task.args.verb = .request ∧
    task.pc = .writing written rest

/-- A request with no payload. -/
def emptyRequest : Args := ⟨.request, 0x21, [], none⟩

/-- The mux with an empty request added, which has its stream id and stands at `pc`. -/
def State.withRequest (s : State ε υ) (routes : Routes Nat) (lock : Option Writer) (pc : Pc υ) : State ε υ :=
  { s with
    nextStreamId := nextStreamIdAfter s.nextStreamId
    taken := s.taken + 1
    routes := routes
    lock := lock
    tasks := s.tasks ++ [{ (Task.begin emptyRequest : Task ε υ) with streamId := s.nextStreamId, ordinal := s.taken, pc := pc }] }

/-- The header of the frame of an empty request. -/
def requestHeader (streamId : UInt32) : Bytes :=
  encodeHeader emptyRequest.opcode.toNat streamId.toNat flagEos 0 (crc32c []) ++ []

/-- An empty request begins, and gets as far as its write. -/
theorem leads_request (Γ : Ctx ε υ) (m : Nat) {κ : Buffers} (output : Bytes) {payload : Bytes} {s : Link ε υ} (hs : Awaiting payload none s.client)
    (hfit : s.toServer.length ≤ κ.toServer) :
    ∃ client c rest, (link Γ m κ output).Leads s { s with client := client } ∧ Stuck payload c rest client ∧ rest.length = 32 := by
  obtain ⟨client, buf, toServer, toClient, out⟩ := s
  obtain ⟨hreader, hlock, hclosed, hconnected, hbroken⟩ := hs
  dsimp only at *
  let c := client.tasks.length
  let routes := client.routes.insert client.nextStreamId.toNat c
  let header := requestHeader client.nextStreamId
  have hstart : step Γ client (.start emptyRequest) = some { client with tasks := client.tasks ++ [Task.begin emptyRequest] } := by
    simp [step, hconnected, emptyRequest, Verb.onConnection]
  have halloc : step Γ { client with tasks := client.tasks ++ [Task.begin emptyRequest] } (.allocStreamId c) =
      some (client.withRequest client.routes none .registering) := by
    rw [step, onTask_last rfl]
    simp [Task.afterAlloc, Task.begin, emptyRequest, State.withRequest, hlock]
  have hregister : step Γ (client.withRequest client.routes none .registering) (.register c) =
      some (client.withRequest routes none .checking) := by
    rw [step, onTask_last rfl]
    simp [Task.afterRegister, State.withRequest, hclosed, routes, c]
  have hcheck : step Γ (client.withRequest routes none .checking) (.check c) = some (client.withRequest routes none .locking) := by
    rw [step, onTask_last rfl]
    simp [Task.afterCheck, Task.begin, emptyRequest, State.withRequest]
  have hacquire : step Γ (client.withRequest routes none .locking) (.acquire c) =
      some (client.withRequest routes (some (.task c)) (.writing [] header)) := by
    rw [step, if_pos (show (client.withRequest routes none .locking).lock = none from rfl), onTask_last rfl]
    simp [Task.afterAcquire, Task.begin, emptyRequest, State.withRequest, encode, header, requestHeader]
  have hquiet : ∀ {a : Action} {x y : State ε υ}, bufAfter buf a = some buf → step Γ x a = some y → y.wire = x.wire →
      (link Γ m κ output).Leads ⟨x, buf, toServer, toClient, out⟩ ⟨y, buf, toServer, toClient, out⟩ :=
    fun hbuf hst hwire => leads_quiet (s := ⟨_, buf, toServer, toClient, out⟩) hfit hbuf hst hwire
  refine ⟨client.withRequest routes (some (.task c)) (.writing [] header), c, header, ?_, ?_, rfl⟩
  · exact (hquiet rfl hstart rfl).trans <| (hquiet rfl halloc rfl).trans <| (hquiet rfl hregister rfl).trans <|
      (hquiet rfl hcheck rfl).trans (hquiet rfl hacquire rfl)
  · exact ⟨⟨hreader, rfl, hclosed, hconnected, hbroken⟩, client.tasks, _, [], rfl, rfl, rfl, rfl⟩

/-- The request writes as much of its frame as there is room for: all of it, or a part that leaves it in its write. -/
theorem leads_write (Γ : Ctx ε υ) (m n : Nat) {c : Nat} {κ : Buffers} (output : Bytes) {payload rest : Bytes} {s : Link ε υ}
    (hs : Stuck payload c rest s.client) (h0 : 0 < n) (hn : n ≤ rest.length) (hfit : s.toServer.length + n ≤ κ.toServer) :
    ∃ client, (link Γ m κ output).Leads s { s with client := client, toServer := s.toServer ++ rest.take n } ∧
      (n = rest.length → Awaiting payload none client) ∧ (n < rest.length → Stuck payload c (rest.drop n) client) := by
  obtain ⟨⟨hreader, hlock, hclosed, hconnected, hbroken⟩, before, task, written, htasks, rfl, hverb, hpc⟩ := hs
  have hst : step Γ s.client (.write before.length n) = some
      { s.client with
        tasks := before ++ [{ task with
          pc := if rest.length = n then task.written else .writing (written ++ rest.take n) (rest.drop n) }]
        wire := s.client.wire ++ rest.take n
        lock := if rest.length = n then none else s.client.lock } := by
    rw [step, if_neg (by simp [hbroken]), onTask_last htasks]
    simp [Task.afterWrite, hpc, h0, hn, Pc.rest, release, hlock]
  have hlen : (rest.take n).length = n := List.length_take_of_le hn
  refine ⟨_, leads_client rfl hst rfl (by rw [hlen]; exact hfit), ?_, ?_⟩
  · intro hall
    exact ⟨hreader, if_pos hall.symm, hclosed, hconnected, hbroken⟩
  · intro hpart
    have hne : ¬rest.length = n := by omega
    exact ⟨⟨hreader, (if_neg hne).trans hlock, hclosed, hconnected, hbroken⟩, before, _, written ++ rest.take n, rfl, rfl, hverb,
      if_neg hne⟩

/-- Requests fill the buffer to the server, and the last of them is left in its write. -/
theorem leads_stuck (Γ : Ctx ε υ) (m : Nat) {κ : Buffers} (output payload : Bytes) (room : Nat) :
    ∀ {s : Link ε υ}, Awaiting payload none s.client → s.toServer.length + room = κ.toServer →
      ∃ client toServer c rest, (link Γ m κ output).Leads s { s with client := client, toServer := toServer } ∧
        Stuck payload c rest client ∧ rest ≠ [] ∧ toServer.length = κ.toServer := by
  induction room using Nat.strong_induction_on with
  | _ room ih =>
    intro s hs hroom
    obtain ⟨client, c, rest, hleads, hstuck, hlen⟩ := leads_request Γ m output hs
      (show s.toServer.length ≤ κ.toServer by omega)
    rcases Nat.eq_zero_or_pos room with rfl | hpos
    · refine ⟨client, s.toServer, c, rest, hleads, hstuck, ?_, hroom⟩
      exact List.ne_nil_of_length_pos (by omega)
    · obtain ⟨client', hleads', hall, hpart⟩ := leads_write Γ m (min room rest.length) (κ := κ) output
        (s := { s with client := client }) hstuck (by omega) (by omega) (by dsimp only; omega)
      have hwritten : (rest.take (min room rest.length)).length = min room rest.length := List.length_take_of_le (by omega)
      by_cases hfull : room < rest.length
      · refine ⟨client', _, c, _, hleads.trans hleads', hpart (by omega), ?_, ?_⟩
        · refine List.ne_nil_of_length_pos ?_
          rw [List.length_drop]
          omega
        · rw [List.length_append, hwritten]
          dsimp only
          omega
      · obtain ⟨client'', toServer, c', rest', hleads'', hrest⟩ := ih (room - rest.length) (by omega)
          (s := { s with client := client', toServer := s.toServer ++ rest.take (min room rest.length) }) (hall (by omega))
          (by rw [List.length_append, hwritten]; omega)
        exact ⟨client'', toServer, c', rest', (hleads.trans hleads').trans hleads'', hrest⟩

/-- An output with more than a buffer behind a SERVER_PING leads to a deadlock. -/
theorem leads_deadlock {Γ : Ctx ε υ} {m : Nat} {κ : Buffers} {output rest : Bytes} {fs : List Frame} {f : Frame}
    (hsplit : Transport.frameDecoder.Splits output (fs ++ [f]) rest) (hop : f.opcode = opServerPing)
    (hlong : κ.toClient < rest.length) :
    ∃ tr s, (link Γ m κ output).Runs tr s ∧ s.Deadlocked κ := by
  -- the first SERVER_PING has at least as much behind it
  rcases hsplit.first_of (fun g : Frame => g.opcode = opServerPing) with hnone | ⟨before, ping, after, hfirst, hbefore, hping, hle⟩
  · exact absurd hop (hnone f (List.mem_append_right _ (List.mem_singleton.2 rfl)))
  obtain ⟨left, hleft, hdec⟩ := hfirst.of_snoc
  let payload := pongPayload Γ ping 0
  have hread : step Γ (State.init m) (.readFrame ping 0) = some { (State.init m : State ε υ) with reader := .locking payload } := by
    simp [step, State.init, hping, payload]
  have htaken : (link Γ m κ output).Leads (.idle (State.init m) output) (.idle _ after) :=
    (leads_past hleft hbefore).trans (leads_readFrame (Transport.frameVerdict_item.1 hdec) hread rfl rfl)
  obtain ⟨client, toServer, c, rest', hfilled, hstuck, hne, hfull⟩ := leads_stuck Γ m output payload κ.toServer
    (s := .idle { (State.init m : State ε υ) with reader := .locking payload } after)
    ⟨rfl, rfl, rfl, rfl, rfl⟩ (Nat.zero_add _)
  have hblocked : linkStep Γ κ ⟨client, [], toServer, [], after⟩ (.peerWrite κ.toClient) =
      some ⟨client, [], toServer, after.take κ.toClient, after.drop κ.toClient⟩ := by
    have hpos := κ.toClient_pos
    rw [linkStep, if_pos ⟨hpos, by dsimp only; omega, by simp⟩]
    rfl
  obtain ⟨tr, htr⟩ := (htaken.trans hfilled).trans (leads_linkStep hblocked)
  refine ⟨tr, _, htr, ⟨?_, ?_⟩, hfull, ?_⟩
  · exact List.ne_nil_of_length_pos (by rw [List.length_drop]; omega)
  · exact List.length_take_of_le (by omega)
  · obtain ⟨⟨hreader, hlock, -, -, -⟩, tasks, task, written, htasks, rfl, -, hpc⟩ := hstuck
    refine .inl ⟨payload, tasks.length, task, written, rest', hreader, hlock, ?_, hpc, hne⟩
    simp [htasks]

/-- No run over a socket of these capacities deadlocks exactly when no SERVER_PING of the peer's output is followed by more than
the buffer to the client holds. -/
theorem pings_deadlock_iff (Γ : Ctx ε υ) (m : Nat) (κ : Buffers) (output : Bytes) :
    (∀ tr s, (link Γ m κ output).Runs tr s → ¬s.Deadlocked κ) ↔ PingsFit κ output := by
  constructor
  · intro h fs f rest hsplit hop
    by_contra hlong
    obtain ⟨tr, s, hr, hd⟩ := leads_deadlock (Γ := Γ) (m := m) hsplit hop (Nat.lt_of_not_le hlong)
    exact h tr s hr hd
  · intro hfit tr s hr
    exact not_deadlocked_of_pingsFit hfit hr

/-- A SERVER_PING with no payload, and as much behind it as the buffer of the concrete run holds and one byte more. -/
def pingAndMore : Bytes := encodeHeader opServerPing 0 flagEos 0 (crc32c []) ++ List.replicate 33 0

set_option maxRecDepth 4000 in
/-- Buffers of 16 bytes to the server and 32 to the client: a request of one header, the peer with a SERVER_PING and 33 bytes more. -/
theorem pingUnderWrite_deadlocks :
    ¬∀ (κ : Buffers) (output : Bytes) (tr : List LinkAction) (s : Link Unit Unit),
      (link Ctx.refusing maxPayloadBytes κ output).Runs tr s → ¬s.Deadlocked κ := by
  intro h
  have hrun : ∃ (s : Link Unit Unit) (task : Task Unit Unit) (written rest : Bytes),
      (link Ctx.refusing maxPayloadBytes ⟨16, 32, by decide, by decide⟩ pingAndMore).Runs
        ([.client (.start emptyRequest), .client (.allocStreamId 0), .client (.register 0), .client (.check 0), .client (.acquire 0),
          .client (.write 0 16), .peerWrite 32, .receive 32, .client (.readFrame ⟨opServerPing, flagEos, 0, []⟩ 0),
          .peerWrite 32]) s ∧
      s.output ≠ [] ∧ s.toClient.length = 32 ∧ s.toServer.length = 16 ∧ s.client.reader = .locking [] ∧
      s.client.lock = some (.task 0) ∧ s.client.tasks[0]? = some task ∧ task.pc = .writing written rest ∧ rest ≠ [] :=
    ⟨_, _, _, _, rfl, nofun, rfl, rfl, rfl, rfl, rfl, rfl, nofun⟩
  obtain ⟨s, task, written, rest, hr, hout, hfull, hserver, hreader, hlock, htask, hpc, hne⟩ := hrun
  exact h _ _ _ s hr ⟨⟨hout, hfull⟩, hserver, .inl ⟨[], 0, task, written, rest, hreader, hlock, htask, hpc, hne⟩⟩

end BrainSdk.Rust
