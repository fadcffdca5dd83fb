import BrainSdk.Python.HandshakeDelivery
import BrainSdk.Rust.Handshake

/-!
# The Rust and the Python handshake accept the same peers

The Rust handshake takes the next frame on the socket for its reply, whatever stream it is on, and the Python handshake the next that its
reader routes to it. They agree on the peers that send nothing in front of a reply and nothing before they are heard, keep to the stream
of the handshake, and send payloads that both decode.
-/

namespace BrainSdk

open Library Wire

variable {ω α ω' α' : Type}

/-- What a handshake looks at in a frame. -/
def content (f : Frame) : Nat × Bytes := (f.opcode, f.payload)

namespace Rust.Handshake

/-- A frame that is an acceptable WELCOME, the stream apart. -/
def Ctx.Welcome (Γ : Ctx ω α) (f : Frame) : Prop :=
  f.opcode = opWelcome ∧ ∃ w, Γ.decodeWelcome f.payload = .ok w ∧ Γ.chosenVersion w ∈ Γ.offered

/-- A frame that is an acceptable AUTH_OK, the stream apart. -/
def Ctx.AuthOk (Γ : Ctx ω α) (f : Frame) : Prop := f.opcode = opAuthOk ∧ ∃ a, Γ.decodeAuthOk f.payload = .ok a

/-- The payloads of a handshake can be written, and these two replies to them are acceptable. -/
def Ctx.Accepts (Γ : Ctx ω α) (f g : Frame) : Prop :=
  Γ.hello.length ≤ maxPayloadBytes ∧ Γ.auth.length ≤ maxPayloadBytes ∧ Γ.Welcome f ∧ Γ.AuthOk g

/-- The handshake succeeds with these payloads of WELCOME and AUTH_OK. -/
def Reports (Γ : Ctx ω α) (frames : List Frame) (welcome authOk : Bytes) : Prop :=
  ∃ f g w a, handshake Γ frames = ⟨[f, g], some (.ok (w, a))⟩ ∧ f.payload = welcome ∧ g.payload = authOk

theorem send_ok (payload : Bytes) : send payload = .ok () ↔ payload.length ≤ maxPayloadBytes := by
  unfold send
  split
  · simp [Nat.not_le.2 ‹_›]
  · simp [Nat.le_of_not_lt ‹_›]

theorem send_error {payload : Bytes} {e : BrainError} (h : send payload = .error e) : ¬payload.length ≤ maxPayloadBytes := by
  intro hle
  rw [(send_ok payload).2 hle] at h
  cases h

/-- A reply is the frame itself, with the opcode that is expected. -/
theorem handshakeReply_ok (Γ : Ctx ω α) (name : String) {expected : Nat} (he : expected ≠ opError) (f g : Frame) :
    handshakeReply Γ name expected f = .ok g ↔ f.opcode = expected ∧ g = f := by
  unfold handshakeReply
  by_cases herr : f.opcode = opError
  · rw [if_pos herr]
    constructor
    · intro h
      split at h <;> cases h
    · rintro ⟨hop, -⟩
      exact absurd (hop.symm.trans herr) he
  · rw [if_neg herr]
    by_cases hop : f.opcode = expected
    · rw [if_neg (not_not.2 hop)]
      exact ⟨fun h => ⟨hop, (Except.ok.inj h).symm⟩, fun h => congrArg _ h.2.symm⟩
    · rw [if_pos hop]
      exact ⟨nofun, fun h => absurd h.1 hop⟩

theorem welcomeOf_ok (Γ : Ctx ω α) (f : Frame) (w : ω) :
    welcomeOf Γ f = .ok w ↔ Γ.decodeWelcome f.payload = .ok w ∧ Γ.chosenVersion w ∈ Γ.offered := by
  unfold welcomeOf
  cases Γ.decodeWelcome f.payload with
  | error message => simp
  | ok v =>
    by_cases hv : Γ.chosenVersion v ∈ Γ.offered
    · simp only [hv, not_true, if_false, Except.ok.injEq]
      exact ⟨fun h => ⟨h, h ▸ hv⟩, And.left⟩
    · simp only [hv, not_false_iff, if_true, reduceCtorEq, false_iff, Except.ok.injEq]
      rintro ⟨rfl, h⟩
      exact hv h

theorem authOkOf_ok (Γ : Ctx ω α) (f : Frame) (a : α) : authOkOf Γ f = .ok a ↔ Γ.decodeAuthOk f.payload = .ok a := by
  unfold authOkOf
  cases Γ.decodeAuthOk f.payload <;> simp

/-- A frame with another opcode than the expected one is no reply. -/
theorem handshakeReply_error {Γ : Ctx ω α} {name : String} {expected : Nat} (he : expected ≠ opError) {f : Frame} {e : BrainError}
    (h : handshakeReply Γ name expected f = .error e) : f.opcode ≠ expected := by
  intro hop
  rw [(handshakeReply_ok Γ name he f f).2 ⟨hop, rfl⟩] at h
  cases h

theorem mem_replies_authenticate (Γ : Ctx ω α) (v : Frame) (w : ω) (frames : List Frame) (r : Frame) :
    r ∈ (authenticate Γ v w frames).replies ↔
      r = v ∨ Γ.auth.length ≤ maxPayloadBytes ∧ r.opcode = opAuthOk ∧ ∃ rest, frames = r :: rest := by
  unfold authenticate
  cases hs : send Γ.auth with
  | error e => simp [send_error hs]
  | ok =>
    have hfits := (send_ok _).1 hs
    cases frames with
    | nil => simp
    | cons f rest =>
      dsimp only
      cases hr : handshakeReply Γ "AuthOk" opAuthOk f with
      | error e =>
        have hop := handshakeReply_error (by decide) hr
        simp only [List.mem_singleton, List.cons.injEq, hfits, true_and]
        exact ⟨.inl, fun h => h.resolve_right fun ⟨hr, _, hf, _⟩ => hop (hf ▸ hr)⟩
      | ok g =>
        obtain ⟨hop, rfl⟩ := (handshakeReply_ok Γ _ (by decide) f g).1 hr
        have hmem : r ∈ [v, g] ↔ r = v ∨ r.opcode = opAuthOk ∧ ∃ rest', g :: rest = r :: rest' := by
          simp only [List.mem_cons, List.not_mem_nil, or_false, List.cons.injEq]
          exact or_congr_right ⟨fun h => ⟨h ▸ hop, rest, h.symm, rfl⟩, fun ⟨_, _, h, _⟩ => h.symm⟩
        dsimp only
        cases authOkOf Γ g <;> simpa only [hfits, true_and] using hmem

/-- What the handshake takes for a reply. -/
theorem mem_replies (Γ : Ctx ω α) (frames : List Frame) (r : Frame) :
    r ∈ (handshake Γ frames).replies ↔
      Γ.hello.length ≤ maxPayloadBytes ∧ (r.opcode = opWelcome ∧ (∃ rest, frames = r :: rest) ∨
        Γ.auth.length ≤ maxPayloadBytes ∧ r.opcode = opAuthOk ∧ ∃ f rest, frames = f :: r :: rest ∧ Γ.Welcome f) := by
  unfold handshake
  cases hs : send Γ.hello with
  | error e => simp [send_error hs]
  | ok =>
    have hfits := (send_ok _).1 hs
    cases frames with
    | nil => simp
    | cons f rest =>
      dsimp only
      cases hr : handshakeReply Γ "Welcome" opWelcome f with
      | error e =>
        have hop := handshakeReply_error (by decide) hr
        simp only [List.not_mem_nil, List.cons.injEq, hfits, true_and, false_iff]
        rintro (⟨hr, _, hf, _⟩ | ⟨_, _, _, _, ⟨hf, _⟩, hw⟩)
        · exact hop (hf ▸ hr)
        · exact hop (hf ▸ hw.1)
      | ok v =>
        obtain ⟨hop, rfl⟩ := (handshakeReply_ok Γ _ (by decide) f v).1 hr
        have hfirst : r.opcode = opWelcome ∧ (∃ rest', v :: rest = r :: rest') ↔ r = v := by
          simp only [List.cons.injEq]
          exact ⟨fun ⟨_, _, h, _⟩ => h.symm, fun h => ⟨h ▸ hop, rest, h.symm, rfl⟩⟩
        rw [hfirst]
        dsimp only
        cases hw : welcomeOf Γ v with
        | error e =>
          have hnot : ¬Γ.Welcome v := by
            rintro ⟨-, w, hw'⟩
            rw [(welcomeOf_ok Γ v w).2 hw'] at hw
            cases hw
          simp only [List.mem_singleton, List.cons.injEq, hfits, true_and]
          exact ⟨.inl, fun h => h.resolve_right fun ⟨_, _, _, _, ⟨hf, _⟩, hw⟩ => hnot (hf ▸ hw)⟩
        | ok w =>
          have hwel : Γ.Welcome v := ⟨hop, w, (welcomeOf_ok Γ v w).1 hw⟩
          simp only [mem_replies_authenticate, List.cons.injEq, hfits, true_and]
          refine or_congr_right (and_congr_right fun _ => and_congr_right fun _ => ⟨?_, ?_⟩)
          · rintro ⟨rest', rfl⟩
            exact ⟨v, rest', ⟨rfl, rfl⟩, hwel⟩
          · rintro ⟨_, rest', ⟨-, h⟩, -⟩
            exact ⟨rest', h⟩

/-- Which frames make the handshake succeed. -/
theorem reports_iff (Γ : Ctx ω α) (frames : List Frame) (p q : Bytes) :
    Reports Γ frames p q ↔ ∃ f g rest, frames = f :: g :: rest ∧ Γ.Accepts f g ∧ f.payload = p ∧ g.payload = q := by
  constructor
  · rintro ⟨f, g, w, a, h, hp, hq⟩
    unfold handshake at h
    split at h
    · cases h
    rename_i hello
    split at h
    · cases h
    rename_i _ f' rest
    split at h
    · cases h
    rename_i v hv
    obtain ⟨hop, rfl⟩ := (handshakeReply_ok Γ _ (by decide) _ _).1 hv
    split at h
    · cases h
    rename_i w' hw
    unfold authenticate at h
    split at h
    · cases h
    rename_i auth
    split at h
    · cases h
    rename_i _ g' rest
    split at h
    · cases h
    rename_i v' hv'
    obtain ⟨hop', rfl⟩ := (handshakeReply_ok Γ _ (by decide) _ _).1 hv'
    split at h
    · cases h
    rename_i a' ha
    cases h
    exact ⟨_, _, rest, rfl, ⟨(send_ok _).1 hello, (send_ok _).1 auth, ⟨hop, w, (welcomeOf_ok Γ _ w).1 hw⟩,
      ⟨hop', a, (authOkOf_ok Γ _ a).1 ha⟩⟩, hp, hq⟩
  · rintro ⟨f, g, rest, rfl, ⟨hello, auth, ⟨hop, w, hw⟩, ⟨hop', a, ha⟩⟩, hp, hq⟩
    refine ⟨f, g, w, a, ?_, hp, hq⟩
    have hwelcome : handshakeReply Γ "Welcome" opWelcome f = .ok f := (handshakeReply_ok Γ _ (by decide) f f).2 ⟨hop, rfl⟩
    have hauthOk : handshakeReply Γ "AuthOk" opAuthOk g = .ok g := (handshakeReply_ok Γ _ (by decide) g g).2 ⟨hop', rfl⟩
    simp only [handshake, authenticate, (send_ok _).2 hello, (send_ok _).2 auth, hwelcome, hauthOk, (welcomeOf_ok Γ f w).2 hw,
      (authOkOf_ok Γ g a).2 ha]

end Rust.Handshake

/-! ### The two handshakes beside each other -/

/-- What the handshake of Rust and a run of that of Python make of the same frames: the same success, and no reply off the stream of the
handshake. -/
structure Agree (Γ : Rust.Handshake.Ctx ω α) (frames : List Frame) (tr : List Python.Handshake.Action) (s : Python.Handshake.State ω' α') :
    Prop where
  reports : ∀ p q, Rust.Handshake.Reports Γ frames p q ↔ Python.Handshake.Reports tr s p q
  rust : ∀ f ∈ (Rust.Handshake.handshake Γ frames).replies, f.streamId = handshakeStreamId
  python : ∀ f ∈ Python.Handshake.routed tr, f.streamId = handshakeStreamId

/-- The peers that the two agree on, by the frames that arrive and those of them that the Python handshake hears. -/
structure SamePeer (Γ : Rust.Handshake.Ctx ω α) (Γ' : Python.Handshake.Ctx ω' α') (frames heard : List Frame) : Prop where
  /-- A WELCOME that comes first is on the stream of the handshake. -/
  welcome : Γ.hello.length ≤ maxPayloadBytes → ∀ f rest, frames = f :: rest → f.opcode = opWelcome → f.streamId = handshakeStreamId
  /-- So is an AUTH_OK that comes second. -/
  authOk : Γ.hello.length ≤ maxPayloadBytes → Γ.auth.length ≤ maxPayloadBytes → ∀ f g rest, frames = f :: g :: rest → Γ.Welcome f →
    g.opcode = opAuthOk → g.streamId = handshakeStreamId
  /-- What one of them accepts is not preceded or interrupted by other frames, nor has Python missed any of it. -/
  clear : ∀ f g, (∃ rest, frames = f :: g :: rest) ∧ Γ.Accepts f g ∨ (∃ rest, heard = f :: g :: rest) ∧ Γ'.Accepts f g →
    (heard.take 2).map content = (frames.take 2).map content
  /-- What both look at is accepted by both or by none. -/
  decoded : ∀ f g rest, frames = f :: g :: rest → (heard.take 2).map content = [content f, content g] → (Γ.Accepts f g ↔ Γ'.Accepts f g)

/-- Acceptance is by opcode and payload. -/
theorem accepts_of_content {Γ : Python.Handshake.Ctx ω α} {f g f' g' : Frame} (hf : content f = content f') (hg : content g = content g')
    (h : Γ.Accepts f g) : Γ.Accepts f' g' := by
  obtain ⟨hop, hp⟩ := Prod.mk.inj hf
  obtain ⟨hop', hp'⟩ := Prod.mk.inj hg
  obtain ⟨hello, auth, ⟨hwop, w, hw⟩, haop, a, ha⟩ := h
  rw [hp] at hw
  rw [hp'] at ha
  exact ⟨hello, auth, ⟨hop ▸ hwop, w, hw⟩, hop' ▸ haop, a, ha⟩

/-- Frames with the same payloads that the two accept look the same to them. -/
theorem content_of_accepts {Γ : Rust.Handshake.Ctx ω α} {Γ' : Python.Handshake.Ctx ω' α'} {f g f' g' : Frame} (h : Γ.Accepts f g)
    (h' : Γ'.Accepts f' g') (hp : f.payload = f'.payload) (hq : g.payload = g'.payload) : content f = content f' ∧ content g = content g' :=
  ⟨Prod.ext (h.2.2.1.1.trans h'.2.2.1.1.symm) hp, Prod.ext (h.2.2.2.1.trans h'.2.2.2.1.symm) hq⟩

/-- Two frames at the head of a list, by their content. -/
theorem take_two_content {frames : List Frame} {c d : Nat × Bytes} (h : (frames.take 2).map content = [c, d]) :
    ∃ f g rest, frames = f :: g :: rest ∧ content f = c ∧ content g = d := by
  match frames, h with
  | f :: g :: rest, h =>
    obtain ⟨hf, hg⟩ := List.cons.inj h
    exact ⟨f, g, rest, rfl, hf, (List.cons.inj hg).1⟩

/-- The frames that Rust keeps to its stream are those it takes for replies. -/
theorem replies_own_iff (Γ : Rust.Handshake.Ctx ω α) (frames : List Frame) :
    (∀ f ∈ (Rust.Handshake.handshake Γ frames).replies, f.streamId = handshakeStreamId) ↔
      (Γ.hello.length ≤ maxPayloadBytes → ∀ f rest, frames = f :: rest → f.opcode = opWelcome → f.streamId = handshakeStreamId) ∧
      (Γ.hello.length ≤ maxPayloadBytes → Γ.auth.length ≤ maxPayloadBytes → ∀ f g rest, frames = f :: g :: rest → Γ.Welcome f →
        g.opcode = opAuthOk → g.streamId = handshakeStreamId) := by
  constructor
  · intro h
    refine ⟨fun hello f rest hf hop => ?_, fun hello auth f g rest hf hw hop => ?_⟩
    · exact h f ((Rust.Handshake.mem_replies Γ frames f).2 ⟨hello, .inl ⟨hop, rest, hf⟩⟩)
    · exact h g ((Rust.Handshake.mem_replies Γ frames g).2 ⟨hello, .inr ⟨auth, hop, f, rest, hf, hw⟩⟩)
  · rintro ⟨hwel, hauth⟩ f hf
    obtain ⟨hello, ⟨hop, rest, h⟩ | ⟨auth, hop, g, rest, h, hw⟩⟩ := (Rust.Handshake.mem_replies Γ frames f).1 hf
    · exact hwel hello f rest h hop
    · exact hauth hello auth g f rest h hw hop

/-- The context of the concrete runs: version 1 is offered, and the codec takes `[1]` for a WELCOME that chooses it, `[2]` for an AUTH_OK,
and nothing else. -/
def Rust.Handshake.Ctx.plain : Rust.Handshake.Ctx Nat Unit where
  hello := []
  offered := [1]
  auth := []
  decodeWelcome := fun payload => if payload = [1] then .ok 1 else .error "invalid payload"
  decodeAuthOk := fun payload => if payload = [2] then .ok () else .error "invalid payload"
  decodeErrorResponse := fun _ => .error "invalid payload"
  chosenVersion := id

/-- The same for Python. -/
def Python.Handshake.Ctx.plain : Python.Handshake.Ctx Nat Unit where
  toCtx := .refusing
  hello := []
  offered := [1]
  auth := []
  decodeWelcome := fun payload => if payload = [1] then .ok 1 else .error "invalid payload"
  decodeAuthOk := fun payload => if payload = [2] then .ok () else .error "invalid payload"
  chosenVersion := id
  maxPayloadSize := fun _ => 0

/-- The WELCOME and the AUTH_OK of the concrete runs, on some stream. -/
def welcomeOn (streamId : Nat) : Frame := ⟨opWelcome, flagEos, streamId, [1]⟩

/-- The same for the AUTH_OK. -/
def authOkOn (streamId : Nat) : Frame := ⟨opAuthOk, flagEos, streamId, [2]⟩

/-- The reader takes a frame for the handshake off the socket and routes it, and the handshake takes it. -/
def reply (f : Frame) : List Python.Handshake.Action := [.readFrame f, .lookup f, .put f 0, .dequeue (.frame f)]

/-- The handshake of Python succeeds, after `early` was read. -/
def succeeds (early : List Python.Handshake.Action) : List Python.Handshake.Action :=
  [.register, .write none] ++ early ++ reply (welcomeOn 0) ++ [.write none] ++ reply (authOkOn 0) ++ [.accept, .deregister]

/-- The connection after a handshake that has succeeded, with the frames written before AUTH. -/
def succeeded (sent : List Frame) : Python.Handshake.State Nat Unit where
  inbox := []
  reader := .reading
  routes := ∅
  queue := []
  closedError := none
  maxPayloadSize := maxPayloadBytes
  sent := sent ++ [⟨opAuth, flagEos, 0, []⟩]
  pc := .done (.returned 1 ())

/-- The Rust and the Python handshake agree on exactly the peers of `SamePeer`, in every run in which all that the peer sends is
delivered. -/
theorem handshakes_agree (Γ : Rust.Handshake.Ctx ω α) (Γ' : Python.Handshake.Ctx ω' α') (frames : List Frame)
    (tr : List Python.Handshake.Action) (s : Python.Handshake.State ω' α') (h : Python.Handshake.Delivered Γ' frames tr s) :
    Agree Γ frames tr s ↔ SamePeer Γ Γ' frames (Python.Handshake.heard Γ' frames tr) := by
  constructor
  · intro hag
    obtain ⟨hwel, hauth⟩ := (replies_own_iff Γ frames).1 hag.rust
    refine ⟨hwel, hauth, ?_, ?_⟩
    · rintro f g (⟨⟨rest, hf⟩, hacc⟩ | ⟨⟨rest, hf⟩, hacc⟩)
      · have hr := (Rust.Handshake.reports_iff Γ frames f.payload g.payload).2 ⟨f, g, rest, hf, hacc, rfl, rfl⟩
        obtain ⟨f', g', rest', hf', hacc', hp, hq⟩ := (h.reports_iff _ _).1 ((hag.reports _ _).1 hr)
        obtain ⟨hc, hd⟩ := content_of_accepts hacc hacc' hp.symm hq.symm
        rw [hf', hf]
        simp [hc, hd]
      · have hr := (h.reports_iff f.payload g.payload).2 ⟨f, g, rest, hf, hacc, rfl, rfl⟩
        obtain ⟨f', g', rest', hf', hacc', hp, hq⟩ := (Rust.Handshake.reports_iff Γ frames _ _).1 ((hag.reports _ _).2 hr)
        obtain ⟨hc, hd⟩ := content_of_accepts hacc' hacc hp hq
        rw [hf, hf']
        simp [hc, hd]
    · intro f g rest hf hheard
      obtain ⟨f', g', rest', hf', hc, hd⟩ := take_two_content hheard
      constructor
      · intro hacc
        have hr := (Rust.Handshake.reports_iff Γ frames f.payload g.payload).2 ⟨f, g, rest, hf, hacc, rfl, rfl⟩
        obtain ⟨f'', g'', rest'', hf'', hacc', -, -⟩ := (h.reports_iff _ _).1 ((hag.reports _ _).1 hr)
        rw [hf'] at hf''
        cases hf''
        exact accepts_of_content hc hd hacc'
      · intro hacc
        have hacc' := accepts_of_content hc.symm hd.symm hacc
        have hr := (h.reports_iff f'.payload g'.payload).2 ⟨f', g', rest', hf', hacc', rfl, rfl⟩
        obtain ⟨f'', g'', rest'', hf'', hacc'', -, -⟩ := (Rust.Handshake.reports_iff Γ frames _ _).1 ((hag.reports _ _).2 hr)
        rw [hf] at hf''
        cases hf''
        exact hacc''
  · intro hsame
    refine ⟨fun p q => ?_, (replies_own_iff Γ frames).2 ⟨hsame.welcome, hsame.authOk⟩, fun f hf => ?_⟩
    · rw [Rust.Handshake.reports_iff, h.reports_iff]
      constructor
      · rintro ⟨f, g, rest, hf, hacc, rfl, rfl⟩
        have htake : (frames.take 2).map content = [content f, content g] := by
          rw [hf]
          rfl
        have hheard := (hsame.clear f g (.inl ⟨⟨rest, hf⟩, hacc⟩)).trans htake
        obtain ⟨f', g', rest', hf', hc, hd⟩ := take_two_content hheard
        exact ⟨f', g', rest', hf', accepts_of_content hc.symm hd.symm ((hsame.decoded f g rest hf hheard).1 hacc),
          congrArg Prod.snd hc, congrArg Prod.snd hd⟩
      · rintro ⟨f', g', rest', hf', hacc, rfl, rfl⟩
        have hheard := hsame.clear f' g' (.inr ⟨⟨rest', hf'⟩, hacc⟩)
        rw [hf'] at hheard
        obtain ⟨f, g, rest, hf, hc, hd⟩ := take_two_content hheard.symm
        have htake : ((Python.Handshake.heard Γ' frames tr).take 2).map content = [content f, content g] := by
          rw [hf', hc, hd]
          rfl
        exact ⟨f, g, rest, hf, (hsame.decoded f g rest hf htake).2 (accepts_of_content hc.symm hd.symm hacc), congrArg Prod.snd hc,
          congrArg Prod.snd hd⟩
    · exact (Python.Handshake.isForHandshake_iff.1 ((Python.Handshake.inv_runs h.run).own f hf)).2

/-- The plain exchange. -/
theorem handshakes_agree_plain :
    Agree Rust.Handshake.Ctx.plain [welcomeOn 0, authOkOn 0] (succeeds []) (succeeded [⟨opHello, flagEos, 0, []⟩]) := by
  have hdel : Python.Handshake.Delivered .plain [welcomeOn 0, authOkOn 0] (succeeds []) (succeeded [⟨opHello, flagEos, 0, []⟩]) :=
    ⟨rfl, by decide, trivial⟩
  refine (handshakes_agree Rust.Handshake.Ctx.plain .plain _ _ _ hdel).2 ⟨?_, ?_, fun f g _ => rfl, ?_⟩
  · rintro - f rest hf -
    cases hf
    rfl
  · rintro - - f g rest hf - -
    cases hf
    rfl
  · intro f g rest hf _
    cases hf
    exact Iff.rfl

/-- With a SERVER_PING in front of the WELCOME, Python succeeds and Rust does not; with the WELCOME on another stream, Rust takes it for a
reply and Python waits on. -/
theorem handshakes_disagree :
    (Python.Handshake.Delivered .plain [⟨opServerPing, 0, 0, []⟩, welcomeOn 0, authOkOn 0]
        (succeeds [.readFrame ⟨opServerPing, 0, 0, []⟩, .pong 0 none])
        (succeeded [⟨opHello, flagEos, 0, []⟩, ⟨opClientPong, flagEos, 0, []⟩]) ∧
      ¬Agree Rust.Handshake.Ctx.plain [⟨opServerPing, 0, 0, []⟩, welcomeOn 0, authOkOn 0]
        (succeeds [.readFrame ⟨opServerPing, 0, 0, []⟩, .pong 0 none])
        (succeeded [⟨opHello, flagEos, 0, []⟩, ⟨opClientPong, flagEos, 0, []⟩])) ∧
    ∃ s, Python.Handshake.Delivered .plain [welcomeOn 5] [.register, .write none, .readFrame (welcomeOn 5), .lookup (welcomeOn 5)] s ∧
      ¬Agree Rust.Handshake.Ctx.plain [welcomeOn 5] [.register, .write none, .readFrame (welcomeOn 5), .lookup (welcomeOn 5)] s := by
  refine ⟨⟨⟨rfl, by decide, trivial⟩, fun h => ?_⟩, _, ⟨rfl, by decide, rfl, rfl, rfl⟩, fun h => ?_⟩
  · obtain ⟨f, g, w, a, hr, -⟩ := (h.reports [1] [2]).2 ⟨welcomeOn 0, authOkOn 0, [], 1, (), rfl, rfl, rfl, rfl⟩
    cases hr
  · exact absurd (h.rust (welcomeOn 5) (by decide)) (by decide)

end BrainSdk
