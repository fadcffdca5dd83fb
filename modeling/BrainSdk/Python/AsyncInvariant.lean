import BrainSdk.Python.AsyncMux

/-!
# What the steps of the asyncio connection do

`Moves` is what a call does in one step, and `Effect` what a step does to the connection. From these the invariant of every reachable
state: each op call has an id of its own, the table has a live call under each key, and until the connection fails each live op call
under its key.
-/

namespace BrainSdk.Python.AsyncMux

open Library Wire

variable {ε : Type}

/-- What one call does in one step, by where it stands. -/
inductive Moves (Γ : Ctx ε) (call : Call ε) : Turn ε → Prop
  | writeFailed {e : Exc} (hpc : call.pc = .locking) (he : e.isLocal = true) : Moves Γ call (.leave { call with pc := .done (.raised e) })
  | written (hpc : call.pc = .locking) : Moves Γ call (.stay { call with pc := .draining })
  | drainFailed {message : String} (hpc : call.pc = .draining) :
      Moves Γ call (.leave { call with pc := .done (.raised (.osError message)) })
  | drained (hpc : call.pc = .draining) :
      Moves Γ call (.stay { call with pc := if call.args.verb = .subscribe then .opened else .collecting })
  | cancelled (hpc : call.pc = .locking ∨ call.pc = .draining ∨ call.pc = .collecting) :
      Moves Γ call (.leave { call with pc := .cancelled })
  | nextCancelled (hpc : call.pc = .inNext) : Moves Γ call (.stay { call with pc := .opened })
  | failed {e : Exc} {rest : List Item} (hpc : call.pc = .collecting) (hq : call.queue = .closed e :: rest) :
      Moves Γ call (.leave { call with queue := rest, pc := .done (.raised e) })
  | refused {f : Frame} {rest : List Item} (hpc : call.pc = .collecting) (hq : call.queue = .frame f :: rest) (ho : f.opcode = opError) :
      Moves Γ call (.leave { call with queue := rest, pc := .done (.raised (errorOf Γ f.payload)) })
  | last {f : Frame} {rest : List Item} (hpc : call.pc = .collecting) (hq : call.queue = .frame f :: rest) (ho : f.opcode ≠ opError)
      (he : f.isEos = true) :
      Moves Γ call (.leave { call with queue := rest, frames := call.frames ++ [f], pc := .done (.returned (call.frames ++ [f])) })
  | more {f : Frame} {rest : List Item} (hpc : call.pc = .collecting) (hq : call.queue = .frame f :: rest) (ho : f.opcode ≠ opError)
      (he : f.isEos = false) : Moves Γ call (.stay { call with queue := rest, frames := call.frames ++ [f] })
  | ends {i : Item} {rest : List Item} {o : NextOutcome ε} (hpc : call.pc = .inNext) (hq : call.queue = i :: rest)
      (hi : nextItem Γ i = (true, o)) :
      Moves Γ call (.leave { call with queue := rest, ended := true, outs := call.outs ++ [o], pc := .opened })
  | event {i : Item} {rest : List Item} {o : NextOutcome ε} (hpc : call.pc = .inNext) (hq : call.queue = i :: rest)
      (hi : nextItem Γ i = (false, o)) : Moves Γ call (.stay { call with queue := rest, outs := call.outs ++ [o], pc := .opened })
  | timeout {d : ℚ} (hpc : call.pc = .collecting) : Moves Γ call (.leave { call with pc := .done (.raised (.brainTimeout d)) })
  | nextTimeout {d : ℚ} (hpc : call.pc = .inNext) :
      Moves Γ call (.stay { call with outs := call.outs ++ [.raised (.brainTimeout d)], pc := .opened })
  | nextEnded (hpc : call.pc = .opened) (he : call.ended = true) : Moves Γ call (.stay { call with outs := call.outs ++ [.none] })
  | next (hpc : call.pc = .opened) (he : call.ended = false) : Moves Γ call (.stay { call with pc := .inNext })
  | close (hpc : call.pc = .opened ∨ call.pc = .inNext) : Moves Γ call (.leave { call with ended := true })

theorem encodeWritten_isLocal {opcode streamId : Nat} {payload : Bytes} {e : Exc} (h : encodeWritten opcode streamId payload = .error e) :
    e.isLocal = true := by
  unfold encodeWritten at h
  split at h <;> cases h <;> rfl

theorem checkSize_isLocal {m : Nat} {payload : Bytes} {e : Exc} (h : checkSize m payload = some e) : e.isLocal = true := by
  unfold checkSize at h
  split_ifs at h
  cases h
  rfl

section

variable {Γ : Ctx ε} {call : Call ε} {t : Turn ε}

theorem afterWrite_moves {f : Option Frame} (h : call.afterWrite = some (t, f)) : Moves Γ call t := by
  unfold Call.afterWrite at h
  split at h
  · rename_i hpc he
    cases h
    exact .writeFailed hpc (encodeWritten_isLocal he)
  · rename_i hpc _
    cases h
    exact .written hpc
  · cases h

theorem afterDrain_moves {failure : Option String} (h : call.afterDrain failure = some t) : Moves Γ call t := by
  unfold Call.afterDrain at h
  split at h
  · rename_i hpc
    cases h
    exact .drainFailed hpc
  · rename_i hpc
    cases h
    exact .drained hpc
  · cases h

theorem afterCancel_moves (h : call.afterCancel = some t) : Moves Γ call t := by
  unfold Call.afterCancel at h
  split at h
  · rename_i hpc
    cases h
    exact .cancelled (.inl hpc)
  · rename_i hpc
    cases h
    exact .cancelled (.inr (.inl hpc))
  · rename_i hpc
    cases h
    exact .cancelled (.inr (.inr hpc))
  · rename_i hpc
    cases h
    exact .nextCancelled hpc
  · cases h

theorem afterDequeue_moves (h : call.afterDequeue Γ = some t) : Moves Γ call t := by
  unfold Call.afterDequeue at h
  split at h
  · rename_i i rest hpc hq
    cases h
    unfold Call.collect
    split
    · exact .failed hpc hq
    · rename_i f
      split
      · rename_i ho
        exact .refused hpc hq ho
      · rename_i ho
        dsimp only
        split
        · rename_i he
          exact .last hpc hq ho he
        · rename_i he
          exact .more hpc hq ho (Bool.eq_false_iff.2 he)
  · rename_i i rest hpc hq
    cases h
    unfold Call.advance
    split
    · rename_i o hi
      exact .ends hpc hq hi
    · rename_i o hi
      exact .event hpc hq hi
  · cases h

theorem afterTimeout_moves (h : call.afterTimeout Γ = some t) : Moves Γ call t := by
  unfold Call.afterTimeout at h
  split at h
  · rename_i hpc _
    cases h
    exact .timeout hpc
  · rename_i hpc _
    cases h
    exact .nextTimeout hpc
  · cases h

theorem beginNext_moves (h : call.beginNext = some t) : Moves Γ call t := by
  unfold Call.beginNext at h
  split at h
  · rename_i hpc
    cases h
    split
    · rename_i he
      exact .nextEnded hpc he
    · rename_i he
      exact .next hpc (Bool.eq_false_iff.2 he)
  · cases h

theorem beginClose_moves (h : call.beginClose = some t) : Moves Γ call t := by
  unfold Call.beginClose at h
  split at h
  · rename_i hpc
    cases h
    exact .close (.inl hpc)
  · rename_i hpc
    cases h
    exact .close (.inr hpc)
  · cases h

end

/-- A reader that goes on reading, or has been told to stop. -/
def Reader.live : Reader → Bool
  | .cancelling _ | .stopped => false
  | _ => true

/-- The frame that an action reads, unless it is a heartbeat. -/
def Action.reads : Action → Option Frame
  | .readFrame f => if f.opcode = opServerPing then none else some f
  | _ => none

/-- How a call begins: refused with the stored error, refused for its size, or started with its route in the table. -/
inductive Begun (s : State ε) (args : Args) : State ε → Prop
  | refused {e : Exc} (he : s.closedError = some e) :
      Begun s args { s.takeStreamId args.verb with
        calls := s.calls ++ [⟨args, s.streamIdFor args.verb, [], [], false, [], .done (.raised e)⟩] }
  | oversize {e : Exc} (he : s.closedError = none) (hlocal : e.isLocal = true) :
      Begun s args { s.takeStreamId args.verb with
        calls := s.calls ++ [⟨args, s.streamIdFor args.verb, [], [], false, [], .done (.raised e)⟩]
        routes := (s.routes.insert (s.streamIdFor args.verb) s.calls.length).erase (s.streamIdFor args.verb) }
  | started (he : s.closedError = none) :
      Begun s args { s.takeStreamId args.verb with
        calls := s.calls ++ [⟨args, s.streamIdFor args.verb, [], [], false, [], .locking⟩]
        routes := s.routes.insert (s.streamIdFor args.verb) s.calls.length }

theorem begin_begun (s : State ε) (args : Args) : Begun s args (s.begin args) := by
  unfold State.begin
  dsimp only
  split
  · rename_i e he
    exact .refused he
  · rename_i he
    split
    · rename_i e hsize
      exact .oversize he (checkSize_isLocal hsize)
    · exact .started he

/-- What a step does to the connection. -/
inductive Effect (Γ : Ctx ε) (s : State ε) : Action → State ε → Prop
  | begin {args : Args} {s' : State ε} (hb : Begun s args s') : Effect Γ s (.begin args) s'
  | turn {a : Action} {c : Nat} {call : Call ε} {t : Turn ε} (locked : Bool) (sent : List Frame) (hc : s.calls[c]? = some call)
      (hm : Moves Γ call t) (hreads : a.reads = none) (hbegin : ∀ args, a ≠ .begin args) :
      Effect Γ s a { s.take c t with locked := locked, sent := sent }
  | deliver {f : Frame} {c : Nat} (hr : s.reader = .reading) (hp : f.opcode ≠ opServerPing) (hl : s.routes.lookup f.streamId = some c) :
      Effect Γ s (.readFrame f) { s with calls := s.calls.modify c (Call.push (.frame f)) }
  | drop {f : Frame} (hr : s.reader = .reading) (hp : f.opcode ≠ opServerPing) (hl : s.routes.lookup f.streamId = none) :
      Effect Γ s (.readFrame f) s
  | fail {a : Action} {error : Exc} (reader : Reader) (he : error.isTransport = true) (hr : reader.live = false) (hreads : a.reads = none)
      (hbegin : ∀ args, a ≠ .begin args) : Effect Γ s a { s.failAll error with reader := reader }
  | other {a : Action} (reader : Reader) (byes : List Bye) (locked : Bool) (sent : List Frame) (hr : reader.live = s.reader.live)
      (hreads : a.reads = none) (hbegin : ∀ args, a ≠ .begin args) :
      Effect Γ s a { s with reader := reader, byes := byes, locked := locked, sent := sent }

theorem onCall_eq_some {s s' : State ε} {c : Nat} {f : Call ε → Option (Turn ε)} (h : s.onCall c f = some s') :
    ∃ call t, s.calls[c]? = some call ∧ f call = some t ∧ s' = s.take c t := by
  obtain ⟨call, hc, h⟩ := Option.bind_eq_some_iff.1 h
  obtain ⟨t, ht, rfl⟩ := Option.map_eq_some_iff.1 h
  exact ⟨call, t, hc, ht, rfl⟩

theorem onBye_eq_some {s s' : State ε} {k : Nat} {f : Bye → Option Bye} (h : s.onBye k f = some s') :
    ∃ b b', s.byes[k]? = some b ∧ f b = some b' ∧ s' = { s with byes := s.byes.set k b' } := by
  obtain ⟨b, hb, h⟩ := Option.bind_eq_some_iff.1 h
  obtain ⟨b', hb', rfl⟩ := Option.map_eq_some_iff.1 h
  exact ⟨b, b', hb, hb', rfl⟩

/-- A step of one call that leaves the rest to `take`. -/
theorem onCall_effect {Γ : Ctx ε} {s s' : State ε} {a : Action} {c : Nat} {f : Call ε → Option (Turn ε)}
    (hf : ∀ call t, f call = some t → Moves Γ call t) (hreads : a.reads = none) (hbegin : ∀ args, a ≠ .begin args)
    (h : s.onCall c f = some s') : Effect Γ s a s' := by
  obtain ⟨call, t, hc, ht, rfl⟩ := onCall_eq_some h
  have heffect := Effect.turn (a := a) s.locked s.sent hc (hf call t ht) hreads hbegin
  cases t with
  | stay _ => exact heffect
  | leave _ => exact heffect

theorem take_locked {s : State ε} {c : Nat} {t : Turn ε} (locked : Bool) :
    { s.take c t with locked := locked } = { s.take c t with locked := locked, sent := s.sent } := by
  cases t <;> rfl

/-- Every step does what `Effect` says. -/
theorem step_effect {Γ : Ctx ε} {s s' : State ε} {a : Action} (h : step Γ s a = some s') : Effect Γ s a s' := by
  cases a with
  | begin args =>
    cases h
    exact .begin (begin_begun s args)
  | write c =>
    simp only [step] at h
    split_ifs at h
    obtain ⟨call, hc, h⟩ := Option.bind_eq_some_iff.1 h
    obtain ⟨⟨t, f⟩, ht, rfl⟩ := Option.map_eq_some_iff.1 h
    exact .turn _ _ hc (afterWrite_moves ht) rfl (by simp)
  | drained c failure =>
    simp only [step] at h
    obtain ⟨s₁, hs₁, rfl⟩ := Option.map_eq_some_iff.1 h
    obtain ⟨call, t, hc, ht, rfl⟩ := onCall_eq_some hs₁
    rw [take_locked]
    exact .turn _ _ hc (afterDrain_moves ht) rfl (by simp)
  | cancel c =>
    simp only [step] at h
    obtain ⟨s₁, hs₁, rfl⟩ := Option.map_eq_some_iff.1 h
    obtain ⟨call, t, hc, ht, rfl⟩ := onCall_eq_some hs₁
    rw [take_locked]
    exact .turn _ _ hc (afterCancel_moves ht) rfl (by simp)
  | dequeue c => exact onCall_effect (fun _ _ => afterDequeue_moves) rfl (by simp) h
  | timeout c => exact onCall_effect (fun _ _ => afterTimeout_moves) rfl (by simp) h
  | next c => exact onCall_effect (fun _ _ => beginNext_moves) rfl (by simp) h
  | close c => exact onCall_effect (fun _ _ => beginClose_moves) rfl (by simp) h
  | sendBye payload =>
    cases h
    exact .other s.reader _ s.locked s.sent rfl rfl (by simp)
  | byeWrite k =>
    simp only [step] at h
    split_ifs at h
    obtain ⟨b, -, h⟩ := Option.bind_eq_some_iff.1 h
    obtain ⟨r, -, rfl⟩ := Option.map_eq_some_iff.1 h
    exact .other s.reader _ _ _ rfl rfl (by simp)
  | byeDrained k failure =>
    simp only [step] at h
    obtain ⟨s₁, hs₁, rfl⟩ := Option.map_eq_some_iff.1 h
    obtain ⟨b, b', -, -, rfl⟩ := onBye_eq_some hs₁
    exact .other s.reader _ _ s.sent rfl rfl (by simp)
  | byeCancel k =>
    simp only [step] at h
    obtain ⟨s₁, hs₁, rfl⟩ := Option.map_eq_some_iff.1 h
    obtain ⟨b, b', -, -, rfl⟩ := onBye_eq_some hs₁
    exact .other s.reader _ _ s.sent rfl rfl (by simp)
  | readFrame f =>
    simp only [step] at h
    split_ifs at h with hr hp
    · cases h
      exact .other _ s.byes s.locked s.sent (by rw [hr]; rfl) (by rw [Action.reads, if_pos hp]) (by simp)
    · cases h
      cases hl : s.routes.lookup f.streamId with
      | none => exact .drop hr hp hl
      | some c => exact .deliver hr hp hl
  | readError e =>
    simp only [step] at h
    split_ifs at h with hr
    cases h
    exact .fail .stopped e.error_isTransport rfl rfl (by simp)
  | pong now =>
    simp only [step] at h
    split at h
    · rename_i f hr
      split at h
      · cases h
        exact .other _ s.byes s.locked s.sent (by rw [hr]; rfl) rfl (by simp)
      · split_ifs at h
        cases h
        exact .other _ s.byes _ _ (by rw [hr]; rfl) rfl (by simp)
    · cases h
  | ponged =>
    simp only [step] at h
    split_ifs at h with hr
    cases h
    exact .other _ s.byes _ s.sent (by rw [hr]; rfl) rfl (by simp)
  | aclose =>
    cases h
    exact .fail s.reader.cancel rfl (by cases s.reader <;> rfl) rfl (by simp)
  | readerCancelled =>
    simp only [step] at h
    split at h
    · rename_i holds hr
      cases h
      exact .other _ s.byes _ s.sent (by rw [hr]; rfl) rfl (by simp)
    · cases h

/-! ### What a turn keeps -/

/-- A call that has registered its queue and not deregistered it. -/
def Call.live (call : Call ε) : Bool :=
  match call.pc with
  | .done _ | .cancelled => false
  | _ => !call.ended

/-- The call after its turn. -/
def Turn.call : Turn ε → Call ε
  | .stay call => call
  | .leave call => call

theorem take_calls (s : State ε) (c : Nat) (t : Turn ε) : (s.take c t).calls = s.calls.set c t.call := by
  cases t <;> rfl

/-- A turn keeps what names the call and its route; one that stays is registered as before, and one that leaves is not. -/
theorem Moves.keeps {Γ : Ctx ε} {call : Call ε} {t : Turn ε} (h : Moves Γ call t) :
    t.call.args = call.args ∧ t.call.streamId = call.streamId ∧
      (match t with
        | .stay call' => call'.live = call.live
        | .leave call' => call'.live = false) := by
  cases h with
  | writeFailed | drainFailed | cancelled | failed | refused | last | timeout => exact ⟨rfl, rfl, rfl⟩
  | drained hpc =>
    refine ⟨rfl, rfl, ?_⟩
    by_cases hv : call.args.verb = .subscribe
    · simp [Call.live, hpc, hv]
    · simp [Call.live, hpc, hv]
  | written hpc | nextCancelled hpc | more hpc | event hpc | nextTimeout hpc | nextEnded hpc | next hpc =>
    exact ⟨rfl, rfl, by simp [Call.live, hpc]⟩
  | ends hpc => exact ⟨rfl, rfl, by simp [Call.live]⟩
  | close hpc => exact ⟨rfl, rfl, by rcases hpc with hpc | hpc <;> simp [Call.live, hpc]⟩

/-! ### The invariant -/

/-- What every reachable state keeps. -/
structure Inv (s : State ε) : Prop where
  counter : s.nextStreamId = idAt s.taken
  conn : ∀ (c : Nat) (call : Call ε), s.calls[c]? = some call → call.args.verb.isOp = false → call.streamId = handshakeStreamId
  op : ∀ (c : Nat) (call : Call ε), s.calls[c]? = some call → call.args.verb.isOp = true → ∃ n < s.taken, call.streamId = idAt n
  fresh : s.taken ≤ 2 ^ 31 → ∀ (c d : Nat) (x y : Call ε), s.calls[c]? = some x → s.calls[d]? = some y → x.args.verb.isOp = true →
    y.args.verb.isOp = true → x.streamId = y.streamId → c = d
  routed : ∀ (k c : Nat), s.routes.lookup k = some c → ∃ call : Call ε, s.calls[c]? = some call ∧ call.live = true ∧ call.streamId = k
  owned : s.taken ≤ 2 ^ 31 → s.closedError = none → ∀ (c : Nat) (call : Call ε), s.calls[c]? = some call → call.args.verb.isOp = true →
    call.live = true → s.routes.lookup call.streamId = some c
  cleared : s.closedError ≠ none → s.routes = ∅
  reading : s.closedError = none ↔ s.reader.live = true
  stored : ∀ e, s.closedError = some e → e.isTransport = true

/-- No call is in the table under two keys. -/
theorem Inv.tasks_nodup {s : State ε} (h : Inv s) : s.routes.tasks.Nodup := by
  refine Routes.tasks_nodup ?_
  intro k k' c hk hk'
  obtain ⟨call, hc, -, rfl⟩ := h.routed k c hk
  obtain ⟨call', hc', -, rfl⟩ := h.routed k' c hk'
  obtain rfl := Option.some.inj (hc.symm.trans hc')
  rfl

/-- What a step makes of a call that is there. -/
inductive Change (Γ : Ctx ε) (s s' : State ε) (a : Action) (c : Nat) (call : Call ε) : Call ε → Prop
  | same (hreads : ∀ f, a.reads = some f → s.routes.lookup f.streamId ≠ some c)
      (hclosed : s'.closedError = s.closedError ∨ c ∉ s.routes.tasks) : Change Γ s s' a c call call
  | turn {t : Turn ε} (hm : Moves Γ call t) (hreads : a.reads = none) (hclosed : s'.closedError = s.closedError) :
      Change Γ s s' a c call t.call
  | put {f : Frame} (hreads : a.reads = some f) (hl : s.routes.lookup f.streamId = some c) (hclosed : s'.closedError = s.closedError) :
      Change Γ s s' a c call (call.push (.frame f))
  | fail {e : Exc} (hc : c ∈ s.routes.tasks) (hreads : a.reads = none) (hclosed : s'.closedError = s.closedError.or (some e)) :
      Change Γ s s' a c call (call.push (.closed e))

theorem takeStreamId_fields (s : State ε) (verb : Verb) :
    (s.takeStreamId verb).closedError = s.closedError ∧ (s.takeStreamId verb).reader = s.reader ∧
      (s.takeStreamId verb).routes = s.routes ∧ s.taken ≤ (s.takeStreamId verb).taken := by
  unfold State.takeStreamId
  split
  · exact ⟨rfl, rfl, rfl, Nat.le_succ _⟩
  · exact ⟨rfl, rfl, rfl, le_rfl⟩

theorem Begun.fields {s s' : State ε} {args : Args} (h : Begun s args s') :
    s'.closedError = s.closedError ∧ s'.reader = s.reader ∧ s'.taken = (s.takeStreamId args.verb).taken ∧
      s'.nextStreamId = (s.takeStreamId args.verb).nextStreamId ∧
      ∃ pc, s'.calls = s.calls ++ [⟨args, s.streamIdFor args.verb, [], [], false, [], pc⟩] := by
  obtain ⟨hclosed, hreader, -, -⟩ := takeStreamId_fields s args.verb
  cases h with
  | refused | oversize | started => exact ⟨hclosed, hreader, rfl, rfl, _, rfl⟩

/-- A call before a step is there after it. -/
theorem Effect.call_after {Γ : Ctx ε} {s s' : State ε} {a : Action} (h : Effect Γ s a s') (hs : Inv s) {c : Nat} {call : Call ε}
    (hc : s.calls[c]? = some call) : ∃ call', s'.calls[c]? = some call' ∧ Change Γ s s' a c call call' := by
  cases h with
  | begin hb =>
    obtain ⟨hclosed, -, -, -, pc, hcalls⟩ := hb.fields
    refine ⟨call, ?_, .same (by simp [Action.reads]) (.inl hclosed)⟩
    rw [hcalls, List.getElem?_append_left (List.getElem?_eq_some_iff.1 hc).1, hc]
  | @turn _ d x t locked sent hd hm hreads =>
    have hclosed : (s.take d t).closedError = s.closedError := by cases t <;> rfl
    by_cases hcd : c = d
    · subst hcd
      obtain rfl := Option.some.inj (hc.symm.trans hd)
      refine ⟨t.call, ?_, .turn hm hreads hclosed⟩
      simp only [take_calls]
      exact getElem?_set_self_of_some hc _
    · refine ⟨call, ?_, .same (by simp [hreads]) (.inl hclosed)⟩
      simp only [take_calls]
      rw [getElem?_set_of_some hd, if_neg hcd, hc]
  | @deliver f d hr hp hl =>
    have hreads : (Action.readFrame f).reads = some f := if_neg hp
    by_cases hcd : c = d
    · subst hcd
      exact ⟨_, by simp only [List.getElem?_modify_eq, hc]; rfl, .put hreads hl rfl⟩
    · refine ⟨call, ?_, .same ?_ (.inl rfl)⟩
      · simp only
        rw [List.getElem?_modify_ne _ _ (Ne.symm hcd), hc]
      · intro g hg hlg
        obtain rfl := Option.some.inj (hreads.symm.trans hg)
        exact hcd (Option.some.inj (hlg.symm.trans hl))
  | @drop f hr hp hl =>
    refine ⟨call, hc, .same ?_ (.inl rfl)⟩
    intro g hg hlg
    obtain rfl := Option.some.inj ((if_neg hp).symm.trans hg)
    rw [hl] at hlg
    cases hlg
  | @fail _ error reader he hr hreads =>
    have hcall : (s.failAll error).calls[c]? = if c ∈ s.routes.tasks then some (call.push (.closed error)) else some call := by
      unfold State.failAll
      simp only
      rw [getElem?_updateAll _ hs.tasks_nodup, hc]
      rfl
    by_cases hmem : c ∈ s.routes.tasks
    · exact ⟨_, hcall.trans (if_pos hmem), .fail hmem hreads rfl⟩
    · exact ⟨_, hcall.trans (if_neg hmem), .same (by simp [hreads]) (.inr hmem)⟩
  | other reader byes locked sent hr hreads => exact ⟨call, hc, .same (by simp [hreads]) (.inl rfl)⟩

/-- A change keeps what names the call. -/
theorem Change.keeps {Γ : Ctx ε} {s s' : State ε} {a : Action} {c : Nat} {call call' : Call ε} (h : Change Γ s s' a c call call') :
    call'.args = call.args ∧ call'.streamId = call.streamId := by
  cases h with
  | same | put | fail => exact ⟨rfl, rfl⟩
  | turn hm => exact ⟨hm.keeps.1, hm.keeps.2.1⟩

/-- A call after a step was there before it, or has just begun. -/
theorem Effect.call_before {Γ : Ctx ε} {s s' : State ε} {a : Action} (h : Effect Γ s a s') (hs : Inv s) {c : Nat} {call' : Call ε}
    (hc' : s'.calls[c]? = some call') :
    (∃ call, s.calls[c]? = some call ∧ Change Γ s s' a c call call') ∨
      ∃ args, a = .begin args ∧ c = s.calls.length ∧ Begun s args s' := by
  cases hc : s.calls[c]? with
  | some call =>
    obtain ⟨x, hx, hch⟩ := h.call_after hs hc
    obtain rfl := Option.some.inj (hx.symm.trans hc')
    exact .inl ⟨call, rfl, hch⟩
  | none =>
    have hlen := List.getElem?_eq_none_iff.1 hc
    have hlen' := (List.getElem?_eq_some_iff.1 hc').1
    cases h with
    | @begin args _ hb =>
      obtain ⟨-, -, -, -, pc, hcalls⟩ := hb.fields
      rw [hcalls, List.length_append, List.length_singleton] at hlen'
      exact .inr ⟨args, rfl, by omega, hb⟩
    | turn => simp only [take_calls, List.length_set] at hlen'; omega
    | deliver => simp only [List.length_modify] at hlen'; omega
    | drop | other => exact absurd hlen' (not_lt.2 hlen)
    | fail => simp only [State.failAll, length_updateAll] at hlen'; omega

/-! ### The invariant is kept -/

theorem streamIdFor_conn {s : State ε} {verb : Verb} (hv : verb.isOp = false) : s.streamIdFor verb = handshakeStreamId := by
  unfold State.streamIdFor
  rw [if_neg (by rw [hv]; exact Bool.false_ne_true)]

theorem Inv.streamIdFor_op {s : State ε} (h : Inv s) {verb : Verb} (hv : verb.isOp = true) : s.streamIdFor verb = idAt s.taken := by
  unfold State.streamIdFor
  rw [if_pos hv, h.counter]

theorem taken_op (s : State ε) {verb : Verb} (hv : verb.isOp = true) : (s.takeStreamId verb).taken = s.taken + 1 := by
  unfold State.takeStreamId
  rw [if_pos hv]

/-- The id of a call about to begin is that of no op call. -/
theorem Inv.streamIdFor_ne {s : State ε} (h : Inv s) {verb : Verb} (hn : (s.takeStreamId verb).taken ≤ 2 ^ 31) {c : Nat} {call : Call ε}
    (hc : s.calls[c]? = some call) (hop : call.args.verb.isOp = true) : call.streamId ≠ s.streamIdFor verb := by
  obtain ⟨n, hlt, hid⟩ := h.op c call hc hop
  cases hv : verb.isOp with
  | false =>
    rw [streamIdFor_conn hv, hid]
    exact idAt_ne_zero n
  | true =>
    rw [taken_op s hv] at hn
    rw [h.streamIdFor_op hv, hid]
    intro heq
    have := idAt_inj (by omega) (by omega) heq
    omega

/-- Two calls with one id, one of them an op call, are the same. -/
theorem Inv.same_id {s : State ε} (h : Inv s) (hn : s.taken ≤ 2 ^ 31) {c d : Nat} {x y : Call ε} (hc : s.calls[c]? = some x)
    (hd : s.calls[d]? = some y) (hop : x.args.verb.isOp = true) (hid : x.streamId = y.streamId) : c = d := by
  cases hv : y.args.verb.isOp with
  | true => exact h.fresh hn c d x y hc hd hop hv hid
  | false =>
    obtain ⟨n, -, hn⟩ := h.op c x hc hop
    rw [h.conn d y hd hv, hn] at hid
    exact absurd hid (idAt_ne_zero n)

/-- Only a call that begins moves the counter. -/
theorem Effect.counter {Γ : Ctx ε} {s s' : State ε} {a : Action} (h : Effect Γ s a s') :
    (∃ args, Begun s args s') ∨ s'.nextStreamId = s.nextStreamId ∧ s'.taken = s.taken := by
  cases h with
  | begin hb => exact .inl ⟨_, hb⟩
  | @turn _ c _ t => cases t <;> exact .inr ⟨rfl, rfl⟩
  | deliver | drop | fail | other => exact .inr ⟨rfl, rfl⟩

theorem Effect.taken_le {Γ : Ctx ε} {s s' : State ε} {a : Action} (h : Effect Γ s a s') : s.taken ≤ s'.taken := by
  rcases h.counter with ⟨args, hb⟩ | ⟨-, h⟩
  · rw [hb.fields.2.2.1]
    exact (takeStreamId_fields s args.verb).2.2.2
  · exact h.ge

/-- The call that has just begun. -/
theorem Begun.new {s s' : State ε} {args : Args} (h : Begun s args s') {call : Call ε} (hc : s'.calls[s.calls.length]? = some call) :
    call.args = args ∧ call.streamId = s.streamIdFor args.verb := by
  obtain ⟨-, -, -, -, pc, hcalls⟩ := h.fields
  rw [hcalls, List.getElem?_concat_length] at hc
  obtain rfl := Option.some.inj hc
  exact ⟨rfl, rfl⟩

/-- A call stays where it is when another begins. -/
theorem Begun.call_kept {s s' : State ε} {args : Args} (h : Begun s args s') {c : Nat} {call : Call ε} (hc : s.calls[c]? = some call) :
    s'.calls[c]? = some call := by
  obtain ⟨-, -, -, -, pc, hcalls⟩ := h.fields
  rw [hcalls, List.getElem?_append_left (List.getElem?_eq_some_iff.1 hc).1, hc]

/-- The route table after a step holds live calls under their ids. -/
theorem Effect.routed {Γ : Ctx ε} {s s' : State ε} {a : Action} (h : Effect Γ s a s') (hs : Inv s) {k c : Nat}
    (hk : s'.routes.lookup k = some c) : ∃ call : Call ε, s'.calls[c]? = some call ∧ call.live = true ∧ call.streamId = k := by
  cases h with
  | @begin args _ hb =>
    have hkept : s.routes.lookup k = some c → ∃ call : Call ε, s'.calls[c]? = some call ∧ call.live = true ∧ call.streamId = k := by
      intro hold
      obtain ⟨call, hc, hlive⟩ := hs.routed k c hold
      exact ⟨call, hb.call_kept hc, hlive⟩
    cases hb with
    | refused =>
      rw [(takeStreamId_fields s args.verb).2.2.1] at hk
      exact hkept hk
    | oversize =>
      simp only [Routes.lookup_erase_eq, Routes.lookup_insert_eq] at hk
      split_ifs at hk
      exact hkept hk
    | started =>
      simp only [Routes.lookup_insert_eq] at hk
      split_ifs at hk with hid
      · obtain rfl := Option.some.inj hk
        exact ⟨_, List.getElem?_concat_length, rfl, hid.symm⟩
      · exact hkept hk
  | @turn _ d call t locked sent hd hm =>
    obtain ⟨-, hid, hlive⟩ := hm.keeps
    have hother : c ≠ d → s.routes.lookup k = some c →
        ∃ call : Call ε, (s.take d t).calls[c]? = some call ∧ call.live = true ∧ call.streamId = k := by
      intro hcd hold
      obtain ⟨x, hx, hxlive⟩ := hs.routed k c hold
      exact ⟨x, by rw [take_calls, getElem?_set_of_some hd, if_neg hcd, hx], hxlive⟩
    cases t with
    | stay call' =>
      have hold : s.routes.lookup k = some c := hk
      by_cases hcd : c = d
      · subst hcd
        obtain ⟨x, hx, hxlive, hxid⟩ := hs.routed k c hold
        obtain rfl := Option.some.inj (hx.symm.trans hd)
        exact ⟨call', getElem?_set_self_of_some hd _, hlive.trans hxlive, hid.trans hxid⟩
      · exact hother hcd hold
    | leave call' =>
      have hk' : (s.routes.erase call'.streamId).lookup k = some c := hk
      rw [Routes.lookup_erase_eq] at hk'
      split_ifs at hk' with hkey
      refine hother ?_ hk'
      rintro rfl
      obtain ⟨x, hx, -, hxid⟩ := hs.routed k c hk'
      obtain rfl := Option.some.inj (hx.symm.trans hd)
      exact hkey (hxid.symm.trans hid.symm)
  | @deliver f d hr hp hl =>
    obtain ⟨call, hc, hlive, hid⟩ := hs.routed k c hk
    by_cases hcd : c = d
    · subst hcd
      exact ⟨call.push (.frame f), by simp only [List.getElem?_modify_eq, hc]; rfl, hlive, hid⟩
    · exact ⟨call, by simp only; rw [List.getElem?_modify_ne _ _ (Ne.symm hcd), hc], hlive, hid⟩
  | drop | other => exact hs.routed k c hk
  | fail => cases hk

/-- Until the connection fails, each live op call is in the table under its id. -/
theorem Effect.owned {Γ : Ctx ε} {s s' : State ε} {a : Action} (h : Effect Γ s a s') (hs : Inv s) (hn : s'.taken ≤ 2 ^ 31)
    (hclosed : s'.closedError = none) {c : Nat} {call' : Call ε} (hc' : s'.calls[c]? = some call') (hop : call'.args.verb.isOp = true)
    (hlive : call'.live = true) : s'.routes.lookup call'.streamId = some c := by
  have hle := h.taken_le
  cases h with
  | @begin args _ hb =>
    rw [hb.fields.1] at hclosed
    have hn' : s.taken ≤ 2 ^ 31 := hle.trans hn
    rw [hb.fields.2.2.1] at hn
    by_cases hlen : c = s.calls.length
    · subst hlen
      cases hb with
      | refused he =>
        rw [hclosed] at he
        cases he
      | oversize =>
        obtain rfl := Option.some.inj (List.getElem?_concat_length.symm.trans hc')
        cases hlive
      | started =>
        obtain rfl := Option.some.inj (List.getElem?_concat_length.symm.trans hc')
        exact (Routes.lookup_insert_eq ..).trans (if_pos rfl)
    · have hc : s.calls[c]? = some call' := by
        obtain ⟨-, -, -, -, pc, hcalls⟩ := hb.fields
        rw [hcalls, getElem?_concat, if_neg hlen] at hc'
        exact hc'
      have hne := hs.streamIdFor_ne hn hc hop
      have hown := hs.owned hn' hclosed c call' hc hop hlive
      cases hb with
      | refused he =>
        rw [hclosed] at he
        cases he
      | oversize =>
        simp only [Routes.lookup_erase_eq, Routes.lookup_insert_eq]
        rw [if_neg hne, if_neg hne, hown]
      | started =>
        simp only [Routes.lookup_insert_eq]
        rw [if_neg hne, hown]
  | @turn _ d call t locked sent hd hm =>
    obtain ⟨hargs, hid, htlive⟩ := hm.keeps
    have hclosed : s.closedError = none := by cases t <;> exact hclosed
    have hn : s.taken ≤ 2 ^ 31 := by cases t <;> exact hn
    simp only [take_calls, getElem?_set_of_some hd] at hc'
    by_cases hcd : c = d
    · subst hcd
      rw [if_pos rfl] at hc'
      obtain rfl := Option.some.inj hc'
      cases t with
      | stay x =>
        have hown := hs.owned hn hclosed c call hd (hargs ▸ hop) (htlive.symm.trans hlive)
        rw [hid]
        exact hown
      | leave x => exact absurd (htlive.symm.trans hlive) Bool.false_ne_true
    · rw [if_neg hcd] at hc'
      have hown := hs.owned hn hclosed c call' hc' hop hlive
      cases t with
      | stay x => exact hown
      | leave x =>
        refine (Routes.lookup_erase_eq ..).trans ((if_neg ?_).trans hown)
        intro heq
        exact hcd (hs.same_id hn hc' hd hop (heq.trans hid))
  | @deliver f d hr hp hl =>
    by_cases hcd : c = d
    · subst hcd
      simp only [List.getElem?_modify_eq] at hc'
      obtain ⟨call, hc, rfl⟩ := Option.map_eq_some_iff.1 hc'
      exact hs.owned hn hclosed c call hc hop hlive
    · simp only [List.getElem?_modify_ne _ _ (Ne.symm hcd)] at hc'
      exact hs.owned hn hclosed c call' hc' hop hlive
  | drop | other => exact hs.owned hn hclosed c call' hc' hop hlive
  | fail => exact absurd hclosed (by simp [State.failAll])

theorem inv_init (maxPayloadSize : Nat) : Inv (State.init maxPayloadSize : State ε) where
  counter := rfl
  conn := by simp [State.init]
  op := by simp [State.init]
  fresh := by simp [State.init]
  routed := by
    intro k c hk
    cases hk
  owned := by simp [State.init]
  cleared := fun h => absurd rfl h
  reading := by simp [State.init, Reader.live]
  stored := by simp [State.init]

/-- The invariant is kept by each step. -/
theorem Inv.step {Γ : Ctx ε} {s s' : State ε} {a : Action} (hs : Inv s) (hst : step Γ s a = some s') : Inv s' := by
  have h := step_effect hst
  have hle := h.taken_le
  refine ⟨?_, ?_, ?_, ?_, fun k c => h.routed hs, fun hn hclosed c call' => h.owned hs hn hclosed, ?_, ?_, ?_⟩
  · rcases h.counter with ⟨args, hb⟩ | ⟨hid, ht⟩
    · rw [hb.fields.2.2.1, hb.fields.2.2.2.1]
      cases hv : args.verb.isOp with
      | false =>
        unfold State.takeStreamId
        rw [if_neg (by rw [hv]; exact Bool.false_ne_true), hs.counter]
      | true =>
        unfold State.takeStreamId
        rw [if_pos hv, hs.counter, nextStreamIdAfter_idAt]
    · rw [hid, ht, hs.counter]
  · intro c call' hc' hv
    rcases h.call_before hs hc' with ⟨call, hc, hch⟩ | ⟨args, -, rfl, hb⟩
    · rw [hch.keeps.2]
      exact hs.conn c call hc (hch.keeps.1 ▸ hv)
    · obtain ⟨rfl, hid⟩ := hb.new hc'
      rw [hid, streamIdFor_conn hv]
  · intro c call' hc' hv
    rcases h.call_before hs hc' with ⟨call, hc, hch⟩ | ⟨args, -, rfl, hb⟩
    · obtain ⟨n, hlt, hid⟩ := hs.op c call hc (hch.keeps.1 ▸ hv)
      exact ⟨n, by omega, hch.keeps.2.trans hid⟩
    · obtain ⟨rfl, hid⟩ := hb.new hc'
      exact ⟨s.taken, by rw [hb.fields.2.2.1, taken_op s hv]; exact Nat.lt_succ_self _, hid.trans (hs.streamIdFor_op hv)⟩
  · intro hn c d x y hx hy hvx hvy hid
    rcases h.call_before hs hx with ⟨x₀, hx₀, hchx⟩ | ⟨args, -, rfl, hb⟩
    · rcases h.call_before hs hy with ⟨y₀, hy₀, hchy⟩ | ⟨args, -, rfl, hb⟩
      · exact hs.fresh (by omega) c d x₀ y₀ hx₀ hy₀ (hchx.keeps.1 ▸ hvx) (hchy.keeps.1 ▸ hvy)
          (hchx.keeps.2.symm.trans (hid.trans hchy.keeps.2))
      · rw [hb.fields.2.2.1] at hn
        exact absurd (hchx.keeps.2.symm.trans (hid.trans (hb.new hy).2)) (hs.streamIdFor_ne hn hx₀ (hchx.keeps.1 ▸ hvx))
    · rcases h.call_before hs hy with ⟨y₀, hy₀, hchy⟩ | ⟨args', -, rfl, -⟩
      · rw [hb.fields.2.2.1] at hn
        exact absurd (hchy.keeps.2.symm.trans (hid.symm.trans (hb.new hx).2)) (hs.streamIdFor_ne hn hy₀ (hchy.keeps.1 ▸ hvy))
      · rfl
  · intro hclosed
    cases h with
    | @begin args _ hb =>
      rw [hb.fields.1] at hclosed
      cases hb with
      | refused => exact (takeStreamId_fields s args.verb).2.2.1.trans (hs.cleared hclosed)
      | oversize he | started he => exact absurd he hclosed
    | @turn _ d call t locked sent hd hm =>
      cases t with
      | stay x => exact hs.cleared hclosed
      | leave x =>
        have hempty := hs.cleared hclosed
        simp only [State.take, hempty]
        rfl
    | deliver | drop | other => exact hs.cleared hclosed
    | fail => rfl
  · cases h with
    | begin hb =>
      rw [hb.fields.1, hb.fields.2.1]
      exact hs.reading
    | @turn _ d call t =>
      cases t <;> exact hs.reading
    | deliver | drop => exact hs.reading
    | other reader byes locked sent hr =>
      simp only [hr]
      exact hs.reading
    | fail reader he hr => simp [State.failAll, hr]
  · intro e he
    cases h with
    | begin hb =>
      rw [hb.fields.1] at he
      exact hs.stored e he
    | @turn _ d call t => cases t <;> exact hs.stored e he
    | deliver | drop | other => exact hs.stored e he
    | @fail _ error reader htransport =>
      cases hclosed : s.closedError with
      | none =>
        simp only [State.failAll, hclosed, Option.none_or, Option.some.injEq] at he
        exact he ▸ htransport
      | some e₀ =>
        simp only [State.failAll, hclosed, Option.some_or, Option.some.injEq] at he
        exact he ▸ hs.stored e₀ hclosed

/-- The invariant holds in every reachable state. -/
theorem inv_runs {Γ : Ctx ε} {m : Nat} {tr : List Action} {s : State ε} (hr : (mux Γ m).Runs tr s) : Inv s :=
  hr.invariant (inv_init m) (fun _ _ _ hs hst => hs.step hst)

end BrainSdk.Python.AsyncMux
