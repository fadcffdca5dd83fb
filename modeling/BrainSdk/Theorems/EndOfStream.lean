import BrainSdk.Python.Consumed

/-!
# The end of a subscription of the Python mux

`Subscription.next` reports the frames of its stream one by one and then the end, and must return `None` at once from then on. It
latches the end in `_ended` for an EOS frame, an ERROR frame and a `ConnectionClosed`; an `OSError` of the sentinel passes through
without being latched, so the next call waits on a queue no one fills any more.
-/

namespace BrainSdk.Python

open Library Wire

variable {ε : Type}

/-- What ends a stream: an ERROR frame, an EOS frame, or the failure of the connection. -/
def Item.isEnd : Item → Bool
  | .closed _ => true
  | .frame f => f.opcode = opError || f.isEos

/-- What `next` has reported while the stream goes on: the event of each frame, in order, and a timeout wherever it waited too
long. -/
inductive Told (Γ : Ctx ε) : List Item → List (NextOutcome ε) → Prop
  | nil : Told Γ [] []
  | event {items : List Item} {outs : List (NextOutcome ε)} {f : Frame} (h : Told Γ items outs)
      (hf : (Item.frame f).isEnd = false) : Told Γ (items ++ [.frame f]) (outs ++ [eventOf Γ f.payload])
  | timeout {items : List Item} {outs : List (NextOutcome ε)} {d : ℚ} (h : Told Γ items outs) :
      Told Γ items (outs ++ [.raised (.brainTimeout d)])

/-- The results of `next`, the one about to be returned included. -/
def Call.results (call : Call ε) : List (NextOutcome ε) :=
  call.outs ++ match call.pc with
    | .ending o => [o]
    | _ => []

/-- The law of the end of a stream, for a subscription that took `items` off its queue: as long as none of them ends the stream it
has told the events; once one does, which is the last it takes, or once the caller has closed the subscription, it has told the
end and then `None` every time, the end is latched, and no call of `next` waits. -/
def EndLaw (Γ : Ctx ε) (items : List Item) (call : Call ε) : Prop :=
  (Told Γ items call.results ∧ call.ended = false) ∨
  (call.ended = true ∧ call.pc ≠ .inNext ∧
    ((∃ outs k, Told Γ items outs ∧ call.results = outs ++ List.replicate k .none) ∨
     ∃ before last outs k, items = before ++ [last] ∧ last.isEnd = true ∧ Told Γ before outs ∧
      call.results = outs ++ (nextItem Γ last).2 :: List.replicate k .none))

/-- The law holds of call `c`, if it is a subscription. -/
def EndOfStream (Γ : Ctx ε) (c : Nat) (tr : List Action) (s : State ε) : Prop :=
  ∀ call, s.calls[c]? = some call → call.args.verb = .subscribe → EndLaw Γ (dequeued c tr) call

/-- Subscription `c` does not take a sentinel with an `OSError`. -/
def NoOsError (c : Nat) (s : State ε) (a : Action) : Prop :=
  ∀ call message, s.calls[c]? = some call → call.args.verb = .subscribe → a ≠ .dequeue c (.closed (.osError message))

theorem Told.frames {Γ : Ctx ε} {items : List Item} {outs : List (NextOutcome ε)} (h : Told Γ items outs) (e : Exc) :
    Item.closed e ∉ items := by
  induction h with
  | nil => exact List.not_mem_nil
  | event _ _ ih => simpa using ih
  | timeout _ ih => exact ih

/-- What `nextItem` does with each item, the `OSError` of a sentinel apart: it latches what ends the stream and nothing else. -/
theorem nextItem_latches (Γ : Ctx ε) {i : Item} (hi : ∀ e, i = .closed e → ∃ message, e = .connectionClosed message) :
    (nextItem Γ i).1 = i.isEnd ∧ ∀ f, i = .frame f → i.isEnd = false → (nextItem Γ i).2 = eventOf Γ f.payload := by
  cases i with
  | closed e =>
    obtain ⟨message, rfl⟩ := hi e rfl
    exact ⟨rfl, fun f hf => nomatch hf⟩
  | frame f =>
    simp only [nextItem, Item.isEnd]
    by_cases ho : f.opcode = opError
    · simp [ho]
    · cases he : f.isEos <;> simp [ho]

/-- `next` with an item in hand keeps the law. -/
theorem EndLaw.advance {Γ : Ctx ε} {items rest : List Item} {call : Call ε} {i : Item} (h : EndLaw Γ items call)
    (hpc : call.pc = .inNext) (hi : ∀ e, i = .closed e → ∃ message, e = .connectionClosed message) :
    EndLaw Γ (items ++ [i]) ({ call with queue := rest }.advance Γ i) := by
  rcases h with ⟨htold, hended⟩ | ⟨-, hno, -⟩
  · have hres : call.results = call.outs := by simp [Call.results, hpc]
    rw [hres] at htold
    obtain ⟨hlatch, hevent⟩ := nextItem_latches Γ hi
    rcases advance_pc Γ { call with queue := rest } i with ⟨hend, heq⟩ | ⟨hend, heq⟩
    · rw [heq]
      refine .inr ⟨rfl, nofun, .inr ⟨items, i, call.outs, 0, rfl, by rw [← hlatch, hend], htold, ?_⟩⟩
      simp [Call.results]
    · rw [heq]
      rw [hlatch] at hend
      obtain ⟨f, rfl⟩ : ∃ f, i = .frame f := by
        cases i with
        | closed e => cases hend
        | frame f => exact ⟨f, rfl⟩
      refine .inl ⟨?_, hended⟩
      simp only [Call.results, List.append_nil]
      rw [hevent f rfl hend]
      exact .event htold hend
  · exact absurd hpc hno

/-- A step that changes neither the results, the latch nor the place of a subscription keeps the law. -/
theorem EndLaw.congr {Γ : Ctx ε} {items : List Item} {call call' : Call ε} (h : EndLaw Γ items call)
    (hres : call'.results = call.results) (hended : call'.ended = call.ended) (hpc : call'.pc = .inNext → call.pc = .inNext) :
    EndLaw Γ items call' := by
  unfold EndLaw at h ⊢
  rw [hres, hended]
  exact h.imp_right (fun ⟨h1, h2, h3⟩ => ⟨h1, fun hp => h2 (hpc hp), h3⟩)

/-- A subscription whose end is latched tells one more `None`. -/
theorem EndLaw.tellNone {Γ : Ctx ε} {items : List Item} {call : Call ε} (h : EndLaw Γ items call) (hpc : call.pc = .opened)
    (he : call.ended = true) : EndLaw Γ items { call with outs := call.outs ++ [.none] } := by
  rcases h with ⟨-, hended⟩ | ⟨-, -, hlaw⟩
  · rw [he] at hended
    cases hended
  · refine .inr ⟨he, by simp [hpc], ?_⟩
    have hres : ({ call with outs := call.outs ++ [.none] } : Call ε).results = call.results ++ [.none] := by
      simp [Call.results, hpc]
    rw [hres]
    rcases hlaw with ⟨outs, k, htold, heq⟩ | ⟨before, last, outs, k, hitems, hend, htold, heq⟩
    · exact .inl ⟨outs, k + 1, htold, by rw [heq, List.replicate_succ', List.append_assoc]⟩
    · refine .inr ⟨before, last, outs, k + 1, hitems, hend, htold, ?_⟩
      rw [heq, List.replicate_succ', List.append_assoc, List.cons_append]

/-- A subscription that its caller closes latches the end. -/
theorem EndLaw.close {Γ : Ctx ε} {items : List Item} {call : Call ε} (h : EndLaw Γ items call) (hpc : call.pc = .opened) :
    EndLaw Γ items { call with ended := true, pc := .closing } := by
  have hres : ({ call with ended := true, pc := .closing } : Call ε).results = call.results := by simp [Call.results, hpc]
  refine .inr ⟨rfl, nofun, ?_⟩
  rw [hres]
  rcases h with ⟨htold, -⟩ | ⟨-, -, hlaw⟩
  · exact .inl ⟨call.results, 0, htold, by simp⟩
  · exact hlaw

/-- Every move of a subscription keeps the law, a sentinel with an `OSError` apart. -/
theorem EndLaw.move {Γ : Ctx ε} {c : Nat} {items : List Item} {call call' : Call ε} {a : Action} (h : EndLaw Γ items call)
    (hm : Move Γ c call a call') (hp : call.Placed) (hv : call.args.verb = .subscribe)
    (hq : ∀ e, .closed e ∈ call.queue → e.isTransport = true)
    (hos : ∀ message, a ≠ .dequeue c (.closed (.osError message))) :
    EndLaw Γ (items ++ (a.dequeues c).toList) call' := by
  have hresults : ∀ {pc : Pc ε}, call.pc = pc → (∀ o, pc ≠ .ending o) → call.results = call.outs := by
    intro pc hpc hno
    unfold Call.results
    split
    · rename_i o ho
      exact absurd (hpc.symm.trans ho) (hno o)
    · simp
  cases hm with
  | writeFailed hpc _ =>
    rw [show (Action.dequeues c (.write c _)).toList = [] from rfl, List.append_nil]
    exact h.congr (by rw [hresults hpc (by simp)]; simp [Call.results]) rfl (by simp)
  | written hpc =>
    rw [show (Action.dequeues c (.write c _)).toList = [] from rfl, List.append_nil]
    exact h.congr (by rw [hresults hpc (by simp)]; simp [Call.results, hv]) rfl (by simp [hv])
  | collect hpc _ =>
    simp only [Call.Placed, hpc] at hp
    exact absurd hv hp.2
  | @advance i rest hpc hqueue =>
    have hi : ∀ e, i = .closed e → ∃ message, e = .connectionClosed message := by
      rintro e rfl
      have htrans := hq e (by rw [hqueue]; exact List.mem_cons_self)
      cases e with
      | connectionClosed message => exact ⟨message, rfl⟩
      | osError message => exact absurd rfl (hos message)
      | _ => cases htrans
    simpa [Action.dequeues] using h.advance hpc hi
  | requestTimeout hpc _ =>
    simp only [Call.Placed, hpc] at hp
    exact absurd hv hp.2
  | nextTimeout hpc _ =>
    rw [show (Action.dequeues c (.timeout c)).toList = [] from rfl, List.append_nil]
    rcases h with ⟨htold, hended⟩ | ⟨-, hno, -⟩
    · rw [hresults hpc (by simp)] at htold
      refine .inl ⟨?_, hended⟩
      simp only [Call.results, List.append_nil]
      exact .timeout htold
    · exact absurd hpc hno
  | nextEnded hpc he =>
    rw [show (Action.dequeues c (.next c)).toList = [] from rfl, List.append_nil]
    exact h.tellNone hpc he
  | next hpc he =>
    rw [show (Action.dequeues c (.next c)).toList = [] from rfl, List.append_nil]
    rcases h with ⟨htold, hended⟩ | ⟨hended, -, -⟩
    · rw [hresults hpc (by simp)] at htold
      exact .inl ⟨by simpa [Call.results] using htold, hended⟩
    · rw [he] at hended
      cases hended
  | close hpc =>
    rw [show (Action.dequeues c (.close c)).toList = [] from rfl, List.append_nil]
    exact h.close hpc

theorem EndLaw.change {Γ : Ctx ε} {s : State ε} {d : Nat} {items : List Item} {call call' : Call ε} {a : Action}
    (h : EndLaw Γ items call) (hs : Inv s) (hS : Sentinels s) (hc : s.calls[d]? = some call)
    (hv : call.args.verb = .subscribe) (hos : NoOsError d s a) (hch : Change Γ s d a call call') :
    EndLaw Γ (items ++ (a.dequeues d).toList) call' := by
  have hnone : a.caller ≠ some d ∨ a.dequeues d = none → items ++ (a.dequeues d).toList = items := by
    intro ha
    cases a <;> simp_all [Action.dequeues, Action.caller]
  cases hch with
  | same hcaller _ _ =>
    rw [hnone (.inl hcaller)]
    exact h
  | move hm => exact h.move hm (hs.ok d call hc).placed hv (fun e => hS.queued d call e hc) (fun msg => hos call msg hc hv)
  | put _ | fail _ _ =>
    rw [hnone (.inr rfl)]
    exact h.congr rfl rfl id
  | take hpc | refuse hpc _ | register hpc _ =>
    rw [hnone (.inr rfl)]
    exact h.congr (by simp [Call.results, hpc]) rfl (by simp)
  | leave hl =>
    rw [hnone (.inr rfl)]
    cases hl with
    | leaving hpc | closing hpc => exact h.congr (by simp [Call.results, hpc]) rfl (by simp)
    | ending hpc => exact h.congr (by simp [Call.results, hpc]) rfl (by simp)

/-- A subscription that takes a sentinel with an `OSError` has reported the end and not latched it. -/
theorem not_endOfStream {Γ : Ctx ε} {c : Nat} {tr : List Action} {s s' : State ε} {a : Action} (hs : Inv s)
    (hst : step Γ s a = some s') (hos : ¬NoOsError c s a) : ¬EndOfStream Γ c (tr ++ [a]) s' := by
  unfold NoOsError at hos
  push Not at hos
  obtain ⟨call, message, hc, hv, rfl⟩ := hos
  intro hlaw
  have hplaced := (hs.ok c call hc).placed
  obtain ⟨call', hc', hch⟩ := (step_effect hst).call_after hs hc
  have hmem : Item.closed (.osError message) ∈ dequeued c (tr ++ [.dequeue c (.closed (.osError message))]) := by
    simp [dequeued, Action.dequeues]
  cases hch with
  | same hcaller _ _ => exact hcaller rfl
  | move hm =>
    cases hm with
    | collect hpc _ =>
      simp only [Call.Placed, hpc] at hplaced
      exact hplaced.2 hv
    | @advance _ rest hpc _ =>
      simp only [Call.Placed, hpc] at hplaced
      have hended : ({ call with queue := rest }.advance Γ (.closed (.osError message))).ended = false := hplaced.2.2
      rcases hlaw _ hc' hv with ⟨htold, -⟩ | ⟨hended', -, -⟩
      · exact htold.frames _ hmem
      · rw [hended] at hended'
        cases hended'

/-- In a run that takes fewer than `2 ^ 31` stream ids, what a subscription has taken and what is left on its queue are the frames
routed to it and then the sentinel, and it keeps the law of the end of its stream throughout exactly when it takes no sentinel with
an `OSError`. -/
theorem endOfStream_iff (Γ : Ctx ε) (m : Nat) {tr : List Action} {s : State ε} (hr : (mux Γ m).Runs tr s)
    (hn : s.taken < 2 ^ 31) (c : Nat) :
    (∀ call, s.calls[c]? = some call → call.args.verb = .subscribe →
      dequeued c tr ++ call.queue = (delivered c tr).map .frame ++ sentinel c tr s.closedError) ∧
    ((mux Γ m).Throughout (EndOfStream Γ c) tr ↔ (mux Γ m).Meets (NoOsError c) tr) := by
  constructor
  · intro call hc hv
    exact (accounted_runs hr hn).queued c call hc (by rw [hv]; rfl)
  · refine Machine.throughout_iff_meets (B := fun s => s.taken < 2 ^ 31) ?_ ?_ ?_ hr hn
    · intro s a s' hst hb
      have := (step_effect hst).taken_le
      omega
    · intro tr s hr hn hm
      refine Machine.Runs.rec_on_meets (C := NoOsError c)
        (P := fun tr s => s.taken < 2 ^ 31 → EndOfStream Γ c tr s) ?_ ?_ hr hm hn
      · intro _ call hc
        simp [mux, State.init] at hc
      · intro tr s a s' hrun ih hos hst hn' call' hc' hv'
        have hs := inv_runs hrun
        have h := step_effect hst
        have hle := h.taken_le
        rw [dequeued, filterMap_snoc]
        rcases h.call_before hs hc' with ⟨call, hc, hch⟩ | ⟨args, rfl, hc, rfl⟩
        · have hv : call.args.verb = .subscribe := by
            rw [← hch.keeps.1]
            exact hv'
          exact (ih (by omega) call hc hv).change hs (sentinels_runs hrun) hc hv hos hch
        · have hun := (accounted_runs hrun (by omega)).untouched c (by
            intro x hx
            rw [hc] at hx
            cases hx)
          rw [show tr.filterMap (Action.dequeues c) = [] from hun.2.2]
          have hpc : (Call.begin args : Call ε).pc = .starting := by
            simp only [Call.begin] at hv' ⊢
            rw [hv']
            rfl
          refine .inl ⟨?_, rfl⟩
          simp only [Call.results, hpc]
          exact .nil
    · intro tr s a s' hrun _ hst _ hos
      exact not_endOfStream (inv_runs hrun) hst hos

/-- A subscription whose first `next` waits when the reader fails with `e`, and takes the sentinel. -/
def failedWhileWaiting (e : ReadFailure) : List Action :=
  [.start ⟨.subscribe, opSubscribeReq, [], none⟩, .takeStreamId 0, .register 0, .write 0 none, .next 0, .readError e, .failAll,
    .dequeue 0 (.closed e.error)]

/-- The law holds when the peer closes the connection. -/
theorem closedWhileWaiting_endOfStream :
    ∃ s : State Unit, (mux Ctx.refusing maxPayloadBytes).Runs (failedWhileWaiting (.closed "connection closed by peer")) s ∧
      s.taken < 2 ^ 31 ∧ (mux Ctx.refusing maxPayloadBytes).Throughout (EndOfStream Ctx.refusing 0)
        (failedWhileWaiting (.closed "connection closed by peer")) := by
  have hrun : ∃ s : State Unit,
      (mux Ctx.refusing maxPayloadBytes).Runs (failedWhileWaiting (.closed "connection closed by peer")) s ∧ s.taken < 2 ^ 31 :=
    ⟨_, rfl, by decide⟩
  obtain ⟨s, hr, hn⟩ := hrun
  refine ⟨s, hr, hn, (endOfStream_iff Ctx.refusing maxPayloadBytes hr hn 0).2.2 (Machine.meets_of_mem ?_)⟩
  intro a ha s' call message _ _
  rintro rfl
  simp [failedWhileWaiting, ReadFailure.error] at ha

/-- After a reset of the connection has been reported, `next` waits again and times out. -/
theorem resetWhileWaiting_not_endOfStream :
    ¬∀ (tr : List Action) (s : State Unit) (c : Nat), (mux Ctx.refusing maxPayloadBytes).Runs tr s → s.taken < 2 ^ 31 →
      EndOfStream Ctx.refusing c tr s := by
  intro h
  have hrun : ∃ (s : State Unit) (call : Call Unit),
      (mux Ctx.refusing maxPayloadBytes).Runs (failedWhileWaiting (.os "ECONNRESET") ++ [.next 0, .timeout 0]) s ∧
      s.taken < 2 ^ 31 ∧ s.calls[0]? = some call ∧ call.args.verb = .subscribe ∧ call.ended = false ∧
      call.outs = [.raised (.osError "ECONNRESET"), .raised (.brainTimeout 30)] :=
    ⟨_, _, rfl, by decide, rfl, rfl, rfl, rfl⟩
  obtain ⟨s, call, hr, hn, hc, hv, hended, -⟩ := hrun
  rcases h _ s 0 hr hn call hc hv with ⟨htold, -⟩ | ⟨hended', -, -⟩
  · exact htold.frames (.osError "ECONNRESET") (by decide)
  · rw [hended] at hended'
    cases hended'

end BrainSdk.Python
