import BrainSdk.Python.AsyncInvariant

/-!
# What the asyncio connection gives its calls

An op call is given the frames of its stream from the time it begins, in order, and behind them the error that the connection fails with.
A request that returns has taken a complete response off the front of them. A subscription has made one outcome of each frame it took: a
`next` that times out or is cancelled takes none.
-/

namespace BrainSdk.Python.AsyncMux

open Library Wire

variable {ε : Type}

/-- The frames that the reader was given, but for the heartbeats. -/
def inbound (tr : List Action) : List Frame := tr.filterMap Action.reads

/-- What the frames of a stream and the failure of the connection put on a queue. -/
def arrived (fs : List Frame) (closedError : Option Exc) : List Item := fs.map Item.frame ++ (closedError.map Item.closed).toList

def isTimeout : NextOutcome ε → Bool
  | .raised (.brainTimeout _) => true
  | _ => false

/-- The outcomes of `next` but for the time-outs. -/
def results (outs : List (NextOutcome ε)) : List (NextOutcome ε) := outs.filter (fun o => ¬isTimeout o)

/-- What calls of `next` make of the frames of a stream, up to the one that ends it. -/
def outcomesOf (Γ : Ctx ε) : List Frame → List (NextOutcome ε)
  | [] => []
  | f :: fs =>
    match nextItem Γ (.frame f) with
    | (true, o) => [o]
    | (false, o) => o :: outcomesOf Γ fs

/-- How a request ends, by the frames of its stream: with a response off their front, with the ERROR frame behind an unfinished one, or
with an error of its own or of the transport. -/
def Ends (Γ : Ctx ε) (fs : List Frame) : Outcome → Prop
  | .returned resp => IsResponse resp ∧ resp <+: fs
  | .raised e => e.isLocal = true ∨ ∃ pre f, Unfinished pre ∧ f.opcode = opError ∧ e = errorOf Γ f.payload ∧ pre ++ [f] <+: fs

/-- What the outcomes of a subscription are, and its queue, by the frames of its stream. -/
inductive Streams (Γ : Ctx ε) (fs : List Frame) (closedError : Option Exc) : Bool → List (NextOutcome ε) → List Item → Prop
  | flowing {outs : List (NextOutcome ε)} {queue : List Item} (taken : List Frame) (hu : Unfinished taken)
      (hq : taken.map Item.frame ++ queue = arrived fs closedError) (ho : results outs = outcomesOf Γ taken) :
      Streams Γ fs closedError false outs queue
  /-- It has passed on the error of the transport, and does not end by it. -/
  | failed {outs : List (NextOutcome ε)} {e : Exc} (hc : closedError = some e) (ho : results outs = outcomesOf Γ fs ++ [.raised e]) :
      Streams Γ fs closedError false outs []
  | ended {outs : List (NextOutcome ε)} {queue : List Item} (taken : List Frame) (err : List (NextOutcome ε)) (n : Nat)
      (ht : taken <+: fs) (herr : err = [] ∨ ∃ e, closedError = some e ∧ err = [.raised e])
      (ho : results outs = outcomesOf Γ taken ++ err ++ List.replicate n .none) : Streams Γ fs closedError true outs queue

/-- What they are while a task is in `next` and another one has closed the subscription: what is on the queue by then is still taken. -/
inductive Closing (Γ : Ctx ε) (fs : List Frame) (closedError : Option Exc) : List (NextOutcome ε) → List Item → Prop
  | flowing {outs : List (NextOutcome ε)} {queue : List Item} (taken rest : List Frame) (err : Option Exc) (hu : Unfinished taken)
      (hp : taken ++ rest <+: fs) (herr : ∀ e, err = some e → closedError = some e) (hq : queue = arrived rest err)
      (ho : results outs = outcomesOf Γ taken) : Closing Γ fs closedError outs queue
  | failed {outs : List (NextOutcome ε)} {e : Exc} (taken : List Frame) (ht : taken <+: fs) (hc : closedError = some e)
      (ho : results outs = outcomesOf Γ taken ++ [.raised e]) : Closing Γ fs closedError outs []

/-- What a call has made of the frames of its stream. -/
def Call.Follows (Γ : Ctx ε) (fs : List Frame) (closedError : Option Exc) (call : Call ε) : Prop :=
  match call.pc with
  | .locking | .draining => call.ended = false ∧ call.frames = [] ∧ call.outs = [] ∧ call.queue = arrived fs closedError
  | .collecting => call.ended = false ∧ Unfinished call.frames ∧ call.frames.map Item.frame ++ call.queue = arrived fs closedError
  | .opened => Streams Γ fs closedError call.ended call.outs call.queue
  | .inNext =>
    if call.ended then Closing Γ fs closedError call.outs call.queue else Streams Γ fs closedError false call.outs call.queue
  | .done o => Ends Γ fs o
  | .cancelled => True

/-! ### Frames and their outcomes -/

theorem frame_notMem_closed (closedError : Option Exc) (f : Frame) : Item.frame f ∉ (closedError.map Item.closed).toList := by
  cases closedError <;> simp

theorem prefix_of_arrived {taken fs : List Frame} {closedError : Option Exc} {q : List Item}
    (h : taken.map Item.frame ++ q = arrived fs closedError) : taken <+: fs :=
  frames_prefix h (frame_notMem_closed closedError)

/-- The sentinel comes behind all frames, and carries the stored error. -/
theorem arrived_closed {taken fs : List Frame} {closedError : Option Exc} {e : Exc} {rest : List Item}
    (h : taken.map Item.frame ++ .closed e :: rest = arrived fs closedError) : taken = fs ∧ closedError = some e ∧ rest = [] := by
  unfold arrived at h
  induction taken generalizing fs with
  | nil =>
    cases fs with
    | nil =>
      cases closedError with
      | none => cases h
      | some e' =>
        obtain ⟨he, hrest⟩ : Item.closed e = .closed e' ∧ rest = [] := by simpa using h
        cases he
        exact ⟨rfl, rfl, hrest⟩
    | cons f fs => simp at h
  | cons t taken ih =>
    cases fs with
    | nil => cases closedError <;> simp at h
    | cons f fs =>
      rw [List.map_cons, List.map_cons, List.cons_append, List.cons_append, List.cons.injEq] at h
      obtain ⟨htf, h⟩ := h
      obtain ⟨rfl, hclosed, hrest⟩ := ih h
      cases htf
      exact ⟨rfl, hclosed, hrest⟩

/-- Taking one frame more. -/
theorem arrived_frame {taken : List Frame} {f : Frame} {rest q : List Item} (h : taken.map Item.frame ++ .frame f :: rest = q) :
    (taken ++ [f]).map Item.frame ++ rest = q := by
  rw [List.map_append, List.append_assoc]
  exact h

theorem nextItem_unfinished (Γ : Ctx ε) {f : Frame} (ho : f.opcode ≠ opError) (he : f.isEos = false) :
    nextItem Γ (.frame f) = (false, eventOf Γ f.payload) := by
  simp [nextItem, ho, he]

/-- A frame that does not end the stream. -/
theorem nextItem_goes {Γ : Ctx ε} {f : Frame} {o : NextOutcome ε} (h : nextItem Γ (.frame f) = (false, o)) :
    f.opcode ≠ opError ∧ f.isEos = false := by
  by_cases ho : f.opcode = opError
  · simp [nextItem, ho] at h
  · cases he : f.isEos with
    | true => simp [nextItem, ho, he] at h
    | false => exact ⟨ho, rfl⟩

/-- A close ends the stream; another error of the transport passes through. -/
theorem nextItem_closed (Γ : Ctx ε) (e : Exc) : nextItem Γ (.closed e) = (true, .none) ∨ nextItem Γ (.closed e) = (false, .raised e) := by
  cases e with
  | connectionClosed => exact .inl rfl
  | _ => exact .inr rfl

theorem outcomesOf_append (Γ : Ctx ε) {pre : List Frame} (h : Unfinished pre) (fs : List Frame) :
    outcomesOf Γ (pre ++ fs) = outcomesOf Γ pre ++ outcomesOf Γ fs := by
  induction pre with
  | nil => rfl
  | cons f pre ih =>
    obtain ⟨ho, he⟩ := h f List.mem_cons_self
    rw [List.cons_append, outcomesOf, outcomesOf, nextItem_unfinished Γ ho he, ih (fun g hg => h g (List.mem_cons_of_mem f hg))]
    rfl

theorem outcomesOf_unfinished (Γ : Ctx ε) {fs : List Frame} (h : Unfinished fs) :
    outcomesOf Γ fs = fs.map (fun f => eventOf Γ f.payload) := by
  induction fs with
  | nil => rfl
  | cons f fs ih =>
    obtain ⟨ho, he⟩ := h f List.mem_cons_self
    rw [outcomesOf, nextItem_unfinished Γ ho he, List.map_cons, ih (fun g hg => h g (List.mem_cons_of_mem f hg))]

theorem outcomesOf_singleton (Γ : Ctx ε) (f : Frame) : outcomesOf Γ [f] = [(nextItem Γ (.frame f)).2] := by
  rw [outcomesOf]
  split <;> simp_all [outcomesOf]

/-- A frame makes no time-out. -/
theorem nextItem_not_timeout (Γ : Ctx ε) (f : Frame) : isTimeout (nextItem Γ (.frame f)).2 = false := by
  have hevent : isTimeout (eventOf Γ f.payload) = false := by
    unfold eventOf
    split <;> rfl
  have herror : isTimeout (.raised (errorOf Γ f.payload) : NextOutcome ε) = false := by
    unfold errorOf
    split <;> rfl
  unfold nextItem
  dsimp only
  split_ifs
  · exact herror
  · rfl
  · exact hevent
  · exact hevent

theorem not_timeout_of_isTransport {e : Exc} (h : e.isTransport = true) : isTimeout (.raised e : NextOutcome ε) = false := by
  cases e <;> first | rfl | cases h

theorem results_concat (outs : List (NextOutcome ε)) {o : NextOutcome ε} (h : isTimeout o = false) :
    results (outs ++ [o]) = results outs ++ [o] := by
  simp [results, h]

theorem results_timeout (outs : List (NextOutcome ε)) (d : ℚ) : results (outs ++ [.raised (.brainTimeout d)]) = results outs := by
  simp [results, isTimeout]

/-! ### One step -/

/-- A frame that `next` takes is the next one of the stream. -/
theorem Streams.take_frame {Γ : Ctx ε} {fs : List Frame} {closedError : Option Exc} {outs : List (NextOutcome ε)} {f : Frame}
    {rest : List Item} (h : Streams Γ fs closedError false outs (.frame f :: rest)) :
    ∃ taken, Unfinished taken ∧ (taken ++ [f]).map Item.frame ++ rest = arrived fs closedError ∧
      results (outs ++ [(nextItem Γ (.frame f)).2]) = outcomesOf Γ (taken ++ [f]) := by
  cases h with
  | flowing taken hu hq hout =>
    refine ⟨taken, hu, arrived_frame hq, ?_⟩
    rw [results_concat _ (nextItem_not_timeout Γ f), hout, outcomesOf_append Γ hu, outcomesOf_singleton]

/-- A sentinel that `next` takes comes behind all frames of the stream. -/
theorem Streams.take_closed {Γ : Ctx ε} {fs : List Frame} {closedError : Option Exc} {outs : List (NextOutcome ε)} {e : Exc}
    {rest : List Item} (h : Streams Γ fs closedError false outs (.closed e :: rest)) :
    closedError = some e ∧ rest = [] ∧ results outs = outcomesOf Γ fs := by
  cases h with
  | flowing taken hu hq hout =>
    obtain ⟨rfl, hclosed, hrest⟩ := arrived_closed hq
    exact ⟨hclosed, hrest, hout⟩

/-- A `next` that ends the stream. -/
theorem Streams.ends {Γ : Ctx ε} {fs : List Frame} {closedError : Option Exc} {outs : List (NextOutcome ε)} {i : Item}
    {rest : List Item} {o : NextOutcome ε} (h : Streams Γ fs closedError false outs (i :: rest)) (hi : nextItem Γ i = (true, o)) :
    Streams Γ fs closedError true (outs ++ [o]) rest := by
  cases i with
  | frame f =>
    obtain ⟨taken, hu, hq, hout⟩ := h.take_frame
    rw [hi] at hout
    exact .ended (taken ++ [f]) [] 0 (prefix_of_arrived hq) (.inl rfl) (by simpa using hout)
  | closed e =>
    obtain ⟨hclosed, -, hout⟩ := h.take_closed
    have ho : o = .none := by
      rcases nextItem_closed Γ e with h | h
      · rw [h] at hi
        cases hi
        rfl
      · rw [h] at hi
        cases hi
    refine .ended fs [] 1 (List.prefix_refl fs) (.inl rfl) ?_
    rw [ho, results_concat _ rfl, hout]
    simp

/-- A `next` that does not. -/
theorem Streams.goes {Γ : Ctx ε} {fs : List Frame} {closedError : Option Exc} {outs : List (NextOutcome ε)} {i : Item}
    {rest : List Item} {o : NextOutcome ε} (h : Streams Γ fs closedError false outs (i :: rest)) (hi : nextItem Γ i = (false, o))
    (hstored : ∀ e, closedError = some e → e.isTransport = true) : Streams Γ fs closedError false (outs ++ [o]) rest := by
  cases i with
  | frame f =>
    obtain ⟨taken, hu, hq, hout⟩ := h.take_frame
    have hgoes := nextItem_goes hi
    rw [hi] at hout
    exact .flowing (taken ++ [f]) (hu.snoc hgoes.1 hgoes.2) hq hout
  | closed e =>
    obtain ⟨hclosed, rfl, hout⟩ := h.take_closed
    have htransport := hstored e hclosed
    have ho : o = .raised e := by
      rcases nextItem_closed Γ e with h | h
      · rw [h] at hi
        cases hi
      · rw [h] at hi
        cases hi
        rfl
    exact .failed hclosed (by rw [ho, results_concat _ (not_timeout_of_isTransport htransport), hout])

/-- A time-out takes nothing. -/
theorem Streams.outs_congr {Γ : Ctx ε} {fs : List Frame} {closedError : Option Exc} {ended : Bool} {outs outs' : List (NextOutcome ε)}
    {queue : List Item} (h : Streams Γ fs closedError ended outs queue) (heq : results outs' = results outs) :
    Streams Γ fs closedError ended outs' queue := by
  cases h with
  | flowing taken hu hq ho => exact .flowing taken hu hq (heq.trans ho)
  | failed hc ho => exact .failed hc (heq.trans ho)
  | ended taken err n ht herr ho => exact .ended taken err n ht herr (heq.trans ho)

/-- A `next` on a stream that has ended. -/
theorem Streams.more {Γ : Ctx ε} {fs : List Frame} {closedError : Option Exc} {outs : List (NextOutcome ε)} {queue : List Item}
    (h : Streams Γ fs closedError true outs queue) : Streams Γ fs closedError true (outs ++ [.none]) queue := by
  cases h with
  | ended taken err n ht herr ho =>
    refine .ended taken err (n + 1) ht herr ?_
    rw [results_concat _ rfl, ho, List.replicate_succ', List.append_assoc]

/-- A subscription that is closed takes no more frames. -/
theorem Streams.close {Γ : Ctx ε} {fs : List Frame} {closedError : Option Exc} {ended : Bool} {outs : List (NextOutcome ε)}
    {queue : List Item} (h : Streams Γ fs closedError ended outs queue) : Streams Γ fs closedError true outs queue := by
  cases h with
  | flowing taken hu hq ho => exact .ended taken [] 0 (prefix_of_arrived hq) (.inl rfl) (by simpa using ho)
  | failed hc ho => exact .ended fs _ 0 (List.prefix_refl fs) (.inr ⟨_, hc, rfl⟩) (by simpa using ho)
  | ended taken err n ht herr ho => exact .ended taken err n ht herr ho

/-- A subscription that is closed while a task is in `next`. -/
theorem Streams.closing {Γ : Ctx ε} {fs : List Frame} {closedError : Option Exc} {outs : List (NextOutcome ε)} {queue : List Item}
    (h : Streams Γ fs closedError false outs queue) : Closing Γ fs closedError outs queue := by
  cases h with
  | flowing taken hu hq ho =>
    obtain ⟨rest, rfl⟩ := prefix_of_arrived hq
    refine .flowing taken rest closedError hu (List.prefix_refl _) (fun _ h => h) ?_ ho
    rw [arrived, List.map_append, List.append_assoc] at hq
    exact List.append_cancel_left hq
  | failed hc ho => exact .failed fs (List.prefix_refl fs) hc ho

/-- That `next` takes nothing. -/
theorem Closing.close {Γ : Ctx ε} {fs : List Frame} {closedError : Option Exc} {outs : List (NextOutcome ε)} {queue : List Item}
    (h : Closing Γ fs closedError outs queue) : Streams Γ fs closedError true outs queue := by
  cases h with
  | flowing taken rest err hu hp herr hq ho =>
    exact .ended taken [] 0 ((List.prefix_append _ _).trans hp) (.inl rfl) (by simpa using ho)
  | failed taken ht hc ho => exact .ended taken _ 0 ht (.inr ⟨_, hc, rfl⟩) (by simpa using ho)

/-- That `next` takes the front of the queue, and is the last to do so. -/
theorem Closing.take {Γ : Ctx ε} {fs : List Frame} {closedError : Option Exc} {outs : List (NextOutcome ε)} {i : Item}
    {queue : List Item} (h : Closing Γ fs closedError outs (i :: queue)) (hstored : ∀ e, closedError = some e → e.isTransport = true) :
    Streams Γ fs closedError true (outs ++ [(nextItem Γ i).2]) queue := by
  cases h with
  | flowing taken rest err hu hp herr hq ho =>
    cases rest with
    | cons f rest =>
      obtain ⟨rfl, -⟩ : i = .frame f ∧ queue = arrived rest err := List.cons.inj hq
      have hassoc : taken ++ f :: rest = taken ++ [f] ++ rest := by simp
      rw [hassoc] at hp
      refine .ended (taken ++ [f]) [] 0 ((List.prefix_append _ _).trans hp) (.inl rfl) ?_
      rw [results_concat _ (nextItem_not_timeout Γ f), ho, outcomesOf_append Γ hu, outcomesOf_singleton]
      simp
    | nil =>
      rw [List.append_nil] at hp
      cases err with
      | none => cases hq
      | some e =>
        obtain ⟨rfl, -⟩ : i = .closed e ∧ queue = [] := List.cons.inj hq
        have hclosed := herr e rfl
        rcases nextItem_closed Γ e with hi | hi
        · refine .ended taken [] 1 hp (.inl rfl) ?_
          rw [hi, results_concat _ rfl, ho]
          simp
        · refine .ended taken [.raised e] 0 hp (.inr ⟨e, hclosed, rfl⟩) ?_
          rw [hi, results_concat _ (not_timeout_of_isTransport (hstored e hclosed)), ho]
          simp

theorem streams_of_inNext {Γ : Ctx ε} {fs : List Frame} {closedError : Option Exc} {ended : Bool} {outs : List (NextOutcome ε)}
    {queue : List Item} (h : if ended then Closing Γ fs closedError outs queue else Streams Γ fs closedError false outs queue) :
    Streams Γ fs closedError ended outs queue := by
  cases ended with
  | true => exact Closing.close h
  | false => exact h

/-- A call that moves goes on as its stream has it. -/
theorem Moves.follows {Γ : Ctx ε} {fs : List Frame} {closedError : Option Exc} {call : Call ε} {t : Turn ε} (h : Moves Γ call t)
    (hstored : ∀ e, closedError = some e → e.isTransport = true) (hF : call.Follows Γ fs closedError) :
    t.call.Follows Γ fs closedError := by
  cases h with
  | writeFailed hpc he => exact .inl he
  | written hpc =>
    simp only [Call.Follows, hpc] at hF
    exact hF
  | drainFailed hpc => exact .inl rfl
  | drained hpc =>
    simp only [Call.Follows, hpc] at hF
    obtain ⟨hended, hframes, houts, hq⟩ := hF
    by_cases hv : call.args.verb = .subscribe
    · simp only [Turn.call, Call.Follows, hv, if_true, hended]
      exact .flowing [] unfinished_nil hq (by rw [houts]; rfl)
    · simp only [Turn.call, Call.Follows, hv, if_false, hframes]
      exact ⟨hended, unfinished_nil, hq⟩
  | cancelled hpc => trivial
  | nextCancelled hpc =>
    simp only [Call.Follows, hpc] at hF
    exact streams_of_inNext hF
  | failed hpc hq =>
    simp only [Call.Follows, hpc] at hF
    obtain ⟨-, -, harr⟩ := hF
    rw [hq] at harr
    exact .inl (isLocal_of_isTransport (hstored _ (arrived_closed harr).2.1))
  | refused hpc hq ho =>
    simp only [Call.Follows, hpc] at hF
    obtain ⟨-, hun, harr⟩ := hF
    rw [hq] at harr
    exact .inr ⟨call.frames, _, hun, ho, rfl, prefix_of_arrived (arrived_frame harr)⟩
  | last hpc hq ho he =>
    simp only [Call.Follows, hpc] at hF
    obtain ⟨-, hun, harr⟩ := hF
    rw [hq] at harr
    exact ⟨⟨call.frames, _, rfl, hun, ho, he⟩, prefix_of_arrived (arrived_frame harr)⟩
  | more hpc hq ho he =>
    simp only [Call.Follows, hpc] at hF
    obtain ⟨hended, hun, harr⟩ := hF
    rw [hq] at harr
    simp only [Turn.call, Call.Follows, hpc]
    exact ⟨hended, hun.snoc ho he, arrived_frame harr⟩
  | ends hpc hq hi =>
    simp only [Call.Follows, hpc, hq] at hF
    split_ifs at hF
    · have hlast := hF.take hstored
      rw [hi] at hlast
      exact hlast
    · exact hF.ends hi
  | event hpc hq hi =>
    simp only [Call.Follows, hpc, hq] at hF
    simp only [Turn.call, Call.Follows]
    split_ifs at hF with hended
    · have hlast := hF.take hstored
      rw [hi] at hlast
      rw [hended]
      exact hlast
    · rw [Bool.eq_false_iff.2 hended]
      exact hF.goes hi hstored
  | timeout hpc => exact .inl rfl
  | @nextTimeout d hpc =>
    simp only [Call.Follows, hpc] at hF
    simp only [Turn.call, Call.Follows]
    exact (streams_of_inNext hF).outs_congr (results_timeout call.outs d)
  | nextEnded hpc he =>
    simp only [Call.Follows, hpc] at hF
    simp only [Turn.call, Call.Follows, hpc, he] at hF ⊢
    exact hF.more
  | next hpc he =>
    simp only [Call.Follows, hpc, he] at hF
    simp only [Turn.call, Call.Follows, he, Bool.false_eq_true, if_false]
    exact hF
  | close hpc =>
    rcases hpc with hpc | hpc
    · simp only [Call.Follows, hpc] at hF
      simp only [Turn.call, Call.Follows, hpc]
      exact hF.close
    · simp only [Call.Follows, hpc] at hF
      simp only [Turn.call, Call.Follows, hpc, if_true]
      split_ifs at hF
      · exact hF
      · exact hF.closing

/-! ### Every run -/

/-- Frames more change nothing for a call that is not live. -/
theorem Call.Follows.mono {Γ : Ctx ε} {fs fs' : List Frame} {closedError closedError' : Option Exc} {call : Call ε}
    (h : call.Follows Γ fs closedError) (hlive : call.live = false) (hfs : fs <+: fs')
    (hclosed : ∀ e, closedError = some e → closedError' = some e) : call.Follows Γ fs' closedError' := by
  have hstreams : ∀ {ended : Bool} {outs : List (NextOutcome ε)} {queue : List Item}, ended = true →
      Streams Γ fs closedError ended outs queue → Streams Γ fs' closedError' ended outs queue := by
    intro ended outs queue he hs
    cases hs with
    | flowing | failed => cases he
    | ended taken err n ht herr ho =>
      refine .ended taken err n (ht.trans hfs) ?_ ho
      rcases herr with rfl | ⟨e, he, rfl⟩
      · exact .inl rfl
      · exact .inr ⟨e, hclosed e he, rfl⟩
  unfold Call.Follows at h ⊢
  unfold Call.live at hlive
  cases hpc : call.pc with
  | locking | draining | collecting =>
    rw [hpc] at h hlive
    simp [h.1] at hlive
  | inNext =>
    rw [hpc] at h hlive
    have hended : call.ended = true := by simpa using hlive
    simp only [hended, if_true] at h ⊢
    generalize call.queue = queue at h ⊢
    cases h with
    | flowing taken rest err hu hp herr hq ho =>
      exact .flowing taken rest err hu (hp.trans hfs) (fun e he => hclosed e (herr e he)) hq ho
    | failed taken ht hc ho => exact .failed taken (ht.trans hfs) (hclosed _ hc) ho
  | opened =>
    rw [hpc] at h hlive
    exact hstreams (by simpa using hlive) h
  | done o =>
    rw [hpc] at h
    cases o with
    | returned resp => exact ⟨h.1, h.2.trans hfs⟩
    | raised e =>
      rcases h with h | ⟨pre, f, hu, ho, he, hp⟩
      · exact .inl h
      · exact .inr ⟨pre, f, hu, ho, he, hp.trans hfs⟩
  | cancelled => trivial

/-- A live call with an item more on its queue. -/
theorem Call.Follows.push {Γ : Ctx ε} {fs fs' : List Frame} {closedError closedError' : Option Exc} {call : Call ε} {i : Item}
    (h : call.Follows Γ fs closedError) (hlive : call.live = true) (hclosed : closedError = none)
    (harr : arrived fs' closedError' = arrived fs closedError ++ [i]) : (call.push i).Follows Γ fs' closedError' := by
  have hstreams : ∀ {outs : List (NextOutcome ε)} {queue : List Item}, Streams Γ fs closedError false outs queue →
      Streams Γ fs' closedError' false outs (queue ++ [i]) := by
    intro outs queue hs
    cases hs with
    | flowing taken hu hq ho => exact .flowing taken hu (by rw [harr, ← hq, List.append_assoc]) ho
    | failed hc =>
      rw [hclosed] at hc
      cases hc
  unfold Call.Follows at h
  unfold Call.live at hlive
  unfold Call.Follows Call.push
  cases hpc : call.pc with
  | locking | draining =>
    rw [hpc] at h
    exact ⟨h.1, h.2.1, h.2.2.1, by rw [harr, h.2.2.2]⟩
  | collecting =>
    rw [hpc] at h
    exact ⟨h.1, h.2.1, by rw [harr, ← h.2.2, List.append_assoc]⟩
  | opened =>
    rw [hpc] at h hlive
    have hended : call.ended = false := by simpa using hlive
    simp only [hended] at h ⊢
    exact hstreams h
  | inNext =>
    rw [hpc] at h hlive
    have hended : call.ended = false := by simpa using hlive
    simp only [hended, Bool.false_eq_true, if_false] at h ⊢
    exact hstreams h
  | done | cancelled =>
    rw [hpc] at hlive
    cases hlive

/-- A frame is read while the connection has not failed. -/
theorem Effect.open_of_reads {Γ : Ctx ε} {s s' : State ε} {a : Action} {f : Frame} (h : Effect Γ s a s') (hs : Inv s)
    (hreads : a.reads = some f) : s.closedError = none ∧ s'.closedError = none := by
  have hopen : s.reader = .reading → s.closedError = none := fun hr => hs.reading.2 (by rw [hr]; rfl)
  cases h with
  | begin => cases hreads
  | turn _ _ _ _ hnone | fail _ _ _ hnone | other _ _ _ _ _ hnone =>
    rw [hreads] at hnone
    cases hnone
  | deliver hr | drop hr => exact ⟨hopen hr, hopen hr⟩

/-- An error that is stored stays. -/
theorem Effect.closed_kept {Γ : Ctx ε} {s s' : State ε} {a : Action} {e : Exc} (h : Effect Γ s a s') (he : s.closedError = some e) :
    s'.closedError = some e := by
  cases h with
  | begin hb => exact hb.fields.1.trans he
  | @turn _ _ _ t => cases t <;> exact he
  | deliver | drop | other => exact he
  | fail => simp [State.failAll, he]

theorem arrived_frame_snoc (fs : List Frame) (f : Frame) : arrived (fs ++ [f]) none = arrived fs none ++ [.frame f] := by
  simp [arrived]

theorem arrived_closed_snoc (fs : List Frame) (e : Exc) : arrived fs (some e) = arrived fs none ++ [.closed e] := by
  simp [arrived]

theorem inbound_snoc (tr : List Action) (a : Action) : inbound (tr ++ [a]) = inbound tr ++ a.reads.toList :=
  filterMap_snoc Action.reads tr a

/-- Each step keeps an op call with its stream. -/
theorem Change.follows {Γ : Ctx ε} {s s' : State ε} {a : Action} {c : Nat} {call call' : Call ε} {fs : List Frame}
    (h : Change Γ s s' a c call call') (he : Effect Γ s a s') (hs : Inv s) (hn : s.taken ≤ 2 ^ 31) (hc : s.calls[c]? = some call)
    (hop : call.args.verb.isOp = true) (hF : call.Follows Γ fs s.closedError) :
    call'.Follows Γ (fs ++ onStream call.streamId a.reads.toList) s'.closedError := by
  cases h with
  | turn hm hreads hclosed =>
    rw [hreads, hclosed]
    simpa [onStream] using hm.follows hs.stored hF
  | @put f hreads hl hclosed =>
    obtain ⟨hopen, hopen'⟩ := he.open_of_reads hs hreads
    obtain ⟨x, hx, hlive, hid⟩ := hs.routed _ _ hl
    obtain rfl := Option.some.inj (hx.symm.trans hc)
    have hstream : onStream x.streamId [f] = [f] := by simp [onStream, hid]
    rw [hreads, hopen', Option.toList_some, hstream]
    rw [hopen] at hF
    exact hF.push hlive rfl (arrived_frame_snoc fs f)
  | @fail e hmem hreads hclosed =>
    obtain ⟨k, hk⟩ := Routes.mem_tasks.1 hmem
    obtain ⟨x, hx, hlive, -⟩ := hs.routed _ _ hk
    obtain rfl := Option.some.inj (hx.symm.trans hc)
    have hopen : s.closedError = none := by
      by_contra hsome
      rw [hs.cleared hsome] at hk
      cases hk
    rw [hreads, hclosed, hopen, Option.none_or]
    rw [hopen] at hF
    have hnil : fs ++ onStream x.streamId (none : Option Frame).toList = fs := by simp [onStream]
    rw [hnil]
    exact hF.push hlive rfl (arrived_closed_snoc fs e)
  | same hreads hclosed =>
    cases hlive : call.live with
    | false => exact hF.mono hlive (List.prefix_append _ _) (fun e => he.closed_kept)
    | true =>
      have hstream : onStream call.streamId a.reads.toList = [] := by
        cases hf : a.reads with
        | none => rfl
        | some f =>
          have hown := hs.owned hn (he.open_of_reads hs hf).1 c call hc hop hlive
          have hne : f.streamId ≠ call.streamId := fun heq => hreads f hf (heq ▸ hown)
          simp [onStream, hne]
      have hsame : s'.closedError = s.closedError := by
        rcases hclosed with h | hmem
        · exact h
        · cases hopen : s.closedError with
          | none =>
            have hown := hs.owned hn hopen c call hc hop hlive
            exact absurd (Routes.mem_tasks.2 ⟨_, hown⟩) hmem
          | some e => exact he.closed_kept hopen
      rw [hstream, List.append_nil, hsame]
      exact hF

/-- In every run, what an op call has made of the frames of its stream since it began. -/
theorem follows_runs {Γ : Ctx ε} {m : Nat} {pre post : List Action} {args : Args} {s₀ s : State ε} (hpre : (mux Γ m).Runs pre s₀)
    (hr : (mux Γ m).Runs (pre ++ .begin args :: post) s) (hn : s.taken ≤ 2 ^ 31) (hop : args.verb.isOp = true) :
    ∃ call, s.calls[s₀.calls.length]? = some call ∧ call.args = args ∧
      call.Follows Γ (onStream call.streamId (inbound post)) s.closedError := by
  induction post using List.reverseRecOn generalizing s with
  | nil =>
    obtain ⟨s₁, hs₁, hst⟩ := (Machine.runs_snoc pre _ s).1 hr
    obtain rfl := hpre.unique hs₁
    obtain rfl := Option.some.inj hst
    have hb := begin_begun s₀ args
    have hstored := (inv_runs hpre).stored
    have hclosed := hb.fields.1
    rw [hclosed]
    generalize s₀.begin args = s' at hb
    cases hb with
    | @refused e he =>
      exact ⟨_, List.getElem?_concat_length, rfl, .inl (isLocal_of_isTransport (hstored e he))⟩
    | oversize he hlocal => exact ⟨_, List.getElem?_concat_length, rfl, .inl hlocal⟩
    | started he => exact ⟨_, List.getElem?_concat_length, rfl, rfl, rfl, rfl, by rw [he]; rfl⟩
  | append_singleton post a ih =>
    have hassoc : pre ++ .begin args :: (post ++ [a]) = pre ++ .begin args :: post ++ [a] := by simp
    rw [hassoc] at hr
    obtain ⟨s₁, hs₁, hst⟩ := (Machine.runs_snoc _ a s).1 hr
    have he := step_effect hst
    have hs := inv_runs hs₁
    have hle := he.taken_le
    obtain ⟨call, hc, hargs, hF⟩ := ih hs₁ (by omega)
    obtain ⟨call', hc', hch⟩ := he.call_after hs hc
    refine ⟨call', hc', hch.keeps.1.trans hargs, ?_⟩
    have hF' := hch.follows he hs (by omega) hc (by rw [hargs]; exact hop) hF
    rw [hch.keeps.2, inbound_snoc, onStream_append]
    exact hF'

/-! ### What a run gives its calls -/

/-- In a run of the asyncio connection that takes at most `2 ^ 31` stream ids, with any call cancelled anywhere: a request that returns
returns the complete response at the front of the frames of its stream since it began; one that raises a server error raises it for the
first ERROR frame behind an unfinished response; and one that waits has collected and has on its queue exactly the frames of its stream, and
behind them the error of a connection that has failed. -/
theorem async_responses_demultiplexed (Γ : Ctx ε) (m : Nat) {pre post : List Action} {args : Args} {s₀ s : State ε}
    (hpre : (mux Γ m).Runs pre s₀) (hr : (mux Γ m).Runs (pre ++ .begin args :: post) s) (hn : s.taken ≤ 2 ^ 31)
    (hop : args.verb.isOp = true) :
    ∃ call, s.calls[s₀.calls.length]? = some call ∧ call.args = args ∧
      (∀ resp, call.pc = .done (.returned resp) → IsResponse resp ∧ resp <+: onStream call.streamId (inbound post)) ∧
      (∀ r, call.pc = .done (.raised (.serverError r)) → ∃ unfinished f, Unfinished unfinished ∧ f.opcode = opError ∧
        Γ.decodeErrorResponse f.payload = .ok r ∧ unfinished ++ [f] <+: onStream call.streamId (inbound post)) ∧
      (call.pc = .collecting → Unfinished call.frames ∧
        call.frames.map Item.frame ++ call.queue = arrived (onStream call.streamId (inbound post)) s.closedError) := by
  obtain ⟨call, hc, hargs, hF⟩ := follows_runs hpre hr hn hop
  refine ⟨call, hc, hargs, ?_, ?_, ?_⟩
  · intro resp hpc
    rw [Call.Follows, hpc] at hF
    exact hF
  · intro r hpc
    rw [Call.Follows, hpc] at hF
    rcases hF with hlocal | ⟨unfinished, f, hu, ho, heq, hp⟩
    · cases hlocal
    · refine ⟨unfinished, f, hu, ho, ?_, hp⟩
      unfold errorOf at heq
      split at heq
      · rename_i hdec
        cases heq
        exact hdec
      · cases heq
  · intro hpc
    rw [Call.Follows, hpc] at hF
    exact hF.2

/-- The answer to a request on stream 1. -/
def asyncAnswer : Frame := ⟨opPong, flagEos, 1, []⟩

/-- A request, a heartbeat, and the answer. -/
def asyncRequest : List Action :=
  [.write 0, .drained 0 none, .readFrame ⟨opServerPing, flagEos, 0, []⟩, .pong 0, .ponged, .readFrame asyncAnswer, .dequeue 0]

theorem asyncRequest_demultiplexed :
    IsResponse [asyncAnswer] ∧ [asyncAnswer] <+: onStream 1 (inbound asyncRequest) := by
  have hrun : ∃ (s : State Unit) (call : Call Unit),
      (mux Ctx.refusing maxPayloadBytes).Runs ([] ++ .begin ⟨.request, opPing, [], none⟩ :: asyncRequest) s ∧ s.taken ≤ 2 ^ 31 ∧
      s.calls[0]? = some call ∧ call.streamId = 1 ∧ call.pc = .done (.returned [asyncAnswer]) :=
    ⟨_, _, rfl, by decide, rfl, rfl, rfl⟩
  obtain ⟨s, call, hr, hn, hc, hid, hpc⟩ := hrun
  have hpre : (mux Ctx.refusing maxPayloadBytes).Runs [] (State.init maxPayloadBytes) := rfl
  obtain ⟨call', hc', -, hreturned, -⟩ := async_responses_demultiplexed Ctx.refusing maxPayloadBytes hpre hr hn rfl
  obtain rfl := Option.some.inj (hc.symm.trans hc')
  rw [hid] at hreturned
  exact hreturned [asyncAnswer] hpc

/-- In such a run a `next` that times out or is cancelled loses no event: while a subscription has not ended and the connection has not
failed, its other outcomes are those of the frames of its stream that were taken, one each and in order, and the frames after these are on
its queue. In the end they are the outcomes of the first frames, the error of the transport if it was passed on, and `None`. -/
theorem async_next_lossless (Γ : Ctx ε) (m : Nat) {pre post : List Action} {args : Args} {s₀ s : State ε}
    (hpre : (mux Γ m).Runs pre s₀) (hr : (mux Γ m).Runs (pre ++ .begin args :: post) s) (hn : s.taken ≤ 2 ^ 31)
    (hop : args.verb.isOp = true) :
    ∃ call, s.calls[s₀.calls.length]? = some call ∧ call.args = args ∧ (call.pc = .opened ∨ call.pc = .inNext →
      (call.ended = false → s.closedError = none → ∃ taken rest, onStream call.streamId (inbound post) = taken ++ rest ∧
        Unfinished taken ∧ call.queue = rest.map Item.frame ∧ results call.outs = taken.map (fun f => eventOf Γ f.payload)) ∧
      ∃ taken err n, taken <+: onStream call.streamId (inbound post) ∧ (err = [] ∨ ∃ e, s.closedError = some e ∧ err = [.raised e]) ∧
        (call.ended = false → n = 0) ∧ results call.outs = outcomesOf Γ taken ++ err ++ List.replicate n .none) := by
  obtain ⟨call, hc, hargs, hF⟩ := follows_runs hpre hr hn hop
  refine ⟨call, hc, hargs, ?_⟩
  intro hpc
  have hstreams : Streams Γ (onStream call.streamId (inbound post)) s.closedError call.ended call.outs call.queue := by
    rcases hpc with hpc | hpc
    · rw [Call.Follows, hpc] at hF
      exact hF
    · rw [Call.Follows, hpc] at hF
      exact streams_of_inNext hF
  generalize call.ended = ended at hstreams
  generalize call.outs = outs at hstreams
  generalize call.queue = queue at hstreams
  constructor
  · intro he hopen
    cases hstreams with
    | flowing taken hu hq ho =>
      obtain ⟨rest, hrest⟩ := prefix_of_arrived hq
      refine ⟨taken, rest, hrest.symm, hu, ?_, ho.trans (outcomesOf_unfinished Γ hu)⟩
      rw [hopen, ← hrest, arrived, List.map_append, List.append_assoc] at hq
      simpa using List.append_cancel_left hq
    | failed hclosed =>
      rw [hopen] at hclosed
      cases hclosed
    | ended => cases he
  · cases hstreams with
    | flowing taken hu hq ho => exact ⟨taken, [], 0, prefix_of_arrived hq, .inl rfl, fun _ => rfl, by simpa using ho⟩
    | failed hclosed ho => exact ⟨_, _, 0, List.prefix_refl _, .inr ⟨_, hclosed, rfl⟩, fun _ => rfl, by simpa using ho⟩
    | ended taken err n ht herr ho => exact ⟨taken, err, n, ht, herr, fun he => absurd he (by simp), ho⟩

/-- An event on stream 1. -/
def asyncEvent : Frame := ⟨0x0085, 0, 1, []⟩

/-- A subscription whose first `next` is cancelled and whose second times out, with the event on its queue. -/
def asyncSubscription : List Action :=
  [.write 0, .drained 0 none, .next 0, .cancel 0, .next 0, .readFrame asyncEvent, .timeout 0]

/-- The event is still there. -/
theorem asyncSubscription_lossless : ∃ s : State Unit, ∃ call : Call Unit,
    (mux Ctx.refusing maxPayloadBytes).Runs ([] ++ .begin ⟨.subscribe, opPing, [], none⟩ :: asyncSubscription) s ∧
    s.calls[0]? = some call ∧ call.pc = .opened ∧ ∃ taken rest, onStream 1 (inbound asyncSubscription) = taken ++ rest ∧
      Unfinished taken ∧ call.queue = rest.map Item.frame ∧
      results call.outs = taken.map (fun f => eventOf Ctx.refusing f.payload) := by
  have hrun : ∃ (s : State Unit) (call : Call Unit),
      (mux Ctx.refusing maxPayloadBytes).Runs ([] ++ .begin ⟨.subscribe, opPing, [], none⟩ :: asyncSubscription) s ∧ s.taken ≤ 2 ^ 31 ∧
      s.calls[0]? = some call ∧ call.streamId = 1 ∧ call.pc = .opened ∧ call.ended = false ∧ s.closedError = none :=
    ⟨_, _, rfl, by decide, rfl, rfl, rfl, rfl, rfl⟩
  obtain ⟨s, call, hr, hn, hc, hid, hpc, he, hopen⟩ := hrun
  have hpre : (mux Ctx.refusing maxPayloadBytes).Runs [] (State.init maxPayloadBytes) := rfl
  obtain ⟨call', hc', -, hlossless⟩ := async_next_lossless Ctx.refusing maxPayloadBytes hpre hr hn rfl
  obtain rfl := Option.some.inj (hc.symm.trans hc')
  rw [hid] at hlossless
  exact ⟨s, call, hr, hc, hpc, (hlossless (.inl hpc)).1 he hopen⟩

/-! ### A connection that has failed -/

/-- What a request makes of the frames of its stream on a connection that fails behind them, with the frames it has collected. -/
def verdict (Γ : Ctx ε) (e : Exc) : List Frame → List Frame → Outcome :=
  Wire.verdict (fun payload => .raised (errorOf Γ payload)) .returned (.raised e)

/-- A request with an item on its queue can take it. -/
theorem dequeue_step (Γ : Ctx ε) (m : Nat) {c : Nat} {s : State ε} {call : Call ε} {i : Item} {q : List Item}
    (hc : s.calls[c]? = some call) (hpc : call.pc = .collecting) (hq : call.queue = i :: q) :
    (mux Γ m).step s (.dequeue c) = some (s.take c ({ call with queue := q }.collect Γ i)) := by
  simp [mux, step, State.onCall, hc, Call.afterDequeue, hpc, hq]

/-- Steps of a request alone lead it to an outcome. -/
def Settles (Γ : Ctx ε) (m c : Nat) (s : State ε) (turns : Nat) (o : Outcome) : Prop :=
  (mux Γ m).Settles (.dequeue c) turns s (fun s' => ∃ call', s'.calls[c]? = some call' ∧ call'.pc = .done o)

theorem settles_of_collect {Γ : Ctx ε} (m : Nat) {c : Nat} {s : State ε} {call : Call ε} {i : Item} {q : List Item} {o : Outcome}
    (hc : s.calls[c]? = some call) (hpc : call.pc = .collecting) (hq : call.queue = i :: q)
    (ho : ({ call with queue := q }.collect Γ i).call.pc = .done o) : Settles Γ m c s call.queue.length o := by
  have hdone : (s.take c ({ call with queue := q }.collect Γ i)).calls[c]? = some ({ call with queue := q }.collect Γ i).call := by
    rw [take_calls]
    exact getElem?_set_self_of_some hc _
  exact Machine.Settles.mono (Machine.settles_of_step (dequeue_step Γ m hc hpc hq) ⟨_, hdone, ho⟩) (by rw [hq]; simp)

/-- A request that waits when the connection has failed takes what is on its queue, and is done. -/
theorem settles_of_closed (Γ : Ctx ε) (m : Nat) {e : Exc} {c : Nat} {s : State ε} {call : Call ε} {rest : List Frame}
    (hc : s.calls[c]? = some call) (hpc : call.pc = .collecting) (hq : call.queue = rest.map Item.frame ++ [.closed e]) :
    Settles Γ m c s call.queue.length (verdict Γ e call.frames rest) := by
  -- by induction on the frames that are still on the queue
  induction rest generalizing s call with
  | nil => exact settles_of_collect m hc hpc hq rfl
  | cons f rest ih =>
    by_cases ho : f.opcode = opError
    · exact settles_of_collect m hc hpc hq (by simp [Call.collect, ho, Turn.call, verdict, Wire.verdict])
    · cases he : f.isEos with
      | true => exact settles_of_collect m hc hpc hq (by simp [Call.collect, ho, he, Turn.call, verdict, Wire.verdict])
      | false =>
        let next : Call ε := { call with queue := rest.map Item.frame ++ [.closed e], frames := call.frames ++ [f] }
        have hcollect : { call with queue := rest.map Item.frame ++ [Item.closed e] }.collect Γ (.frame f) = .stay next := by
          simp [Call.collect, ho, he, next]
        have hst := dequeue_step Γ m hc hpc hq
        have hst : (mux Γ m).step s (.dequeue c) = some (s.take c (.stay next)) := hcollect ▸ hst
        have hc' : (s.take c (.stay next)).calls[c]? = some next := getElem?_set_self_of_some hc _
        have hsettles := ih hc' hpc rfl
        rw [hq, List.map_cons, List.cons_append, List.length_cons, verdict, Wire.verdict, if_neg ho,
          if_neg (by rw [he]; exact Bool.false_ne_true)]
        exact Machine.Settles.succ hst hsettles

/-- What waits on a connection that has failed is on its queue. -/
theorem queue_of_closed {frames fs : List Frame} {queue : List Item} {e : Exc}
    (h : frames.map Item.frame ++ queue = arrived fs (some e)) :
    ∃ rest, fs = frames ++ rest ∧ queue = rest.map Item.frame ++ [.closed e] := by
  obtain ⟨rest, rfl⟩ := prefix_of_arrived h
  refine ⟨rest, rfl, ?_⟩
  rw [arrived, List.map_append, List.append_assoc] at h
  exact List.append_cancel_left h

/-- A request whose answer is on its queue when a task closes the connection. -/
def asyncClosed : List Action := [.write 0, .drained 0 none, .readFrame asyncAnswer, .aclose]

end BrainSdk.Python.AsyncMux
