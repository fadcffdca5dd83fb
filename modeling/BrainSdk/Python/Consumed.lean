import BrainSdk.Python.History

/-!
# What a request of the Python mux has taken off its queue

The frames a request has collected are the items it took, and how it ends says which item was the last: an EOS frame when it
returns, an ERROR frame or the sentinel when it raises what they carry, and none of them when it raises an error of its own (a
failed write, a timeout).
-/

namespace BrainSdk.Python

open Library Wire

variable {ε : Type}

/-- An error of the transport: what the reader failed with, or a close. -/
def Exc.isTransport : Exc → Bool
  | .connectionClosed _ | .osError _ => true
  | _ => false

theorem isLocal_of_isTransport {e : Exc} (h : e.isTransport = true) : e.isLocal = true := by
  cases e <;> first | rfl | cases h

theorem ReadFailure.error_isTransport (e : ReadFailure) : e.error.isTransport = true := by
  cases e <;> rfl

/-- The stored error and every sentinel carry an error of the transport. -/
structure Sentinels (s : State ε) : Prop where
  stored : ∀ e, s.closedError = some e → e.isTransport = true
  queued : ∀ (c : Nat) (call : Call ε) (e : Exc), s.calls[c]? = some call → .closed e ∈ call.queue → e.isTransport = true

theorem Sentinels.step {Γ : Ctx ε} {s s' : State ε} {a : Action} (hS : Sentinels s) (hs : Inv s)
    (hst : step Γ s a = some s') : Sentinels s' := by
  have h := step_effect hst
  constructor
  · intro e he
    by_cases ha : a = .failAll
    · subst ha
      cases h with
      | @failAll r hr =>
        have hlive : s.closedError = none := hs.live (by rw [hr]; exact nofun)
        simp only [hlive, Option.none_or, Option.some.injEq] at he
        rw [← he]
        exact r.error_isTransport
      | move _ _ hm => cases hm
    · rw [h.closedError_kept ha] at he
      exact hS.stored e he
  · intro c call' e hc' he
    rcases h.call_before hs hc' with ⟨call, hc, hch⟩ | ⟨args, -, -, rfl⟩
    · by_cases ha : a = .failAll
      · subst ha
        cases hch with
        | same _ _ _ => exact hS.queued c _ e hc he
        | fail hr hd =>
          rcases List.mem_append.1 he with he | he
          · exact hS.queued c call e hc he
          · cases List.mem_singleton.1 he
            exact ReadFailure.error_isTransport _
        | move hm => cases hm
      · have hmem : .closed e ∈ call.queue ++ ((a.delivers c).map Item.frame).toList := by
          rw [hch.queue ha]
          exact List.mem_append_right _ he
        rcases List.mem_append.1 hmem with hmem | hmem
        · exact hS.queued c call e hc hmem
        · cases hd : a.delivers c <;> simp [hd] at hmem
    · cases he

theorem sentinels_runs {Γ : Ctx ε} {m : Nat} {tr : List Action} {s : State ε} (hr : (mux Γ m).Runs tr s) : Sentinels s := by
  refine Machine.Runs.rec_on (P := fun _ s => Sentinels s) ?_ ?_ hr
  · constructor
    · intro e he
      cases he
    · intro c call e hc
      simp [mux, State.init] at hc
  · intro tr s a s' hrun ih hst
    exact ih.step (inv_runs hrun) hst

/-! ### How a request ends -/

/-- How the items a request took make its outcome. -/
def Ends (Γ : Ctx ε) (items : List Item) : Outcome → Prop
  | .returned fs => items = fs.map .frame ∧ IsResponse fs
  | .raised e => ∃ pre, Unfinished pre ∧
      ((items = pre.map .frame ∧ e.isLocal = true) ∨
       (∃ f, items = pre.map .frame ++ [.frame f] ∧ f.opcode = opError ∧ e = errorOf Γ f.payload) ∨
       (items = pre.map .frame ++ [.closed e] ∧ e.isTransport = true))

/-- What the place of a request says of the items it took. -/
def Call.Consumed (Γ : Ctx ε) (call : Call ε) (items : List Item) : Prop :=
  match call.pc with
  | .starting | .registering | .writing => items = []
  | .collecting => items = call.frames.map .frame ∧ Unfinished call.frames
  | .leaving o | .done o => Ends Γ items o
  | _ => True

/-- A request that takes an item goes on or ends as `Ends` says. -/
theorem Call.Consumed.collect {Γ : Ctx ε} {call : Call ε} {items rest : List Item} {i : Item} (h : call.Consumed Γ items)
    (hpc : call.pc = .collecting) (hi : ∀ e, i = .closed e → e.isTransport = true) :
    ({ call with queue := rest }.collect Γ i).Consumed Γ (items ++ [i]) := by
  simp only [Call.Consumed, hpc] at h
  obtain ⟨rfl, hun⟩ := h
  cases i with
  | closed e => exact ⟨call.frames, hun, .inr (.inr ⟨rfl, hi e rfl⟩)⟩
  | frame f =>
    simp only [Call.collect]
    by_cases ho : f.opcode = opError
    · rw [if_pos ho]
      exact ⟨call.frames, hun, .inr (.inl ⟨f, rfl, ho, rfl⟩)⟩
    · rw [if_neg ho]
      cases he : f.isEos with
      | true => exact ⟨by simp, call.frames, f, rfl, hun, ho, he⟩
      | false =>
        simp only [Bool.false_eq_true, if_false, Call.Consumed, hpc]
        exact ⟨by simp, hun.snoc ho he⟩

theorem Move.consumed {Γ : Ctx ε} {c : Nat} {call call' : Call ε} {a : Action} {items : List Item}
    (h : Move Γ c call a call') (hp : call.Placed) (hq : ∀ e, .closed e ∈ call.queue → e.isTransport = true)
    (hC : call.Consumed Γ items) : call'.Consumed Γ (items ++ (a.dequeues c).toList) := by
  cases h with
  | writeFailed hpc he =>
    simp only [Call.Consumed, hpc] at hC
    subst hC
    exact ⟨[], unfinished_nil, .inl ⟨rfl, he⟩⟩
  | written hpc =>
    simp only [Call.Consumed, hpc] at hC
    simp only [Call.Placed, hpc] at hp
    subst hC
    by_cases hv : call.args.verb = .subscribe
    · simp [Call.Consumed, hv]
    · simp [Call.Consumed, hv, hp, Action.dequeues, unfinished_nil]
  | @collect i rest hpc hqueue =>
    have hi : ∀ e, i = .closed e → e.isTransport = true := by
      rintro e rfl
      exact hq e (by rw [hqueue]; exact List.mem_cons_self)
    simpa [Action.dequeues] using hC.collect hpc hi
  | @advance i rest hpc hqueue =>
    rcases advance_pc Γ { call with queue := rest } i with ⟨-, hp'⟩ | ⟨-, hp'⟩ <;> rw [hp'] <;> exact trivial
  | requestTimeout hpc _ =>
    simp only [Call.Consumed, hpc] at hC
    refine ⟨call.frames, hC.2, .inl ⟨?_, rfl⟩⟩
    simpa [Action.dequeues] using hC.1
  | nextTimeout _ _ => exact trivial
  | nextEnded hpc _ => simp only [Call.Consumed, hpc]
  | next _ _ => exact trivial
  | close _ => exact trivial

theorem Change.consumed {Γ : Ctx ε} {s : State ε} {d : Nat} {a : Action} {call call' : Call ε} {items : List Item}
    (hs : Inv s) (hS : Sentinels s) (hc : s.calls[d]? = some call) (h : Change Γ s d a call call')
    (hC : call.Consumed Γ items) : call'.Consumed Γ (items ++ (a.dequeues d).toList) := by
  cases h with
  | same hcaller _ _ =>
    have hnone : a.dequeues d = none := by
      cases a <;> simp_all [Action.dequeues, Action.caller]
    simpa [hnone] using hC
  | take hpc => simpa [Call.Consumed, hpc, Action.dequeues] using hC
  | refuse hpc he =>
    simp only [Call.Consumed, hpc] at hC
    subst hC
    exact ⟨[], unfinished_nil, .inl ⟨rfl, isLocal_of_isTransport (hS.stored _ he)⟩⟩
  | register hpc _ => simpa [Call.Consumed, hpc, Action.dequeues] using hC
  | move hm => exact hm.consumed (hs.ok d call hc).placed (fun e => hS.queued d call e hc) hC
  | leave hl =>
    cases hl with
    | leaving hpc => simpa [Call.Consumed, hpc, Action.dequeues] using hC
    | ending _ | closing _ => exact trivial
  | put _ | fail _ _ => simpa [Call.Consumed, Call.push, Action.dequeues] using hC

/-- In every run, the items each call took are what its place says. -/
theorem consumed_runs {Γ : Ctx ε} {m : Nat} {tr : List Action} {s : State ε} (hr : (mux Γ m).Runs tr s)
    (hn : s.taken < 2 ^ 31) {c : Nat} {call : Call ε} (hc : s.calls[c]? = some call) : call.Consumed Γ (dequeued c tr) := by
  refine Machine.Runs.rec_on (P := fun tr s => s.taken < 2 ^ 31 → ∀ c call, s.calls[c]? = some call →
    call.Consumed Γ (dequeued c tr)) ?_ ?_ hr hn c call hc
  · intro _ c call hc
    simp [mux, State.init] at hc
  · intro tr s a s' hrun ih hst hn' c call' hc'
    have hs := inv_runs hrun
    have h := step_effect hst
    have hle := h.taken_le
    have hA := accounted_runs hrun (by omega)
    rw [dequeued, filterMap_snoc]
    rcases h.call_before hs hc' with ⟨call, hc, hch⟩ | ⟨args, rfl, hc, rfl⟩
    · exact hch.consumed hs (sentinels_runs hrun) hc (ih (by omega) c call hc)
    · have hun := hA.untouched c (by
        intro x hx
        rw [hc] at hx
        cases hx)
      have hnil : tr.filterMap (Action.dequeues c) = [] := hun.2.2
      rw [hnil]
      cases hv : args.verb.isOp <;> simp [Call.Consumed, Call.begin, hv, Action.dequeues]

/-- Frames at the head of a queue that ends in sentinels are at the head of its frames. -/
theorem frames_prefix {fs ds : List Frame} {q rest : List Item} (h : fs.map Item.frame ++ q = ds.map Item.frame ++ rest)
    (hrest : ∀ f, Item.frame f ∉ rest) : fs <+: ds := by
  induction fs generalizing ds with
  | nil => exact List.nil_prefix
  | cons f fs ih =>
    cases ds with
    | nil =>
      rw [List.map_nil, List.nil_append] at h
      exact absurd (h ▸ List.mem_cons_self) (hrest f)
    | cons d ds =>
      obtain ⟨hfd, htail⟩ : Item.frame f = Item.frame d ∧ fs.map Item.frame ++ q = ds.map Item.frame ++ rest := by
        simpa using h
      cases hfd
      exact List.cons_prefix_cons.2 ⟨rfl, ih htail⟩

theorem frame_notMem_sentinel (c : Nat) (tr : List Action) (e : Option Exc) (f : Frame) : Item.frame f ∉ sentinel c tr e := by
  unfold sentinel
  split
  · cases e <;> simp
  · simp

end BrainSdk.Python
