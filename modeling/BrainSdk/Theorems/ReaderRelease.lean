import BrainSdk.Python.Connect
import BrainSdk.Python.HandshakeInvariant
import BrainSdk.Python.Ownership

/-!
# What `close` leaves of the reader and of its waiters

A close that finds the reader of the Python connection blocked in `recv` leaves it there, with every queue that only it would fill. Any
other close is noticed at the next `recv`: the reader ends by itself and gives every queue in the table the sentinel. A subscription that
has taken the sentinel and is asked for another event waits for nobody.
-/

namespace BrainSdk.Python

open Library Wire

variable {ε : Type}

/-! ### The calls that `_fail_all` has given the sentinel -/

/-- Where a call may stand that has taken the sentinel. -/
def Pc.isPast : Pc ε → Bool
  | .leaving _ | .done _ | .opened | .inNext | .ending _ | .closing => true
  | _ => false

/-- The sentinel is the last item of the queue, or it was, and has been taken. -/
def Call.Given (call : Call ε) : Prop :=
  (∃ items e, call.queue = items ++ [.closed e]) ∨ call.queue = [] ∧ call.pc.isPast = true

theorem Move.given {Γ : Ctx ε} {c : Nat} {call call' : Call ε} {a : Action} (h : Move Γ c call a call') (hg : call.Given) :
    call'.Given := by
  have htake : ∀ {i : Item} {rest : List Item}, call.queue = i :: rest →
      (∃ items e, rest = items ++ [.closed e]) ∨ rest = [] ∧ ∃ e, i = .closed e := by
    intro i rest hq
    rcases hg with ⟨items, e, h⟩ | ⟨h, -⟩
    · rw [hq] at h
      cases items with
      | nil =>
        obtain ⟨rfl, rfl⟩ := List.cons.inj h
        exact .inr ⟨rfl, e, rfl⟩
      | cons j items =>
        obtain ⟨-, rfl⟩ := List.cons.inj h
        exact .inl ⟨items, e, rfl⟩
    · rw [hq] at h
      cases h
  have hwaits : call.pc.isPast = false → call.queue ≠ [] := by
    intro hp hq
    rcases hg with ⟨items, e, h⟩ | ⟨-, h⟩
    · rw [hq] at h
      exact absurd h.symm (List.append_ne_nil_of_right_ne_nil _ (List.cons_ne_nil _ _))
    · rw [hp] at h
      cases h
  cases h with
  | writeFailed hpc he => exact hg.imp id fun ⟨hq, _⟩ => ⟨hq, rfl⟩
  | written hpc => exact hg.imp id fun ⟨hq, _⟩ => absurd hq (hwaits (by rw [hpc]; rfl))
  | @collect i rest hpc hq =>
    rcases htake hq with ⟨items, e, rfl⟩ | ⟨rfl, e, rfl⟩
    · exact .inl ⟨items, e, (collect_fields Γ _ i).2.2.2.2.1⟩
    · exact .inr ⟨rfl, rfl⟩
  | @advance i rest hpc hq =>
    rcases htake hq with ⟨items, e, rfl⟩ | ⟨rfl, e, rfl⟩
    · exact .inl ⟨items, e, (advance_fields Γ _ i).2.2.2.2⟩
    · refine .inr ⟨(advance_fields Γ _ _).2.2.2.2, ?_⟩
      rcases advance_pc Γ { call with queue := [] } (.closed e) with ⟨-, h⟩ | ⟨-, h⟩ <;> (rw [h]; rfl)
  | requestTimeout hpc hq => exact absurd hq (hwaits (by rw [hpc]; rfl))
  | nextTimeout hpc hq => exact .inr ⟨hq, rfl⟩
  | nextEnded hpc he => exact hg
  | next hpc he => exact hg.imp id fun ⟨hq, _⟩ => ⟨hq, rfl⟩
  | close hpc => exact hg.imp id fun ⟨hq, _⟩ => ⟨hq, rfl⟩

/-- Once the reader has stopped, a call keeps what it was given until it takes it. -/
theorem Change.given {Γ : Ctx ε} {s : State ε} {d : Nat} {a : Action} {call call' : Call ε} (h : Change Γ s d a call call')
    (hr : s.reader = .stopped) (hg : call.Given) : call'.Given := by
  cases h with
  | same _ _ _ => exact hg
  | take hpc =>
    refine hg.imp id fun ⟨_, hp⟩ => ?_
    rw [hpc] at hp
    cases hp
  | refuse hpc _ => exact hg.imp id fun ⟨hq, _⟩ => ⟨hq, rfl⟩
  | register hpc _ =>
    refine hg.imp id fun ⟨_, hp⟩ => ?_
    rw [hpc] at hp
    cases hp
  | move hm => exact hm.given hg
  | leave hl =>
    cases hl with
    | leaving hpc | ending hpc | closing hpc => exact hg.imp id fun ⟨hq, _⟩ => ⟨hq, rfl⟩
  | put hput =>
    rw [hr] at hput
    cases hput
  | fail hfail _ =>
    rw [hr] at hfail
    cases hfail

/-- Only a new wait of a subscription leaves a call waiting that has taken the sentinel. -/
theorem Change.waits {Γ : Ctx ε} {s : State ε} {d : Nat} {a : Action} {call call' : Call ε} (h : Change Γ s d a call call')
    (hpc : call'.pc = .inNext) (hq : call'.queue = []) :
    call.pc = .inNext ∧ call.queue = [] ∨ a = .next d ∧ call.ended = false ∧ call.queue = [] := by
  cases h with
  | same _ _ _ => exact .inl ⟨hpc, hq⟩
  | take _ | refuse _ _ | register _ _ => cases hpc
  | move hm =>
    cases hm with
    | writeFailed _ _ | requestTimeout _ _ | nextTimeout _ _ | close _ => cases hpc
    | written h =>
      dsimp only at hpc
      split at hpc <;> cases hpc
    | @collect i rest h _ =>
      rcases collect_pc Γ { call with queue := rest } i h with h | ⟨o, h⟩ <;> (rw [h] at hpc; cases hpc)
    | @advance i rest h _ =>
      rcases advance_pc Γ { call with queue := rest } i with ⟨-, h⟩ | ⟨-, h⟩ <;> (rw [h] at hpc; cases hpc)
    | nextEnded h _ =>
      rw [show call.pc = .inNext from hpc] at h
      cases h
    | next _ he => exact .inr ⟨rfl, he, hq⟩
  | leave hl => cases hl <;> cases hpc
  | put _ => exact absurd hq (List.append_ne_nil_of_right_ne_nil _ (List.cons_ne_nil _ _))
  | fail _ _ => exact absurd hq (List.append_ne_nil_of_right_ne_nil _ (List.cons_ne_nil _ _))

/-! ### The connection with its socket -/

theorem threads_reads (Γ : Ctx ε) (m : Nat) : Socket.Reads (threads Γ m) where
  read s f hr := ⟨{ s with reader := .afterRead f }, if_pos hr, rfl, rfl⟩
  error s e hr := ⟨{ s with reader := .failing e }, if_pos hr, rfl, rfl⟩
  route s f hr := by
    have hr : s.reader = .routing f := hr
    cases hl : s.routes.lookup f.streamId with
    | none =>
      have hst : step Γ s (.lookup f) = some { s with reader := .reading } := by
        simp only [step, hr, if_true, hl]
      exact ⟨.lookup f, _, ⟨hst, rfl, rfl, rfl, rfl, rfl⟩, .inl rfl⟩
    | some c =>
      have hst : step Γ s (.lookup f) = some { s with reader := .putting f c } := by
        simp only [step, hr, if_true, hl]
      exact ⟨.lookup f, _, ⟨hst, rfl, rfl, rfl, rfl, rfl⟩, .inr ⟨c, rfl⟩⟩
  put s f c hr := by
    have hput : ∃ t, step Γ s (.put f c) = some t ∧ t.routes = s.routes ∧ t.reader = .reading := by
      simp only [step, show s.reader = .putting f c from hr, if_true]
      exact ⟨_, rfl, rfl, rfl⟩
    obtain ⟨t, hst, hroutes, hr⟩ := hput
    exact ⟨.put f c, t, ⟨hst, rfl, rfl, rfl, rfl, hroutes⟩, hr⟩
  pong s f hr := by
    -- the socket is closed, so the write of the answer fails
    have hpong : ∃ t, step Γ s (.pong 0 (some "[Errno 9] Bad file descriptor")) = some t ∧ t.routes = s.routes ∧
        t.reader = .reading := by
      simp only [step, show s.reader = .ponging f from hr]
      exact ⟨_, rfl, rfl, rfl⟩
    obtain ⟨t, hst, hroutes, hr⟩ := hpong
    exact ⟨.pong 0 (some "[Errno 9] Bad file descriptor"), t, ⟨hst, rfl, rfl, rfl, rfl, hroutes⟩, hr⟩
  fail s e hr := by
    have hr : s.reader = .failing e := hr
    have hfail : ∃ t, step Γ s .failAll = some t ∧ t.reader = .stopped := by
      simp only [step, hr]
      exact ⟨_, rfl, rfl⟩
    obtain ⟨t, hst, hstop⟩ := hfail
    exact ⟨.failAll, t, rfl, rfl, rfl, rfl, hst, hstop⟩

/-- What always holds of the connection with its socket. -/
structure SocketInv (s : Socket.State (State ε)) : Prop where
  inner : Inv s.inner
  stopped : ∀ c ∈ s.given, s.inner.reader = .stopped
  given : ∀ c ∈ s.given, ∃ call, s.inner.calls[c]? = some call ∧ call.Given

/-- What a step of the mux keeps of it. -/
theorem SocketInv.inner_step {Γ : Ctx ε} {s : Socket.State (State ε)} (h : SocketInv s) {a : Action} {t : State ε}
    (hs : step Γ s.inner a = some t) : ∀ c ∈ s.given, t.reader = .stopped ∧ ∃ call, t.calls[c]? = some call ∧ call.Given := by
  intro c hc
  have heff := step_effect hs
  have hstop := h.stopped c hc
  obtain ⟨call, hcall, hg⟩ := h.given c hc
  obtain ⟨call', hcall', hch⟩ := heff.call_after h.inner hcall
  refine ⟨?_, call', hcall', hch.given hstop hg⟩
  have herr : t.closedError ≠ none := by
    intro hn
    exact (h.inner.stopped.2 hstop) (heff.closedError_none hn).1
  exact (h.inner.step hs).stopped.1 herr

/-- The calls in the table at `_fail_all` are given the sentinel. -/
theorem failAll_given {Γ : Ctx ε} {s t : State ε} (hinv : Inv s) (hs : step Γ s .failAll = some t) :
    t.reader = .stopped ∧ ∀ c ∈ s.routes.tasks, ∃ call, t.calls[c]? = some call ∧ call.queue ≠ [] ∧ call.Given := by
  have heff := step_effect hs
  cases heff with
  | move _ _ hm => cases hm
  | @failAll e hr =>
    refine ⟨rfl, fun c hc => ?_⟩
    obtain ⟨k, hk⟩ := Routes.mem_tasks.1 hc
    obtain ⟨call, hcall, -, -⟩ := hinv.routed k c hk
    refine ⟨call.push (.closed e.error), ?_, List.append_ne_nil_of_right_ne_nil _ (List.cons_ne_nil _ _), .inl ⟨_, _, rfl⟩⟩
    show (updateAll (Call.push (.closed e.error)) s.routes.tasks s.calls)[c]? = _
    rw [getElem?_updateAll _ hinv.tasks_nodup, hcall]
    simp [hc]

theorem socketInv_init (Γ : Ctx ε) (m : Nat) : SocketInv (Socket.machine (threads Γ m)).init where
  inner := inv_init m
  stopped := nofun
  given := nofun

theorem SocketInv.step {Γ : Ctx ε} {m : Nat} {s s' : Socket.State (State ε)} {a : Socket.Action Action} (h : SocketInv s)
    (hs : Socket.step (threads Γ m) s a = some s') : SocketInv s' := by
  have hkept : ∀ {a : Action} {t : State ε}, Python.step Γ s.inner a = some t → ∀ {buf receiving closed},
      SocketInv { inner := t, buf := buf, receiving := receiving, closed := closed, given := s.given } := by
    intro a t hst buf receiving closed
    have hkeep := h.inner_step hst
    exact ⟨h.inner.step hst, fun c hc => (hkeep c hc).1, fun c hc => (hkeep c hc).2⟩
  cases Socket.step_effect hs with
  | @inner a t hreads hwrites hst =>
    have hst : Python.step Γ s.inner a = some t := hst
    by_cases hf : (threads Γ m).fails a = true
    · have ha : a = .failAll := by
        cases a with
        | failAll => rfl
        | _ => cases hf
      subst ha
      obtain ⟨hstop, hgiven⟩ := failAll_given h.inner hst
      refine ⟨h.inner.step hst, fun c _ => hstop, fun c hc => ?_⟩
      obtain ⟨call, hcall, -, hg⟩ := hgiven c hc
      exact ⟨call, hcall, hg⟩
    · rw [if_neg hf]
      exact hkept hst
  | @frame f _ t hr hb hst => exact @hkept (.readFrame f) t hst _ _ _
  | block hr hc => exact ⟨h.inner, h.stopped, h.given⟩
  | @raise _ e t ha hst => exact @hkept (.readError e) t hst _ _ _
  | recv => exact ⟨h.inner, h.stopped, h.given⟩
  | close hm => exact ⟨h.inner, h.stopped, h.given⟩

theorem socketInv_runs {Γ : Ctx ε} {m : Nat} {tr : List (Socket.Action Action)} {s : Socket.State (State ε)}
    (hr : (Socket.machine (threads Γ m)).Runs tr s) : SocketInv s :=
  Machine.Runs.invariant (M := Socket.machine (threads Γ m)) (P := SocketInv) (socketInv_init Γ m)
    (fun _ _ _ hi hs => hi.step hs) hr

/-! ### What a close leaves -/

/-- A call waits that was given the sentinel and has taken it. -/
def Stuck (s : Socket.State (State ε)) : Prop :=
  ∃ c ∈ s.given, ∃ call, s.inner.calls[c]? = some call ∧ (call.pc = .collecting ∨ call.pc = .inNext) ∧ call.queue = []

/-- The socket is not closed over a blocked reader or over a stuck call, and no subscription that has taken the sentinel is asked for
another event after the close. -/
def Releases (s : Socket.State (State ε)) : Socket.Action Action → Prop
  | .close => s.receiving = false ∧ ¬Stuck s
  | .step (.next c) =>
    s.closed = true → c ∈ s.given → ∀ call, s.inner.calls[c]? = some call → call.queue = [] → call.ended = true
  | _ => True

/-- After the close the reader is not blocked in `recv` and no call is stuck; and the reader ends by itself, with no call stuck whose
queue is in the table. -/
def Released (Γ : Ctx ε) (m : Nat) (s : Socket.State (State ε)) : Prop :=
  s.closed = true → s.receiving = false ∧ ¬Stuck s ∧
    ∃ own t, (∀ a ∈ own, a.isReader (threads Γ m) = true) ∧ (Socket.machine (threads Γ m)).exec s own = some t ∧
      t.inner.reader = .stopped ∧ (∀ c ∈ s.inner.routes.tasks, c ∈ t.given) ∧ ¬Stuck t

/-- Steps of the mux that are not asked for by `next` stick no call. -/
theorem not_stuck_step {Γ : Ctx ε} {s : Socket.State (State ε)} (hi : SocketInv s) {a : Action} {t : State ε}
    (hs : step Γ s.inner a = some t) (hnext : ∀ c ∈ s.given, a = .next c → ∀ call, s.inner.calls[c]? = some call → call.queue = [] →
      call.ended = true) (hst : ¬Stuck s) :
    ∀ c ∈ s.given, ∀ call, t.calls[c]? = some call → call.pc = .collecting ∨ call.pc = .inNext → call.queue ≠ [] := by
  intro c hc call' hcall' hpc hq
  obtain ⟨call, hcall, hg⟩ := hi.given c hc
  obtain ⟨call'', hcall'', hch⟩ := (step_effect hs).call_after hi.inner hcall
  rw [hcall'] at hcall''
  cases hcall''
  have hg' := hch.given (hi.stopped c hc) hg
  have hin : call'.pc = .inNext := by
    refine hpc.resolve_left fun hcol => ?_
    rcases hg' with ⟨items, e, h⟩ | ⟨-, h⟩
    · rw [hq] at h
      exact absurd h.symm (List.append_ne_nil_of_right_ne_nil _ (List.cons_ne_nil _ _))
    · rw [hcol] at h
      cases h
  rcases hch.waits hin hq with ⟨hpc, hq⟩ | ⟨rfl, hended, hq⟩
  · exact hst ⟨c, hc, call, hcall, .inr hpc, hq⟩
  · rw [hnext c hc rfl call hcall hq] at hended
    cases hended

/-- A step that the condition allows sticks no call once the socket is closed. -/
theorem not_stuck {Γ : Ctx ε} {m : Nat} {s s' : Socket.State (State ε)} {a : Socket.Action Action} (hi : SocketInv s)
    (hs : Socket.step (threads Γ m) s a = some s') (hc : Releases s a) (hst : s.closed = true → ¬Stuck s) (hcl : s'.closed = true) :
    ¬Stuck s' := by
  have hkept : ∀ {a : Action} {t : State ε}, step Γ s.inner a = some t → s.closed = true → (∀ c, a ≠ .next c) →
      ∀ {buf receiving closed}, ¬Stuck { inner := t, buf := buf, receiving := receiving, closed := closed, given := s.given } := by
    rintro a t hst' hcl hne buf receiving closed ⟨c, hmem, call, hcall, hpc, hq⟩
    exact not_stuck_step hi hst' (fun c _ ha => absurd ha (hne c)) (hst hcl) c hmem call hcall hpc hq
  cases Socket.step_effect hs with
  | @inner a t hreads hwrites hst' =>
    have hst' : step Γ s.inner a = some t := hst'
    by_cases hf : (threads Γ m).fails a = true
    · have ha : a = .failAll := by
        cases a with
        | failAll => rfl
        | _ => cases hf
      subst ha
      rintro ⟨c, hmem, call, hcall, -, hq⟩
      obtain ⟨call', hcall', hne, -⟩ := (failAll_given hi.inner hst').2 c hmem
      have heq : call = call' := Option.some.inj (hcall.symm.trans hcall')
      exact hne (heq ▸ hq)
    · rw [if_neg hf]
      rintro ⟨c, hmem, call, hcall, hpc, hq⟩
      refine not_stuck_step hi hst' (fun d hd ha => ?_) (hst hcl) c hmem call hcall hpc hq
      subst ha
      exact hc hcl hd
  | @frame f _ t hr hb hst' => exact @hkept (.readFrame f) t hst' hcl nofun _ _ _
  | block hr hc => exact hst hcl
  | @raise _ e t ha hst' => exact @hkept (.readError e) t hst' hcl nofun _ _ _
  | recv => exact hst hcl
  | close hm => exact hc.2

theorem isReader_releases {Γ : Ctx ε} {m : Nat} {a : Socket.Action Action} (ha : a.isReader (threads Γ m) = true)
    (s : Socket.State (State ε)) : Releases s a := by
  cases a with
  | step a =>
    cases a with
    | next c => cases ha
    | _ => trivial
  | close => cases ha
  | _ => trivial

/-- What a run that meets the condition keeps. -/
theorem released_runs {Γ : Ctx ε} {m : Nat} {tr : List (Socket.Action Action)} {s : Socket.State (State ε)}
    (hr : (Socket.machine (threads Γ m)).Runs tr s) (hm : (Socket.machine (threads Γ m)).Meets Releases tr) :
    s.closed = true → s.receiving = false ∧ ¬Stuck s := by
  refine Machine.Runs.rec_on_meets (M := Socket.machine (threads Γ m)) (C := Releases)
    (P := fun _ s => s.closed = true → s.receiving = false ∧ ¬Stuck s) nofun ?_ hr hm
  intro tr s a s' hrun ih hc hs hcl
  have hs : Socket.step (threads Γ m) s a = some s' := hs
  refine ⟨?_, not_stuck (socketInv_runs hrun) hs hc (fun h => (ih h).2) hcl⟩
  by_cases ha : a = .close
  · subst ha
    cases Socket.step_effect hs with
    | raise ha _ => exact absurd rfl ha.1
    | close _ => exact hc.1
  · exact (Socket.step_effect hs).receiving ha (fun h => (ih h).1) hcl

/-- After every close that the condition allows, the reader and its waiters are released. -/
theorem released_of_meets {Γ : Ctx ε} {m : Nat} {tr : List (Socket.Action Action)} {s : Socket.State (State ε)}
    (hr : (Socket.machine (threads Γ m)).Runs tr s) (hm : (Socket.machine (threads Γ m)).Meets Releases tr) : Released Γ m s := by
  intro hcl
  obtain ⟨hblocked, hstuck⟩ := released_runs hr hm hcl
  have hinv := socketInv_runs hr
  have hempty : (threads Γ m).reader s.inner = .stopped → ((threads Γ m).routes s.inner).tasks = [] := by
    intro hstop
    have hroutes : s.inner.routes = ∅ := hinv.inner.cleared (hinv.inner.stopped.2 hstop)
    show s.inner.routes.tasks = []
    rw [hroutes]
    rfl
  obtain ⟨own, t, hown, hexec, hstop, hgiven⟩ := (threads_reads Γ m).ends hcl hblocked hempty
  refine ⟨hblocked, hstuck, own, t, hown, hexec, hstop, hgiven, ?_⟩
  have hclosed : t.closed = true :=
    Machine.exec_invariant (M := Socket.machine (threads Γ m)) (P := fun s => s.closed = true)
      (fun _ _ _ hc hs => (Socket.step_effect hs).closed hc) hcl hexec
  exact (released_runs (hr.append hexec) (hm.append_of_mem fun a ha s => isReader_releases (hown a ha) s) hclosed).2

/-- The first step that the condition does not allow leaves the reader or a call behind. -/
theorem not_released {Γ : Ctx ε} {m : Nat} {s s' : Socket.State (State ε)} {a : Socket.Action Action}
    (hs : Socket.step (threads Γ m) s a = some s') (hc : ¬Releases s a) : ¬Released Γ m s' := by
  intro hrel
  cases a with
  | close =>
    cases Socket.step_effect hs with
    | raise ha _ => exact absurd rfl ha.1
    | close hm => exact hc ⟨(hrel rfl).1, (hrel rfl).2.1⟩
  | step a =>
    cases a with
    | next c =>
      simp only [Releases, not_forall] at hc
      obtain ⟨hcl, hmem, call, hcall, hq, hended⟩ := hc
      cases Socket.step_effect hs with
      | raise ha _ => exact absurd rfl (ha.2 _)
      | inner _ _ hst =>
        have hst : step Γ s.inner (.next c) = some _ := hst
        cases step_effect hst with
        | move sent hcall' hm =>
          cases hm with
          | nextEnded _ he =>
            rw [hcall] at hcall'
            cases hcall'
            exact hended he
          | next hpc _ =>
            rw [hcall] at hcall'
            cases hcall'
            refine (hrel hcl).2.1 ⟨c, hmem, { call with pc := .inNext }, ?_, .inr rfl, hq⟩
            exact (getElem?_set_of_some hcall _ c).trans (if_pos rfl)
    | _ => exact hc trivial
  | _ => exact hc trivial

/-! ### A connect that fails -/

namespace Connect

variable {ω α : Type}

theorem threads_reads (Γ : Handshake.Ctx ω α) : Socket.Reads (threads Γ) where
  read s f hr := by
    have hr : s.reader = .reading := hr
    refine ⟨{ s with inbox := [], reader := .afterRead f }, ?_, rfl, rfl⟩
    show handshakeStep Γ s (.readFrame f) = _
    simp only [handshakeStep, Handshake.step, hr, if_true]
  error s e hr := ⟨{ s with reader := .failing e }, if_pos hr, rfl, rfl⟩
  route s f hr := by
    have hr : s.reader = .routing f := hr
    cases hl : s.routes.lookup f.streamId with
    | none =>
      have hst : Handshake.step Γ s (.lookup f) = some { s with reader := .reading } := by
        simp only [Handshake.step, hr, if_true, hl]
      exact ⟨.lookup f, _, ⟨hst, rfl, rfl, rfl, rfl, rfl⟩, .inl rfl⟩
    | some c =>
      have hst : Handshake.step Γ s (.lookup f) = some { s with reader := .putting f c } := by
        simp only [Handshake.step, hr, if_true, hl]
      exact ⟨.lookup f, _, ⟨hst, rfl, rfl, rfl, rfl, rfl⟩, .inr ⟨c, rfl⟩⟩
  put s f c hr := by
    have hput : ∃ t, Handshake.step Γ s (.put f c) = some t ∧ t.routes = s.routes ∧ t.reader = .reading := by
      simp only [Handshake.step, show s.reader = .putting f c from hr, if_true]
      exact ⟨_, rfl, rfl, rfl⟩
    obtain ⟨t, hst, hroutes, hr⟩ := hput
    exact ⟨.put f c, t, ⟨hst, rfl, rfl, rfl, rfl, hroutes⟩, hr⟩
  pong s f hr := by
    -- the socket is closed, so the write of the answer fails
    have hpong : ∃ t, Handshake.step Γ s (.pong 0 (some "[Errno 9] Bad file descriptor")) = some t ∧ t.routes = s.routes ∧
        t.reader = .reading := by
      simp only [Handshake.step, show s.reader = .ponging f from hr]
      exact ⟨_, rfl, rfl, rfl⟩
    obtain ⟨t, hst, hroutes, hr⟩ := hpong
    exact ⟨.pong 0 (some "[Errno 9] Bad file descriptor"), t, ⟨hst, rfl, rfl, rfl, rfl, hroutes⟩, hr⟩
  fail s e hr := by
    have hr : s.reader = .failing e := hr
    have hfail : ∃ t, Handshake.step Γ s .failAll = some t ∧ t.reader = .stopped := by
      simp only [Handshake.step, hr]
      exact ⟨_, rfl, rfl⟩
    obtain ⟨t, hst, hstop⟩ := hfail
    exact ⟨.failAll, t, rfl, rfl, rfl, rfl, hst, hstop⟩

/-- The table of a reader that has stopped is empty, and stays so. -/
def Cleared (s : Handshake.State ω α) : Prop := s.reader = .stopped → s.routes = ∅ ∧ s.closedError ≠ none

theorem cleared_step {Γ : Handshake.Ctx ω α} {s s' : Handshake.State ω α} {a : Handshake.Action} (h : Cleared s)
    (hs : handshakeStep Γ s a = some s') : Cleared s' := by
  have hclear : ∀ {u : Handshake.State ω α}, Cleared u → Handshake.step Γ u a = some s' → Cleared s' := by
    intro u hu hst
    cases Handshake.step_effect hst with
    | register hpc he => exact fun hr => absurd he (hu hr).2
    | deregister hpc =>
      refine fun hr => ⟨?_, (hu hr).2⟩
      show u.routes.erase _ = ∅
      rw [(hu hr).1]
      rfl
    | @read f _ hr hi =>
      intro hr'
      have hr' : Reader.afterRead f = .stopped := hr'
      unfold Reader.afterRead at hr'
      split at hr' <;> cases hr'
    | readError hr | pong hr hp | found hr hl | unknown hr hl | put hr => exact nofun
    | @failAll e hr =>
      refine fun _ => ⟨rfl, ?_⟩
      show u.closedError.or (some e.error) ≠ none
      cases u.closedError <;> exact nofun
    | _ => exact hu
  cases a with
  | readFrame f => exact hclear (u := { s with inbox := [f] }) h hs
  | _ => exact hclear h hs

/-- What always holds of a connect and its connection. -/
structure Inv (s : State ω α) : Prop where
  cleared : Cleared s.conn.inner
  closed : s.conn.closed = true ↔ ∃ o, s.pc = .raised o

theorem cleared_conn {Γ : Handshake.Ctx ω α} {s s' : Socket.State (Handshake.State ω α)} {a : Socket.Action Handshake.Action}
    (h : Cleared s.inner) (he : Socket.Effect (threads Γ) s a s') : Cleared s'.inner ∧ s'.closed = s.closed := by
  have hkept : ∀ {a t}, (threads Γ).machine.step s.inner a = some t → Cleared t := fun hs => cleared_step (Γ := Γ) h hs
  cases he with
  | inner _ _ hs => exact ⟨hkept hs, rfl⟩
  | frame _ _ hs => exact ⟨hkept hs, rfl⟩
  | raise _ hs => exact ⟨hkept hs, rfl⟩
  | close hm => cases hm
  | _ => exact ⟨h, rfl⟩

theorem inv_runs {Γ : Handshake.Ctx ω α} {tr : List Action} {s : State ω α} (hr : (machine Γ).Runs tr s) : Inv s := by
  refine Machine.Runs.invariant (M := machine Γ) (P := Inv) ⟨nofun, ⟨nofun, fun ⟨o, h⟩ => nomatch h⟩⟩ ?_ hr
  intro s a s' hi hs
  cases a with
  | conn a =>
    obtain ⟨t, ht, rfl⟩ := Option.map_eq_some_iff.1 hs
    obtain ⟨hcleared, hclosed⟩ := cleared_conn hi.cleared (Socket.step_effect ht)
    exact ⟨hcleared, hclosed ▸ hi.closed⟩
  | leave =>
    have hs : step Γ s .leave = some s' := hs
    simp only [step] at hs
    split at hs
    · rename_i hpc _
      cases hs
      refine ⟨hi.cleared, hi.closed.trans ⟨fun ⟨o, h⟩ => ?_, fun ⟨o, h⟩ => nomatch h⟩⟩
      rw [hpc] at h
      cases h
    · rename_i hpc _
      cases hs
      refine ⟨hi.cleared, hi.closed.trans ⟨fun ⟨o, h⟩ => ?_, fun ⟨o, h⟩ => nomatch h⟩⟩
      rw [hpc] at h
      cases h
    · cases hs
  | close =>
    have hs : step Γ s .close = some s' := hs
    simp only [step] at hs
    split at hs
    · rename_i o hpc
      cases hs
      exact ⟨hi.cleared, iff_of_true rfl ⟨o, rfl⟩⟩
    · cases hs

/-- The socket is not closed over a reader that is blocked in `recv`. -/
def Releases (s : State ω α) (a : Action) : Prop := a = .close → s.conn.receiving = false

/-- Once `connect` has raised, the reader is not blocked in `recv`, and ends by itself. -/
def Released (Γ : Handshake.Ctx ω α) (s : State ω α) : Prop :=
  (∃ o, s.pc = .raised o) → s.conn.receiving = false ∧ Socket.Ends (threads Γ) s.conn

theorem released_of_meets {Γ : Handshake.Ctx ω α} {tr : List Action} {s : State ω α} (hr : (machine Γ).Runs tr s)
    (hm : (machine Γ).Meets Releases tr) : Released Γ s := by
  have hblocked : s.conn.closed = true → s.conn.receiving = false := by
    refine Machine.Runs.rec_on_meets (M := machine Γ) (C := Releases)
      (P := fun _ s => s.conn.closed = true → s.conn.receiving = false) nofun ?_ hr hm
    intro tr s a s' hrun ih hc hs
    cases a with
    | conn a =>
      obtain ⟨t, ht, rfl⟩ := Option.map_eq_some_iff.1 hs
      have he := Socket.step_effect ht
      refine he.receiving ?_ ih
      rintro rfl
      cases he with
      | raise ha _ => exact ha.1 rfl
      | close hm => cases hm
    | leave =>
      have hs : step Γ s .leave = some s' := hs
      simp only [step] at hs
      split at hs <;> cases hs <;> exact ih
    | close =>
      have hs : step Γ s .close = some s' := hs
      simp only [step] at hs
      split at hs
      · cases hs
        exact fun _ => hc rfl
      · cases hs
  rintro ⟨o, hpc⟩
  have hinv := inv_runs hr
  have hcl := hinv.closed.2 ⟨o, hpc⟩
  refine ⟨hblocked hcl, (threads_reads Γ).ends hcl (hblocked hcl) fun hstop => ?_⟩
  have hroutes : s.conn.inner.routes = ∅ := (hinv.cleared hstop).1
  show s.conn.inner.routes.tasks = []
  rw [hroutes]
  rfl

theorem not_released {Γ : Handshake.Ctx ω α} {s s' : State ω α} {a : Action} (hs : step Γ s a = some s') (hc : ¬Releases s a) :
    ¬Released Γ s' := by
  intro hrel
  unfold Releases at hc
  rw [Classical.not_imp] at hc
  obtain ⟨rfl, hb⟩ := hc
  simp only [step] at hs
  split at hs
  · rename_i o hpc
    cases hs
    exact hb (hrel ⟨o, rfl⟩).1
  · cases hs

end Connect

/-- A request that waits for its response. -/
def waiting : List (Socket.Action Action) :=
  [.step (.start ⟨.request, opPing, [], none⟩), .step (.takeStreamId 0), .step (.register 0), .step (.write 0 none)]

/-- A context of the concrete connects, with a codec that refuses every payload. -/
def Connect.Γ₀ : Handshake.Ctx Unit Unit where
  toCtx := .refusing
  hello := []
  offered := [1]
  auth := []
  decodeWelcome := fun _ => .error "invalid payload"
  decodeAuthOk := fun _ => .error "invalid payload"
  chosenVersion := fun _ => 1
  maxPayloadSize := fun _ => 0

/-- The handshake raises as its HELLO cannot be written. -/
def Connect.unwritten : List Connect.Action :=
  [.conn (.step .register), .conn (.step (.write (some "[Errno 32] Broken pipe"))), .conn (.step .deregister), .leave]

/-- The peer does not answer the HELLO, and the handshake raises after its deadline. -/
def Connect.unanswered : List Connect.Action :=
  [.conn .decode, .conn (.step .register), .conn (.step (.write none)), .conn (.step .timeout), .conn (.step .deregister), .leave]

end BrainSdk.Python
