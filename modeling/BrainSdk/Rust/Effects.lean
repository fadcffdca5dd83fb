import BrainSdk.Rust.Mux

/-!
# What a step of the Rust mux can do

`step_effect` says once what each step needs and leaves; the invariants and theorems about the mux go by the cases of `Effect`. The
steps that change one task and nothing else are one case, with what they do to the task in `Move`.
-/

namespace BrainSdk.Rust

open Library Wire

variable {ε υ : Type}

/-- What a step that changes nothing but one task does to it. -/
inductive Move (Γ : Ctx ε υ) (s : State ε υ) (c : Nat) (task : Task ε υ) : Action → Task ε υ → Prop
  | refuse {reason : String} (hpc : task.pc = .registering) (hcl : s.closed = some reason) :
      Move Γ s c task (.register c) { task with pc := .done (.failed (.protocol s!"connection closed: {reason}")) }
  | tooLarge {message : String} (hpc : task.pc = .checking) :
      Move Γ s c task (.check c) { task with pc := .leaving (.failed (.protocol message)) }
  | checked (hpc : task.pc = .checking) : Move Γ s c task (.check c) { task with pc := .locking }
  | encodeFailed {e : FrameError} (hpc : task.pc = .locking) :
      Move Γ s c task (.acquire c) { task with pc := .leaving (.failed (.frame e)) }
  | collect {f : Frame} {rest : List Frame} (hpc : task.pc = .receiving) (hq : task.queue = f :: rest) :
      Move Γ s c task (.recv c (some f)) ({ task with queue := rest }.collect Γ f)
  | channelClosed (hpc : task.pc = .receiving) (hq : task.queue = []) (hs : c ∉ s.routes.tasks) :
      Move Γ s c task (.recv c none) { task with pc := .closing }
  | advance {f : Frame} {rest : List Frame} (hpc : task.pc = .inNext) (hq : task.queue = f :: rest) :
      Move Γ s c task (.recv c (some f)) ({ task with queue := rest }.advance Γ f)
  | nextNone (hpc : task.pc = .inNext) (hq : task.queue = []) (hs : c ∉ s.routes.tasks) :
      Move Γ s c task (.recv c none) { task with outs := task.outs ++ [.none], pc := .opened }
  | timeout {d : Nat} (hpc : task.pc = .receiving) (hq : task.queue = []) (hs : c ∈ s.routes.tasks) :
      Move Γ s c task (.timeout c) { task with pc := .leaving (.failed (.timeout d)) }
  | closedError (hpc : task.pc = .closing) :
      Move Γ s c task (.closedError c) { task with pc := .done (.failed (closedErrorOf s.closed)) }
  | nextEnded (hpc : task.pc = .opened) (he : task.ended = true) :
      Move Γ s c task (.next c) { task with outs := task.outs ++ [.none] }
  | next (hpc : task.pc = .opened) (he : task.ended = false) : Move Γ s c task (.next c) { task with pc := .inNext }

/-- What a dropped future leaves of its task: a dropped `next` leaves the `Subscription`. -/
inductive Cancel (task : Task ε υ) : Task ε υ → Prop
  | await (hpc : task.pc = .locking ∨ task.pc = .receiving) : Cancel task { task with pc := .cancelled }
  | write {written rest : Bytes} (hpc : task.pc = .writing written rest) : Cancel task { task with pc := .cancelled }
  | next (hpc : task.pc = .inNext) : Cancel task { task with pc := .opened }

/-- What each action needs of the state, and the state it leaves. -/
inductive Effect (Γ : Ctx ε υ) (s : State ε υ) : Action → State ε υ → Prop
  | start {args : Args} (hcon : s.connected = true) (hv : args.verb.onConnection = true) :
      Effect Γ s (.start args) { s with tasks := s.tasks ++ [Task.begin args] }
  | unsubscribe {target : Nat} {sub : Task ε υ} (args : Args) (hs : s.tasks[target]? = some sub) (hpc : sub.pc = .opened)
      (hv : args.verb = .unsubscribe target) :
      Effect Γ s (.unsubscribe target) { s with tasks := s.tasks ++ [Task.begin args] }
  | alloc {c : Nat} {task : Task ε υ} (hc : s.tasks[c]? = some task) (hpc : task.pc = .starting) :
      Effect Γ s (.allocStreamId c)
        { s.setTask c { task with streamId := s.nextStreamId, ordinal := s.taken, pc := .registering } with
          nextStreamId := nextStreamIdAfter s.nextStreamId, taken := s.taken + 1 }
  | register {c : Nat} {task : Task ε υ} (hc : s.tasks[c]? = some task) (hpc : task.pc = .registering)
      (hcl : s.closed = none) :
      Effect Γ s (.register c)
        { s.setTask c { task with pc := .checking } with routes := s.routes.insert task.streamId.toNat c }
  | move {a : Action} {c : Nat} {task task' : Task ε υ} (hc : s.tasks[c]? = some task) (hm : Move Γ s c task a task') :
      Effect Γ s a (s.setTask c task')
  | acquire {c : Nat} {task : Task ε υ} {bytes : Bytes} (hc : s.tasks[c]? = some task) (hpc : task.pc = .locking)
      (hl : s.lock = none) (he : encode task.args.opcode task.streamId task.args.payload = .ok bytes) :
      Effect Γ s (.acquire c) { s.setTask c { task with pc := .writing [] bytes } with lock := some (.task c) }
  | write {c n : Nat} {task : Task ε υ} {written rest : Bytes} (hc : s.tasks[c]? = some task)
      (hpc : task.pc = .writing written rest) (hb : s.broken = false) (h0 : 0 < n) (hn : n < rest.length) :
      Effect Γ s (.write c n)
        { s.setTask c { task with pc := .writing (written ++ rest.take n) (rest.drop n) } with
          wire := s.wire ++ rest.take n }
  | writeAll {c : Nat} {task : Task ε υ} {written rest : Bytes} (hc : s.tasks[c]? = some task)
      (hpc : task.pc = .writing written rest) (hb : s.broken = false) (h0 : 0 < rest.length) :
      Effect Γ s (.write c rest.length)
        { s.setTask c { task with pc := task.written } with
          wire := s.wire ++ rest, lock := release s.lock (.task c) }
  | writeError {c : Nat} {task : Task ε υ} {message : String} {written rest : Bytes} (hc : s.tasks[c]? = some task)
      (hpc : task.pc = .writing written rest) :
      Effect Γ s (.writeError c message)
        { s.setTask c { task with pc := .leaving (.failed (.io message)) } with
          broken := true, lock := release s.lock (.task c) }
  | deregister {c : Nat} {task : Task ε υ} {o : Outcome υ} (hc : s.tasks[c]? = some task) (hpc : task.pc = .leaving o) :
      Effect Γ s (.deregister c)
        { s.setTask c { task with pc := .done o } with routes := s.routes.erase task.streamId.toNat }
  | cancel {c : Nat} {task task' : Task ε υ} (hc : s.tasks[c]? = some task) (hx : Cancel task task') :
      Effect Γ s (.cancel c) { s.setTask c task' with lock := release s.lock (.task c) }
  | drop {c : Nat} {task : Task ε υ} (hc : s.tasks[c]? = some task) (hpc : task.pc = .opened)
      (hu : ∀ t ∈ s.tasks, t.args.verb = .unsubscribe c → t.pc.inFlight = false) :
      Effect Γ s (.dropSubscription c)
        { s.setTask c { task with pc := .dropped } with routes := s.routes.erase task.streamId.toNat }
  | ping {f : Frame} {now : Nat} (hr : s.reader = .reading) (hf : f.opcode = opServerPing) :
      Effect Γ s (.readFrame f now) { s with reader := .locking (pongPayload Γ f now) }
  | miss {f : Frame} {now : Nat} (hr : s.reader = .reading) (hl : s.routes.lookup f.streamId = none) :
      Effect Γ s (.readFrame f now) s
  | hit {f : Frame} {now c : Nat} (hr : s.reader = .reading) (hl : s.routes.lookup f.streamId = some c) :
      Effect Γ s (.readFrame f now)
        { s with
          tasks := s.tasks.modify c (Task.deliver f)
          routes := if f.isEos then s.routes.erase f.streamId else s.routes }
  | readError {e : ReadFailure} (hr : s.reader = .reading) :
      Effect Γ s (.readError e) { s with closed := some e.display, routes := ∅, reader := .ended .failed }
  | pongFailed {payload : Bytes} (hr : s.reader = .locking payload) :
      Effect Γ s .acquirePong { s with reader := .reading }
  | acquirePong {payload bytes : Bytes} (hr : s.reader = .locking payload) (hl : s.lock = none)
      (he : encode (UInt16.ofNat opClientPong) 0 payload = .ok bytes) :
      Effect Γ s .acquirePong { s with reader := .writing [] bytes, lock := some .reader }
  | writePong {n : Nat} {written rest : Bytes} (hr : s.reader = .writing written rest) (hb : s.broken = false) (h0 : 0 < n)
      (hn : n < rest.length) :
      Effect Γ s (.writePong n)
        { s with wire := s.wire ++ rest.take n, reader := .writing (written ++ rest.take n) (rest.drop n) }
  | writePongAll {written rest : Bytes} (hr : s.reader = .writing written rest) (hb : s.broken = false) (h0 : 0 < rest.length) :
      Effect Γ s (.writePong rest.length)
        { s with wire := s.wire ++ rest, reader := .reading, lock := release s.lock .reader }
  | writePongError {written rest : Bytes} (hr : s.reader = .writing written rest) :
      Effect Γ s .writePongError { s with reader := .reading, broken := true, lock := release s.lock .reader }
  | dropConnection (hcon : s.connected = true) (hu : ∀ t ∈ s.tasks, t.args.verb.onConnection = true → t.pc.inFlight = false) :
      Effect Γ s .dropConnection { s with connected := false, aborting := true }
  | abort (ha : s.aborting = true) (hr : ∀ how, s.reader ≠ .ended how) :
      Effect Γ s .abort { s with reader := .ended .aborted, lock := release s.lock .reader }

/-- A step of one task is its local part on a task that exists. -/
theorem onTask_eq_some {s s' : State ε υ} {c : Nat} {f : Task ε υ → Option (Task ε υ)}
    {g : Task ε υ → State ε υ → State ε υ} (h : s.onTask c f g = some s') :
    ∃ task task', s.tasks[c]? = some task ∧ f task = some task' ∧ s' = g task (s.setTask c task') := by
  obtain ⟨task, hc, hmap⟩ := Option.bind_eq_some_iff.1 h
  obtain ⟨task', hf, rfl⟩ := Option.map_eq_some_iff.1 hmap
  exact ⟨task, task', hc, hf, rfl⟩

theorem register_effect {Γ : Ctx ε υ} {s s' : State ε υ} {c : Nat} (h : step Γ s (.register c) = some s') :
    Effect Γ s (.register c) s' := by
  rw [step] at h
  obtain ⟨task, task', hc, hf, rfl⟩ := onTask_eq_some h
  unfold Task.afterRegister at hf
  split at hf
  · rename_i reason hpc hcl
    cases hf
    simp only [hcl]
    exact .move hc (.refuse hpc hcl)
  · rename_i hpc hcl
    cases hf
    simp only [hcl]
    exact .register hc hpc hcl
  · cases hf

theorem acquire_effect {Γ : Ctx ε υ} {s s' : State ε υ} {c : Nat} (h : step Γ s (.acquire c) = some s') :
    Effect Γ s (.acquire c) s' := by
  rw [step] at h
  split at h
  · rename_i hl
    obtain ⟨task, task', hc, hf, rfl⟩ := onTask_eq_some h
    unfold Task.afterAcquire at hf
    split at hf
    · rename_i hpc
      cases he : encode task.args.opcode task.streamId task.args.payload with
      | error e =>
        simp only [he] at hf ⊢
        cases hf
        exact .move hc (.encodeFailed hpc)
      | ok bytes =>
        simp only [he] at hf ⊢
        cases hf
        exact .acquire hc hpc hl he
    · cases hf
  · cases h

theorem write_effect {Γ : Ctx ε υ} {s s' : State ε υ} {c n : Nat} (h : step Γ s (.write c n) = some s') :
    Effect Γ s (.write c n) s' := by
  rw [step] at h
  split at h
  · cases h
  · rename_i hb
    obtain ⟨task, task', hc, hf, rfl⟩ := onTask_eq_some h
    unfold Task.afterWrite at hf
    split at hf
    · rename_i written rest hpc
      split at hf
      · rename_i hn
        cases hf
        simp only [hpc, Pc.rest]
        by_cases hall : rest.length = n
        · subst hall
          simp only [if_pos, List.take_length]
          exact .writeAll hc hpc (by simpa using hb) hn.1
        · simp only [if_neg hall]
          exact .write hc hpc (by simpa using hb) hn.1 (by omega)
      · cases hf
    · cases hf

theorem recv_move {Γ : Ctx ε υ} {s : State ε υ} {c : Nat} {task task' : Task ε υ} {item : Option Frame}
    (h : task.afterRecv Γ (c ∈ s.routes.tasks) item = some task') : Move Γ s c task (.recv c item) task' := by
  unfold Task.afterRecv at h
  split at h
  · rename_i f rest g hpc hq
    split at h
    · rename_i hfg
      cases h
      subst hfg
      exact .collect hpc hq
    · cases h
  · rename_i hpc hq
    split at h
    · cases h
    · rename_i hs
      cases h
      exact .channelClosed hpc hq (by simpa using hs)
  · rename_i f rest g hpc hq
    split at h
    · rename_i hfg
      cases h
      subst hfg
      exact .advance hpc hq
    · cases h
  · rename_i hpc hq
    split at h
    · cases h
    · rename_i hs
      cases h
      exact .nextNone hpc hq (by simpa using hs)
  · cases h

/-- Every step of a task does what `Effect` says. -/
theorem task_effect {Γ : Ctx ε υ} {s s' : State ε υ} {c : Nat} {a : Action}
    (ha : a = .allocStreamId c ∨ a = .check c ∨ (∃ m, a = .writeError c m) ∨ a = .timeout c ∨ a = .closedError c ∨
      a = .deregister c ∨ a = .cancel c ∨ a = .next c) (h : step Γ s a = some s') : Effect Γ s a s' := by
  rcases ha with rfl | rfl | ⟨m, rfl⟩ | rfl | rfl | rfl | rfl | rfl <;> rw [step] at h <;>
    obtain ⟨task, task', hc, hf, rfl⟩ := onTask_eq_some h
  · unfold Task.afterAlloc at hf
    split at hf
    · rename_i hpc
      cases hf
      exact .alloc hc hpc
    · cases hf
  · unfold Task.afterCheck at hf
    split at hf
    · rename_i hpc
      cases hf
      split
      · exact .move hc (.tooLarge hpc)
      · exact .move hc (.checked hpc)
    · cases hf
  · unfold Task.afterWriteError at hf
    split at hf
    · rename_i hpc
      cases hf
      exact .writeError hc hpc
    · cases hf
  · unfold Task.afterTimeout at hf
    split at hf
    · rename_i hpc hq _
      split at hf
      · rename_i hs
        cases hf
        exact .move hc (.timeout hpc hq (by simpa using hs))
      · cases hf
    · cases hf
  · unfold Task.afterClosedError at hf
    split at hf
    · rename_i hpc
      cases hf
      exact .move hc (.closedError hpc)
    · cases hf
  · unfold Task.afterDeregister at hf
    split at hf
    · rename_i hpc
      cases hf
      exact .deregister hc hpc
    · cases hf
  · unfold Task.afterCancel at hf
    split at hf
    · rename_i hpc
      cases hf
      exact .cancel hc (.await (.inl hpc))
    · rename_i hpc
      cases hf
      exact .cancel hc (.write hpc)
    · rename_i hpc
      cases hf
      exact .cancel hc (.await (.inr hpc))
    · rename_i hpc
      cases hf
      exact .cancel hc (.next hpc)
    · cases hf
  · unfold Task.beginNext at hf
    split at hf
    · rename_i hpc
      cases hf
      split
      · rename_i he
        exact .move hc (.nextEnded hpc he)
      · rename_i he
        exact .move hc (.next hpc (by simpa using he))
    · cases hf

/-- Every step of the reader does what `Effect` says. -/
theorem reader_effect {Γ : Ctx ε υ} {s s' : State ε υ} {a : Action}
    (ha : (∃ f now, a = .readFrame f now) ∨ (∃ e, a = .readError e) ∨ a = .acquirePong ∨ (∃ n, a = .writePong n) ∨
      a = .writePongError) (h : step Γ s a = some s') : Effect Γ s a s' := by
  rcases ha with ⟨f, now, rfl⟩ | ⟨e, rfl⟩ | rfl | ⟨n, rfl⟩ | rfl <;> simp only [step] at h
  · split at h
    · rename_i hr
      cases h
      by_cases hf : f.opcode = opServerPing
      · rw [if_pos hf]
        exact .ping hr hf
      · rw [if_neg hf, State.route]
        cases hl : s.routes.lookup f.streamId with
        | none => exact .miss hr hl
        | some c => exact .hit hr hl
    · cases h
  · split at h
    · rename_i hr
      cases h
      exact .readError hr
    · cases h
  · split at h
    · rename_i payload hr hl
      split at h
      · cases h
        exact .pongFailed hr
      · rename_i bytes he
        cases h
        exact .acquirePong hr hl he
    · cases h
  · split at h
    · rename_i written rest hr
      split at h
      · rename_i hn
        cases h
        by_cases hall : rest.length = n
        · subst hall
          simp only [if_pos, List.take_length]
          exact .writePongAll hr hn.1 hn.2.1
        · simp only [if_neg hall]
          exact .writePong hr hn.1 hn.2.1 (by omega)
      · cases h
    · cases h
  · split at h
    · rename_i hr
      cases h
      exact .writePongError hr
    · cases h

/-- Every step does what `Effect` says. -/
theorem step_effect {Γ : Ctx ε υ} {s s' : State ε υ} {a : Action} (h : step Γ s a = some s') : Effect Γ s a s' := by
  cases a with
  | start args =>
    simp only [step] at h
    split at h
    · rename_i hs
      cases h
      exact .start hs.1 hs.2
    · cases h
  | unsubscribe target =>
    rw [step] at h
    obtain ⟨sub, sub', hs, hf, rfl⟩ := onTask_eq_some h
    split at hf
    · rename_i hpc
      cases hf
      have hset : s.tasks.set target sub = s.tasks := by
        refine List.ext_getElem? (fun j => ?_)
        rw [getElem?_set_of_some hs]
        by_cases hj : j = target
        · rw [if_pos hj, hj, hs]
        · rw [if_neg hj]
      simp only [State.setTask, hset]
      exact .unsubscribe _ hs hpc rfl
    · cases hf
  | register c => exact register_effect h
  | acquire c => exact acquire_effect h
  | write c n => exact write_effect h
  | recv c item =>
    rw [step] at h
    obtain ⟨task, task', hc, hf, rfl⟩ := onTask_eq_some h
    exact .move hc (recv_move hf)
  | dropSubscription c =>
    simp only [step] at h
    split at h
    · rename_i hu
      obtain ⟨task, task', hc, hf, rfl⟩ := onTask_eq_some h
      unfold Task.afterDrop at hf
      split at hf
      · rename_i hpc
        cases hf
        exact .drop hc hpc hu
      · cases hf
    · cases h
  | dropConnection =>
    simp only [step] at h
    split at h
    · rename_i hs
      cases h
      exact .dropConnection hs.1 hs.2
    · cases h
  | abort =>
    simp only [step] at h
    split at h
    · rename_i ha
      split at h
      · cases h
      · rename_i hr
        cases h
        exact .abort ha hr
    · cases h
  | allocStreamId c => exact task_effect (c := c) (by simp) h
  | check c => exact task_effect (c := c) (by simp) h
  | writeError c m => exact task_effect (c := c) (by simp) h
  | timeout c => exact task_effect (c := c) (by simp) h
  | closedError c => exact task_effect (c := c) (by simp) h
  | deregister c => exact task_effect (c := c) (by simp) h
  | cancel c => exact task_effect (c := c) (by simp) h
  | next c => exact task_effect (c := c) (by simp) h
  | readFrame f now => exact reader_effect (by simp) h
  | readError e => exact reader_effect (by simp) h
  | acquirePong => exact reader_effect (by simp) h
  | writePong n => exact reader_effect (by simp) h
  | writePongError => exact reader_effect (by simp) h

/-! ### What a step does to one task -/

/-- The task an action is a step of, or drops. -/
def Action.owner : Action → Option Nat
  | .allocStreamId c | .register c | .check c | .acquire c | .write c _ | .writeError c _ | .recv c _ | .timeout c
  | .closedError c | .deregister c | .cancel c | .next c | .dropSubscription c => some c
  | _ => none

/-- What a step of the mux does to task `d`. -/
inductive Change (Γ : Ctx ε υ) (s : State ε υ) (d : Nat) (task : Task ε υ) : Action → Task ε υ → Prop
  | same {a : Action} (howner : a.owner ≠ some d) : Change Γ s d task a task
  | alloc (hpc : task.pc = .starting) :
      Change Γ s d task (.allocStreamId d) { task with streamId := s.nextStreamId, ordinal := s.taken, pc := .registering }
  | register (hpc : task.pc = .registering) (hcl : s.closed = none) :
      Change Γ s d task (.register d) { task with pc := .checking }
  | move {a : Action} {task' : Task ε υ} (hm : Move Γ s d task a task') : Change Γ s d task a task'
  | acquire {bytes : Bytes} (hpc : task.pc = .locking) (hl : s.lock = none)
      (he : encode task.args.opcode task.streamId task.args.payload = .ok bytes) :
      Change Γ s d task (.acquire d) { task with pc := .writing [] bytes }
  | write {n : Nat} {written rest : Bytes} (hpc : task.pc = .writing written rest) (h0 : 0 < n) (hn : n < rest.length) :
      Change Γ s d task (.write d n) { task with pc := .writing (written ++ rest.take n) (rest.drop n) }
  | writeAll {written rest : Bytes} (hpc : task.pc = .writing written rest) :
      Change Γ s d task (.write d rest.length) { task with pc := task.written }
  | writeError {message : String} {written rest : Bytes} (hpc : task.pc = .writing written rest) :
      Change Γ s d task (.writeError d message) { task with pc := .leaving (.failed (.io message)) }
  | deregister {o : Outcome υ} (hpc : task.pc = .leaving o) : Change Γ s d task (.deregister d) { task with pc := .done o }
  | cancel {task' : Task ε υ} (hx : Cancel task task') : Change Γ s d task (.cancel d) task'
  | drop (hpc : task.pc = .opened) : Change Γ s d task (.dropSubscription d) { task with pc := .dropped }
  | deliver {f : Frame} {now : Nat} (hl : s.routes.lookup f.streamId = some d) :
      Change Γ s d task (.readFrame f now) (task.deliver f)

theorem Move.owner_eq {Γ : Ctx ε υ} {s : State ε υ} {c : Nat} {task task' : Task ε υ} {a : Action}
    (h : Move Γ s c task a task') : a.owner = some c := by
  cases h <;> rfl

/-- A step in which only task `c` changes changes it as its own step says, and no other task. -/
theorem setTask_change {Γ : Ctx ε υ} {s : State ε υ} {c : Nat} {a : Action} {task task' : Task ε υ}
    (hc : s.tasks[c]? = some task) (ha : a.owner = some c) (hch : Change Γ s c task a task') (d : Nat) :
    (∃ x x', s.tasks[d]? = some x ∧ (s.tasks.set c task')[d]? = some x' ∧ Change Γ s d x a x') ∨
      (s.tasks[d]? = none ∧ (s.tasks.set c task')[d]? = none) := by
  rw [getElem?_set_of_some hc]
  by_cases hd : d = c
  · subst hd
    exact .inl ⟨task, task', hc, if_pos rfl, hch⟩
  · rw [if_neg hd]
    cases hx : s.tasks[d]? with
    | none => exact .inr ⟨rfl, rfl⟩
    | some x =>
      refine .inl ⟨x, x, rfl, rfl, .same ?_⟩
      rw [ha]
      exact fun h => hd (Option.some.inj h).symm

/-- A step of no task changes no task. -/
theorem keep_change {Γ : Ctx ε υ} {s : State ε υ} {a : Action} (ha : a.owner = none) (d : Nat) :
    (∃ x x', s.tasks[d]? = some x ∧ s.tasks[d]? = some x' ∧ Change Γ s d x a x') ∨
      (s.tasks[d]? = none ∧ s.tasks[d]? = none) := by
  cases hx : s.tasks[d]? with
  | none => exact .inr ⟨rfl, rfl⟩
  | some x =>
    refine .inl ⟨x, x, rfl, rfl, .same ?_⟩
    rw [ha]
    exact Option.some_ne_none d ∘ Eq.symm

/-- What a step does to each task: a task that was there changes as `Change` says, and only `start` and `unsubscribe` add one. -/
theorem effect_tasks {Γ : Ctx ε υ} {s s' : State ε υ} {a : Action} (h : Effect Γ s a s') (d : Nat) :
    (∃ task task', s.tasks[d]? = some task ∧ s'.tasks[d]? = some task' ∧ Change Γ s d task a task') ∨
      (s.tasks[d]? = none ∧ s'.tasks[d]? = none) ∨
      ∃ args, (a = .start args ∧ s.connected = true ∨ ∃ target, a = .unsubscribe target ∧ args.verb = .unsubscribe target) ∧
        s.tasks[d]? = none ∧ s'.tasks[d]? = some (Task.begin args) := by
  have hconcat : ∀ (args : Args), a.owner = none →
      (a = .start args ∧ s.connected = true ∨ ∃ target, a = .unsubscribe target ∧ args.verb = .unsubscribe target) →
      s'.tasks = s.tasks ++ [Task.begin args] →
      (∃ task task', s.tasks[d]? = some task ∧ s'.tasks[d]? = some task' ∧ Change Γ s d task a task') ∨
      (s.tasks[d]? = none ∧ s'.tasks[d]? = none) ∨
      ∃ args, (a = .start args ∧ s.connected = true ∨ ∃ target, a = .unsubscribe target ∧ args.verb = .unsubscribe target) ∧
        s.tasks[d]? = none ∧ s'.tasks[d]? = some (Task.begin args) := by
    intro args howner ha htasks
    rw [htasks, getElem?_concat]
    by_cases hd : d = s.tasks.length
    · subst hd
      exact .inr (.inr ⟨args, ha, List.getElem?_eq_none (Nat.le_refl _), if_pos rfl⟩)
    · rw [if_neg hd]
      exact (keep_change howner d).imp_right .inl
  cases h with
  | start hcon _ => exact hconcat _ rfl (.inl ⟨rfl, hcon⟩) rfl
  | unsubscribe args _ _ hv => exact hconcat args rfl (.inr ⟨_, rfl, hv⟩) rfl
  | alloc hc hpc => exact (setTask_change hc rfl (.alloc hpc) d).imp_right .inl
  | register hc hpc hcl => exact (setTask_change hc rfl (.register hpc hcl) d).imp_right .inl
  | move hc hm => exact (setTask_change hc hm.owner_eq (.move hm) d).imp_right .inl
  | acquire hc hpc hl he => exact (setTask_change hc rfl (.acquire hpc hl he) d).imp_right .inl
  | write hc hpc _ h0 hn => exact (setTask_change hc rfl (.write hpc h0 hn) d).imp_right .inl
  | writeAll hc hpc _ _ => exact (setTask_change hc rfl (.writeAll hpc) d).imp_right .inl
  | writeError hc hpc => exact (setTask_change hc rfl (.writeError hpc) d).imp_right .inl
  | deregister hc hpc => exact (setTask_change hc rfl (.deregister hpc) d).imp_right .inl
  | cancel hc hx => exact (setTask_change hc rfl (.cancel hx) d).imp_right .inl
  | drop hc hpc _ => exact (setTask_change hc rfl (.drop hpc) d).imp_right .inl
  | @hit f now c _ hl =>
    simp only [List.getElem?_modify]
    cases hx : s.tasks[d]? with
    | none => exact .inr (.inl ⟨rfl, by simp⟩)
    | some x =>
      by_cases hd : c = d
      · subst hd
        exact .inl ⟨x, _, rfl, by simp, .deliver hl⟩
      · exact .inl ⟨x, x, rfl, by simp [hd], .same nofun⟩
  | _ => exact (keep_change rfl d).imp_right .inl

/-- A task after a step was there before it, or has just begun. -/
theorem Effect.task_before {Γ : Ctx ε υ} {s s' : State ε υ} {a : Action} (h : Effect Γ s a s') {d : Nat} {task' : Task ε υ}
    (hd : s'.tasks[d]? = some task') :
    (∃ task, s.tasks[d]? = some task ∧ Change Γ s d task a task') ∨
      ∃ args, (a = .start args ∧ s.connected = true ∨ ∃ target, a = .unsubscribe target ∧ args.verb = .unsubscribe target) ∧
        s.tasks[d]? = none ∧ task' = Task.begin args := by
  rcases effect_tasks h d with ⟨task, x, ht, hx, hch⟩ | ⟨-, hx⟩ | ⟨args, ha, hn, hx⟩
  · obtain rfl := Option.some.inj (hd.symm.trans hx)
    exact .inl ⟨task, ht, hch⟩
  · exact nomatch hd.symm.trans hx
  · obtain rfl := Option.some.inj (hd.symm.trans hx)
    exact .inr ⟨args, ha, hn, rfl⟩

/-- A task before a step is there after it. -/
theorem Effect.task_after {Γ : Ctx ε υ} {s s' : State ε υ} {a : Action} (h : Effect Γ s a s') {d : Nat} {task : Task ε υ}
    (hd : s.tasks[d]? = some task) : ∃ task', s'.tasks[d]? = some task' ∧ Change Γ s d task a task' := by
  rcases effect_tasks h d with ⟨x, task', hx, ht', hch⟩ | ⟨hx, -⟩ | ⟨args, -, hx, -⟩
  · obtain rfl := Option.some.inj (hd.symm.trans hx)
    exact ⟨task', ht', hch⟩
  · exact nomatch hd.symm.trans hx
  · exact nomatch hd.symm.trans hx

end BrainSdk.Rust
