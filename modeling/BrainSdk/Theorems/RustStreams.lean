import BrainSdk.Library.Trace
import BrainSdk.Rust.Ownership
import BrainSdk.Theorems.RouteLeak
import BrainSdk.Wire.Responses

/-!
# What the Rust connection gives its tasks

The channel of an op task holds the frames of its stream from `register` on, in order, up to the first one with the EOS flag, which
takes the sender out of the table. A call that returns has taken a complete response off the front of them, and one that is told of a closed
connection never had one. A `Subscription` has made one result of each frame it took, and a `next` that is dropped takes none.
-/

namespace BrainSdk.Rust

open Library Wire

variable {ε υ : Type}

/-- The frame that the reader looks up; heartbeats are answered before. -/
def Action.reads : Action → Option Frame
  | .readFrame f _ => if f.opcode = opServerPing then none else some f
  | _ => none

/-- The frames that the reader was given, but for the heartbeats. -/
def inbound (tr : List Action) : List Frame := tr.filterMap Action.reads

/-- The frames of a stream up to the first one with the EOS flag. -/
def uptoEos : List Frame → List Frame
  | [] => []
  | f :: fs => if f.isEos then [f] else f :: uptoEos fs

/-- How a call ends, by the frames on its channel. -/
def Answers (Γ : Ctx ε υ) (got : List Frame) : Outcome υ → Prop
  | .returned resp => IsResponse resp ∧ resp <+: got
  | .unsubscribed r =>
    ∃ f, f.opcode = opUnsubscribeResp ∧ f.isEos = true ∧ Γ.decodeUnsubscribeResponse f.payload = .ok r ∧ [f] <+: got
  | .failed (.server r) =>
    ∃ pre f, Unfinished pre ∧ f.opcode = opError ∧ Γ.decodeErrorResponse f.payload = .ok r ∧ pre ++ [f] <+: got
  | .failed _ => True

/-- What the results of a `Subscription` are, and its channel, by the frames that were sent to it. -/
inductive Events (Γ : Ctx ε υ) (got : List Frame) (closed : Option String) : Bool → List (NextOutcome ε) → List Frame → Prop
  /-- One result of each frame taken, and `None` once the channel has closed. -/
  | flowing {outs : List (NextOutcome ε)} {queue : List Frame} (taken : List Frame) (n : Nat) (hu : Unfinished taken)
      (hq : taken ++ queue = got) (ho : outs = taken.map (fun f => eventOf Γ f.payload) ++ List.replicate n .none)
      (hn : 0 < n → queue = [] ∧ closed ≠ none) : Events Γ got closed false outs queue
  | ended {outs : List (NextOutcome ε)} {queue : List Frame} (taken : List Frame) (last : Frame) (n : Nat) (hu : Unfinished taken)
      (hl : (nextFrame Γ last).1 = true) (hp : taken ++ [last] <+: got)
      (ho : outs = taken.map (fun f => eventOf Γ f.payload) ++ (nextFrame Γ last).2 :: List.replicate n .none) :
      Events Γ got closed true outs queue

/-- What a task has made of the frames on its channel. -/
def Task.Given (Γ : Ctx ε υ) (got : List Frame) (closed : Option String) (task : Task ε υ) : Prop :=
  match task.pc with
  | .starting | .registering => False
  | .checking | .locking | .writing _ _ => task.ended = false ∧ task.frames = [] ∧ task.outs = [] ∧ task.queue = got
  | .receiving => Unfinished task.frames ∧ task.frames ++ task.queue = got
  | .closing => Unfinished got ∧ closed ≠ none
  | .leaving o | .done o => Answers Γ got o
  | .opened => Events Γ got closed task.ended task.outs task.queue
  | .inNext => task.ended = false ∧ Events Γ got closed task.ended task.outs task.queue
  | .cancelled | .dropped => True

/-- A task past `register`, with the frames of its stream since then. -/
structure Follows (Γ : Ctx ε υ) (fs : List Frame) (s : State ε υ) (c : Nat) (task : Task ε υ) : Prop where
  finished : fs.any Frame.isEos = true → s.routes.lookup task.streamId.toNat = none
  sender : fs.any Frame.isEos = false → s.closed = none → task.pc.receives = true →
    s.routes.lookup task.streamId.toNat = some c
  given : task.Given Γ (uptoEos fs) s.closed

/-! ### Frames up to the last -/

theorem any_isEos_of_unfinished {fs : List Frame} (h : Unfinished fs) : fs.any Frame.isEos = false := by
  rw [List.any_eq_false]
  intro f hf
  rw [(h f hf).2]
  exact Bool.false_ne_true

theorem uptoEos_of_none {fs : List Frame} (h : fs.any Frame.isEos = false) : uptoEos fs = fs := by
  induction fs with
  | nil => rfl
  | cons f fs ih =>
    rw [List.any_cons, Bool.or_eq_false_iff] at h
    rw [uptoEos, h.1, ih h.2]
    rfl

theorem uptoEos_append_of_some {fs : List Frame} (h : fs.any Frame.isEos = true) (gs : List Frame) : uptoEos (fs ++ gs) = uptoEos fs := by
  induction fs with
  | nil => cases h
  | cons f fs ih =>
    rw [List.cons_append, uptoEos, uptoEos]
    cases hf : f.isEos with
    | true => rfl
    | false =>
      rw [List.any_cons, hf, Bool.false_or] at h
      rw [ih h]

theorem uptoEos_snoc {fs : List Frame} (h : fs.any Frame.isEos = false) (f : Frame) : uptoEos (fs ++ [f]) = fs ++ [f] := by
  induction fs with
  | nil =>
    rw [List.nil_append, uptoEos, uptoEos]
    cases f.isEos <;> rfl
  | cons g fs ih =>
    rw [List.any_cons, Bool.or_eq_false_iff] at h
    rw [List.cons_append, uptoEos, h.1, ih h.2]
    rfl

theorem any_uptoEos (fs : List Frame) : (uptoEos fs).any Frame.isEos = fs.any Frame.isEos := by
  induction fs with
  | nil => rfl
  | cons f fs ih =>
    rw [uptoEos]
    cases hf : f.isEos with
    | true => simp [hf]
    | false => simp [hf, ih]

theorem uptoEos_isPre (fs : List Frame) : uptoEos fs <+: fs := by
  induction fs with
  | nil => exact List.prefix_refl _
  | cons f fs ih =>
    rw [uptoEos]
    split
    · exact ⟨fs, rfl⟩
    · exact (List.prefix_cons_inj f).2 ih

/-- The channel only grows. -/
theorem uptoEos_mono (fs gs : List Frame) : uptoEos fs <+: uptoEos (fs ++ gs) := by
  cases h : fs.any Frame.isEos with
  | true => rw [uptoEos_append_of_some h]
  | false =>
    induction fs with
    | nil => exact List.nil_prefix
    | cons f fs ih =>
      rw [List.any_cons, Bool.or_eq_false_iff] at h
      rw [List.cons_append, uptoEos, uptoEos, h.1]
      exact (List.prefix_cons_inj f).2 (ih h.2)

/-! ### Frames and results -/

theorem Answers.mono {Γ : Ctx ε υ} {got got' : List Frame} {o : Outcome υ} (h : Answers Γ got o) (hp : got <+: got') :
    Answers Γ got' o := by
  cases o with
  | returned resp => exact ⟨h.1, h.2.trans hp⟩
  | unsubscribed r =>
    obtain ⟨f, ho, he, hdec, hpre⟩ := h
    exact ⟨f, ho, he, hdec, hpre.trans hp⟩
  | failed e =>
    cases e with
    | server r =>
      obtain ⟨pre, f, hu, ho, hdec, hpre⟩ := h
      exact ⟨pre, f, hu, ho, hdec, hpre.trans hp⟩
    | _ => trivial

theorem nextFrame_unfinished (Γ : Ctx ε υ) {f : Frame} (h : (nextFrame Γ f).1 = false) :
    f.opcode ≠ opError ∧ f.isEos = false ∧ (nextFrame Γ f).2 = eventOf Γ f.payload := by
  unfold nextFrame at h ⊢
  by_cases ho : f.opcode = opError
  · rw [if_pos ho] at h
    cases h
  · cases he : f.isEos with
    | true =>
      rw [if_neg ho, he] at h
      cases h
    | false =>
      rw [if_neg ho]
      exact ⟨ho, rfl, rfl⟩

/-- The error of an ERROR frame, when it is one of the server. -/
theorem errorOf_server {Γ : Ctx ε υ} {payload : Bytes} {r : ErrorResponse} (h : errorOf Γ payload = .server r) :
    Γ.decodeErrorResponse payload = .ok r := by
  unfold errorOf at h
  split at h
  · rename_i hdec
    cases h
    exact hdec
  · cases h

theorem answers_error (Γ : Ctx ε υ) {got pre : List Frame} {f : Frame} (hu : Unfinished pre) (ho : f.opcode = opError)
    (hp : pre ++ [f] <+: got) : Answers Γ got (.failed (errorOf Γ f.payload)) := by
  cases he : errorOf Γ f.payload with
  | server r => exact ⟨pre, f, hu, ho, errorOf_server he, hp⟩
  | _ => trivial

/-- What a call makes of a complete response. -/
theorem answers_result (Γ : Ctx ε υ) {got resp : List Frame} (h : IsResponse resp) (hp : resp <+: got) (a : Args) :
    Answers Γ got (a.result Γ resp) := by
  unfold Args.result
  split
  · unfold unsubscribeResult
    split
    · rename_i f
      split
      · trivial
      · rename_i ho
        split
        · rename_i r hdec
          obtain ⟨pre, last, heq, -, -, he⟩ := h
          have hlast : [f] = [] ++ [f] := rfl
          rw [hlast] at heq
          obtain ⟨-, hf⟩ := List.append_inj' heq rfl
          cases hf
          exact ⟨f, by simpa using ho, he, hdec, hp⟩
        · trivial
    · trivial
  · exact ⟨h, hp⟩

/-! ### One step -/

theorem Events.closed_mono {Γ : Ctx ε υ} {got : List Frame} {closed closed' : Option String} {ended : Bool}
    {outs : List (NextOutcome ε)} {queue : List Frame} (h : Events Γ got closed ended outs queue)
    (hcl : closed ≠ none → closed' ≠ none) : Events Γ got closed' ended outs queue := by
  cases h with
  | flowing taken n hu hq ho hn => exact .flowing taken n hu hq ho (fun h0 => ⟨(hn h0).1, hcl (hn h0).2⟩)
  | ended taken last n hu hl hp ho => exact .ended taken last n hu hl hp ho

theorem Task.Given.closed_mono {Γ : Ctx ε υ} {got : List Frame} {closed closed' : Option String} {task : Task ε υ}
    (h : task.Given Γ got closed) (hcl : closed ≠ none → closed' ≠ none) : task.Given Γ got closed' := by
  unfold Task.Given at h ⊢
  cases hpc : task.pc with
  | closing =>
    rw [hpc] at h
    exact ⟨h.1, hcl h.2⟩
  | opened =>
    rw [hpc] at h
    exact Events.closed_mono h hcl
  | inNext =>
    rw [hpc] at h
    exact ⟨h.1, h.2.closed_mono hcl⟩
  | _ =>
    rw [hpc] at h
    exact h

/-- A task that collects a frame. -/
theorem Task.Given.collect {Γ : Ctx ε υ} {got rest : List Frame} {closed : Option String} {task : Task ε υ} {f : Frame}
    (h : task.Given Γ got closed) (hpc : task.pc = .receiving) (hq : task.queue = f :: rest) :
    ({ task with queue := rest }.collect Γ f).Given Γ got closed := by
  simp only [Task.Given, hpc, hq] at h
  obtain ⟨hu, hgot⟩ := h
  have hpre : task.frames ++ [f] <+: got := by
    rw [← hgot]
    exact ⟨rest, by simp⟩
  unfold Task.collect
  by_cases ho : f.opcode = opError
  · rw [if_pos ho]
    exact answers_error Γ hu ho hpre
  · rw [if_neg ho]
    cases he : f.isEos with
    | true => exact answers_result Γ ⟨task.frames, f, rfl, hu, ho, he⟩ hpre task.args
    | false =>
      simp only [Task.Given, hpc, Bool.false_eq_true, if_false]
      exact ⟨hu.snoc ho he, by rw [← hgot]; simp⟩

/-- A `Subscription` that is given a frame. -/
theorem Events.advance {Γ : Ctx ε υ} {got rest : List Frame} {closed : Option String} {outs : List (NextOutcome ε)} {f : Frame}
    (h : Events Γ got closed false outs (f :: rest)) :
    Events Γ got closed (nextFrame Γ f).1 (outs ++ [(nextFrame Γ f).2]) rest := by
  cases h with
  | flowing taken n hu hq ho hn =>
    have hzero : n = 0 := by
      by_contra hne
      cases (hn (Nat.pos_of_ne_zero hne)).1
    subst hzero
    rw [List.replicate_zero, List.append_nil] at ho
    have hpre : taken ++ [f] <+: got := by
      rw [← hq]
      exact ⟨rest, by simp⟩
    cases hl : (nextFrame Γ f).1 with
    | true => exact .ended taken f 0 hu hl hpre (by rw [ho]; rfl)
    | false =>
      obtain ⟨herr, heos, hout⟩ := nextFrame_unfinished Γ hl
      refine .flowing (taken ++ [f]) 0 (hu.snoc herr heos) (by rw [← hq]; simp) ?_ (fun h0 => absurd h0 (Nat.lt_irrefl 0))
      rw [ho, hout]
      simp

/-- A `next` on a stream that has ended, or whose channel has closed. -/
theorem Events.none {Γ : Ctx ε υ} {got : List Frame} {closed : Option String} {ended : Bool} {outs : List (NextOutcome ε)}
    {queue : List Frame} (h : Events Γ got closed ended outs queue) (hcl : ended = false → queue = [] ∧ closed ≠ none) :
    Events Γ got closed ended (outs ++ [.none]) queue := by
  cases h with
  | flowing taken n hu hq ho hn =>
    refine .flowing taken (n + 1) hu hq ?_ (fun _ => hcl rfl)
    rw [ho, List.replicate_succ', List.append_assoc]
  | ended taken last n hu hl hp ho =>
    refine .ended taken last (n + 1) hu hl hp ?_
    rw [ho, List.replicate_succ', List.append_assoc, List.cons_append]

/-- A task that takes a step of its own goes on as its channel has it. `hgone`: a sender that is gone before the last frame went with the
reader. -/
theorem Change.given {Γ : Ctx ε υ} {s : State ε υ} {c : Nat} {a : Action} {task task' : Task ε υ} {got : List Frame}
    (h : Change Γ s c task a task') (ha : ∀ f now, a ≠ .readFrame f now)
    (hgone : c ∉ s.routes.tasks → task.pc.receives = true → Unfinished got → s.closed ≠ none) (hg : task.Given Γ got s.closed) :
    task'.Given Γ got s.closed := by
  cases h with
  | same _ => exact hg
  | alloc hpc | register hpc _ =>
    rw [Task.Given, hpc] at hg
    exact hg.elim
  | move hm =>
    cases hm with
    | refuse hpc _ =>
      rw [Task.Given, hpc] at hg
      exact hg.elim
    | tooLarge hpc | encodeFailed hpc | timeout hpc _ _ => trivial
    | checked hpc =>
      simp only [Task.Given, hpc] at hg ⊢
      exact hg
    | collect hpc hq => exact hg.collect hpc hq
    | channelClosed hpc hq hgo =>
      simp only [Task.Given, hpc, hq, List.append_nil] at hg ⊢
      obtain ⟨hu, rfl⟩ := hg
      exact ⟨hu, hgone hgo (by rw [hpc]; rfl) hu⟩
    | advance hpc hq =>
      simp only [Task.Given, hpc, hq] at hg
      obtain ⟨hended, hev⟩ := hg
      rw [hended] at hev
      simp only [Task.Given, Task.advance, hended, Bool.false_or]
      exact hev.advance
    | nextNone hpc hq hgo =>
      simp only [Task.Given, hpc, hq] at hg ⊢
      obtain ⟨hended, hev⟩ := hg
      refine hev.none (fun _ => ⟨rfl, hgone hgo (by rw [hpc]; rfl) ?_⟩)
      rw [hended] at hev
      cases hev with
      | flowing taken n hu hq' =>
        rw [List.append_nil] at hq'
        rwa [← hq']
    | closedError hpc =>
      unfold closedErrorOf
      split <;> trivial
    | nextEnded hpc he =>
      simp only [Task.Given, hpc] at hg ⊢
      exact hg.none (fun h => by rw [he] at h; cases h)
    | next hpc he =>
      simp only [Task.Given, hpc] at hg ⊢
      exact ⟨he, hg⟩
  | acquire hpc _ _ | write hpc _ _ =>
    simp only [Task.Given, hpc] at hg ⊢
    exact hg
  | writeAll hpc =>
    simp only [Task.Given, hpc] at hg
    obtain ⟨hended, hframes, houts, hq⟩ := hg
    rcases written_cases task with ⟨-, hw⟩ | ⟨-, hw⟩
    · simp only [Task.Given, hw, hended, houts, hq]
      exact .flowing [] 0 unfinished_nil rfl rfl (fun h0 => absurd h0 (Nat.lt_irrefl 0))
    · simp only [Task.Given, hw, hframes, hq]
      exact ⟨unfinished_nil, rfl⟩
  | writeError hpc => trivial
  | deregister hpc =>
    simp only [Task.Given, hpc] at hg ⊢
    exact hg
  | cancel hx =>
    cases hx with
    | await _ => trivial
    | write _ => trivial
    | next hpc =>
      simp only [Task.Given, hpc] at hg ⊢
      exact hg.2
  | drop hpc => trivial
  | @deliver f now _ => exact absurd rfl (ha f now)

/-- A receiver that is there after a step was there before it. -/
theorem Change.receives {Γ : Ctx ε υ} {s : State ε υ} {c : Nat} {a : Action} {task task' : Task ε υ} (h : Change Γ s c task a task')
    (hr : task'.pc.receives = true) : task.pc.receives = true := by
  cases h with
  | same _ => exact hr
  | deliver _ => rwa [(deliver_fields _ task).2.2.2] at hr
  | move hm =>
    cases hm with
    | nextEnded _ _ => exact hr
    | refuse hpc _ | tooLarge hpc | checked hpc | encodeFailed hpc | collect hpc _ | channelClosed hpc _ _ | advance hpc _
    | nextNone hpc _ _ | timeout hpc _ _ | closedError hpc | next hpc _ =>
      rw [hpc]
      rfl
  | cancel hx =>
    cases hx with
    | await _ | write _ => cases hr
    | next hpc =>
      rw [hpc]
      rfl
  | alloc hpc | register hpc _ | acquire hpc _ _ | write hpc _ _ | writeAll hpc | writeError hpc | deregister hpc | drop hpc =>
    rw [hpc]
    rfl

theorem Task.Given.entered {Γ : Ctx ε υ} {got : List Frame} {closed : Option String} {task : Task ε υ} (h : task.Given Γ got closed) :
    task.pc.entered = true := by
  unfold Task.Given at h
  cases hpc : task.pc with
  | starting | registering =>
    rw [hpc] at h
    exact h.elim
  | _ => rfl

/-- A task that registers or takes its sender out has its id. -/
theorem Change.ne_starting {Γ : Ctx ε υ} {s : State ε υ} {c : Nat} {a : Action} {task task' : Task ε υ}
    (h : Change Γ s c task a task') (ha : a = .deregister c ∨ a = .dropSubscription c ∨ a = .register c) : task.pc ≠ .starting := by
  have howner : a.owner = some c := by
    rcases ha with rfl | rfl | rfl <;> rfl
  cases h with
  | same hne => exact absurd howner hne
  | move hm => exact hm.keeps.2.2.2.1
  | register hpc _ | deregister hpc | drop hpc =>
    rw [hpc]
    simp
  | alloc _ | acquire _ _ _ | write _ _ _ | writeAll _ | writeError _ | cancel _ => simp at ha
  | deliver _ => simp at ha

/-- A step that is no read. -/
theorem Follows.act {Γ : Ctx ε υ} {s s' : State ε υ} {a : Action} {c : Nat} {task task' : Task ε υ} {fs : List Frame}
    (h : Follows Γ fs s c task) (hs : Inv s) (hd : Distinct s) (hn : s.taken ≤ 2 ^ 31) (hst : step Γ s a = some s')
    (ha : ∀ f now, a ≠ .readFrame f now) (hc : s.tasks[c]? = some task) (hv : task.args.verb ≠ .requestOnConnection)
    (hch : Change Γ s c task a task') : Follows Γ fs s' c task' := by
  have he := step_effect hst
  have hent := h.given.entered
  have hpc := pc_ne_starting_of_entered hent
  have hid : task'.streamId = task.streamId := (hch.keeps.2.1 hpc).1
  refine ⟨?_, ?_, ?_⟩
  · intro heos
    rw [hid]
    cases hl : s'.routes.lookup task.streamId.toNat with
    | none => rfl
    | some d =>
      rcases he.lookup_before hl with hold | ⟨-, other, ho, hoid, hopc⟩
      · rw [h.finished heos] at hold
        cases hold
      · obtain rfl := hs.same_id hd hn hc ho hv hpc (by rw [hopc]; simp) hoid
        obtain rfl := Option.some.inj (hc.symm.trans ho)
        rw [hopc] at hent
        cases hent
  · intro heos hcl hrec
    rw [hid]
    have hsender := h.sender heos (he.closed_none hcl) (hch.receives hrec)
    refine lookup_stays hst hsender ?_
    intro hclear
    -- the sender goes by a step of the task itself, behind which it does not receive, or with the reader
    have hself : ∀ d, (∃ other, s.tasks[d]? = some other ∧ other.streamId.toNat = task.streamId.toNat) →
        (a = .deregister d ∨ a = .dropSubscription d ∨ a = .register d) → d = c := by
      rintro d ⟨other, ho, hoid⟩ hact
      obtain ⟨other', -, hother⟩ := he.task_after ho
      exact hs.same_id hd hn hc ho hv hpc (hother.ne_starting hact) hoid
    cases a with
    | register d =>
      obtain rfl := hself d hclear (.inr (.inr rfl))
      cases hch with
      | same howner => exact absurd rfl howner
      | register hreg _ =>
        rw [hreg] at hent
        cases hent
      | move hm =>
        cases hm with
        | refuse hreg _ =>
          rw [hreg] at hent
          cases hent
    | deregister d =>
      obtain rfl := hself d hclear (.inl rfl)
      cases hch with
      | same howner => exact absurd rfl howner
      | move hm => cases hm
      | deregister _ => cases hrec
    | dropSubscription d =>
      obtain rfl := hself d hclear (.inr (.inl rfl))
      cases hch with
      | same howner => exact absurd rfl howner
      | move hm => cases hm
      | drop _ => cases hrec
    | readError e =>
      cases he with
      | readError _ => cases hcl
      | move _ hm => cases hm
    | readFrame f now => exact absurd rfl (ha f now)
    | _ => exact hclear
  · have hclosed : s.closed ≠ none → s'.closed ≠ none := fun hne hnone => hne (he.closed_none hnone)
    refine (hch.given ha ?_ h.given).closed_mono hclosed
    intro hgone hrec hu hnone
    have heos : fs.any Frame.isEos = false := by
      rw [← any_uptoEos]
      exact any_isEos_of_unfinished hu
    exact hgone (Routes.mem_tasks.2 ⟨_, h.sender heos hnone hrec⟩)

/-- A frame on the channel of a task that has its receiver. -/
theorem Task.Given.deliver {Γ : Ctx ε υ} {got : List Frame} {task : Task ε υ} {f : Frame} (h : task.Given Γ got none) :
    (task.deliver f).Given Γ (got ++ [f]) none := by
  have hpre : got <+: got ++ [f] := List.prefix_append _ _
  have hevents : ∀ {ended : Bool} {outs : List (NextOutcome ε)} {queue : List Frame}, Events Γ got none ended outs queue →
      Events Γ (got ++ [f]) none ended outs (queue ++ [f]) := by
    intro ended outs queue hev
    cases hev with
    | flowing taken n hu hq ho hn =>
      refine .flowing taken n hu (by rw [← hq, List.append_assoc]) ho (fun h0 => absurd rfl (hn h0).2)
    | ended taken last n hu hl hp ho => exact .ended taken last n hu hl (hp.trans hpre) ho
  unfold Task.Given at h
  unfold Task.deliver Task.Given
  cases hpc : task.pc with
  | starting | registering =>
    rw [hpc] at h
    exact h.elim
  | checking | locking | writing _ _ =>
    rw [hpc] at h
    simp only [Pc.receives, if_true]
    exact ⟨h.1, h.2.1, h.2.2.1, by rw [h.2.2.2]⟩
  | receiving =>
    rw [hpc] at h
    simp only [Pc.receives, if_true]
    exact ⟨h.1, by rw [← h.2, List.append_assoc]⟩
  | closing =>
    rw [hpc] at h
    exact absurd rfl h.2
  | leaving o =>
    rw [hpc] at h
    simp only [Pc.receives, if_true]
    exact Answers.mono h hpre
  | done o =>
    rw [hpc] at h
    simp only [Pc.receives, Bool.false_eq_true, if_false, hpc]
    exact Answers.mono h hpre
  | opened =>
    rw [hpc] at h
    simp only [Pc.receives, if_true]
    exact hevents h
  | inNext =>
    rw [hpc] at h
    simp only [Pc.receives, if_true]
    exact ⟨h.1, hevents h.2⟩
  | cancelled | dropped =>
    simp only [Pc.receives, Bool.false_eq_true, if_false, hpc]

/-- More frames for a task whose receiver is gone. -/
theorem Task.Given.mono {Γ : Ctx ε υ} {got got' : List Frame} {closed : Option String} {task : Task ε υ} (h : task.Given Γ got closed)
    (hr : task.pc.receives = false) (hp : got <+: got') : task.Given Γ got' closed := by
  unfold Task.Given at h ⊢
  cases hpc : task.pc with
  | done o =>
    rw [hpc] at h
    exact Answers.mono h hp
  | cancelled | dropped => trivial
  | _ =>
    rw [hpc] at hr
    cases hr

/-- A frame of another stream, or for a receiver that is gone, or behind the last one. -/
theorem Follows.missed {Γ : Ctx ε υ} {s s' : State ε υ} {c : Nat} {task : Task ε υ} {fs gs : List Frame} (h : Follows Γ fs s c task)
    (hroutes : s'.routes.lookup task.streamId.toNat = s.routes.lookup task.streamId.toNat) (hclosed : s'.closed = s.closed)
    (hgs : gs ≠ [] → fs.any Frame.isEos = true ∨ task.pc.receives = false ∧ s.routes.lookup task.streamId.toNat = none) :
    Follows Γ (fs ++ gs) s' c task := by
  rcases gs with - | ⟨g, gs⟩
  · rw [List.append_nil]
    exact ⟨by rw [hroutes]; exact h.finished, by rw [hroutes, hclosed]; exact h.sender, by rw [hclosed]; exact h.given⟩
  · rcases hgs (by simp) with heos | ⟨hrec, hnone⟩
    · refine ⟨fun _ => by rw [hroutes, h.finished heos], ?_, by rw [hclosed, uptoEos_append_of_some heos]; exact h.given⟩
      intro hno
      rw [List.any_append, heos, Bool.true_or] at hno
      cases hno
    · refine ⟨fun _ => by rw [hroutes, hnone], ?_, by rw [hclosed]; exact h.given.mono hrec (uptoEos_mono fs _)⟩
      intro _ _ hrec'
      rw [hrec] at hrec'
      cases hrec'

/-- A step that reads a frame. -/
theorem Follows.read {Γ : Ctx ε υ} {s s' : State ε υ} {f : Frame} {now c : Nat} {task : Task ε υ} {fs : List Frame}
    (h : Follows Γ fs s c task) (hs : Inv s) (hd : Distinct s) (hn : s.taken ≤ 2 ^ 31) (hst : step Γ s (.readFrame f now) = some s')
    (hc : s.tasks[c]? = some task) (hv : task.args.verb ≠ .requestOnConnection) :
    ∃ task', s'.tasks[c]? = some task' ∧ task'.args = task.args ∧ task'.streamId = task.streamId ∧
      Follows Γ (fs ++ onStream task.streamId.toNat (Action.reads (.readFrame f now)).toList) s' c task' := by
  have hpc := pc_ne_starting_of_entered h.given.entered
  rw [step] at hst
  split at hst
  case isFalse => cases hst
  case isTrue hreading =>
  have hopen : s.closed = none := by
    by_contra hne
    rw [hs.stopped.1 hne] at hreading
    cases hreading
  have hst := Option.some.inj hst
  by_cases hping : f.opcode = opServerPing
  · rw [if_pos hping] at hst
    subst hst
    refine ⟨task, hc, rfl, rfl, ?_⟩
    simp only [Action.reads, if_pos hping, Option.toList_none]
    exact h.missed rfl rfl (fun hne => absurd rfl hne)
  · rw [if_neg hping, State.route] at hst
    simp only [Action.reads, if_neg hping, Option.toList_some]
    by_cases hid : f.streamId = task.streamId.toNat
    · rw [onStream_singleton hid]
      cases hl : s.routes.lookup f.streamId with
      | none =>
        rw [hl] at hst
        subst hst
        refine ⟨task, hc, rfl, rfl, h.missed rfl rfl (fun _ => ?_)⟩
        rw [hid] at hl
        cases heos : fs.any Frame.isEos with
        | true => exact .inl rfl
        | false =>
          refine .inr ⟨?_, hl⟩
          cases hrec : task.pc.receives with
          | false => rfl
          | true =>
            rw [h.sender heos hopen hrec] at hl
            cases hl
      | some e =>
        rw [hl] at hst
        subst hst
        rw [hid] at hl
        obtain rfl := hs.owner hd hn hc hv hpc hl
        have heos : fs.any Frame.isEos = false := by
          cases heos : fs.any Frame.isEos with
          | false => rfl
          | true =>
            rw [h.finished heos] at hl
            cases hl
        obtain ⟨hargs, hsid, -, -⟩ := deliver_fields f task
        refine ⟨task.deliver f, by simp [hc], hargs, hsid, ?_, ?_, ?_⟩
        · intro hlast
          rw [List.any_append, heos, Bool.false_or, List.any_cons, List.any_nil, Bool.or_false] at hlast
          simp only [hsid, hlast, if_true, Routes.lookup_erase_eq, hid]
        · intro hlast _ _
          rw [List.any_append, heos, Bool.false_or, List.any_cons, List.any_nil, Bool.or_false] at hlast
          simp only [hlast, Bool.false_eq_true, if_false]
          rw [hsid, hl]
        · have hgiven := h.given
          rw [uptoEos_of_none heos, hopen] at hgiven
          simp only [uptoEos_snoc heos, hopen]
          exact hgiven.deliver
    · rw [onStream_singleton_of_ne hid]
      cases hl : s.routes.lookup f.streamId with
      | none =>
        rw [hl] at hst
        subst hst
        exact ⟨task, hc, rfl, rfl, h.missed rfl rfl (fun hne => absurd rfl hne)⟩
      | some e =>
        rw [hl] at hst
        subst hst
        have hother : e ≠ c := by
          rintro rfl
          obtain ⟨other, ho, hoid, -⟩ := hs.routed _ _ hl
          obtain rfl := Option.some.inj (hc.symm.trans ho)
          exact hid hoid.symm
        refine ⟨task, by simp [hc, hother], rfl, rfl, h.missed ?_ rfl (fun hne => absurd rfl hne)⟩
        dsimp only
        split
        · rw [Routes.lookup_erase_eq, if_neg (fun heq => hid heq.symm)]
        · rfl

/-! ### Every run -/

theorem inbound_snoc (tr : List Action) (a : Action) : inbound (tr ++ [a]) = inbound tr ++ a.reads.toList :=
  filterMap_snoc Action.reads tr a

/-- Each step keeps a task with its channel. -/
theorem Follows.step {Γ : Ctx ε υ} {s s' : State ε υ} {a : Action} {c : Nat} {task : Task ε υ} {fs : List Frame}
    (h : Follows Γ fs s c task) (hs : Inv s) (hd : Distinct s) (hn : s.taken ≤ 2 ^ 31) (hst : step Γ s a = some s')
    (hc : s.tasks[c]? = some task) (hv : task.args.verb ≠ .requestOnConnection) :
    ∃ task', s'.tasks[c]? = some task' ∧ task'.args = task.args ∧ task'.streamId = task.streamId ∧
      Follows Γ (fs ++ onStream task.streamId.toNat a.reads.toList) s' c task' := by
  by_cases ha : ∃ f now, a = .readFrame f now
  · obtain ⟨f, now, rfl⟩ := ha
    exact h.read hs hd hn hst hc hv
  · have hno : ∀ f now, a ≠ .readFrame f now := fun f now heq => ha ⟨f, now, heq⟩
    have he := step_effect hst
    obtain ⟨task', hc', hch⟩ := he.task_after hc
    have hreads : a.reads = none := by
      cases a with
      | readFrame f now => exact absurd rfl (hno f now)
      | _ => rfl
    have hkeeps := hch.keeps
    rw [hreads, Option.toList_none, onStream, List.filter_nil, List.append_nil]
    exact ⟨task', hc', hkeeps.1, (hkeeps.2.1 (pc_ne_starting_of_entered h.given.entered)).1, h.act hs hd hn hst hno hc hv hch⟩

/-- A task that has not registered has none of its results. -/
def Untouched (s : State ε υ) : Prop :=
  ∀ (c : Nat) (task : Task ε υ), s.tasks[c]? = some task → task.pc.entered = false →
    task.ended = false ∧ task.frames = [] ∧ task.outs = []

theorem Untouched.step {Γ : Ctx ε υ} {s s' : State ε υ} {a : Action} (h : Untouched s) (hst : step Γ s a = some s') :
    Untouched s' := by
  intro c task' hc' hent'
  rcases (step_effect hst).task_before hc' with ⟨task, hc, hch⟩ | ⟨args, -, -, rfl⟩
  · have hent : task.pc.entered = false := by
      cases hent : task.pc.entered with
      | false => rfl
      | true =>
        rw [hch.keeps.2.2 hent] at hent'
        cases hent'
    have hold := h c task hc hent
    cases hch with
    | same _ | alloc _ => exact hold
    | deliver _ =>
      unfold Task.deliver
      split <;> exact hold
    | move hm =>
      rw [hm.keeps.2.2.2.2] at hent'
      cases hent'
    | writeAll hpc =>
      rcases written_cases task with ⟨-, hw⟩ | ⟨-, hw⟩ <;> simp [hw, Pc.entered] at hent'
    | cancel hx => cases hx <;> cases hent'
    | register | acquire | write | writeError | deregister | drop => cases hent'
  · exact ⟨rfl, rfl, rfl⟩

theorem untouched_runs {Γ : Ctx ε υ} {m : Nat} {tr : List Action} {s : State ε υ} (hr : (mux Γ m).Runs tr s) : Untouched s := by
  refine hr.invariant ?_ (fun _ _ _ h hst => h.step hst)
  intro c task hc
  simp [mux, State.init] at hc

/-- In every run, what an op task has made of the frames of its stream since `register`. -/
theorem follows_runs {Γ : Ctx ε υ} {m : Nat} {pre post : List Action} {c : Nat} {s : State ε υ}
    (hr : (mux Γ m).Runs (pre ++ .register c :: post) s) (hn : s.taken ≤ 2 ^ 31) :
    ∃ task, s.tasks[c]? = some task ∧ (task.args.verb ≠ .requestOnConnection →
      Follows Γ (onStream task.streamId.toNat (inbound post)) s c task) := by
  induction post using List.reverseRecOn generalizing s with
  | nil =>
    obtain ⟨s₀, hpre, hst⟩ := (Machine.runs_snoc pre _ s).1 hr
    have huntouched := untouched_runs hpre
    have hheld := held_runs hpre
    have he : Effect Γ s₀ (.register c) s := step_effect hst
    cases he with
    | @register _ task hc hpc hcl =>
      have hnot : task.pc.entered = false := by
        rw [hpc]
        rfl
      obtain ⟨hended, hframes, houts⟩ := huntouched c task hc hnot
      refine ⟨{ task with pc := .checking }, getElem?_set_self_of_some hc _, fun hv => ⟨?_, ?_, ?_⟩⟩
      · intro heos
        cases heos
      · intro _ _ _
        exact AList.lookup_insert _
      · exact ⟨hended, hframes, houts, hheld.fresh c task hc hnot⟩
    | move hc hm =>
      cases hm with
      | @refuse reason hpc hcl =>
        refine ⟨_, getElem?_set_self_of_some hc _, fun hv => ⟨?_, ?_, trivial⟩⟩
        · intro heos
          cases heos
        · intro _ _ hrec
          cases hrec
  | append_singleton post a ih =>
    have hassoc : pre ++ .register c :: (post ++ [a]) = pre ++ .register c :: post ++ [a] := by simp
    rw [hassoc] at hr
    obtain ⟨s₁, hs₁, hst⟩ := (Machine.runs_snoc _ a s).1 hr
    have hle : s₁.taken ≤ s.taken := by
      rcases (step_effect hst).taken with ⟨-, h, -⟩ | ⟨-, h⟩ <;> omega
    obtain ⟨task, hc, hF⟩ := ih hs₁ (by omega)
    by_cases hv : task.args.verb = .requestOnConnection
    · obtain ⟨task', hc', hch⟩ := (step_effect hst).task_after hc
      refine ⟨task', hc', fun hv' => absurd ?_ hv'⟩
      rw [hch.keeps.1, hv]
    · obtain ⟨task', hc', hargs, hid, hF'⟩ := (hF hv).step (inv_runs hs₁) (distinct_runs hs₁) (by omega) hst hc hv
      refine ⟨task', hc', fun _ => ?_⟩
      rw [hid, inbound_snoc, onStream_append]
      exact hF'

/-! ### What a run gives its tasks -/

/-- In every run that takes at most `2 ^ 31` stream ids, with any future dropped anywhere: a request that returns
returns the complete response at the front of the frames of its stream since it registered; one that fails with an error
of the server fails with the first ERROR frame behind an unfinished response; one that waits has collected and has on its
channel exactly the frames up to the last; and one that is told that the connection closed never had a complete response. -/
theorem rust_responses_demultiplexed (Γ : Ctx ε υ) (m : Nat) {pre post : List Action} {c : Nat} {s : State ε υ}
    (hr : (mux Γ m).Runs (pre ++ .register c :: post) s) (hn : s.taken ≤ 2 ^ 31) :
    ∃ task, s.tasks[c]? = some task ∧ (task.args.verb ≠ .requestOnConnection →
      (∀ resp, task.pc = .done (.returned resp) → IsResponse resp ∧ resp <+: onStream task.streamId.toNat (inbound post)) ∧
      (∀ r, task.pc = .done (.unsubscribed r) → ∃ f, f.opcode = opUnsubscribeResp ∧ f.isEos = true ∧
        Γ.decodeUnsubscribeResponse f.payload = .ok r ∧ [f] <+: onStream task.streamId.toNat (inbound post)) ∧
      (∀ r, task.pc = .done (.failed (.server r)) → ∃ unfinished f, Unfinished unfinished ∧ f.opcode = opError ∧
        Γ.decodeErrorResponse f.payload = .ok r ∧ unfinished ++ [f] <+: onStream task.streamId.toNat (inbound post)) ∧
      (task.pc = .receiving → Unfinished task.frames ∧
        task.frames ++ task.queue = uptoEos (onStream task.streamId.toNat (inbound post))) ∧
      (task.pc = .closing → Unfinished (onStream task.streamId.toNat (inbound post)) ∧ s.closed ≠ none)) := by
  obtain ⟨task, hc, hF⟩ := follows_runs hr hn
  refine ⟨task, hc, fun hv => ?_⟩
  have hgiven := (hF hv).given
  have hpre := uptoEos_isPre (onStream task.streamId.toNat (inbound post))
  refine ⟨?_, ?_, ?_, ?_, ?_⟩
  · intro resp hpc
    rw [Task.Given, hpc] at hgiven
    exact ⟨hgiven.1, hgiven.2.trans hpre⟩
  · intro r hpc
    rw [Task.Given, hpc] at hgiven
    obtain ⟨f, ho, he, hdec, hp⟩ := hgiven
    exact ⟨f, ho, he, hdec, hp.trans hpre⟩
  · intro r hpc
    rw [Task.Given, hpc] at hgiven
    obtain ⟨unfinished, f, hu, ho, hdec, hp⟩ := hgiven
    exact ⟨unfinished, f, hu, ho, hdec, hp.trans hpre⟩
  · intro hpc
    rw [Task.Given, hpc] at hgiven
    exact hgiven
  · intro hpc
    rw [Task.Given, hpc] at hgiven
    obtain ⟨hu, hcl⟩ := hgiven
    have heos := any_isEos_of_unfinished hu
    rw [any_uptoEos] at heos
    rw [uptoEos_of_none heos] at hu
    exact ⟨hu, hcl⟩

/-- An answer on stream 1, behind one for a stream that nobody waits on. -/
def rustAnswer : Frame := ⟨opPong, flagEos, 1, [7]⟩

/-- A request that is answered. -/
def answeredRequest : List Action :=
  [.check 0, .acquire 0, .write 0 32, .readFrame ⟨opPong, flagEos, 3, []⟩ 0, .readFrame rustAnswer 0, .recv 0 (some rustAnswer)]

/-- It returns its answer, which is all of its stream. -/
theorem answeredRequest_demultiplexed : ∃ s : State Unit Unit,
    (mux Ctx.refusing maxPayloadBytes).Runs ([.start requestArgs, .allocStreamId 0] ++ .register 0 :: answeredRequest) s ∧
    IsResponse [rustAnswer] ∧ [rustAnswer] <+: onStream 1 (inbound answeredRequest) := by
  have hrun : ∃ s : State Unit Unit,
      (mux Ctx.refusing maxPayloadBytes).Runs ([.start requestArgs, .allocStreamId 0] ++ .register 0 :: answeredRequest) s ∧
      s.taken = 1 ∧ (s.tasks[0]?.map (fun task => (task.streamId, task.args.verb))) = some (1, .request) ∧
      ∃ task, s.tasks[0]? = some task ∧ task.pc = .done (.returned [rustAnswer]) := ⟨_, rfl, rfl, rfl, _, rfl, rfl⟩
  obtain ⟨s, hr, htaken, hfields, task, hc, hpc⟩ := hrun
  obtain ⟨task', hc', hall⟩ := rust_responses_demultiplexed Ctx.refusing maxPayloadBytes hr (by rw [htaken]; decide)
  obtain rfl := Option.some.inj (hc.symm.trans hc')
  rw [hc, Option.map_some, Option.some.injEq, Prod.mk.injEq] at hfields
  obtain ⟨hid, hverb⟩ := hfields
  have hreturned := (hall (by rw [hverb]; decide)).1 [rustAnswer] hpc
  rw [hid] at hreturned
  exact ⟨s, hr, hreturned⟩

/-- In such a run a `next` that is dropped loses no event: while its stream has not ended, a `Subscription` has made of
each frame it took one result, in order, its channel holds exactly the other frames up to the last, and it gives `None`
only once the channel is empty and the connection has closed. Once it has ended, by an ERROR frame or the last one, it
gives the result of that frame and then `None`. -/
theorem rust_next_lossless (Γ : Ctx ε υ) (m : Nat) {pre post : List Action} {c : Nat} {s : State ε υ}
    (hr : (mux Γ m).Runs (pre ++ .register c :: post) s) (hn : s.taken ≤ 2 ^ 31) :
    ∃ task, s.tasks[c]? = some task ∧ (task.args.verb ≠ .requestOnConnection → task.pc = .opened ∨ task.pc = .inNext →
      (task.ended = false → ∃ taken n, Unfinished taken ∧
        taken ++ task.queue = uptoEos (onStream task.streamId.toNat (inbound post)) ∧
        task.outs = taken.map (fun f => eventOf Γ f.payload) ++ List.replicate n .none ∧
        (0 < n → task.queue = [] ∧ s.closed ≠ none)) ∧
      (task.ended = true → ∃ taken last n, Unfinished taken ∧ (last.opcode = opError ∨ last.isEos = true) ∧
        taken ++ [last] <+: onStream task.streamId.toNat (inbound post) ∧
        task.outs = taken.map (fun f => eventOf Γ f.payload) ++ (nextFrame Γ last).2 :: List.replicate n .none)) := by
  obtain ⟨task, hc, hF⟩ := follows_runs hr hn
  refine ⟨task, hc, fun hv hpc => ?_⟩
  have hgiven := (hF hv).given
  have hevents : Events Γ (uptoEos (onStream task.streamId.toNat (inbound post))) s.closed task.ended task.outs task.queue := by
    rcases hpc with hpc | hpc
    · rw [Task.Given, hpc] at hgiven
      exact hgiven
    · rw [Task.Given, hpc] at hgiven
      exact hgiven.2
  constructor
  · intro hended
    rw [hended] at hevents
    cases hevents with
    | flowing taken n hu hq ho hz => exact ⟨taken, n, hu, hq, ho, hz⟩
  · intro hended
    rw [hended] at hevents
    cases hevents with
    | ended taken last n hu hl hp ho =>
      refine ⟨taken, last, n, hu, ?_, hp.trans (uptoEos_isPre _), ho⟩
      by_contra hneither
      rw [not_or] at hneither
      have hlast : last.isEos = false := by simpa using hneither.2
      simp [nextFrame, hneither.1, hlast] at hl

/-- An event on stream 1. -/
def rustEvent (n : UInt8) : Frame := ⟨0x0085, 0, 1, [n]⟩

/-- A `subscribe` before its `register`. -/
def openedSubscription : List Action := [.start ⟨.subscribe, 0, [], none⟩, .allocStreamId 0]

/-- A `Subscription` that takes an event, and whose second `next` is dropped with another event on its channel. -/
def rustSubscription : List Action :=
  [.check 0, .acquire 0, .write 0 32, .next 0, .readFrame (rustEvent 1) 0, .recv 0 (some (rustEvent 1)), .next 0,
    .readFrame (rustEvent 2) 0, .cancel 0]

/-- The event is still there. -/
theorem rustSubscription_lossless : ∃ (s : State Unit Unit) (task : Task Unit Unit),
    (mux Ctx.refusing maxPayloadBytes).Runs (openedSubscription ++ .register 0 :: rustSubscription) s ∧
    s.tasks[0]? = some task ∧ task.pc = .opened ∧ ∃ taken n, Unfinished taken ∧
      taken ++ task.queue = uptoEos (onStream 1 (inbound rustSubscription)) ∧
      task.outs = taken.map (fun f => eventOf Ctx.refusing f.payload) ++ List.replicate n .none ∧
      (0 < n → task.queue = [] ∧ s.closed ≠ none) := by
  have hrun : ∃ (s : State Unit Unit) (task : Task Unit Unit),
      (mux Ctx.refusing maxPayloadBytes).Runs (openedSubscription ++ .register 0 :: rustSubscription) s ∧ s.taken = 1 ∧
      s.tasks[0]? = some task ∧ task.streamId = 1 ∧ task.args.verb = .subscribe ∧ task.pc = .opened ∧ task.ended = false :=
    ⟨_, _, rfl, rfl, rfl, rfl, rfl, rfl, rfl⟩
  obtain ⟨s, task, hr, htaken, hc, hid, hverb, hpc, hended⟩ := hrun
  obtain ⟨task', hc', hall⟩ := rust_next_lossless Ctx.refusing maxPayloadBytes hr (by rw [htaken]; decide)
  obtain rfl := Option.some.inj (hc.symm.trans hc')
  have hlossless := (hall (by rw [hverb]; decide) (.inl hpc)).1 hended
  rw [hid] at hlossless
  exact ⟨s, task, hr, hc, hpc, hlossless⟩

end BrainSdk.Rust
