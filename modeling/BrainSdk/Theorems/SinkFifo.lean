import BrainSdk.TypeScript.Mux

/-!
# A sink and its consumers

`StreamSink` of `mux.ts` under any order of `push`, `fail` and `next`, where `next` may be called again before an earlier promise has
settled. The one waiter slot holds the last promise returned, so the sink is first in, first out as long as nothing arrives while two
promises wait; and it looks at its frames before its failure, so a frame pushed after the failure is still given out.
-/

namespace BrainSdk.TypeScript.Sink

open Library Wire

/-- A promise of `next`: pending, resolved with a frame, or rejected. -/
abbrev Promised : Type := Option (Except Thrown Frame)

/-- A sink and the promises it returned, in the order of the calls. `pushed` are the frames pushed before the failure and `late` those
pushed after it; no step reads them. -/
structure State where
  sink : StreamSink
  promises : List Promised
  pushed : List Frame
  late : List Frame

/-- A call of a method of the sink. -/
inductive Action where
  | push (f : Frame)
  | fail (e : Thrown)
  | next
  deriving DecidableEq

/-- A promise settles once. -/
def settle (promises : List Promised) (waiter : Option Nat) (r : Except Thrown Frame) : List Promised :=
  match waiter with
  | some w => promises.modify w (fun p => p.or (some r))
  | none => promises

/-- What a call does. -/
def call (s : State) : Action → State
  | .push f =>
    { sink := (s.sink.push f).1
      promises := settle s.promises (s.sink.push f).2 (.ok f)
      pushed := if s.sink.failure = none then s.pushed ++ [f] else s.pushed
      late := if s.sink.failure = none then s.late else s.late ++ [f] }
  | .fail e => { s with sink := (s.sink.fail e).1, promises := settle s.promises (s.sink.fail e).2 (.error e) }
  | .next =>
    { s with
      sink := (s.sink.next s.promises.length).1
      promises := s.promises ++ [(s.sink.next s.promises.length).2] }

/-- A new sink, and any calls. -/
def machine : Machine State Action where
  init := { sink := .empty, promises := [], pushed := [], late := [] }
  step := fun s a => some (call s a)

/-- What promise `k` is to be: resolved with frame `k` of those pushed before the failure, else rejected with the failure, and pending as
long as neither has come. -/
def expected (pushed : List Frame) (failure : Option Thrown) (k : Nat) : Promised :=
  match pushed[k]? with
  | some f => some (.ok f)
  | none => failure.map .error

/-- The sink is first in, first out: every promise is what it is to be, and the frames no promise was returned for wait in order. -/
structure Fifo (s : State) : Prop where
  settled : ∀ (k : Nat) (p : Promised), s.promises[k]? = some p → p = expected s.pushed s.sink.failure k
  queued : s.pushed.drop s.promises.length <+: s.sink.frames

/-- Nothing is pushed and nothing fails while two promises are pending, and no promise is asked for that only a frame pushed after the
failure is left for. -/
def Orderly (s : State) : Action → Prop
  | .push _ | .fail _ => ∀ j k : Nat, s.promises[j]? = some none → s.promises[k]? = some none → j = k
  | .next => s.late = [] ∨ s.promises.length < s.pushed.length

/-- Where an orderly sink stands: the waiter is the last promise returned, if it is pending. -/
structure Inv (s : State) : Prop where
  settled : ∀ k, k < s.promises.length → s.promises[k]? = some (expected s.pushed s.sink.failure k)
  frames : s.sink.frames = s.pushed.drop s.promises.length ++ s.late
  waiter : s.sink.waiter =
    if s.sink.failure = none ∧ s.pushed.length < s.promises.length then some (s.promises.length - 1) else none
  late : s.sink.failure = none → s.late = []

theorem Inv.fifo {s : State} (h : Inv s) : Fifo s where
  settled := by
    intro k p hk
    have hlt : k < s.promises.length := (List.getElem?_eq_some_iff.1 hk).1
    exact Option.some.inj (hk.symm.trans (h.settled k hlt))
  queued := by
    rw [h.frames]
    exact List.prefix_append _ _

/-- A promise is pending exactly where no frame and no failure has come for it. -/
theorem expected_eq_none {pushed : List Frame} {failure : Option Thrown} {k : Nat} :
    expected pushed failure k = none ↔ pushed.length ≤ k ∧ failure = none := by
  unfold expected
  rcases hk : pushed[k]? with - | f
  · simp [List.getElem?_eq_none_iff.1 hk]
  · have hlt := (List.getElem?_eq_some_iff.1 hk).1
    simp [Nat.not_le_of_lt hlt]

theorem expected_of_ge {pushed : List Frame} (failure : Option Thrown) {k : Nat} (hk : pushed.length ≤ k) :
    expected pushed failure k = failure.map .error := by
  unfold expected
  rw [List.getElem?_eq_none hk]

theorem expected_of_lt {pushed : List Frame} (failure : Option Thrown) {k : Nat} (hk : k < pushed.length) :
    expected pushed failure k = some (.ok pushed[k]) := by
  unfold expected
  rw [List.getElem?_eq_getElem hk]

/-- One more frame is for the next promise and no other. -/
theorem expected_concat (pushed : List Frame) (f : Frame) (failure : Option Thrown) (k : Nat) :
    expected (pushed ++ [f]) failure k = if k = pushed.length then some (.ok f) else expected pushed failure k := by
  unfold expected
  rw [getElem?_concat]
  by_cases hk : k = pushed.length
  · rw [if_pos hk, if_pos hk]
  · rw [if_neg hk, if_neg hk]

/-- A failure, or a second one, leaves what is settled. -/
theorem expected_or {pushed : List Frame} {failure : Option Thrown} {k : Nat} (hk : expected pushed failure k ≠ none) (e : Thrown) :
    expected pushed (failure.or (some e)) k = expected pushed failure k := by
  rcases Nat.lt_or_ge k pushed.length with hlt | hge
  · rw [expected_of_lt _ hlt, expected_of_lt _ hlt]
  · rw [expected_of_ge _ hge] at hk ⊢
    rw [expected_of_ge _ hge]
    cases failure with
    | none => exact absurd rfl hk
    | some e' => rfl

/-- The waiter of an orderly sink that has not failed and has promises pending. -/
theorem Inv.waiting {s : State} (h : Inv s) (hf : s.sink.failure = none) (hlt : s.pushed.length < s.promises.length) :
    s.sink.waiter = some (s.promises.length - 1) ∧ s.promises[s.pushed.length]? = some none ∧
      s.promises[s.promises.length - 1]? = some none ∧ s.sink.frames = [] := by
  have hpending : ∀ k, s.pushed.length ≤ k → k < s.promises.length → s.promises[k]? = some none := by
    intro k hle hk
    rw [h.settled k hk, expected_eq_none.2 ⟨hle, hf⟩]
  refine ⟨?_, hpending _ (Nat.le_refl _) hlt, hpending _ (by omega) (by omega), ?_⟩
  · rw [h.waiter, if_pos ⟨hf, hlt⟩]
  · rw [h.frames, h.late hf, List.drop_eq_nil_of_le (Nat.le_of_lt hlt)]
    rfl

theorem Inv.not_waiting {s : State} (h : Inv s) (hno : ¬(s.sink.failure = none ∧ s.pushed.length < s.promises.length)) :
    s.sink.waiter = none := by
  rw [h.waiter, if_neg hno]

/-- At most one promise is pending, so it is that of the next frame. -/
theorem Inv.length_of_orderly {s : State} (h : Inv s) (hf : s.sink.failure = none) (hlt : s.pushed.length < s.promises.length)
    (ho : ∀ j k : Nat, s.promises[j]? = some none → s.promises[k]? = some none → j = k) :
    s.promises.length = s.pushed.length + 1 := by
  obtain ⟨-, hfirst, hlast, -⟩ := h.waiting hf hlt
  have := ho _ _ hfirst hlast
  omega

/-- A frame that no promise waits for is queued. -/
theorem call_push_queued {s : State} (f : Frame) (hw : s.sink.waiter = none) :
    call s (.push f) =
      { s with
        sink := { s.sink with frames := s.sink.frames ++ [f] }
        pushed := if s.sink.failure = none then s.pushed ++ [f] else s.pushed
        late := if s.sink.failure = none then s.late else s.late ++ [f] } := by
  have hpush : s.sink.push f = ({ s.sink with frames := s.sink.frames ++ [f] }, none) := by simp only [StreamSink.push, hw]
  simp only [call, hpush, settle]

/-- A frame that a promise waits for resolves it. -/
theorem call_push_resolved {s : State} (f : Frame) {w : Nat} (hw : s.sink.waiter = some w) (hf : s.sink.failure = none) :
    call s (.push f) =
      { s with
        sink := { s.sink with waiter := none }
        promises := s.promises.modify w (fun p => p.or (some (.ok f)))
        pushed := s.pushed ++ [f] } := by
  have hpush : s.sink.push f = ({ s.sink with waiter := none }, some w) := by simp only [StreamSink.push, hw]
  simp only [call, hpush, hf, if_true, settle]

/-- A frame that comes while at most one promise is pending. -/
theorem Inv.push {s : State} (h : Inv s) {f : Frame} (ho : Orderly s (.push f)) : Inv (call s (.push f)) := by
  by_cases hwait : s.sink.failure = none ∧ s.pushed.length < s.promises.length
  · obtain ⟨hf, hlt⟩ := hwait
    obtain ⟨hw, hfirst, -, hempty⟩ := h.waiting hf hlt
    have hlen := h.length_of_orderly hf hlt ho
    have hlast : s.promises.length - 1 = s.pushed.length := by omega
    rw [hlast] at hw
    rw [call_push_resolved f hw hf]
    refine ⟨?_, ?_, ?_, h.late⟩
    · intro k hk
      dsimp only at hk ⊢
      rw [List.length_modify] at hk
      rw [expected_concat]
      by_cases hself : k = s.pushed.length
      · rw [if_pos hself, hself, List.getElem?_modify_eq, hfirst]
        rfl
      · rw [if_neg hself, List.getElem?_modify_ne _ _ (Ne.symm hself)]
        exact h.settled k hk
    · have hdrop : (s.pushed ++ [f]).drop s.promises.length = [] := List.drop_eq_nil_of_le (by simp; omega)
      simp only [List.length_modify, hdrop, hempty, h.late hf, List.append_nil]
    · have hno : ¬(s.pushed ++ [f]).length < s.promises.length := by
        simp
        omega
      simp only [List.length_modify, hno, and_false, if_false]
  · have hw := h.not_waiting hwait
    rw [call_push_queued f hw]
    by_cases hf : s.sink.failure = none
    · have hle : s.promises.length ≤ s.pushed.length := Nat.le_of_not_lt fun hlt => hwait ⟨hf, hlt⟩
      simp only [if_pos hf]
      refine ⟨?_, ?_, ?_, h.late⟩
      · intro k hk
        dsimp only at hk ⊢
        rw [expected_concat, if_neg (Nat.ne_of_lt (Nat.lt_of_lt_of_le hk hle))]
        exact h.settled k hk
      · simp [h.frames, h.late hf, List.drop_append_of_le_length hle]
      · have hno : ¬(s.sink.failure = none ∧ (s.pushed ++ [f]).length < s.promises.length) := by
          rintro ⟨-, hlt⟩
          simp at hlt
          omega
        simp only [hno, if_false]
        exact hw
    · simp only [if_neg hf]
      refine ⟨h.settled, ?_, ?_, fun hnone => absurd hnone hf⟩
      · simp only [h.frames, List.append_assoc]
      · simp only [hf, false_and, if_false]
        exact hw

/-- A failure that no promise waits for. -/
theorem call_fail_noted {s : State} (e : Thrown) (hw : s.sink.waiter = none) :
    call s (.fail e) = { s with sink := { s.sink with failure := s.sink.failure.or (some e) } } := by
  simp only [call, StreamSink.fail, hw, settle]

/-- A failure rejects the promise that waits. -/
theorem call_fail_rejected {s : State} (e : Thrown) {w : Nat} (hw : s.sink.waiter = some w) (hf : s.sink.failure = none) :
    call s (.fail e) =
      { s with
        sink := { s.sink with failure := some e, waiter := none }
        promises := s.promises.modify w (fun p => p.or (some (.error e))) } := by
  simp only [call, StreamSink.fail, hw, hf, Option.none_or, settle]

/-- A failure that comes while at most one promise is pending. -/
theorem Inv.fail {s : State} (h : Inv s) {e : Thrown} (ho : Orderly s (.fail e)) : Inv (call s (.fail e)) := by
  by_cases hwait : s.sink.failure = none ∧ s.pushed.length < s.promises.length
  · obtain ⟨hf, hlt⟩ := hwait
    obtain ⟨hw, hfirst, -, hempty⟩ := h.waiting hf hlt
    have hlen := h.length_of_orderly hf hlt ho
    have hlast : s.promises.length - 1 = s.pushed.length := by omega
    rw [hlast] at hw
    rw [call_fail_rejected e hw hf]
    refine ⟨?_, ?_, ?_, nofun⟩
    · intro k hk
      dsimp only at hk ⊢
      rw [List.length_modify] at hk
      by_cases hself : k = s.pushed.length
      · rw [hself, List.getElem?_modify_eq, hfirst, expected_of_ge _ (Nat.le_refl _)]
        rfl
      · have hearlier : k < s.pushed.length := by omega
        rw [List.getElem?_modify_ne _ _ (Ne.symm hself), h.settled k hk, expected_of_lt _ hearlier, expected_of_lt _ hearlier]
    · simp only [List.length_modify, h.frames]
    · simp
  · have hw := h.not_waiting hwait
    rw [call_fail_noted e hw]
    refine ⟨?_, h.frames, ?_, ?_⟩
    · intro k hk
      have hsettled : expected s.pushed s.sink.failure k ≠ none := fun hnone => by
        obtain ⟨hle, hf⟩ := expected_eq_none.1 hnone
        exact hwait ⟨hf, Nat.lt_of_le_of_lt hle hk⟩
      dsimp only
      rw [expected_or hsettled]
      exact h.settled k hk
    · cases hf : s.sink.failure <;> simp [hw]
    · intro hnone
      cases hf : s.sink.failure <;> simp [hf] at hnone

/-- A promise more, settled as it is to be, changes nothing that has been said of the others. -/
theorem Inv.settled_concat {s : State} (h : Inv s) {p : Promised} (hp : p = expected s.pushed s.sink.failure s.promises.length) (k : Nat)
    (hk : k < (s.promises ++ [p]).length) : (s.promises ++ [p])[k]? = some (expected s.pushed s.sink.failure k) := by
  rw [getElem?_concat]
  by_cases hself : k = s.promises.length
  · rw [if_pos hself, hself, hp]
  · rw [List.length_append, List.length_singleton] at hk
    rw [if_neg hself]
    exact h.settled k (by omega)

/-- A frame pushed before the failure that is still queued is given out at once. -/
theorem call_next_queued {s : State} {f : Frame} {rest : List Frame} (hq : s.sink.frames = f :: rest) :
    call s .next = { s with sink := { s.sink with frames := rest }, promises := s.promises ++ [some (.ok f)] } := by
  simp only [call, StreamSink.next, hq]

theorem call_next_rejected {s : State} {e : Thrown} (hq : s.sink.frames = []) (hf : s.sink.failure = some e) :
    call s .next = { s with promises := s.promises ++ [some (.error e)] } := by
  simp only [call, StreamSink.next, hq, hf]

theorem call_next_pending {s : State} (hq : s.sink.frames = []) (hf : s.sink.failure = none) :
    call s .next = { s with sink := { s.sink with waiter := some s.promises.length }, promises := s.promises ++ [none] } := by
  simp only [call, StreamSink.next, hq, hf]

/-- A promise that is not for a frame pushed after the failure. -/
theorem Inv.next {s : State} (h : Inv s) (ho : Orderly s .next) : Inv (call s .next) := by
  rcases Nat.lt_or_ge s.promises.length s.pushed.length with hlt | hge
  · have hdrop : s.pushed.drop s.promises.length = s.pushed[s.promises.length] :: s.pushed.drop (s.promises.length + 1) :=
      List.drop_eq_getElem_cons hlt
    have hframes := h.frames
    rw [hdrop, List.cons_append] at hframes
    rw [call_next_queued hframes]
    refine ⟨h.settled_concat (expected_of_lt _ hlt).symm, ?_, ?_, h.late⟩
    · simp
    · have hw := h.not_waiting (fun hwait => absurd hwait.2 (Nat.not_lt_of_gt hlt))
      refine hw.trans (if_neg ?_).symm
      rintro ⟨-, hlt'⟩
      simp at hlt'
      omega
  · have hlate : s.late = [] := ho.resolve_right (Nat.not_lt_of_ge hge)
    have hdrop : s.pushed.drop s.promises.length = [] := List.drop_eq_nil_of_le hge
    have hdrop' : s.pushed.drop (s.promises.length + 1) = [] := List.drop_eq_nil_of_le (Nat.le_succ_of_le hge)
    have hframes : s.sink.frames = [] := by
      rw [h.frames, hdrop, hlate]
      rfl
    have hexpected := expected_of_ge s.sink.failure hge
    cases hf : s.sink.failure with
    | some e =>
      rw [hf] at hexpected
      rw [call_next_rejected hframes hf]
      refine ⟨h.settled_concat (by rw [hf, hexpected]; rfl), ?_, ?_, h.late⟩
      · simp [hframes, hdrop', hlate]
      · have hw := h.not_waiting (fun hwait => nomatch hf.symm.trans hwait.1)
        simp [hf, hw]
    | none =>
      rw [hf] at hexpected
      rw [call_next_pending hframes hf]
      refine ⟨h.settled_concat (by rw [hf, hexpected]; rfl), ?_, ?_, h.late⟩
      · simp [hframes, hdrop', hlate]
      · have hlt : s.pushed.length < s.promises.length + 1 := Nat.lt_succ_of_le hge
        simp [hf, hlt]

theorem inv_init : Inv machine.init where
  settled := by
    intro k hk
    cases hk
  frames := rfl
  waiter := rfl
  late := fun _ => rfl

theorem inv_of_meets {tr : List Action} {s : State} (hr : machine.Runs tr s) (hm : machine.Meets Orderly tr) : Inv s := by
  refine Machine.Runs.rec_on_meets (C := Orderly) (P := fun _ s => Inv s) inv_init ?_ hr hm
  rintro tr s a _ - h ho ⟨⟩
  cases a with
  | push f => exact h.push ho
  | fail e => exact h.fail ho
  | next => exact h.next ho

/-- With two promises pending, the first of them is not the waiter. -/
theorem Inv.displaced {s : State} (h : Inv s) (htwo : ¬∀ j k : Nat, s.promises[j]? = some none → s.promises[k]? = some none → j = k) :
    s.sink.failure = none ∧ s.pushed.length < s.promises.length ∧ s.promises.length - 1 ≠ s.pushed.length := by
  push Not at htwo
  obtain ⟨j, k, hj, hk, hne⟩ := htwo
  have hpending : ∀ i, s.promises[i]? = some none → i < s.promises.length ∧ s.pushed.length ≤ i ∧ s.sink.failure = none := by
    intro i hi
    have hlt := (List.getElem?_eq_some_iff.1 hi).1
    have hnone : expected s.pushed s.sink.failure i = none := Option.some.inj ((h.settled i hlt).symm.trans hi)
    exact ⟨hlt, expected_eq_none.1 hnone⟩
  obtain ⟨hj, hj', hf⟩ := hpending j hj
  obtain ⟨hk, hk', -⟩ := hpending k hk
  exact ⟨hf, by omega, by omega⟩

/-- A call that is not orderly leaves a promise that is not what it is to be. -/
theorem not_fifo_of_not_orderly {s : State} (h : Inv s) {a : Action} (ho : ¬Orderly s a) : ¬Fifo (call s a) := by
  intro hfifo
  cases a with
  | push f =>
    obtain ⟨hf, hlt, hne⟩ := h.displaced ho
    obtain ⟨hw, hfirst, -, -⟩ := h.waiting hf hlt
    have hsettled := hfifo.settled s.pushed.length none
    rw [call_push_resolved f hw hf] at hsettled
    dsimp only at hsettled
    rw [List.getElem?_modify_ne _ _ hne, expected_concat, if_pos rfl] at hsettled
    exact nomatch hsettled hfirst
  | fail e =>
    obtain ⟨hf, hlt, hne⟩ := h.displaced ho
    obtain ⟨hw, hfirst, -, -⟩ := h.waiting hf hlt
    have hsettled := hfifo.settled s.pushed.length none
    rw [call_fail_rejected e hw hf] at hsettled
    dsimp only at hsettled
    rw [List.getElem?_modify_ne _ _ hne, expected_of_ge _ (Nat.le_refl _)] at hsettled
    exact nomatch hsettled hfirst
  | next =>
    unfold Orderly at ho
    push Not at ho
    obtain ⟨hlate, hge⟩ := ho
    obtain ⟨e, hf⟩ := Option.ne_none_iff_exists'.1 (fun hnone => hlate (h.late hnone))
    obtain ⟨f, rest, hrest⟩ := List.exists_cons_of_ne_nil hlate
    have hframes : s.sink.frames = f :: rest := by
      rw [h.frames, List.drop_eq_nil_of_le hge, hrest]
      rfl
    have hsettled := hfifo.settled s.promises.length (some (.ok f))
    rw [call_next_queued hframes] at hsettled
    dsimp only at hsettled
    rw [getElem?_concat, if_pos rfl, expected_of_ge _ hge, hf] at hsettled
    exact nomatch hsettled rfl

/-- Two promises are returned before the one frame comes: the second is resolved with it, and the first is left. -/
theorem second_waiter_takes_first_frame : ¬∀ (tr : List Action) (s : State), machine.Runs tr s → Fifo s := by
  intro h
  have hfifo := h [.next, .next, .push ⟨0x0161, 0, 1, []⟩] _ rfl
  exact nomatch hfifo.settled 0 none rfl

/-- Along every run the sink is first in, first out exactly when nothing is pushed and nothing fails while two promises are pending, and no
promise is asked for that only a frame pushed after the failure is left for. -/
theorem fifo_iff_orderly {tr : List Action} {s : State} (hr : machine.Runs tr s) :
    machine.Throughout (fun _ s => Fifo s) tr ↔ machine.Meets Orderly tr := by
  refine Machine.throughout_iff_meets (B := fun _ => True) (fun _ _ _ _ h => h) ?_ ?_ hr trivial
  · exact fun tr s hr _ hm => (inv_of_meets hr hm).fifo
  · rintro tr s a _ hr hm ⟨⟩ - ho
    exact not_fifo_of_not_orderly (inv_of_meets hr hm) ho

/-- A promise that waits, then its frame. -/
theorem fifo_iff_orderly_alternating : machine.Throughout (fun _ s => Fifo s) [.next, .push ⟨0x0161, 0, 1, []⟩] := by
  obtain ⟨s, hr⟩ : ∃ s, machine.Runs [.next, .push ⟨0x0161, 0, 1, []⟩] s := ⟨_, rfl⟩
  refine (fifo_iff_orderly hr).2 ?_
  have hnext : machine.Meets Orderly [.next] := (Machine.meets_nil Orderly).snoc (s := machine.init) rfl (Or.inl rfl)
  refine hnext.snoc (s := call machine.init .next) rfl ?_
  intro j k hj hk
  have hj' := (List.getElem?_eq_some_iff.1 hj).1
  have hk' := (List.getElem?_eq_some_iff.1 hk).1
  change j < 1 at hj'
  change k < 1 at hk'
  omega

end BrainSdk.TypeScript.Sink
