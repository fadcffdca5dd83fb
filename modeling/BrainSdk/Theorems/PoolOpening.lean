import BrainSdk.Pool.Opening

/-!
# What a failed opening of a pool leaves open

`connect_with` closes the clients that were opened on the way out after a failed dial, and on no other.
-/

namespace BrainSdk.Python.AsyncPool

open Library

/-- When `connect_with` has raised, every client whose dial had succeeded has been closed. -/
def LeavesNone (s : State) : Prop := ∀ e, s.phase = .raised e → ∀ (i : Nat) (m : Member), s.members[i]? = some m → m.isOpen = false

/-- A cancellation that comes while the dials are awaited and one of them has succeeded, or while the closing tasks are awaited and one of
them has not begun, or one has not closed its client and another is not over. -/
def LosesClient (s : State) (a : Action) : Prop :=
  a = .cancel ∧
    ((s.phase = .dialling ∧ .opened ∈ s.members) ∨
      (s.phase = .cleaning ∧
        (.scheduled ∈ s.members ∨
          ∃ i < s.members.length, ∃ j < s.members.length,
            i ≠ j ∧ s.members[i]? = some .closing ∧ (s.members[j]?).any Member.isUnfinished = true)))

instance (s : State) (a : Action) : Decidable (LosesClient s a) := inferInstanceAs (Decidable (_ ∧ _))

/-- The run goes on without a cancellation that loses a client. -/
def KeepsClients (s : State) (a : Action) : Prop := ¬LosesClient s a

instance (s : State) (a : Action) : Decidable (KeepsClients s a) := inferInstanceAs (Decidable (¬_))

/-- What holds while the dials are awaited. -/
structure Dialling (s : State) : Prop where
  stage : ∀ (i : Nat) (m : Member), s.members[i]? = some m → m = .dialling ∨ m = .failed ∨ m = .opened
  cancelled : s.cancelRequested = true → ∀ i : Nat, s.members[i]? ≠ some .opened

/-- What holds while the closing tasks are awaited. -/
structure Cleaning (s : State) : Prop where
  stage : ∀ (i : Nat) (m : Member), s.members[i]? = some m → m ≠ .dialling ∧ m ≠ .opened ∧ m ≠ .skipped
  running : s.cancelRequested = false → ∀ i : Nat, s.members[i]? ≠ some (.ended true)
  begun : s.cancelRequested = true → ∀ i : Nat, s.members[i]? ≠ some .scheduled
  last : s.cancelRequested = true → ∀ (i j : Nat) (m : Member), s.members[i]? = some .closing → s.members[j]? = some m → j ≠ i →
    m.isUnfinished = false ∧ m ≠ .ended true

/-- What holds of `connect_with` as long as no cancellation loses a client. -/
def Inv (s : State) : Prop :=
  match s.phase with
  | .dialling => Dialling s
  | .cleaning => Cleaning s
  | .returned => True
  | .raised _ => ∀ (i : Nat) (m : Member), s.members[i]? = some m → m.isOpen = false

theorem Inv.dialling {s : State} (hi : Inv s) (h : s.phase = .dialling) : Dialling s := by
  unfold Inv at hi
  rwa [h] at hi

theorem Inv.cleaning {s : State} (hi : Inv s) (h : s.phase = .cleaning) : Cleaning s := by
  unfold Inv at hi
  rwa [h] at hi

theorem Dialling.inv {s : State} (hd : Dialling s) (h : s.phase = .dialling) : Inv s := by
  unfold Inv
  rwa [h]

theorem Cleaning.inv {s : State} (hc : Cleaning s) (h : s.phase = .cleaning) : Inv s := by
  unfold Inv
  rwa [h]

/-! ### What a step can do -/

theorem move_eq_some {s s' : State} {i : Nat} {old new : Member} (h : s.move i old new = some s') :
    s.members[i]? = some old ∧ s' = { s with members := s.members.set i new } := by
  unfold State.move at h
  split at h
  · rename_i hi
    exact ⟨hi, (Option.some.inj h).symm⟩
  · cases h

/-- What `connect_with` does after the dials. -/
inductive Settled (s : State) : State → Prop
  | cancelled (h : s.cancelRequested = true) : Settled s { s with phase := .raised .cancelled }
  | returned : Settled s { s with phase := .returned }
  | clean : Settled s { members := s.members.map Member.close, cancelRequested := false, phase := .cleaning }
  | raised (e : Error) (h : .opened ∉ s.members) : Settled s { s with phase := .raised e }

/-- What each action needs of the state, and the state it leaves. -/
inductive Effect (s : State) : Action → State → Prop
  | dialOk {i : Nat} (hp : s.phase = .dialling) (hc : s.cancelRequested = false) (hi : s.members[i]? = some .dialling) :
      Effect s (.dialOk i) { s with members := s.members.set i .opened }
  | dialFail {i : Nat} (hp : s.phase = .dialling) (hi : s.members[i]? = some .dialling) :
      Effect s (.dialFail i) { s with members := s.members.set i .failed }
  | beginClose {i : Nat} (hp : s.phase = .cleaning) (hi : s.members[i]? = some .scheduled) :
      Effect s (.beginClose i) { s with members := s.members.set i .closing }
  | closed {i : Nat} (hp : s.phase = .cleaning) (hi : s.members[i]? = some .closing) :
      Effect s (.closed i) { s with members := s.members.set i .closed }
  | endClose {i : Nat} {cancelled : Bool} (hp : s.phase = .cleaning) (hc : cancelled = true → s.cancelRequested = true)
      (hi : s.members[i]? = some .closed) : Effect s (.endClose i cancelled) { s with members := s.members.set i (.ended cancelled) }
  | cancelDials (hp : s.phase = .dialling) : Effect s .cancel { s with cancelRequested := true }
  | cancelCloses (hp : s.phase = .cleaning) :
      Effect s .cancel { s with cancelRequested := true, members := s.members.map Member.cancel }
  | settled {s' : State} (hp : s.phase = .dialling) (hd : .dialling ∉ s.members) (h : Settled s s') : Effect s .resume s'
  | gaveUp (hp : s.phase = .cleaning) {m : Member} (hm : m ∈ s.members) (hc : m.isCancelled = true) :
      Effect s .resume { s with phase := .raised .cancelled }
  | cleaned (hp : s.phase = .cleaning) (e : Error) (hs : .scheduled ∉ s.members) (hu : ∀ m ∈ s.members, m.isUnfinished = false) :
      Effect s .resume { s with phase := .raised e }

theorem resume_effect {s s' : State} (h : s.resume = some s') : Effect s .resume s' := by
  unfold State.resume at h
  split at h
  · rename_i hp
    split at h
    · cases h
    · rename_i hd
      have hd : .dialling ∉ s.members := fun hm => hd (List.contains_iff_mem.2 hm)
      split at h
      · rename_i hc
        cases h
        exact .settled hp hd (.cancelled hc)
      · split at h
        · cases h
          exact .settled hp hd .returned
        · split at h
          · cases h
            exact .settled hp hd .clean
          · rename_i ho
            cases h
            exact .settled hp hd (.raised _ fun hm => ho (List.contains_iff_mem.2 hm))
  · rename_i hp
    split at h
    · rename_i hany
      cases h
      obtain ⟨m, hm, hc⟩ := List.any_eq_true.1 hany
      exact .gaveUp hp hm hc
    · split at h
      · cases h
      · rename_i hnot
        rw [Bool.or_eq_true, not_or] at hnot
        have hs : .scheduled ∉ s.members := fun hm => hnot.1 (List.contains_iff_mem.2 hm)
        have hu : ∀ m ∈ s.members, m.isUnfinished = false := by
          intro m hm
          by_contra hne
          exact hnot.2 (List.any_eq_true.2 ⟨m, hm, Bool.not_eq_false _ ▸ hne⟩)
        split at h
        · cases h
          exact .cleaned hp _ hs hu
        · obtain ⟨i, -, rfl⟩ := Option.map_eq_some_iff.1 h
          exact .cleaned hp _ hs hu
  · cases h
  · cases h

theorem step_effect {s s' : State} {a : Action} (h : s.step a = some s') : Effect s a s' := by
  cases a with
  | dialOk i =>
    obtain ⟨⟨hp, hc⟩, h⟩ := Option.ite_none_right_eq_some.1 h
    obtain ⟨hi, rfl⟩ := move_eq_some h
    exact .dialOk hp hc hi
  | dialFail i =>
    obtain ⟨hp, h⟩ := Option.ite_none_right_eq_some.1 h
    obtain ⟨hi, rfl⟩ := move_eq_some h
    exact .dialFail hp hi
  | beginClose i =>
    obtain ⟨hp, h⟩ := Option.ite_none_right_eq_some.1 h
    obtain ⟨hi, rfl⟩ := move_eq_some h
    exact .beginClose hp hi
  | closed i =>
    obtain ⟨hp, h⟩ := Option.ite_none_right_eq_some.1 h
    obtain ⟨hi, rfl⟩ := move_eq_some h
    exact .closed hp hi
  | endClose i cancelled =>
    obtain ⟨⟨hp, hc⟩, h⟩ := Option.ite_none_right_eq_some.1 h
    obtain ⟨hi, rfl⟩ := move_eq_some h
    exact .endClose hp hc hi
  | cancel =>
    simp only [State.step] at h
    split at h
    · rename_i hp
      cases h
      exact .cancelDials hp
    · rename_i hp
      cases h
      exact .cancelCloses hp
    · cases h
    · cases h
  | resume => exact resume_effect h

/-! ### As long as no cancellation loses a client -/

/-- A member of a table that has had one entry replaced is the new one, or it was there before. -/
theorem of_set {l : List Member} {i j : Nat} {old new m : Member} (hi : l[i]? = some old) (hj : (l.set i new)[j]? = some m) :
    (j = i ∧ m = new) ∨ (j ≠ i ∧ l[j]? = some m) := by
  rw [getElem?_set_of_some hi] at hj
  by_cases hji : j = i
  · rw [if_pos hji] at hj
    exact .inl ⟨hji, (Option.some.inj hj).symm⟩
  · rw [if_neg hji] at hj
    exact .inr ⟨hji, hj⟩

theorem Dialling.move {s : State} {i : Nat} {new : Member} (h : Dialling s) (hi : s.members[i]? = some .dialling)
    (hnew : new = .failed ∨ (new = .opened ∧ s.cancelRequested = false)) : Dialling { s with members := s.members.set i new } where
  stage j m hj := by
    rcases of_set hi hj with ⟨-, rfl⟩ | ⟨-, hold⟩
    · exact .inr (hnew.imp_right And.left)
    · exact h.stage j m hold
  cancelled hc j hj := by
    rcases of_set hi hj with ⟨-, rfl⟩ | ⟨-, hold⟩
    · rcases hnew with hnew | ⟨-, hno⟩
      · cases hnew
      · exact nomatch hno.symm.trans hc
    · exact h.cancelled hc j hold

/-- A closing task goes on: it begins when nothing is cancelled, closes its client, or ends. -/
theorem Cleaning.move {s : State} {i : Nat} {old new : Member} (h : Cleaning s) (hi : s.members[i]? = some old)
    (hnew : (old = .scheduled ∧ new = .closing) ∨ (old = .closing ∧ new = .closed) ∨
      ∃ cancelled, old = .closed ∧ new = .ended cancelled ∧ (cancelled = true → s.cancelRequested = true)) :
    Cleaning { s with members := s.members.set i new } where
  stage j m hj := by
    rcases of_set hi hj with ⟨-, rfl⟩ | ⟨-, hold⟩
    · rcases hnew with ⟨-, rfl⟩ | ⟨-, rfl⟩ | ⟨c, -, rfl, -⟩ <;> exact ⟨nofun, nofun, nofun⟩
    · exact h.stage j m hold
  running hc j hj := by
    rcases of_set hi hj with ⟨-, rfl⟩ | ⟨-, hold⟩
    · rcases hnew with ⟨-, hnew⟩ | ⟨-, hnew⟩ | ⟨c, -, hnew, hcc⟩
      · cases hnew
      · cases hnew
      · cases hnew
        exact nomatch hc.symm.trans (hcc rfl)
    · exact h.running hc j hold
  begun hc j hj := by
    rcases of_set hi hj with ⟨-, rfl⟩ | ⟨-, hold⟩
    · rcases hnew with ⟨-, hnew⟩ | ⟨-, hnew⟩ | ⟨c, -, hnew, -⟩ <;> cases hnew
    · exact h.begun hc j hold
  last hc j k m hj hk hkj := by
    -- the entry that has moved is not one of the two: it was not begun, or was unfinished itself
    have hne : old = .scheduled → False := fun hold => h.begun hc i (hold ▸ hi)
    rcases of_set hi hj with ⟨-, hclosing⟩ | ⟨-, hold⟩
    · rcases hnew with ⟨hold, -⟩ | ⟨-, rfl⟩ | ⟨c, -, rfl, -⟩
      · exact absurd hold hne
      · cases hclosing
      · cases hclosing
    · rcases of_set hi hk with ⟨rfl, -⟩ | ⟨-, hk⟩
      · have hfin := (h.last hc j k old hold hi hkj).1
        rcases hnew with ⟨hold, -⟩ | ⟨rfl, -⟩ | ⟨c, rfl, -, -⟩
        · exact absurd hold hne
        · cases hfin
        · cases hfin
      · exact h.last hc j k m hold hk hkj

/-- A cancellation that loses no client finds every closing task begun, and lets them go on as they are. -/
theorem Cleaning.cancel {s : State} (hp : s.phase = .cleaning) (h : Cleaning s) (hk : KeepsClients s .cancel) :
    Cleaning { s with cancelRequested := true, members := s.members.map Member.cancel } := by
  have hnone : .scheduled ∉ s.members := fun hm => hk ⟨rfl, .inr ⟨hp, .inl hm⟩⟩
  have hsame : s.members.map Member.cancel = s.members := by
    refine (List.map_congr_left fun m hm => ?_).trans (List.map_id _)
    cases m with
    | scheduled => exact absurd hm hnone
    | _ => rfl
  rw [hsame]
  refine ⟨h.stage, nofun, fun _ i hi => hnone (List.mem_of_getElem? hi), fun _ i j m hi hj hji => ⟨?_, ?_⟩⟩
  · by_contra hun
    have hun : (s.members[j]?).any Member.isUnfinished = true := by
      rw [hj]
      exact Bool.not_eq_false _ ▸ hun
    have hlt : i < s.members.length := (List.getElem?_eq_some_iff.1 hi).1
    have hlt' : j < s.members.length := (List.getElem?_eq_some_iff.1 hj).1
    exact hk ⟨rfl, .inr ⟨hp, .inr ⟨i, hlt, j, hlt', hji.symm, hi, hun⟩⟩⟩
  · rintro rfl
    cases hc : s.cancelRequested with
    | false => exact h.running hc j hj
    | true => exact (h.last hc i j _ hi hj hji).2 rfl

theorem Inv.step {s s' : State} {a : Action} (hi : Inv s) (hk : KeepsClients s a) (hs : s.step a = some s') : Inv s' := by
  cases step_effect hs with
  | dialOk hp hc hm => exact ((hi.dialling hp).move hm (.inr ⟨rfl, hc⟩)).inv hp
  | dialFail hp hm => exact ((hi.dialling hp).move hm (.inl rfl)).inv hp
  | beginClose hp hm => exact ((hi.cleaning hp).move hm (.inl ⟨rfl, rfl⟩)).inv hp
  | closed hp hm => exact ((hi.cleaning hp).move hm (.inr (.inl ⟨rfl, rfl⟩))).inv hp
  | endClose hp hc hm => exact ((hi.cleaning hp).move hm (.inr (.inr ⟨_, rfl, rfl, hc⟩))).inv hp
  | cancelDials hp =>
    have h : Dialling { s with cancelRequested := true } :=
      ⟨(hi.dialling hp).stage, fun _ i hm => hk ⟨rfl, .inl ⟨hp, List.mem_of_getElem? hm⟩⟩⟩
    exact h.inv hp
  | cancelCloses hp => exact ((hi.cleaning hp).cancel hp hk).inv hp
  | settled hp hd h =>
    have hinv := hi.dialling hp
    have hfailed : (∀ i : Nat, s.members[i]? ≠ some .opened) →
        ∀ (i : Nat) (m : Member), s.members[i]? = some m → m.isOpen = false := by
      intro hno i m hm
      rcases hinv.stage i m hm with rfl | rfl | rfl
      · rfl
      · rfl
      · exact absurd hm (hno i)
    cases h with
    | cancelled hc => exact hfailed (hinv.cancelled hc)
    | returned => trivial
    | clean =>
      have hstage : ∀ (i : Nat) (m : Member), (s.members.map Member.close)[i]? = some m → m = .failed ∨ m = .scheduled := by
        intro i m hm
        rw [List.getElem?_map] at hm
        obtain ⟨m, hold, rfl⟩ := Option.map_eq_some_iff.1 hm
        rcases hinv.stage i m hold with rfl | rfl | rfl
        · exact absurd (List.mem_of_getElem? hold) hd
        · exact .inl rfl
        · exact .inr rfl
      refine Cleaning.mk (fun i m hm => ?_) (fun _ i hm => ?_) nofun nofun
      · rcases hstage i m hm with rfl | rfl <;> exact ⟨nofun, nofun, nofun⟩
      · rcases hstage i _ hm with h | h <;> cases h
    | raised e ho => exact hfailed fun i hm => ho (List.mem_of_getElem? hm)
  | @gaveUp hp m hm hc =>
    have hinv := hi.cleaning hp
    obtain ⟨j, hj⟩ := List.getElem?_of_mem hm
    have hended : m = .ended true := by
      cases m with
      | ended c => rw [show c = true from hc]
      | skipped => exact absurd rfl (hinv.stage j _ hj).2.2
      | _ => cases hc
    subst hended
    have hcancel : s.cancelRequested = true := by
      by_contra hno
      exact hinv.running (Bool.not_eq_true _ ▸ hno) j hj
    intro i m hi
    obtain ⟨-, hopened, hskipped⟩ := hinv.stage i m hi
    cases m with
    | opened => exact absurd rfl hopened
    | skipped => exact absurd rfl hskipped
    | scheduled => exact absurd hi (hinv.begun hcancel i)
    | closing =>
      have hij : j ≠ i := by
        rintro rfl
        cases hi.symm.trans hj
      exact absurd rfl (hinv.last hcancel i j _ hi hj hij).2
    | _ => rfl
  | cleaned hp e hnone hu =>
    have hinv := hi.cleaning hp
    intro i m hi
    obtain ⟨-, hopened, hskipped⟩ := hinv.stage i m hi
    cases m with
    | opened => exact absurd rfl hopened
    | skipped => exact absurd rfl hskipped
    | scheduled => exact absurd (List.mem_of_getElem? hi) hnone
    | closing => exact nomatch hu _ (List.mem_of_getElem? hi)
    | _ => rfl

theorem inv_connectWith (size : Int) : Inv (State.connectWith size) := by
  unfold State.connectWith
  split
  · exact fun i m hm => nomatch hm
  · refine Dialling.inv ⟨fun i m hm => .inl ?_, nofun⟩ rfl
    exact List.eq_of_mem_replicate (List.mem_of_getElem? hm)

theorem inv_runs {size : Int} {tr : List Action} {s : State} (hr : (machine size).Runs tr s) (hm : (machine size).Meets KeepsClients tr) :
    Inv s :=
  Machine.Runs.rec_on_meets (M := machine size) (P := fun _ s => Inv s) (inv_connectWith size)
    (fun _ _ _ _ _ hi hk hs => hi.step hk hs) hr hm

theorem Inv.leavesNone {s : State} (hi : Inv s) : LeavesNone s := by
  intro e he
  unfold Inv at hi
  rwa [he] at hi

/-! ### A cancellation that loses a client -/

/-- The dials that are under way may all fail. -/
theorem dials_fail (size : Int) {s : State} (hp : s.phase = .dialling) : ∃ t, (machine size).Leads s t ∧ t.phase = .dialling ∧
    t.cancelRequested = s.cancelRequested ∧ .dialling ∉ t.members ∧
    ∀ i : Nat, s.members[i]? = some .opened → t.members[i]? = some .opened := by
  -- by induction on the number of the dials
  induction hn : s.members.count .dialling generalizing s with
  | zero => exact ⟨s, .refl s, hp, rfl, List.count_eq_zero.1 hn, fun _ h => h⟩
  | succ n ih =>
    have hmem : .dialling ∈ s.members := List.count_pos_iff.1 (by omega)
    obtain ⟨i, hi⟩ := List.getElem?_of_mem hmem
    obtain ⟨hlt, hget⟩ := List.getElem?_eq_some_iff.1 hi
    let u : State := { s with members := s.members.set i .failed }
    have hstep : (machine size).step s (.dialFail i) = some u := (if_pos hp).trans (if_pos hi)
    have hcount : u.members.count .dialling = n := by
      rw [List.count_set hlt, hget, hn]
      rfl
    obtain ⟨t, ht, htp, htc, htd, hto⟩ := ih (s := u) hp hcount
    refine ⟨t, (Machine.Leads.step hstep).trans ht, htp, htc, htd, fun j hj => hto j ?_⟩
    have hij : i ≠ j := by
      rintro rfl
      cases hi.symm.trans hj
    exact (List.getElem?_set_ne hij).trans hj

/-- A cancellation while the dials are awaited: `connect_with` raises when they are over, and the client stays open. -/
theorem cancelDials_leaves (size : Int) {s : State} (hp : s.phase = .dialling) (ho : .opened ∈ s.members) :
    ∃ t, (machine size).Leads { s with cancelRequested := true } t ∧ ¬LeavesNone t := by
  obtain ⟨i, hi⟩ := List.getElem?_of_mem ho
  obtain ⟨t, ht, htp, htc, htd, hto⟩ := dials_fail size (s := { s with cancelRequested := true }) hp
  have hresume : (machine size).step t .resume = some { t with phase := .raised .cancelled } := by
    show t.resume = _
    unfold State.resume
    rw [htp]
    have hd : t.members.contains .dialling = false := by
      rw [← Bool.not_eq_true, List.contains_iff_mem]
      exact htd
    simp only [hd, htc, if_true, Bool.false_eq_true, if_false]
  refine ⟨_, ht.trans (.step hresume), fun hleaves => ?_⟩
  exact nomatch hleaves .cancelled rfl i .opened (hto i hi)

/-- When a closing task has ended by being cancelled, `connect_with` may raise. -/
theorem gaveUp_leads (size : Int) {s : State} (hp : s.phase = .cleaning) {m : Member} (hm : m ∈ s.members) (hc : m.isCancelled = true) :
    (machine size).Leads s { s with phase := .raised .cancelled } := by
  refine .step (a := .resume) ?_
  show s.resume = _
  unfold State.resume
  rw [hp]
  exact if_pos (List.any_eq_true.2 ⟨m, hm, hc⟩)

/-- A cancellation while closing tasks are awaited and one of them has not begun. -/
theorem cancelScheduled_leaves (size : Int) {s : State} (hp : s.phase = .cleaning) (hs : .scheduled ∈ s.members) :
    ∃ t, (machine size).Leads { s with cancelRequested := true, members := s.members.map Member.cancel } t ∧ ¬LeavesNone t := by
  have hskipped : Member.skipped ∈ s.members.map Member.cancel := List.mem_map.2 ⟨.scheduled, hs, rfl⟩
  obtain ⟨i, hi⟩ := List.getElem?_of_mem hskipped
  let u : State := { s with cancelRequested := true, members := s.members.map Member.cancel }
  refine ⟨_, gaveUp_leads size (s := u) hp hskipped rfl, fun hleaves => ?_⟩
  exact nomatch hleaves .cancelled rfl i .skipped hi

/-- A closing task that has begun may close its client and end before the others go on. -/
theorem unfinished_ends (size : Int) {s : State} (hp : s.phase = .cleaning) (hc : s.cancelRequested = true) {j : Nat} {m : Member}
    (hj : s.members[j]? = some m) (hm : m.isUnfinished = true) :
    (machine size).Leads s { s with members := s.members.set j (.ended true) } := by
  have hend : ∀ {u : State}, u.phase = .cleaning → u.cancelRequested = true → u.members[j]? = some .closed →
      (machine size).Leads u { u with members := u.members.set j (.ended true) } := fun hup huc huj =>
    .step (a := .endClose j true) ((if_pos ⟨hup, fun _ => huc⟩).trans (if_pos huj))
  cases m with
  | closing =>
    let u : State := { s with members := s.members.set j .closed }
    have hclosed : (machine size).Leads s u := .step (a := .closed j) ((if_pos hp).trans (if_pos hj))
    have hended := hclosed.trans (hend (u := u) hp hc (getElem?_set_self_of_some hj _))
    have hset : u.members.set j (.ended true) = s.members.set j (.ended true) := List.set_set _
    rwa [hset] at hended
  | closed => exact hend hp hc hj
  | _ => cases hm

/-- A cancellation while closing tasks are awaited, one of them has not closed its client, and another is not over. -/
theorem cancelClosing_leaves (size : Int) {s : State} (hp : s.phase = .cleaning) {i j : Nat} (hij : i ≠ j)
    (hi : s.members[i]? = some .closing) (hj : (s.members[j]?).any Member.isUnfinished = true) :
    ∃ t, (machine size).Leads { s with cancelRequested := true, members := s.members.map Member.cancel } t ∧ ¬LeavesNone t := by
  let u : State := { s with cancelRequested := true, members := s.members.map Member.cancel }
  obtain ⟨m, hm, hun⟩ := (Option.any_eq_true _ _).1 hj
  have huj : u.members[j]? = some m := by
    show (s.members.map Member.cancel)[j]? = some m
    rw [List.getElem?_map, hm]
    cases m <;> first | rfl | cases hun
  have hui : u.members[i]? = some .closing := by
    show (s.members.map Member.cancel)[i]? = some .closing
    rw [List.getElem?_map, hi]
    rfl
  let v : State := { u with members := u.members.set j (.ended true) }
  have huv : (machine size).Leads u v := unfinished_ends size (s := u) hp rfl huj hun
  have hvj : Member.ended true ∈ v.members := List.mem_of_getElem? (getElem?_set_self_of_some huj _)
  refine ⟨_, huv.trans (gaveUp_leads size (s := v) hp hvj rfl), fun hleaves => ?_⟩
  exact nomatch hleaves .cancelled rfl i .closing ((List.getElem?_set_ne hij.symm).trans hui)

/-- A cancellation that loses a client can be followed by steps after which `connect_with` has raised and left a client open. -/
theorem loses_leaves (size : Int) {s s' : State} {a : Action} (hs : (machine size).step s a = some s') (h : LosesClient s a) :
    ∃ t, (machine size).Leads s' t ∧ ¬LeavesNone t := by
  obtain ⟨rfl, h⟩ := h
  have hs : s.step .cancel = some s' := hs
  cases step_effect hs with
  | cancelDials hp =>
    rcases h with ⟨-, ho⟩ | ⟨hp', -⟩
    · exact cancelDials_leaves size hp ho
    · cases hp.symm.trans hp'
  | cancelCloses hp =>
    rcases h with ⟨hp', -⟩ | ⟨-, hsched | ⟨i, -, j, -, hij, hi, hj⟩⟩
    · cases hp.symm.trans hp'
    · exact cancelScheduled_leaves size hp hsched
    · exact cancelClosing_leaves size hp hij hi hj

/-- A partly opened pool leaves no client open as long as no cancellation loses one, and each such cancellation can leave one. -/
theorem connectWith_leavesNone (size : Int) :
    (∀ tr s, (machine size).Runs tr s → (machine size).Meets KeepsClients tr → LeavesNone s) ∧
    (∀ tr s a s', (machine size).Runs tr s → (machine size).step s a = some s' → ¬KeepsClients s a →
      ∃ tr' t, (machine size).Runs (tr ++ a :: tr') t ∧ ¬LeavesNone t) := by
  refine ⟨fun tr s hr hm => (inv_runs hr hm).leavesNone, fun tr s a s' hr hs hk => ?_⟩
  obtain ⟨t, ⟨tr', ht⟩, hleaves⟩ := loses_leaves size hs (not_not.1 hk)
  refine ⟨tr', t, ?_, hleaves⟩
  show (machine size).exec _ (tr ++ a :: tr') = some t
  rw [Machine.exec_append, show (machine size).exec (machine size).init tr = some s from hr, Option.bind_some]
  exact Option.bind_eq_some_iff.2 ⟨s', hs, ht⟩

/-- One dial fails after the other has succeeded, and the cleanup is cancelled when it is under way. -/
def cancelledInCleanup : List Action :=
  [.dialOk 0, .dialFail 1, .resume, .beginClose 0, .cancel, .closed 0, .endClose 0 true, .resume]

theorem cancelledInCleanup_leavesNone :
    (∃ s, (machine 2).Runs cancelledInCleanup s ∧ s.phase = .raised .cancelled ∧ LeavesNone s) ∧
    (∃ tr' t, (machine 2).Runs ([.dialOk 0] ++ .cancel :: tr') t ∧ ¬LeavesNone t) :=
  ⟨⟨_, rfl, rfl, (connectWith_leavesNone 2).1 cancelledInCleanup _ rfl (Machine.meets_of_checks (by decide))⟩,
    (connectWith_leavesNone 2).2 [.dialOk 0] _ .cancel _ rfl rfl (by decide)⟩

/-- `connect_with` is cancelled when one dial has succeeded and the other is under way: it raises, and the client stays open. -/
theorem cancelledDial_leaves :
    ∃ s, (machine 2).Runs [.dialOk 0, .cancel, .dialFail 1, .resume] s ∧ s.phase = .raised .cancelled ∧ ¬LeavesNone s :=
  ⟨_, rfl, rfl, fun h => nomatch h .cancelled rfl 0 .opened rfl⟩

end BrainSdk.Python.AsyncPool
