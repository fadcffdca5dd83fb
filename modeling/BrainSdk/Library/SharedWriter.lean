import Mathlib.Data.List.Infix
import Mathlib.Logic.Function.Basic

/-!
# Messages written under a lock

Any number of writers share one stream: a writer takes the lock, writes its message in as many pieces as the stream takes, and gives
the lock back. A write may fail, and the stream takes nothing after that; a writer may also be cut off part-way, and then the next
one goes on after whatever it left. The stream carries whole messages as long as no writer is cut off inside one.
-/

namespace BrainSdk.Library

variable {ι β : Type}

/-- Messages none of which is a proper beginning of another. -/
structure PrefixFree (Whole : List β → Prop) : Prop where
  ne_nil : ∀ b, Whole b → b ≠ []
  eq_of_le : ∀ a b, Whole a → Whole b → a <+: b → a = b

/-- Two messages that begin one stream are the same message. -/
theorem PrefixFree.head_eq {Whole : List β → Prop} (h : PrefixFree Whole) {a b s t : List β} (ha : Whole a) (hb : Whole b)
    (heq : a ++ s = b ++ t) : a = b := by
  rcases List.append_eq_append_iff.1 heq with ⟨u, rfl, -⟩ | ⟨u, rfl, -⟩
  · exact h.eq_of_le a _ ha hb (List.prefix_append a u)
  · exact (h.eq_of_le b _ hb ha (List.prefix_append b u)).symm

/-- Whole messages followed by a part of one are not whole messages. -/
theorem PrefixFree.cut_ne_flatten {Whole : List β → Prop} (h : PrefixFree Whole) {w r : List β} (hb : Whole (w ++ r))
    (hw : w ≠ []) (hr : r ≠ []) (bs bs' : List (List β)) (hbs : ∀ b ∈ bs, Whole b) (hbs' : ∀ b ∈ bs', Whole b) :
    bs.flatten ++ w ≠ bs'.flatten := by
  induction bs generalizing bs' with
  | nil =>
    intro heq
    rcases bs' with - | ⟨b', bs'⟩
    · exact hw heq
    · have hcut : w = b' ++ bs'.flatten := heq
      have hwhole : w ++ r = b' := h.head_eq (s := []) (t := bs'.flatten ++ r) hb (hbs' b' List.mem_cons_self) (by simp [hcut])
      have hlen := congrArg List.length hwhole
      rw [hcut] at hlen
      have hpos : 0 < r.length := List.length_pos_iff.2 hr
      simp only [List.length_append] at hlen
      omega
  | cons b bs ih =>
    intro heq
    have hmem : Whole b := hbs b List.mem_cons_self
    rcases bs' with - | ⟨b', bs'⟩
    · refine h.ne_nil b hmem ?_
      have hnil : b ++ bs.flatten ++ w = [] := heq
      simp only [List.append_eq_nil_iff] at hnil
      exact hnil.1.1
    · have hsame : b ++ (bs.flatten ++ w) = b' ++ bs'.flatten := by simpa using heq
      obtain rfl := h.head_eq hmem (hbs' b' List.mem_cons_self) hsame
      exact ih bs' (fun x hx => hbs x (List.mem_cons_of_mem b hx)) (fun x hx => hbs' x (List.mem_cons_of_mem b hx))
        (List.append_cancel_left hsame)

/-- A stream and its writers: who holds the lock, what each writer in its message has written of it and has left, what the stream
has taken, and whether a write on it has failed. -/
structure SharedStream (ι β : Type) where
  lock : Option ι
  part : ι → Option (List β × List β)
  sent : List β
  broken : Bool

namespace SharedStream

/-- A step of a writer. The index is what the step leaves on the stream of a message that will never be finished. -/
inductive Step [DecidableEq ι] (Whole : List β → Prop) (σ : SharedStream ι β) : List β → SharedStream ι β → Prop
  | idle : Step Whole σ [] σ
  | take {x : ι} {b : List β} (hl : σ.lock = none) (hne : b ≠ []) (hb : Whole b) :
      Step Whole σ [] { σ with lock := some x, part := Function.update σ.part x (some ([], b)) }
  | write {x : ι} {w r : List β} {n : Nat} (hp : σ.part x = some (w, r)) (hok : σ.broken = false) (hn : n < r.length) :
      Step Whole σ [] { σ with
        part := Function.update σ.part x (some (w ++ r.take n, r.drop n)), sent := σ.sent ++ r.take n }
  | finish {x : ι} {w r : List β} (hp : σ.part x = some (w, r)) (hok : σ.broken = false) :
      Step Whole σ [] { σ with lock := none, part := Function.update σ.part x none, sent := σ.sent ++ r }
  | fail {x : ι} {w r : List β} (hp : σ.part x = some (w, r)) :
      Step Whole σ [] { σ with lock := none, part := Function.update σ.part x none, broken := true }
  | cut {x : ι} {w r : List β} (hp : σ.part x = some (w, r)) :
      Step Whole σ w { σ with lock := none, part := Function.update σ.part x none }

/-- The lock is held by the one writer that is in its message, and on a stream that has failed no writer is part-way. -/
structure Inv (Whole : List β → Prop) (σ : SharedStream ι β) : Prop where
  holder : ∀ x w r, σ.part x = some (w, r) → σ.lock = some x
  held : ∀ x, σ.lock = some x → ∃ w r, σ.part x = some (w, r)
  message : ∀ x w r, σ.part x = some (w, r) → r ≠ [] ∧ Whole (w ++ r)
  stuck : σ.broken = true → ∀ x w r, σ.part x = some (w, r) → w = []

/-- The stream has whole messages and then a part of one more, whose writer is still in it unless the stream has failed. -/
def Clean (Whole : List β → Prop) (σ : SharedStream ι β) : Prop :=
  ∃ (bs : List (List β)) (p : List β), (∀ b ∈ bs, Whole b) ∧ σ.sent = bs.flatten ++ p ∧
    (p = [] ∨ ∃ r, Whole (p ++ r) ∧ (σ.broken = true ∨ ∃ x, σ.lock = some x ∧ σ.part x = some (p, r)))

/-- What the writer that holds the lock has written of its message. -/
def unfinished (σ : SharedStream ι β) : List β := ((σ.lock.bind σ.part).map Prod.fst).getD []

/-- The stream has whole messages and then exactly what the writer that holds the lock has written, unless it has failed. -/
def Exact (Whole : List β → Prop) (σ : SharedStream ι β) : Prop :=
  ∃ (bs : List (List β)) (p : List β), (∀ b ∈ bs, Whole b) ∧ σ.sent = bs.flatten ++ p ∧
    (σ.broken = false → p = σ.unfinished) ∧ (σ.broken = true → p = [] ∨ ∃ r, Whole (p ++ r))

theorem Inv.unfinished_eq {Whole : List β → Prop} {σ : SharedStream ι β} (hi : Inv Whole σ) {x : ι} {w r : List β}
    (hp : σ.part x = some (w, r)) : σ.unfinished = w := by
  simp [unfinished, hi.holder x w r hp, hp]

theorem unfinished_of_unlocked {σ : SharedStream ι β} (hl : σ.lock = none) : σ.unfinished = [] := by
  simp [unfinished, hl]

/-- A writer that does not hold the lock is in no message. -/
theorem Inv.part_eq_none {Whole : List β → Prop} {σ : SharedStream ι β} (hi : Inv Whole σ) {y : ι} (hl : σ.lock ≠ some y) :
    σ.part y = none := by
  rcases hp : σ.part y with - | ⟨w, r⟩
  · rfl
  · exact absurd (hi.holder y w r hp) hl

variable {Whole : List β → Prop} {σ σ' : SharedStream ι β} {lost : List β}

/-- The invariant, where no writer is in a message. -/
theorem inv_of_nobody (hlock : σ.lock = none) (hpart : ∀ x, σ.part x = none) : Inv Whole σ where
  holder := fun x _ _ hp => nomatch (hpart x).symm.trans hp
  held := fun _ hl => nomatch hlock.symm.trans hl
  message := fun x _ _ hp => nomatch (hpart x).symm.trans hp
  stuck := fun _ x _ _ hp => nomatch (hpart x).symm.trans hp

/-- The invariant, where one writer is in a message and no other is. -/
theorem inv_of_alone {x : ι} {w r : List β} (hlock : σ.lock = some x) (hpart : σ.part x = some (w, r))
    (hothers : ∀ y ≠ x, σ.part y = none) (hr : r ≠ []) (hw : Whole (w ++ r)) (hstuck : σ.broken = true → w = []) :
    Inv Whole σ := by
  have honly : ∀ y w' r', σ.part y = some (w', r') → y = x ∧ w = w' ∧ r = r' := by
    intro y w' r' hy
    by_cases hyx : y = x
    · rw [hyx, hpart] at hy
      cases hy
      exact ⟨hyx, rfl, rfl⟩
    · rw [hothers y hyx] at hy
      cases hy
  constructor
  · intro y w' r' hy
    obtain ⟨rfl, -, -⟩ := honly y w' r' hy
    exact hlock
  · intro y hy
    obtain rfl : x = y := Option.some.inj (hlock.symm.trans hy)
    exact ⟨w, r, hpart⟩
  · intro y w' r' hy
    obtain ⟨-, rfl, rfl⟩ := honly y w' r' hy
    exact ⟨hr, hw⟩
  · intro hb y w' r' hy
    obtain ⟨-, rfl, -⟩ := honly y w' r' hy
    exact hstuck hb

/-- The other writers are in no message while one is. -/
theorem Inv.others (hi : Inv Whole σ) {x y : ι} {w r : List β} (hp : σ.part x = some (w, r)) (hy : y ≠ x) :
    σ.part y = none := by
  refine hi.part_eq_none ?_
  rw [hi.holder x w r hp]
  exact fun h => hy (Option.some.inj h).symm

/-- An exact stream is clean. -/
theorem Exact.clean (hi : Inv Whole σ) (he : Exact Whole σ) : Clean Whole σ := by
  obtain ⟨bs, p, hbs, hsent, hopen, hfailed⟩ := he
  refine ⟨bs, p, hbs, hsent, ?_⟩
  cases hok : σ.broken with
  | true => exact (hfailed hok).imp_right (fun ⟨r, hr⟩ => ⟨r, hr, .inl rfl⟩)
  | false =>
    rcases hl : σ.lock with - | x
    · exact .inl (by rw [hopen hok, unfinished_of_unlocked hl])
    · obtain ⟨w, r, hp⟩ := hi.held x hl
      rw [hopen hok, hi.unfinished_eq hp]
      exact .inr ⟨r, (hi.message x w r hp).2, .inr ⟨x, rfl, hp⟩⟩

variable [DecidableEq ι]

/-- Each step keeps the invariant. -/
theorem Inv.step (hi : Inv Whole σ) (h : Step Whole σ lost σ') : Inv Whole σ' := by
  have hleave : ∀ {x : ι} {w r : List β}, σ.part x = some (w, r) → ∀ y, Function.update σ.part x none y = none := by
    intro x w r hp y
    by_cases hy : y = x
    · rw [hy, Function.update_self]
    · rw [Function.update_of_ne hy, hi.others hp hy]
  rcases h with - | ⟨hl, hne, hb⟩ | ⟨hp, hok, hn⟩ | ⟨hp, hok⟩ | hp | hp
  · exact hi
  · refine inv_of_alone rfl (Function.update_self _ _ _) (fun y hy => ?_) hne hb (fun _ => rfl)
    refine (Function.update_of_ne hy _ _).trans (hi.part_eq_none ?_)
    rw [hl]
    exact nofun
  · obtain ⟨-, hw⟩ := hi.message _ _ _ hp
    refine inv_of_alone (hi.holder _ _ _ hp) (Function.update_self _ _ _) (fun y hy => ?_) ?_ ?_ ?_
    · exact (Function.update_of_ne hy _ _).trans (hi.others hp hy)
    · exact List.ne_nil_of_length_pos (by rw [List.length_drop]; omega)
    · simpa using hw
    · simp [hok]
  · exact inv_of_nobody rfl (hleave hp)
  · exact inv_of_nobody rfl (hleave hp)
  · exact inv_of_nobody rfl (hleave hp)

/-- A step that leaves nothing behind keeps the stream exact. -/
theorem Exact.step (hi : Inv Whole σ) (he : Exact Whole σ) (h : Step Whole σ [] σ') : Exact Whole σ' := by
  have hi' := hi.step h
  obtain ⟨bs, p, hbs, hsent, hopen, hfailed⟩ := he
  generalize hlost : ([] : List β) = lost at h
  rcases h with - | @⟨x, b, hl, hne, hb⟩ | @⟨x, w, r, n, hp, hok, hn⟩ | @⟨x, w, r, hp, hok⟩ | @⟨x, w, r, hp⟩ | @⟨x, w, r, hp⟩
  · exact ⟨bs, p, hbs, hsent, hopen, hfailed⟩
  · refine ⟨bs, p, hbs, hsent, fun hok => ?_, hfailed⟩
    rw [hi'.unfinished_eq (Function.update_self _ _ _), hopen hok, unfinished_of_unlocked hl]
  · refine ⟨bs, w ++ r.take n, hbs, ?_, fun _ => ?_, fun hb => absurd hb (by simp [hok])⟩
    · rw [hsent, hopen hok, hi.unfinished_eq hp, List.append_assoc]
    · exact (hi'.unfinished_eq (Function.update_self _ _ _)).symm
  · obtain ⟨-, hw⟩ := hi.message x w r hp
    refine ⟨bs ++ [w ++ r], [], ?_, ?_, fun _ => rfl, fun hb => absurd hb (by simp [hok])⟩
    · intro b hb
      rcases List.mem_append.1 hb with hb | hb
      · exact hbs b hb
      · rw [List.mem_singleton.1 hb]
        exact hw
    · rw [hsent, hopen hok, hi.unfinished_eq hp]
      simp
  · refine ⟨bs, p, hbs, hsent, nofun, fun _ => ?_⟩
    cases hok : σ.broken with
    | true => exact hfailed hok
    | false =>
      rw [hopen hok, hi.unfinished_eq hp]
      exact .inr ⟨r, (hi.message x w r hp).2⟩
  · subst hlost
    refine ⟨bs, p, hbs, hsent, fun hok => ?_, hfailed⟩
    rw [hopen hok, hi.unfinished_eq hp]
    rfl

/-- A step that leaves a part of a message behind ends with a stream that is not clean. -/
theorem not_clean_of_lost (hfree : PrefixFree Whole) (hi : Inv Whole σ) (he : Exact Whole σ) (h : Step Whole σ lost σ')
    (hlost : lost ≠ []) : ¬Clean Whole σ' := by
  rcases h with - | - | - | - | - | @⟨x, w, r, hp⟩
  iterate 5 exact absurd rfl hlost
  obtain ⟨hr, hw⟩ := hi.message x lost r hp
  obtain ⟨bs, p, hbs, hsent, hopen, -⟩ := he
  have hok : σ.broken = false := by
    by_contra hb
    exact hlost (hi.stuck (by simpa using hb) x lost r hp)
  rintro ⟨bs', p', hbs', hsent', hp'⟩
  have heq : bs.flatten ++ lost = bs'.flatten ++ p' := by
    rw [← hsent', ← hi.unfinished_eq hp, ← hopen hok]
    exact hsent.symm
  rcases hp' with rfl | ⟨r', -, hb | ⟨y, hl, -⟩⟩
  · rw [List.append_nil] at heq
    exact hfree.cut_ne_flatten hw hlost hr bs bs' hbs hbs' heq
  · exact absurd hb (by simp [hok])
  · cases hl

end SharedStream

end BrainSdk.Library
