import Mathlib.Data.List.AList
import Mathlib.Data.List.Forall2
import Mathlib.Data.List.ReduceOption

/-!
# Task tables and route tables

A system with any number of tasks keeps them in a list, and a task is named by its place in it. A route table maps keys to tasks
(`AList`). The lemmas say what one update leaves of the other entries, and what updating every task of a table does.
-/

namespace BrainSdk.Library

variable {τ : Type}

/-- Replacing a task that exists changes that task and no other. -/
theorem getElem?_set_of_some {l : List τ} {i : Nat} {a : τ} (h : l[i]? = some a) (b : τ) (j : Nat) :
    (l.set i b)[j]? = if j = i then some b else l[j]? := by
  have hi : i < l.length := (List.getElem?_eq_some_iff.1 h).1
  rw [List.getElem?_set]
  by_cases hij : i = j
  · subst hij
    simp [hi]
  · rw [if_neg hij, if_neg (Ne.symm hij)]

theorem getElem?_set_self_of_some {l : List τ} {i : Nat} {a : τ} (h : l[i]? = some a) (b : τ) : (l.set i b)[i]? = some b := by
  rw [getElem?_set_of_some h, if_pos rfl]

/-- Adding a task changes no other task. -/
theorem getElem?_concat (l : List τ) (a : τ) (j : Nat) : (l ++ [a])[j]? = if j = l.length then some a else l[j]? := by
  rcases Nat.lt_trichotomy j l.length with h | h | h
  · rw [List.getElem?_append_left h, if_neg (by omega)]
  · subst h
    simp
  · rw [if_neg (by omega), List.getElem?_eq_none (by simp; omega), List.getElem?_eq_none (by omega)]

/-- The tasks named by `ids`, each updated by `f`, one after the other. -/
def updateAll (f : τ → τ) (ids : List Nat) (l : List τ) : List τ := ids.foldl (fun l i => l.modify i f) l

/-- Updating each task of a list without repetitions updates those tasks once and no other. -/
theorem getElem?_updateAll (f : τ → τ) {ids : List Nat} (hn : ids.Nodup) (l : List τ) (j : Nat) :
    (updateAll f ids l)[j]? = if j ∈ ids then l[j]?.map f else l[j]? := by
  induction ids generalizing l with
  | nil => simp [updateAll]
  | cons i ids ih =>
    obtain ⟨hi, hn'⟩ := List.nodup_cons.1 hn
    have hstep : updateAll f (i :: ids) l = updateAll f ids (l.modify i f) := rfl
    rw [hstep, ih hn', List.getElem?_modify]
    by_cases hij : i = j
    · subst hij
      cases hl : l[i]? <;> simp [hi]
    · have hji : ¬j = i := fun h => hij h.symm
      cases hl : l[j]? <;> simp [hij, hji]

/-- A place of a table that has `p` keeps it when the table grows. -/
theorem any_append {p : τ → Bool} {l : List τ} {i : Nat} (h : (l[i]?).any p = true) (l' : List τ) : ((l ++ l')[i]?).any p = true := by
  rcases hi : l[i]? with - | a
  · rw [hi] at h
    cases h
  · rw [List.getElem?_append_left (List.getElem?_eq_some_iff.1 hi).1]
    exact h

/-- A place of a table that has `p` keeps it when a change that keeps `p` is made somewhere. -/
theorem any_modify {p : τ → Bool} {f : τ → τ} (hf : ∀ a, p a = true → p (f a) = true) {l : List τ} {i : Nat}
    (h : (l[i]?).any p = true) (j : Nat) : ((l.modify j f)[i]?).any p = true := by
  rw [List.getElem?_modify]
  rcases hi : l[i]? with - | a
  · rw [hi] at h
    cases h
  · rw [hi] at h
    by_cases hj : j = i
    · simpa [hj] using hf a h
    · simpa [hj] using h

theorem any_updateAll {p : τ → Bool} {f : τ → τ} (hf : ∀ a, p a = true → p (f a) = true) (ids : List Nat) {l : List τ} {i : Nat}
    (h : (l[i]?).any p = true) : ((updateAll f ids l)[i]?).any p = true := by
  induction ids generalizing l with
  | nil => exact h
  | cons j ids ih => exact ih (any_modify hf h j)

/-- What a change brings about where it is made, and keeps, holds of all places that are updated. -/
theorem any_updateAll_of_mem {p : τ → Bool} {f : τ → τ} (hf : ∀ a, p (f a) = true) {ids : List Nat} {l : List τ} {i : Nat}
    (hi : i ∈ ids) (hlt : i < l.length) : ((updateAll f ids l)[i]?).any p = true := by
  induction ids generalizing l with
  | nil => cases hi
  | cons j ids ih =>
    rcases List.mem_cons.1 hi with rfl | hi
    · refine any_updateAll (fun a _ => hf a) ids ?_
      rw [List.getElem?_modify_eq, List.getElem?_eq_getElem hlt]
      exact hf _
    · exact ih hi (by rw [List.length_modify]; exact hlt)

theorem length_updateAll (f : τ → τ) (ids : List Nat) (l : List τ) : (updateAll f ids l).length = l.length := by
  induction ids generalizing l with
  | nil => rfl
  | cons j ids ih => exact (ih (l.modify j f)).trans (List.length_modify f l j)

/-- How many have `p` changes with the one that is replaced. -/
theorem countP_set_of_some {p : τ → Bool} {l : List τ} {i : Nat} {a : τ} (h : l[i]? = some a) (b : τ) :
    (l.set i b).countP p + (p a).toNat = l.countP p + (p b).toNat := by
  induction l generalizing i with
  | nil => cases h
  | cons c l ih =>
    cases i with
    | zero =>
      obtain rfl := Option.some.inj h
      have htoNat : ∀ x : Bool, (if x = true then 1 else 0) = x.toNat := by decide
      rw [List.set_cons_zero, List.countP_cons, List.countP_cons, htoNat, htoNat]
      omega
    | succ i =>
      have := ih h
      rw [List.set_cons_succ, List.countP_cons, List.countP_cons]
      omega

theorem countP_modify {p : τ → Bool} {f : τ → τ} (hf : ∀ a, p (f a) = p a) (l : List τ) (i : Nat) :
    (l.modify i f).countP p = l.countP p := by
  rw [List.modify_eq_set_getElem?]
  cases hi : l[i]? with
  | none => rfl
  | some a =>
    have := countP_set_of_some (p := p) hi (f a)
    rw [hf] at this
    exact Nat.add_right_cancel this

theorem countP_updateAll {p : τ → Bool} {f : τ → τ} (hf : ∀ a, p (f a) = p a) (ids : List Nat) (l : List τ) :
    (updateAll f ids l).countP p = l.countP p := by
  induction ids generalizing l with
  | nil => rfl
  | cons i ids ih => exact (ih (l.modify i f)).trans (countP_modify hf l i)

/-- Updating a task that exists puts the updated one in its place; updating another does nothing. -/
theorem modify_of_some {l : List τ} {i : Nat} {a : τ} (h : l[i]? = some a) (f : τ → τ) : l.modify i f = l.set i (f a) := by
  rw [List.modify_eq_set_getElem?, h]
  rfl

theorem modify_of_none {l : List τ} {i : Nat} (h : l[i]? = none) (f : τ → τ) : l.modify i f = l := by
  rw [List.modify_eq_set_getElem?, h]
  rfl

/-- Two lists related entry by entry stay so when related entries replace those of one place. -/
theorem forall₂_set {κ : Type} {R : τ → κ → Prop} {l : List τ} {l' : List κ} (h : List.Forall₂ R l l') {a : τ} {b : κ} (hab : R a b)
    (i : Nat) : List.Forall₂ R (l.set i a) (l'.set i b) := by
  induction h generalizing i with
  | nil => exact .nil
  | cons hc _ ih =>
    cases i with
    | zero => exact .cons hab ‹_›
    | succ i => exact .cons hc (ih i)

/-- And when an entry replaces one that was related to no more than it is. -/
theorem forall₂_set_left {κ : Type} {R : τ → κ → Prop} {l : List τ} {l' : List κ} (h : List.Forall₂ R l l') {i : Nat} {a a' : τ}
    (hi : l[i]? = some a) (hR : ∀ b, R a b → R a' b) : List.Forall₂ R (l.set i a') l' := by
  induction h generalizing i with
  | nil => exact .nil
  | cons hc _ ih =>
    cases i with
    | zero =>
      obtain rfl := Option.some.inj hi
      exact .cons (hR _ hc) ‹_›
    | succ i => exact .cons hc (ih hi)

/-- An entry more, after which there are none but empty ones. -/
theorem reduceOption_set {κ : Type} {l : List (Option κ)} {i : Nat} (hi : i < l.length) (h : ∀ x ∈ l.drop i, x = none) (a : κ) :
    (l.set i (some a)).reduceOption = l.reduceOption ++ [a] := by
  induction l generalizing i with
  | nil => exact absurd hi (Nat.not_lt_zero i)
  | cons x l ih =>
    cases i with
    | zero =>
      have hnone : l.reduceOption = [] := by
        refine List.eq_nil_iff_forall_not_mem.2 ?_
        intro y hy
        exact nomatch h _ (List.mem_cons_of_mem x (List.reduceOption_mem_iff.1 hy))
      rw [List.set_cons_zero, List.reduceOption_cons_of_some, h x List.mem_cons_self, List.reduceOption_cons_of_none, hnone]
      rfl
    | succ i =>
      rw [List.set_cons_succ]
      have := ih (Nat.lt_of_succ_lt_succ hi) h
      cases x with
      | none => rw [List.reduceOption_cons_of_none, List.reduceOption_cons_of_none, this]
      | some b => rw [List.reduceOption_cons_of_some, List.reduceOption_cons_of_some, this, List.cons_append]

/-- What is related to an entry stands at its place. -/
theorem forall₂_getElem? {κ : Type} {R : τ → κ → Prop} {l : List τ} {l' : List κ} (h : List.Forall₂ R l l') {i : Nat} {a : τ}
    (hi : l[i]? = some a) : ∃ b, l'[i]? = some b ∧ R a b := by
  induction h generalizing i with
  | nil => cases hi
  | cons hc _ ih =>
    cases i with
    | zero =>
      obtain rfl := Option.some.inj hi
      exact ⟨_, rfl, hc⟩
    | succ i => exact ih hi

/-- A prefix ends before the first entry that it does not have. -/
theorem prefix_of_not_mem {p l l' : List τ} {a : τ} (hp : p <+: l ++ a :: l') (ha : a ∉ p) : p <+: l := by
  rcases List.prefix_or_prefix_of_prefix hp (List.prefix_append l (a :: l')) with h | ⟨q, rfl⟩
  · exact h
  · cases q with
    | nil => simp
    | cons b q =>
      obtain ⟨rfl, -⟩ := List.cons_prefix_cons.1 ((List.prefix_append_right_inj l).1 hp)
      exact absurd (List.mem_append_right l List.mem_cons_self) ha

/-- What a list comes to is the same when an entry replaces one that comes to the same. -/
theorem filterMap_set_of_some {κ : Type} {g : τ → Option κ} {l : List τ} {i : Nat} {a a' : τ} (hi : l[i]? = some a) (hg : g a' = g a) :
    (l.set i a').filterMap g = l.filterMap g := by
  induction l generalizing i with
  | nil => rfl
  | cons b l ih =>
    cases i with
    | zero =>
      obtain rfl := Option.some.inj hi
      rw [List.set_cons_zero, List.filterMap_cons, List.filterMap_cons, hg]
    | succ i => rw [List.set_cons_succ, List.filterMap_cons, List.filterMap_cons, ih hi]

variable {κ : Type} [DecidableEq κ]

/-- A route table: keys to task names. -/
abbrev Routes (κ : Type) : Type := AList (fun _ : κ => Nat)

/-- The tasks a table routes to, in the order of the table. -/
def Routes.tasks (r : Routes κ) : List Nat := r.entries.map Sigma.snd

theorem Routes.mem_tasks {r : Routes κ} {c : Nat} : c ∈ r.tasks ↔ ∃ k, r.lookup k = some c := by
  unfold Routes.tasks
  rw [List.mem_map]
  constructor
  · rintro ⟨⟨k, d⟩, he, rfl⟩
    exact ⟨k, AList.mem_lookup_iff.2 he⟩
  · rintro ⟨k, hk⟩
    exact ⟨⟨k, c⟩, AList.mem_lookup_iff.1 hk, rfl⟩

/-- A table that routes each task under at most one key names each task at most once. -/
theorem Routes.tasks_nodup {r : Routes κ} (h : ∀ k k' c, r.lookup k = some c → r.lookup k' = some c → k = k') :
    r.tasks.Nodup := by
  unfold Routes.tasks
  rw [List.nodup_map_iff_inj_on r.nodupKeys.nodup]
  rintro ⟨k, c⟩ hk ⟨k', c'⟩ hk' hc
  obtain rfl : c = c' := hc
  obtain rfl : k = k' := h k k' c (AList.mem_lookup_iff.2 hk) (AList.mem_lookup_iff.2 hk')
  rfl

theorem Routes.lookup_insert_eq (r : Routes κ) (k k' : κ) (c : Nat) :
    (r.insert k c).lookup k' = if k' = k then some c else r.lookup k' := by
  by_cases h : k' = k
  · subst h
    rw [AList.lookup_insert, if_pos rfl]
  · rw [AList.lookup_insert_ne h, if_neg h]

theorem Routes.lookup_erase_eq (r : Routes κ) (k k' : κ) :
    (r.erase k).lookup k' = if k' = k then none else r.lookup k' := by
  by_cases h : k' = k
  · subst h
    rw [AList.lookup_erase, if_pos rfl]
  · rw [AList.lookup_erase_ne h, if_neg h]

theorem Routes.lookup_empty (k : κ) : (∅ : Routes κ).lookup k = none := rfl

end BrainSdk.Library
