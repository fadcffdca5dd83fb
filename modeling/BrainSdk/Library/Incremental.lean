import Mathlib.Data.List.Basic

/-!
# Incremental decoders

A decoder that looks at the front of a buffer and says "one item, and the rest", "not enough yet" or "malformed". When the first
and the last of these verdicts do not change as more input follows, pulling chunks into a buffer and decoding as soon as an item
is complete gives the items of the whole input, however it was cut into chunks.
-/

namespace BrainSdk.Library

/-- What a decoder says of the front of a buffer. -/
inductive Verdict (β φ ε : Type) where
  | item (x : φ) (rest : List β)
  | short
  | bad (e : ε)

/-- A decoder whose verdicts, except "not enough yet", stand when more input follows, and whose items take input off the buffer. -/
structure Incremental (β φ ε : Type) where
  decode : List β → Verdict β φ ε
  item_append : ∀ {buf rest : List β} {x : φ}, decode buf = .item x rest → ∀ t, decode (buf ++ t) = .item x (rest ++ t)
  bad_append : ∀ {buf : List β} {e : ε}, decode buf = .bad e → ∀ t, decode (buf ++ t) = .bad e
  shrinks : ∀ {buf rest : List β} {x : φ}, decode buf = .item x rest → rest.length < buf.length

namespace Incremental

variable {β φ ε : Type} (D : Incremental β φ ε)

/-- The items of an input held in one piece, and the error that stopped the decoder, if it was not the end of the input. -/
def decodeAll (buf : List β) : List φ × Option ε :=
  match _h : D.decode buf with
  | .item x rest =>
    let r := decodeAll rest
    (x :: r.1, r.2)
  | .short => ([], none)
  | .bad e => ([], some e)
termination_by buf.length
decreasing_by exact D.shrinks (by assumption)

/-- One item, pulling chunks into the buffer while the decoder wants more. An empty chunk is the end of the input, as is the end
of the chunks. On an item: the item, the buffer and the chunks that are left. -/
def pull (buf : List β) : List (List β) → Except (Option ε) (φ × List β × List (List β))
  | [] =>
    match D.decode buf with
    | .item x rest => .ok (x, rest, [])
    | .short => .error none
    | .bad e => .error (some e)
  | c :: cs =>
    match D.decode buf with
    | .item x rest => .ok (x, rest, c :: cs)
    | .short => if c.isEmpty then .error none else pull (buf ++ c) cs
    | .bad e => .error (some e)

/-- What a pull says of the buffer and the chunks put end to end: the same verdict as decoding them in one piece. -/
theorem pull_spec (chunks : List (List β)) (hne : ∀ c ∈ chunks, c ≠ []) (buf : List β) :
    match D.pull buf chunks with
    | .ok (x, buf', chunks') =>
      D.decode (buf ++ chunks.flatten) = .item x (buf' ++ chunks'.flatten) ∧ ∀ c ∈ chunks', c ≠ []
    | .error none => D.decode (buf ++ chunks.flatten) = .short
    | .error (some e) => D.decode (buf ++ chunks.flatten) = .bad e := by
  induction chunks generalizing buf with
  | nil =>
    simp only [pull]
    cases hd : D.decode buf with
    | item x rest => simp [hd]
    | short => simp [hd]
    | bad e => simp [hd]
  | cons c cs ih =>
    simp only [pull]
    cases hd : D.decode buf with
    | item x rest => exact ⟨D.item_append hd _, hne⟩
    | bad e => exact D.bad_append hd _
    | short =>
      have hc : c.isEmpty = false := by
        have := hne c List.mem_cons_self
        cases c with
        | nil => exact absurd rfl this
        | cons _ _ => rfl
      simp only [hc, Bool.false_eq_true, if_false, List.flatten_cons, ← List.append_assoc]
      exact ih (fun d hd => hne d (List.mem_cons_of_mem c hd)) (buf ++ c)

/-- A pulled item leaves less input than there was. -/
theorem pull_lt {buf : List β} {chunks : List (List β)} {x : φ} {buf' : List β} {chunks' : List (List β)}
    (h : D.pull buf chunks = .ok (x, buf', chunks')) :
    buf'.length + chunks'.flatten.length < buf.length + chunks.flatten.length := by
  induction chunks generalizing buf with
  | nil =>
    simp only [pull] at h
    cases hd : D.decode buf with
    | item y rest =>
      simp only [hd, Except.ok.injEq, Prod.mk.injEq] at h
      obtain ⟨-, rfl, rfl⟩ := h
      have := D.shrinks hd
      omega
    | short => simp [hd] at h
    | bad e => simp [hd] at h
  | cons c cs ih =>
    simp only [pull] at h
    cases hd : D.decode buf with
    | item y rest =>
      simp only [hd, Except.ok.injEq, Prod.mk.injEq] at h
      obtain ⟨-, rfl, rfl⟩ := h
      have := D.shrinks hd
      omega
    | short =>
      simp only [hd] at h
      split at h
      · cases h
      · have := ih h
        simp only [List.length_append, List.flatten_cons] at this ⊢
        omega
    | bad e => simp [hd] at h

/-- Pulling items until the input ends or is malformed. -/
def pullAll (buf : List β) (chunks : List (List β)) : List φ × Option ε :=
  match _h : D.pull buf chunks with
  | .ok (x, buf', chunks') =>
    let r := pullAll buf' chunks'
    (x :: r.1, r.2)
  | .error e => ([], e)
termination_by buf.length + chunks.flatten.length
decreasing_by exact D.pull_lt (by assumption)

theorem decodeAll_item {buf rest : List β} {x : φ} (h : D.decode buf = .item x rest) :
    D.decodeAll buf = (x :: (D.decodeAll rest).1, (D.decodeAll rest).2) := by
  rw [decodeAll]
  split <;> simp_all

theorem decodeAll_short {buf : List β} (h : D.decode buf = .short) : D.decodeAll buf = ([], none) := by
  rw [decodeAll]
  split <;> simp_all

theorem decodeAll_bad {buf : List β} {e : ε} (h : D.decode buf = .bad e) : D.decodeAll buf = ([], some e) := by
  rw [decodeAll]
  split <;> simp_all

/-- The chunks do not matter: pulling gives the items, and the error, of the input in one piece. -/
theorem pullAll_eq_decodeAll (buf : List β) (chunks : List (List β)) (hne : ∀ c ∈ chunks, c ≠ []) :
    D.pullAll buf chunks = D.decodeAll (buf ++ chunks.flatten) := by
  have hspec := D.pull_spec chunks hne buf
  rw [pullAll]
  split
  · rename_i x buf' chunks' h
    simp only [h] at hspec
    rw [D.decodeAll_item hspec.1, pullAll_eq_decodeAll buf' chunks' hspec.2]
  · rename_i e h
    cases e with
    | none =>
      simp only [h] at hspec
      rw [D.decodeAll_short hspec]
    | some e =>
      simp only [h] at hspec
      rw [D.decodeAll_bad hspec]
termination_by buf.length + chunks.flatten.length
decreasing_by exact D.pull_lt (by assumption)

/-- The input begins with these items, and this is what they leave of it. -/
inductive Splits (input : List β) : List φ → List β → Prop
  | nil : Splits input [] input
  | snoc {items : List φ} {x : φ} {rest rest' : List β} (h : Splits input items rest) (hd : D.decode rest = .item x rest') :
      Splits input (items ++ [x]) rest'

variable {D}

/-- The last item of a split was decoded from what the items before it left. -/
theorem Splits.of_snoc {input : List β} {items : List φ} {x : φ} {rest' : List β} (h : D.Splits input (items ++ [x]) rest') :
    ∃ rest, D.Splits input items rest ∧ D.decode rest = .item x rest' := by
  generalize hi : items ++ [x] = l at h
  cases h with
  | nil => simp at hi
  | @snoc items' y rest _ h hd =>
    obtain ⟨rfl, hy⟩ := List.append_inj' hi rfl
    cases hy
    exact ⟨rest, h, hd⟩

/-- A split of what a split left. -/
theorem Splits.trans {input rest rest' : List β} {items items' : List φ} (h : D.Splits input items rest)
    (h' : D.Splits rest items' rest') : D.Splits input (items ++ items') rest' := by
  induction h' with
  | nil =>
    rw [List.append_nil]
    exact h
  | snoc _ hd ih =>
    rw [← List.append_assoc]
    exact ih.snoc hd

/-- The items of a split stand when more input follows. -/
theorem Splits.extend {input rest : List β} {items : List φ} (h : D.Splits input items rest) (t : List β) :
    D.Splits (input ++ t) items (rest ++ t) := by
  induction h with
  | nil => exact .nil
  | snoc _ hd ih => exact ih.snoc (D.item_append hd t)

/-- The items of an input that goes on: those of the split, then those of what it left and what follows. -/
theorem Splits.decodeAll_append {input rest : List β} {items : List φ} (h : D.Splits input items rest) (t : List β) :
    D.decodeAll (input ++ t) = (items ++ (D.decodeAll (rest ++ t)).1, (D.decodeAll (rest ++ t)).2) := by
  induction h with
  | nil => rfl
  | snoc _ hd ih =>
    rw [ih, D.decodeAll_item (D.item_append hd t)]
    simp

/-- Whatever follows a malformed item changes nothing. -/
theorem decodeAll_append_of_bad {buf : List β} {e : ε} (h : (D.decodeAll buf).2 = some e) (t : List β) :
    D.decodeAll (buf ++ t) = D.decodeAll buf := by
  rcases hd : D.decode buf with ⟨x, rest⟩ | - | e'
  · rw [D.decodeAll_item hd] at h ⊢
    rw [D.decodeAll_item (D.item_append hd t), decodeAll_append_of_bad h t]
  · rw [D.decodeAll_short hd] at h
    cases h
  · rw [D.decodeAll_bad hd, D.decodeAll_bad (D.bad_append hd t)]
termination_by buf.length
decreasing_by exact D.shrinks hd

/-- The items of an input stand when more follows. -/
theorem decodeAll_isPre (buf t : List β) : (D.decodeAll buf).1 <+: (D.decodeAll (buf ++ t)).1 := by
  rcases hd : D.decode buf with ⟨x, rest⟩ | - | e
  · rw [D.decodeAll_item hd, D.decodeAll_item (D.item_append hd t)]
    exact (List.prefix_cons_inj x).2 (decodeAll_isPre rest t)
  · rw [D.decodeAll_short hd]
    exact List.nil_prefix
  · rw [D.decodeAll_bad hd]
    exact List.nil_prefix
termination_by buf.length
decreasing_by exact D.shrinks hd

/-- What comes before the end of an item is not enough. -/
theorem short_of_item {p q : List β} {x : φ} (h : D.decode (p ++ q) = .item x []) (hq : q ≠ []) : D.decode p = .short := by
  cases hp : D.decode p with
  | item y rest =>
    have hpq := (D.item_append hp q).symm.trans h
    simp only [Verdict.item.injEq, List.append_eq_nil_iff] at hpq
    exact absurd hpq.2.2 hq
  | short => rfl
  | bad e => exact nomatch (D.bad_append hp q).symm.trans h

/-- Among the items an input begins with, the first of a kind leaves at least as much of the input as a later one. -/
theorem Splits.first_of {input : List β} {items : List φ} {rest : List β} (h : D.Splits input items rest) (P : φ → Prop) :
    (∀ x ∈ items, ¬P x) ∨ ∃ before x after, D.Splits input (before ++ [x]) after ∧ (∀ y ∈ before, ¬P y) ∧ P x ∧
      rest.length ≤ after.length := by
  induction h with
  | nil => exact .inl nofun
  | @snoc items x rest rest' h hd ih =>
    have hlt := D.shrinks hd
    rcases ih with hnone | ⟨before, y, after, hy, hbefore, hP, hle⟩
    · by_cases hx : P x
      · exact .inr ⟨items, x, rest', h.snoc hd, hnone, hx, Nat.le_refl _⟩
      · refine .inl (fun y hy => ?_)
        rcases List.mem_append.1 hy with hy | hy
        · exact hnone y hy
        · rw [List.mem_singleton.1 hy]
          exact hx
    · exact .inr ⟨before, y, after, hy, hbefore, hP, by omega⟩

end Incremental

end BrainSdk.Library
