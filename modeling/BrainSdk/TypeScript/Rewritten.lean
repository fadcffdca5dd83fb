import BrainSdk.Library.JsonSound
import BrainSdk.TypeScript.LooseJson

/-!
# The scan of any text

What the scan makes of a text, whether it is JSON or not: it cuts the text into strings as far as their quotes go, the longest number
literals, and single characters, and puts tags in. From what it emits the text can be told: if that is of the grammar, the text is of the
loose grammar.
-/

namespace BrainSdk.TypeScript.Json

open Library Library.Json Cbor

/-! ### Strings to their ends -/

theorem endOfString_shift (t : Units) (i : Nat) : endOfString.scan t i = i + endOfString.scan t 0 := by
  induction hlen : t.length using Nat.strong_induction_on generalizing t i with
  | _ len ih =>
    match t with
    | [] => rfl
    | [c] => rfl
    | c :: d :: rest =>
      simp only [List.length_cons] at hlen
      rw [endOfString.scan, endOfString.scan]
      split_ifs
      · rw [ih rest.length (by omega) rest (i + 2) rfl, ih rest.length (by omega) rest (0 + 2) rfl]
        omega
      · omega
      · rw [ih (d :: rest).length (by simp only [List.length_cons]; omega) (d :: rest) (i + 1) rfl,
          ih (d :: rest).length (by simp only [List.length_cons]; omega) (d :: rest) (0 + 1) rfl]
        omega

/-- The end of a string is behind its first character, and not behind the text. -/
theorem endOfString_bounds (t : Units) : endOfString.scan t 0 ≤ t.length ∧ (t ≠ [] → 0 < endOfString.scan t 0) := by
  induction hlen : t.length using Nat.strong_induction_on generalizing t with
  | _ len ih =>
    match t with
    | [] => exact ⟨Nat.zero_le _, fun h => absurd rfl h⟩
    | [c] => exact ⟨Nat.le_of_eq hlen, fun _ => Nat.one_pos⟩
    | c :: d :: rest =>
      simp only [List.length_cons] at hlen
      rw [endOfString.scan]
      split_ifs
      · have hrest := (ih rest.length (by omega) rest rfl).1
        rw [endOfString_shift]
        exact ⟨by omega, fun _ => by omega⟩
      · exact ⟨by omega, fun _ => by omega⟩
      · have hrest := (ih (d :: rest).length (by simp only [List.length_cons]; omega) (d :: rest) rfl).1
        simp only [List.length_cons] at hrest
        rw [endOfString_shift]
        exact ⟨by omega, fun _ => by omega⟩

/-- A string that ends before the text does ends there whatever follows. -/
theorem endOfString_front {seg after z : Units} (h : endOfString.scan (seg ++ after) 0 = seg.length) (hafter : after ≠ [])
    (hz : z ≠ []) : endOfString.scan (seg ++ z) 0 = seg.length := by
  induction hlen : seg.length using Nat.strong_induction_on generalizing seg with
  | _ len ih =>
    subst hlen
    match seg with
    | [] => exact absurd h (Nat.ne_of_gt ((endOfString_bounds after).2 hafter))
    | [c] =>
      obtain ⟨d, rest, rfl⟩ := List.exists_cons_of_ne_nil hafter
      obtain ⟨e, more, rfl⟩ := List.exists_cons_of_ne_nil hz
      simp only [List.singleton_append, List.length_singleton] at h ⊢
      rw [endOfString.scan] at h ⊢
      split_ifs at h ⊢
      · rw [endOfString_shift] at h
        omega
      · rfl
      · have hpos := (endOfString_bounds (d :: rest)).2 (List.cons_ne_nil d rest)
        rw [endOfString_shift] at h
        omega
    | c :: d :: seg =>
      simp only [List.cons_append, List.length_cons] at h ⊢
      rw [endOfString.scan] at h ⊢
      split_ifs at h ⊢
      · rw [endOfString_shift] at h ⊢
        have hrest : endOfString.scan (seg ++ after) 0 = seg.length := by omega
        rw [ih seg.length (by simp only [List.length_cons]; omega) hrest rfl]
        omega
      · omega
      · rw [endOfString_shift] at h ⊢
        have hrest : endOfString.scan (d :: seg ++ after) 0 = (d :: seg).length := by
          simp only [List.cons_append, List.length_cons]
          omega
        have htail := ih (d :: seg).length (by simp only [List.length_cons]; omega) hrest rfl
        simp only [List.cons_append, List.length_cons] at htail
        omega

/-! ### What is emitted -/

/-- The scan makes the one of the other. -/
inductive Rewritten : Units → Units → Prop
  | done : Rewritten [] []
  | string {mark seg after out : Units} (hmark : mark = [] ∨ mark = units "\\u0000n")
      (hend : endOfString.scan (seg ++ after) 0 = seg.length) (h : Rewritten after out) :
      Rewritten (quote :: (seg ++ after)) (quote :: (mark ++ (seg ++ out)))
  | number {n : Number} {rest out : Units} (hn : n.Valid) (htake : takeNumber (n.literal ++ rest) = some (n, rest))
      (h : Rewritten rest out) : Rewritten (n.literal ++ rest) (n.literal ++ out)
  | integer {n : Number} {rest out : Units} (hn : n.Valid) (hpast : Unsafe n) (h : Rewritten rest out) :
      Rewritten (n.literal ++ rest) (tagSource ++ (n.literal ++ quote :: out))
  | other {c : UInt16} {rest out : Units} (hquote : c ≠ quote) (hnone : takeNumber (c :: rest) = none) (h : Rewritten rest out) :
      Rewritten (c :: rest) (c :: out)

/-- The scan stands where it has emitted what it made of the text so far. -/
structure Scan.Moves (text : Units) (s s' : Scan) : Prop where
  cut : s'.cut ≤ s'.i
  later : s.i < s'.i
  inside : s'.i ≤ text.length
  emits : ∃ x', s'.emitted text = s.emitted text ++ x' ∧
    ∀ out, Rewritten (text.drop s'.i) out → Rewritten (text.drop s.i) (x' ++ out)

/-- A turn over a part that stays as it is. -/
theorem Scan.Moves.of_same {text a x b : Units} {s : Scan} (htext : text = a ++ (x ++ b)) (hi : s.i = a.length) (hcut : s.cut ≤ s.i)
    (hx : x ≠ []) (h : ∀ out, Rewritten b out → Rewritten (x ++ b) (x ++ out)) : s.Moves text { s with i := (a ++ x).length } := by
  have hpos := List.length_pos_iff.2 hx
  have hlen : (a ++ x).length = s.i + x.length := by rw [List.length_append, hi]
  have hinside : (a ++ x).length ≤ text.length := by
    rw [htext, ← List.append_assoc]
    exact (List.prefix_append (a ++ x) b).length_le
  refine ⟨by dsimp only; omega, by dsimp only; omega, hinside, x, ?_, ?_⟩
  · unfold Scan.emitted
    rw [slice_part htext (hi ▸ hcut), ← hi, List.append_assoc]
  · have hfront : text.drop s.i = x ++ b := by rw [hi, htext, List.drop_left]
    have hback : text.drop (a ++ x).length = b := by rw [htext, ← List.append_assoc, List.drop_left]
    rw [hfront, hback]
    exact h

/-- A turn over a part that another is put for. -/
theorem Scan.Moves.of_new {text a x x' b : Units} {s : Scan} (htext : text = a ++ (x ++ b)) (hi : s.i = a.length) (hx : x ≠ [])
    (h : ∀ out, Rewritten b out → Rewritten (x ++ b) (x' ++ out)) :
    s.Moves text { out := s.out ++ (slice text s.cut s.i ++ x'), cut := (a ++ x).length, rewrote := true, i := (a ++ x).length } := by
  have hpos := List.length_pos_iff.2 hx
  have hlen : (a ++ x).length = s.i + x.length := by rw [List.length_append, hi]
  have hinside : (a ++ x).length ≤ text.length := by
    rw [htext, ← List.append_assoc]
    exact (List.prefix_append (a ++ x) b).length_le
  refine ⟨Nat.le_refl _, by dsimp only; omega, hinside, x', ?_, ?_⟩
  · unfold Scan.emitted
    dsimp only
    rw [slice_empty, List.append_nil, List.append_assoc]
  · have hfront : text.drop s.i = x ++ b := by rw [hi, htext, List.drop_left]
    have hback : text.drop (a ++ x).length = b := by rw [htext, ← List.append_assoc, List.drop_left]
    rw [hfront, hback]
    exact h

/-- A turn at a quote goes on behind the string. -/
theorem moves_quote {text a rest : Units} {s : Scan} (htext : text = a ++ quote :: rest) (hi : s.i = a.length) (hcut : s.cut ≤ s.i) :
    s.Moves text (s.turn text quote) := by
  obtain ⟨hle, -⟩ := endOfString_bounds rest
  generalize hend : endOfString.scan rest 0 = len at hle
  obtain ⟨seg, after, rfl, rfl⟩ : ∃ seg after, rest = seg ++ after ∧ seg.length = len :=
    ⟨rest.take len, rest.drop len, (List.take_append_drop len rest).symm, List.length_take_of_le hle⟩
  have hdrop : text.drop (a.length + 1) = seg ++ after := by
    rw [← List.drop_drop, htext, List.drop_left]
    rfl
  have hstop : endOfString text s.i = (a ++ quote :: seg).length := by
    unfold endOfString
    rw [hi, hdrop, endOfString_shift, hend, List.length_append, List.length_cons]
    omega
  have hsplit : text = a ++ (quote :: seg ++ after) := htext
  have hstring : ∀ {mark : Units}, mark = [] ∨ mark = units "\\u0000n" → ∀ out, Rewritten after out →
      Rewritten (quote :: seg ++ after) (quote :: (mark ++ seg) ++ out) := by
    intro mark hmark out hout
    rw [List.cons_append, List.cons_append, List.append_assoc]
    exact .string hmark hend hout
  unfold Scan.turn
  rw [if_pos rfl, hstop]
  dsimp only
  split_ifs
  · have hinner : slice text (s.i + 1) (a ++ quote :: seg).length = seg := by
      have hfront : text.take (a ++ quote :: seg).length = a ++ [quote] ++ seg := by
        rw [hsplit, ← List.append_assoc, List.take_left, List.append_assoc]
        rfl
      have hlen : s.i + 1 = (a ++ [quote]).length := by rw [hi, List.length_append, List.length_singleton]
      unfold slice
      rw [hfront, hlen, List.drop_left]
    rw [hinner, List.append_assoc]
    exact .of_new hsplit hi (List.cons_ne_nil _ _) (hstring (.inr rfl))
  · exact .of_same hsplit hi hcut (List.cons_ne_nil _ _) (hstring (.inl rfl))

/-- A turn elsewhere goes on behind the number that begins there, if one does. -/
theorem moves_other {text a rest : Units} {c : UInt16} {s : Scan} (htext : text = a ++ c :: rest) (hi : s.i = a.length)
    (hcut : s.cut ≤ s.i) (hquote : c ≠ quote) : s.Moves text (s.turn text c) := by
  have hdrop : text.drop s.i = c :: rest := by rw [hi, htext, List.drop_left]
  have hone : s.i + 1 = (a ++ [c]).length := by rw [hi, List.length_append, List.length_singleton]
  have hsingle : takeNumber (c :: rest) = none → s.Moves text { s with i := s.i + 1 } := by
    intro hnone
    rw [hone]
    exact .of_same (b := rest) htext hi hcut (List.cons_ne_nil c []) (fun out hout => .other hquote hnone hout)
  unfold Scan.turn
  rw [if_neg hquote, hdrop]
  by_cases hc : c = minus ∨ isDigit c = true
  · rw [if_pos hc]
    cases htake : takeNumber (c :: rest) with
    | none => exact hsingle htake
    | some m =>
      obtain ⟨n, after⟩ := m
      obtain ⟨hn, hlit⟩ := takeNumber_sound htake
      have hne : n.literal ≠ [] := by
        obtain ⟨d, ds, hhead, -⟩ := hn.head
        rw [hhead]
        exact List.cons_ne_nil d ds
      have hsplit : text = a ++ (n.literal ++ after) := by rw [htext, hlit]
      have hlen : s.i + n.literal.length = (a ++ n.literal).length := by rw [hi, List.length_append]
      dsimp only
      rw [hlen]
      split_ifs with hpast
      · have hout : s.out ++ (slice text s.cut s.i ++ tagSource ++ n.literal ++ [quote]) =
            s.out ++ (slice text s.cut s.i ++ (tagSource ++ (n.literal ++ [quote]))) := by simp only [List.append_assoc]
        rw [hout]
        refine .of_new hsplit hi hne (fun out hout => ?_)
        rw [List.append_assoc, List.append_assoc]
        exact .integer hn ((isUnsafeInteger_iff hn).1 hpast) hout
      · refine .of_same hsplit hi hcut hne (fun out hout => .number hn ?_ hout)
        rw [← hlit, htake]
  · rw [if_neg hc]
    refine hsingle ?_
    have hminus : c ≠ minus := fun h => hc (.inl h)
    have hzero : c ≠ zero := by
      rintro rfl
      exact hc (.inr (by decide))
    have hdigit : ¬isDigit c = true := fun h => hc (.inr h)
    rw [takeNumber, if_neg hminus, takeUnsigned, takeInt, if_neg hzero, if_neg hdigit]
    rfl

/-- At the end of the text nothing is left to emit. -/
theorem end_rewritten {text : Units} {s : Scan} (hi : s.i = text.length) :
    ∃ out, Rewritten (text.drop s.i) out ∧ s.out ++ text.drop s.cut = s.emitted text ++ out := by
  refine ⟨[], ?_, ?_⟩
  · rw [hi, List.drop_length]
    exact .done
  · unfold Scan.emitted slice
    rw [hi, List.take_length, List.append_nil]

/-- What the scan emits from where it stands is what it makes of the rest of the text. -/
theorem loop_rewritten {text : Units} (turns : Nat) {s : Scan} (hcut : s.cut ≤ s.i) (hin : s.i ≤ text.length)
    (hturns : text.length - s.i ≤ turns) :
    ∃ out, Rewritten (text.drop s.i) out ∧ (s.loop text turns).out ++ text.drop (s.loop text turns).cut = s.emitted text ++ out := by
  induction turns generalizing s with
  | zero => exact end_rewritten (by omega)
  | succ turns ih =>
    rw [Scan.loop]
    rcases Nat.lt_or_eq_of_le hin with hlt | heq
    · rw [List.getElem?_eq_getElem hlt, Option.elim_some]
      have htext : text = text.take s.i ++ text[s.i] :: text.drop (s.i + 1) := by
        rw [List.getElem_cons_drop, List.take_append_drop]
      have hlen : s.i = (text.take s.i).length := (List.length_take_of_le hin).symm
      have hmoves : s.Moves text (s.turn text text[s.i]) := by
        by_cases hquote : text[s.i] = quote
        · rw [hquote] at htext ⊢
          exact moves_quote htext hlen hcut
        · exact moves_other htext hlen hcut hquote
      obtain ⟨x', hemitted, hrewritten⟩ := hmoves.emits
      have hlater := hmoves.later
      obtain ⟨out, hout, hfinal⟩ := ih hmoves.cut hmoves.inside (by omega)
      exact ⟨x' ++ out, hrewritten out hout, by rw [hfinal, hemitted, List.append_assoc]⟩
    · rw [List.getElem?_eq_none (Nat.le_of_eq heq.symm), Option.elim_none]
      exact end_rewritten heq

/-- What `JSON.parse` is given is what the scan makes of the text. -/
theorem scan_rewritten (text : Units) : Rewritten text ((scan text).out ++ text.drop (scan text).cut) := by
  obtain ⟨out, hout, hfinal⟩ := @loop_rewritten text text.length ⟨[], 0, false, 0⟩ (Nat.le_refl 0) (Nat.zero_le text.length)
    (Nat.le_of_eq (Nat.sub_zero _))
  unfold scan
  rw [hfinal]
  exact hout

/-- A turn rewrites, or only goes on. -/
theorem turn_cases (text : Units) (s : Scan) (c : UInt16) : (s.turn text c).rewrote = true ∨ ∃ i, s.turn text c = { s with i := i } := by
  unfold Scan.turn
  dsimp only
  split
  · split
    · exact .inl rfl
    · exact .inr ⟨_, rfl⟩
  · split
    · split
      · exact .inr ⟨_, rfl⟩
      · split
        · exact .inl rfl
        · exact .inr ⟨_, rfl⟩
    · exact .inr ⟨_, rfl⟩

/-- Nothing has been emitted where nothing was rewritten. -/
theorem loop_kept {text : Units} (turns : Nat) {s : Scan} (h : (s.loop text turns).rewrote = false) :
    s.rewrote = false ∧ (s.loop text turns).out = s.out ∧ (s.loop text turns).cut = s.cut := by
  induction turns generalizing s with
  | zero => exact ⟨h, rfl, rfl⟩
  | succ turns ih =>
    rw [Scan.loop] at h ⊢
    cases hc : text[s.i]? with
    | none =>
      rw [hc] at h
      exact ⟨h, rfl, rfl⟩
    | some c =>
      rw [hc, Option.elim_some] at h
      rw [Option.elim_some]
      obtain ⟨hturn, hout, hcut⟩ := ih h
      rcases turn_cases text s c with hrewrote | ⟨i, hi⟩
      · exact absurd (hturn.symm.trans hrewrote) Bool.false_ne_true
      · rw [hi] at hturn hout hcut ⊢
        exact ⟨hturn, hout, hcut⟩

/-- A text in which nothing is rewritten is emitted as it is. -/
theorem scan_kept {text : Units} (h : (scan text).rewrote = false) : (scan text).out ++ text.drop (scan text).cut = text := by
  obtain ⟨-, hout, hcut⟩ := loop_kept _ h
  unfold scan
  rw [hout, hcut, List.nil_append, List.drop_zero]

/-! ### The text from what is emitted -/

/-- Nothing is left out. -/
theorem Rewritten.length_le {text out : Units} (h : Rewritten text out) : text.length ≤ out.length := by
  induction h with
  | done => exact Nat.le_refl _
  | string _ _ _ ih =>
    simp only [List.length_cons, List.length_append]
    omega
  | number _ _ _ ih =>
    simp only [List.length_append]
    omega
  | integer _ _ _ ih =>
    simp only [List.length_cons, List.length_append]
    omega
  | other _ _ _ ih =>
    simp only [List.length_cons]
    omega

theorem Rewritten.eq_nil {text : Units} (h : Rewritten text []) : text = [] :=
  List.eq_nil_of_length_eq_zero (Nat.le_zero.1 h.length_le)

/-- What has no quote in it and stands in front of a quote is empty. -/
theorem eq_nil_of_quote {z rest : Units} (hz : z <+: quote :: rest) (hquote : quote ∉ z) : z = [] := by
  rcases z with - | ⟨d, z⟩
  · rfl
  · exact absurd ((List.cons_prefix_cons.1 hz).1 ▸ List.mem_cons_self) hquote

/-- What stands in front of the first quote stands in front of the text. -/
theorem Rewritten.front {text out : Units} (h : Rewritten text out) {z : Units} (hz : z <+: out) (hquote : quote ∉ z) : z <+: text := by
  induction h generalizing z with
  | done => exact hz
  | string => exact eq_nil_of_quote hz hquote ▸ List.nil_prefix
  | integer => exact eq_nil_of_quote hz hquote ▸ List.nil_prefix
  | @number n rest out _ _ _ ih =>
    rcases List.prefix_or_prefix_of_prefix hz (List.prefix_append n.literal out) with hshort | ⟨y, rfl⟩
    · exact hshort.trans (List.prefix_append _ _)
    · refine (List.prefix_append_right_inj _).2 (ih ((List.prefix_append_right_inj _).1 hz) ?_)
      exact fun hy => hquote (List.mem_append_right _ hy)
  | @other c rest out _ _ _ ih =>
    rcases z with - | ⟨d, z⟩
    · exact List.nil_prefix
    · obtain ⟨rfl, htail⟩ := List.cons_prefix_cons.1 hz
      exact List.cons_prefix_cons.2 ⟨rfl, ih htail fun h => hquote (List.mem_cons_of_mem _ h)⟩

/-- Where a character between tokens is emitted, it stands in the text. -/
theorem Rewritten.one {text y : Units} {c : UInt16} (h : Rewritten text (c :: y)) (hc : IsPlain c) :
    ∃ rest, text = c :: rest ∧ Rewritten rest y := by
  obtain ⟨hquote, hminus, hdigit⟩ := hc
  generalize hout : c :: y = out at h
  cases h with
  | done => cases hout
  | string => exact absurd (List.cons.inj hout).1 hquote
  | integer => exact absurd (List.cons.inj hout).1 hquote
  | @number n rest out hn =>
    obtain ⟨d, ds, hhead, hd⟩ := hn.head
    rw [hhead] at hout
    obtain rfl : c = d := (List.cons.inj hout).1
    rcases hd with rfl | hd
    · exact absurd rfl hminus
    · exact absurd (hdigit.symm.trans hd) Bool.false_ne_true
  | @other d rest out _ _ h =>
    obtain ⟨rfl, rfl⟩ := List.cons.inj hout
    exact ⟨rest, rfl, h⟩

/-- Where such characters are emitted in a row, they stand in the text. -/
theorem Rewritten.plain {x : Units} (hx : ∀ c ∈ x, IsPlain c) {text y : Units} (h : Rewritten text (x ++ y)) :
    ∃ rest, text = x ++ rest ∧ Rewritten rest y := by
  induction x generalizing text with
  | nil => exact ⟨text, rfl, h⟩
  | cons c x ih =>
    obtain ⟨tail, rfl, htail⟩ := h.one (hx c List.mem_cons_self)
    obtain ⟨rest, rfl, hrest⟩ := ih (fun d hd => hx d (List.mem_cons_of_mem c hd)) htail
    exact ⟨rest, rfl, hrest⟩

theorem isPlain_spaces {ws : Units} (h : IsSpaces ws) : ∀ c ∈ ws, IsPlain c := by
  intro c hc
  have hs := h c hc
  simp only [isSpace, Bool.or_eq_true, beq_iff_eq] at hs
  rcases hs with ((rfl | rfl) | rfl) | rfl <;> decide

theorem quote_not_mem_digits {ds : Units} (h : IsDigits ds) : quote ∉ ds := fun hq => absurd (h _ hq) (by decide)

theorem quote_not_mem_frac {frac : Units} (h : IsFrac frac) : quote ∉ frac := by
  cases h with
  | none => exact List.not_mem_nil
  | some hds => exact List.not_mem_cons_of_ne_of_not_mem (by decide) (quote_not_mem_digits hds)

theorem quote_not_mem_exp {exp : Units} (h : IsExp exp) : quote ∉ exp := by
  have hmark : ∀ {e : UInt16}, isExponentMark e = true → quote ≠ e := by
    rintro e he rfl
    exact absurd he (by decide)
  have hsign : ∀ {s : UInt16}, isSign s = true → quote ≠ s := by
    rintro s hs rfl
    exact absurd hs (by decide)
  cases h with
  | none => exact List.not_mem_nil
  | unsigned he hds => exact List.not_mem_cons_of_ne_of_not_mem (hmark he) (quote_not_mem_digits hds)
  | signed he hs hds =>
    exact List.not_mem_cons_of_ne_of_not_mem (hmark he) (List.not_mem_cons_of_ne_of_not_mem (hsign hs) (quote_not_mem_digits hds))

/-- A number has no quote in it. -/
theorem quote_not_mem_literal {n : Number} (h : n.Valid) : quote ∉ n.literal := by
  have hint := quote_not_mem_digits (IsInt.digits h.int)
  have hfrac := quote_not_mem_frac h.frac
  have hexp := quote_not_mem_exp h.exp
  have hneg : quote ∉ (if n.negative then [minus] else []) := by
    cases n.negative <;> decide
  unfold Number.literal
  simp only [List.mem_append, hneg, hint, hfrac, hexp, or_self, not_false_eq_true]

/-- Where a number is emitted, and a value ends behind it, it stands in the text. -/
theorem Rewritten.ofNumber {n : Number} (hn : n.Valid) {text y : Units} (hy : Ends y) (h : Rewritten text (n.literal ++ y)) :
    ∃ rest, text = n.literal ++ rest ∧ Rewritten rest y := by
  have hquote := quote_not_mem_literal hn
  obtain ⟨c, ds, hhead, hc⟩ := hn.head
  have hne : c ≠ quote := by
    rintro rfl
    exact absurd hc (by decide)
  -- the text has the number, and goes on as what is emitted does
  obtain ⟨rest, htext, hstops⟩ : ∃ rest, text = n.literal ++ rest ∧ Stops rest := by
    rcases y with - | ⟨d, y⟩
    · rw [List.append_nil] at h
      obtain ⟨rest, hrest⟩ := h.front (List.prefix_refl _) hquote
      have hlen := h.length_le
      rw [← hrest, List.length_append] at hlen
      obtain rfl : rest = [] := List.eq_nil_of_length_eq_zero (by omega)
      exact ⟨[], hrest.symm, Ends.nil.stops⟩
    · have hd : d ≠ quote := by
        rintro rfl
        rcases hy quote rfl with h | h | h | h <;> exact absurd h (by decide)
      have hz : n.literal ++ [d] <+: n.literal ++ d :: y := (List.prefix_append_right_inj _).2 (List.prefix_append [d] y)
      obtain ⟨rest, hrest⟩ := h.front hz (by simp [hquote, Ne.symm hd])
      refine ⟨d :: rest, by rw [← hrest, List.append_assoc]; rfl, ?_⟩
      rintro _ ⟨⟩
      exact hy.stops d rfl
  have htake : takeNumber text = some (n, rest) := by rw [htext, takeNumber_eq hn hstops]
  generalize hout : n.literal ++ y = out at h
  cases h with
  | done =>
    rw [hhead] at hout
    cases hout
  | string =>
    rw [hhead] at hout
    exact absurd (List.cons.inj hout).1 hne
  | integer =>
    rw [hhead] at hout
    exact absurd (List.cons.inj hout).1 hne
  | number _ htake' h =>
    rw [htake'] at htake
    obtain ⟨rfl, rfl⟩ := Prod.mk.inj (Option.some.inj htake)
    obtain rfl := List.append_cancel_left hout
    exact ⟨_, rfl, h⟩
  | other _ hnone => exact nomatch hnone.symm.trans htake

/-- Of a string that ends where the scan says, and of what is emitted behind it, the string of the grammar is the whole. -/
theorem string_eq {v s seg after out y : Units} (hs : IsChars v s) (hend : endOfString.scan (seg ++ after) 0 = seg.length)
    (h : Rewritten after out) (hout : seg ++ out = s ++ quote :: y) : seg = s ++ [quote] ∧ out = y := by
  -- it is not cut within the string of the grammar: there is no end there
  have hcut : ∀ z : Units, s = seg ++ z → out = z ++ quote :: y → False := by
    intro z hz hrest
    have hafter : after ≠ [] := by
      rintro rfl
      have hempty : out = [] := by
        generalize hnil : ([] : Units) = text at h
        cases h with
        | done => rfl
        | string => cases hnil
        | number hn =>
          obtain ⟨c, ds, hhead, -⟩ := hn.head
          rw [hhead] at hnil
          cases hnil
        | integer hn =>
          obtain ⟨c, ds, hhead, -⟩ := hn.head
          rw [hhead] at hnil
          cases hnil
        | other => cases hnil
      rw [hempty] at hrest
      exact absurd hrest.symm (by simp)
    have hwhole := endOfString_front hend hafter (z := z ++ quote :: y) (by simp)
    rw [← List.append_assoc, ← hz, endOfString_eq hs] at hwhole
    rw [hz, List.length_append] at hwhole
    omega
  rcases List.append_eq_append_iff.1 hout with ⟨z, hz, hrest⟩ | ⟨z, hz, hrest⟩
  · exact (hcut z hz hrest).elim
  · rcases z with - | ⟨q, z⟩
    · exact (hcut [] (by rw [hz, List.append_nil, List.append_nil]) hrest.symm).elim
    · obtain ⟨rfl, rfl⟩ := List.cons.inj hrest
      rw [hz, List.append_assoc, List.cons_append, endOfString_eq hs, List.length_append, List.length_cons] at hend
      obtain rfl : z = [] := List.eq_nil_of_length_eq_zero (by omega)
      exact ⟨hz, rfl⟩

/-- The source of the tag is read as the tag. -/
theorem takeChars_mark (w : Units) :
    takeChars (units "\\u0000n" ++ w) = ((takeChars w).map (pushUnit 0x6E)).map (pushUnit 0) := by
  have hmark : units "\\u0000n" = [backslash, letterU, zero, zero, zero, zero, 0x6E] := by decide
  have hunit : hexUnit zero zero zero zero = some 0 := by decide
  have hplain : takeChars (0x6E :: w) = (takeChars w).map (pushUnit 0x6E) := by
    rw [takeChars.eq_def]
    dsimp only
    rw [if_neg (by decide), if_neg (by decide), if_neg (by decide)]
  rw [hmark, List.cons_append, takeChars.eq_def]
  simp only [if_neg (by decide : backslash ≠ quote), if_true, List.cons_append, List.nil_append, hunit, Option.bind_some, hplain]

/-- Where a string is emitted, a string stands in the text, or an integer past the safe range. -/
theorem Rewritten.ofString {v s : Units} (hs : IsChars v s) {text y : Units} (h : Rewritten text (quote :: (s ++ quote :: y))) :
    (∃ v₀ s₀ rest, IsChars v₀ s₀ ∧ text = quote :: (s₀ ++ quote :: rest) ∧ Rewritten rest y) ∨
    ∃ n rest, n.Valid ∧ Unsafe n ∧ text = n.literal ++ rest ∧ Rewritten rest y := by
  have hread := takeChars_eq hs y
  generalize hout : quote :: (s ++ quote :: y) = out at h
  cases h with
  | done => cases hout
  | @string mark seg after out hmark hend h =>
    have hbody := (List.cons.inj hout).2
    rw [hbody] at hread
    -- behind the mark stands a string of the grammar
    obtain ⟨v₀, s₀, hs₀, hseg⟩ : ∃ v₀ s₀, IsChars v₀ s₀ ∧ seg ++ out = s₀ ++ quote :: y := by
      rcases hmark with rfl | rfl
      · obtain ⟨s₀, hs₀, hseg⟩ := takeChars_sound hread
        exact ⟨v, s₀, hs₀, hseg⟩
      · rw [takeChars_mark] at hread
        obtain ⟨⟨v₁, r₁⟩, hread₁, heq₁⟩ := Option.map_eq_some_iff.1 hread
        obtain ⟨⟨v₂, r₂⟩, hread₂, heq₂⟩ := Option.map_eq_some_iff.1 hread₁
        cases heq₂
        cases heq₁
        obtain ⟨s₀, hs₀, hseg⟩ := takeChars_sound hread₂
        exact ⟨v₂, s₀, hs₀, hseg⟩
    obtain ⟨rfl, rfl⟩ := string_eq hs₀ hend h hseg
    exact .inl ⟨v₀, s₀, after, hs₀, by rw [List.append_assoc]; rfl, h⟩
  | number hn =>
    obtain ⟨c, ds, hhead, hc⟩ := hn.head
    rw [hhead] at hout
    obtain rfl := (List.cons.inj hout).1
    exact absurd hc (by decide)
  | @integer n rest out hn hpast h =>
    have hbody : s ++ quote :: y = units "\\u0000n" ++ n.literal ++ quote :: out := by
      rw [List.append_assoc]
      exact (List.cons.inj hout).2
    have hread' := takeChars_eq (isChars_tag (isChars_literal hn hpast.1 hpast.2.1)) out
    rw [← hbody, hread] at hread'
    obtain ⟨-, rfl⟩ := Prod.mk.inj (Option.some.inj hread')
    exact .inr ⟨n, rest, hn, hpast, rfl, h⟩
  | other hquote => exact absurd (List.cons.inj hout).1.symm hquote

/-! ### By the derivation of what is emitted -/

/-- Where the part is emitted, and a value may end behind it, a part of the kind stands in the text. -/
def Stems (x : Units) (kind : Units → Prop) : Prop :=
  ∀ text y, Ends y → Rewritten text (x ++ y) → ∃ x₀ rest, text = x₀ ++ rest ∧ kind x₀ ∧ Rewritten rest y

theorem Stems.of_plain {x : Units} (hx : ∀ c ∈ x, IsPlain c) {kind : Units → Prop} (h : kind x) : Stems x kind := by
  intro text y _ hout
  obtain ⟨rest, rfl, hrest⟩ := hout.plain hx
  exact ⟨x, rest, rfl, h, hrest⟩

theorem isPlain_bracket {l r : UInt16} (hl : IsPlain l) (hr : IsPlain r) {ws : Units} (h : IsSpaces ws) :
    ∀ c ∈ l :: (ws ++ [r]), IsPlain c := by
  intro c hc
  rcases List.mem_cons.1 hc with rfl | hc
  · exact hl
  · rcases List.mem_append.1 hc with hc | hc
    · exact isPlain_spaces h c hc
    · exact List.mem_singleton.1 hc ▸ hr

/-- Brackets around what they hold. -/
theorem Stems.bracket {l r : UInt16} (hl : IsPlain l) (hr : IsPlain r) (hends : ∀ b, Ends (r :: b)) {x : Units} {kind kind' : Units → Prop}
    (h : Stems x kind) (hkind : ∀ x₀, kind x₀ → kind' (l :: (x₀ ++ [r]))) : Stems (l :: (x ++ [r])) kind' := by
  intro text y _ hout
  rw [List.cons_append, List.append_assoc] at hout
  obtain ⟨inner, rfl, hinner⟩ := hout.one hl
  obtain ⟨x₀, tail, rfl, hx₀, htail⟩ := h inner (r :: y) (hends y) hinner
  obtain ⟨rest, rfl, hrest⟩ := htail.one hr
  refine ⟨l :: (x₀ ++ [r]), rest, ?_, hkind x₀ hx₀, hrest⟩
  rw [List.cons_append, List.append_assoc]
  rfl

/-- Two parts with a comma between them. -/
theorem Stems.comma {x z : Units} {kind kind' kind'' : Units → Prop} (hx : Stems x kind) (hz : Stems z kind')
    (hkind : ∀ x₀ z₀, kind x₀ → kind' z₀ → kind'' (x₀ ++ Library.Json.comma :: z₀)) : Stems (x ++ Library.Json.comma :: z) kind'' := by
  intro text y hy hout
  rw [List.append_assoc, List.cons_append] at hout
  obtain ⟨x₀, tail, rfl, hx₀, htail⟩ := hx text _ (ends_cons (by decide) _) hout
  obtain ⟨more, rfl, hmore⟩ := htail.one (by decide)
  obtain ⟨z₀, rest, rfl, hz₀, hrest⟩ := hz more y hy hmore
  exact ⟨_, rest, by rw [List.append_assoc, List.cons_append], hkind x₀ z₀ hx₀ hz₀, hrest⟩

mutual

/-- Where a text of the grammar is emitted, one of the loose grammar stands in the text. -/
theorem stems_value : {t : Tree} → {x : Units} → IsValue t x → Stems x (fun x₀ => ∃ t₀, IsLooseValue t₀ x₀)
  | _, _, .null => .of_plain (plain_of_all (by decide)) ⟨_, .null⟩
  | _, _, .bool b => .of_plain (plain_of_all (by cases b <;> decide)) ⟨_, .bool b⟩
  | _, _, .number hn => by
    intro text y hy hout
    obtain ⟨rest, rfl, hrest⟩ := hout.ofNumber hn hy
    exact ⟨_, rest, rfl, ⟨_, .number hn⟩, hrest⟩
  | _, _, @IsValue.string v s hs => by
    intro text y _ hout
    rw [List.cons_append, List.append_assoc] at hout
    rcases hout.ofString hs with ⟨v₀, s₀, rest, hs₀, rfl, hrest⟩ | ⟨n, rest, hn, -, rfl, hrest⟩
    · exact ⟨quote :: (s₀ ++ [quote]), rest, by rw [List.cons_append, List.append_assoc]; rfl, ⟨_, .string hs₀⟩, hrest⟩
    · exact ⟨_, rest, rfl, ⟨_, .number hn⟩, hrest⟩
  | _, _, .emptyArray h => .of_plain (isPlain_bracket (by decide) (by decide) h) ⟨_, .emptyArray h⟩
  | _, _, .array h => (stems_elements h).bracket (by decide) (by decide) (fun b => ends_cons (by decide) b)
      (fun _ ⟨_, h⟩ => ⟨_, .array h⟩)
  | _, _, .emptyObject h => .of_plain (isPlain_bracket (by decide) (by decide) h) ⟨_, .emptyObject h⟩
  | _, _, .object h => (stems_members h).bracket (by decide) (by decide) (fun b => ends_cons (by decide) b)
      (fun _ ⟨_, h⟩ => ⟨_, .object h⟩)

theorem stems_element : {t : Tree} → {x : Units} → IsElement t x → Stems x (fun x₀ => ∃ t₀, IsLooseElement t₀ x₀)
  | _, _, @IsElement.mk t pre x post hpre h hpost => by
    intro text y hy hout
    rw [List.append_assoc, List.append_assoc] at hout
    obtain ⟨tail, rfl, htail⟩ := hout.plain (isPlain_spaces hpre)
    obtain ⟨x₀, more, rfl, ⟨t₀, ht₀⟩, hmore⟩ := stems_value h tail (post ++ y) (hy.spaces hpost) htail
    obtain ⟨rest, rfl, hrest⟩ := hmore.plain (isPlain_spaces hpost)
    exact ⟨pre ++ x₀ ++ post, rest, by simp only [List.append_assoc], ⟨t₀, .mk hpre ht₀ hpost⟩, hrest⟩

theorem stems_elements : {items : List Tree} → {x : Units} → IsElements items x →
    Stems x (fun x₀ => ∃ items₀, IsLooseElements items₀ x₀)
  | _, _, .one h => by
    intro text y hy hout
    obtain ⟨x₀, rest, rfl, ⟨t₀, ht₀⟩, hrest⟩ := stems_element h text y hy hout
    exact ⟨x₀, rest, rfl, ⟨_, .one ht₀⟩, hrest⟩
  | _, _, .cons h hrest => (stems_element h).comma (stems_elements hrest) (fun _ _ ⟨_, ht⟩ ⟨_, hts⟩ => ⟨_, .cons ht hts⟩)

theorem stems_member : {m : Units × Tree} → {x : Units} → IsMember m x → Stems x (fun x₀ => ∃ m₀, IsLooseMember m₀ x₀)
  | _, _, @IsMember.mk k s t pre mid x hpre hk hmid h => by
    intro text y hy hout
    have hshape : pre ++ quote :: (s ++ quote :: (mid ++ colon :: x)) ++ y =
        pre ++ (quote :: (s ++ quote :: (mid ++ ([colon] ++ (x ++ y))))) := by
      simp only [List.append_assoc, List.cons_append, List.nil_append]
    rw [hshape] at hout
    obtain ⟨key, rfl, hkey⟩ := hout.plain (isPlain_spaces hpre)
    -- behind the key, whatever it is
    have hvalue : ∀ {tail : Units}, Rewritten tail (mid ++ ([colon] ++ (x ++ y))) →
        ∃ x₀ rest t₀, tail = mid ++ colon :: (x₀ ++ rest) ∧ IsLooseElement t₀ x₀ ∧ Rewritten rest y := by
      intro tail htail
      obtain ⟨more, rfl, hmore⟩ := htail.plain (isPlain_spaces hmid)
      obtain ⟨value, rfl, hvalue⟩ := hmore.one (by decide)
      obtain ⟨x₀, rest, rfl, ⟨t₀, ht₀⟩, hrest⟩ := stems_element h value y hy hvalue
      exact ⟨x₀, rest, t₀, rfl, ht₀, hrest⟩
    rcases hkey.ofString hk with ⟨v₀, s₀, tail, hs₀, rfl, htail⟩ | ⟨n, tail, hn, hpast, rfl, htail⟩
    · obtain ⟨x₀, rest, t₀, rfl, ht₀, hrest⟩ := hvalue htail
      refine ⟨_, rest, ?_, ⟨_, .mk hpre hs₀ hmid ht₀⟩, hrest⟩
      simp only [List.append_assoc, List.cons_append]
    · obtain ⟨x₀, rest, t₀, rfl, ht₀, hrest⟩ := hvalue htail
      refine ⟨_, rest, ?_, ⟨_, .integer hpre hn hpast hmid ht₀⟩, hrest⟩
      simp only [List.append_assoc, List.cons_append]

theorem stems_members : {members : List (Units × Tree)} → {x : Units} → IsMembers members x →
    Stems x (fun x₀ => ∃ members₀, IsLooseMembers members₀ x₀)
  | _, _, .one h => by
    intro text y hy hout
    obtain ⟨x₀, rest, rfl, ⟨m₀, hm₀⟩, hrest⟩ := stems_member h text y hy hout
    exact ⟨x₀, rest, rfl, ⟨_, .one hm₀⟩, hrest⟩
  | _, _, .cons h hrest => (stems_member h).comma (stems_members hrest) (fun _ _ ⟨_, hm⟩ ⟨_, hms⟩ => ⟨_, .cons hm hms⟩)

end

/-- A text that is rewritten as one of the grammar is of the loose grammar. -/
theorem Rewritten.loose {text out : Units} (h : Rewritten text out) {t : Tree} (hout : IsElement t out) : ∃ t₀, IsLooseElement t₀ text := by
  rw [← List.append_nil out] at h
  obtain ⟨x₀, rest, rfl, hx₀, hrest⟩ := stems_element hout text [] .nil h
  rw [hrest.eq_nil, List.append_nil]
  exact hx₀

end BrainSdk.TypeScript.Json
