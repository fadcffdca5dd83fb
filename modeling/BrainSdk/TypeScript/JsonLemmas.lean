import BrainSdk.Library.JsonLemmas
import BrainSdk.TypeScript.Json

/-!
# The scan over a JSON text

What the scan does to each part of a text of the grammar: it passes over it to its end and emits the source of the tagged value. Parts
are put together by `Rewrites.append`.
-/

namespace BrainSdk.TypeScript.Json

open Library Library.Json Cbor

/-! ### Parts of a text -/

/-- What is emitted of the text up to the place of the scan. -/
def Scan.emitted (text : Units) (s : Scan) : Units := s.out ++ slice text s.cut s.i

/-- A run of 16 digits, or the escape for NUL: what the guard in front of the scan looks for. -/
def Triggers (x : Units) : Prop := ∃ a y b, x = a ++ y ++ b ∧ (16 ≤ y.length ∧ IsDigits y ∨ y = units "\\u0000")

theorem Triggers.left {x : Units} (h : Triggers x) (z : Units) : Triggers (x ++ z) := by
  obtain ⟨a, y, b, rfl, hy⟩ := h
  exact ⟨a, y, b ++ z, by simp only [List.append_assoc], hy⟩

theorem Triggers.right {x : Units} (h : Triggers x) (z : Units) : Triggers (z ++ x) := by
  obtain ⟨a, y, b, rfl, hy⟩ := h
  exact ⟨z ++ a, y, b, by simp only [List.append_assoc], hy⟩

/-- In front of what follows, the scan passes over the part and emits the other in its place. -/
structure Rewrites (x x' : Units) (changed : Bool) (b : Units) : Prop where
  advance : ∀ (text a : Units) (s : Scan), text = a ++ (x ++ b) → s.i = a.length → s.cut ≤ s.i →
    ∃ (s' : Scan) (turns : Nat), turns ≤ x.length ∧ (∀ more, s.loop text (turns + more) = s'.loop text more) ∧
      s'.i = (a ++ x).length ∧ s'.cut ≤ s'.i ∧ s'.emitted text = s.emitted text ++ x' ∧ s'.rewrote = (s.rewrote || changed)
  triggers : changed = true → Triggers x

/-- Two parts in a row. -/
theorem Rewrites.append {x x' y y' b : Units} {c d : Bool} (hx : Rewrites x x' c (y ++ b)) (hy : Rewrites y y' d b) :
    Rewrites (x ++ y) (x' ++ y') (c || d) b := by
  constructor
  · intro text a s htext hi hcut
    obtain ⟨s₁, n₁, hn₁, hloop₁, hi₁, hcut₁, hemit₁, hrew₁⟩ := hx.advance text a s (by rw [htext, List.append_assoc]) hi hcut
    obtain ⟨s₂, n₂, hn₂, hloop₂, hi₂, hcut₂, hemit₂, hrew₂⟩ := hy.advance text (a ++ x) s₁
      (by rw [htext, List.append_assoc, List.append_assoc]) hi₁ hcut₁
    refine ⟨s₂, n₁ + n₂, ?_, fun more => ?_, ?_, hcut₂, ?_, ?_⟩
    · rw [List.length_append]
      omega
    · rw [Nat.add_assoc, hloop₁, hloop₂]
    · rw [hi₂, List.append_assoc]
    · rw [hemit₂, hemit₁, List.append_assoc]
    · rw [hrew₂, hrew₁, Bool.or_assoc]
  · intro h
    rcases Bool.or_eq_true_iff.1 h with h | h
    · exact (hx.triggers h).left y
    · exact (hy.triggers h).right x

theorem Rewrites.nil (b : Units) : Rewrites [] [] false b := by
  constructor
  · intro text a s htext hi hcut
    exact ⟨s, 0, Nat.le_refl 0, fun more => by rw [Nat.zero_add], by rw [List.append_nil, hi], hcut, by rw [List.append_nil],
      by rw [Bool.or_false]⟩
  · intro h
    cases h

/-- One turn, from the head of the part. -/
theorem loop_turn {text a x b : Units} {c : UInt16} {s : Scan} (htext : text = a ++ (c :: x ++ b)) (hi : s.i = a.length) (more : Nat) :
    s.loop text (1 + more) = (s.turn text c).loop text more := by
  have hc : text[s.i]? = some c := by
    rw [htext, hi, List.getElem?_append_right (Nat.le_refl _), Nat.sub_self]
    rfl
  rw [Nat.add_comm, Scan.loop, hc, Option.elim_some]

/-- A slice that goes on over the part. -/
theorem slice_part {text a x b : Units} (htext : text = a ++ (x ++ b)) {cut : Nat} (hcut : cut ≤ a.length) :
    slice text cut (a ++ x).length = slice text cut a.length ++ x := by
  have hwhole : text.take (a ++ x).length = a ++ x := by rw [htext, ← List.append_assoc, List.take_left]
  have hfront : text.take a.length = a := by rw [htext, List.take_left]
  unfold slice
  rw [hwhole, hfront, List.drop_append_of_le_length hcut]

theorem slice_empty (text : Units) (n : Nat) : slice text n n = [] := by
  unfold slice
  rw [List.drop_eq_nil_iff, List.length_take]
  exact Nat.min_le_left _ _

/-- A part that one turn passes over, and leaves as it is. -/
theorem Rewrites.of_turn_same {c : UInt16} {x b : Units}
    (h : ∀ (text a : Units) (s : Scan), text = a ++ (c :: x ++ b) → s.i = a.length →
      s.turn text c = { s with i := (a ++ c :: x).length }) : Rewrites (c :: x) (c :: x) false b := by
  constructor
  · intro text a s htext hi hcut
    refine ⟨{ s with i := (a ++ c :: x).length }, 1, Nat.succ_pos _, fun more => ?_, rfl, ?_, ?_, ?_⟩
    · rw [loop_turn htext hi, h text a s htext hi]
    · rw [List.length_append]
      exact Nat.le_trans (hi ▸ hcut) (Nat.le_add_right _ _)
    · unfold Scan.emitted
      rw [slice_part htext (hi ▸ hcut), ← hi, List.append_assoc]
    · rw [Bool.or_false]
  · intro hc
    cases hc

/-- A part that one turn replaces. -/
theorem Rewrites.of_turn_new {c : UInt16} {x x' b : Units}
    (h : ∀ (text a : Units) (s : Scan), text = a ++ (c :: x ++ b) → s.i = a.length →
      s.turn text c =
        { out := s.out ++ (slice text s.cut s.i ++ x'), cut := (a ++ c :: x).length, rewrote := true, i := (a ++ c :: x).length })
    (htrigger : Triggers (c :: x)) : Rewrites (c :: x) x' true b := by
  constructor
  · intro text a s htext hi hcut
    refine ⟨_, 1, Nat.succ_pos _, fun more => by rw [loop_turn htext hi, h text a s htext hi], rfl, Nat.le_refl _, ?_, ?_⟩
    · unfold Scan.emitted
      dsimp only
      rw [slice_empty, List.append_nil, List.append_assoc]
    · rw [Bool.or_true]
  · exact fun _ => htrigger

/-! ### Characters between tokens -/

/-- The characters that the scan passes over one by one. -/
def IsPlain (c : UInt16) : Prop := c ≠ quote ∧ c ≠ minus ∧ isDigit c = false

instance (c : UInt16) : Decidable (IsPlain c) := inferInstanceAs (Decidable (_ ∧ _))

theorem plain_of_all {x : Units} (h : x.all (fun c => decide (IsPlain c)) = true) : ∀ c ∈ x, IsPlain c := by
  simpa only [List.all_eq_true, decide_eq_true_eq] using h

theorem rewrites_plain {x : Units} (hx : ∀ c ∈ x, IsPlain c) (b : Units) : Rewrites x x false b := by
  induction x with
  | nil => exact Rewrites.nil b
  | cons c x ih =>
    obtain ⟨hquote, hminus, hdigit⟩ := hx c List.mem_cons_self
    have hfirst : Rewrites [c] [c] false (x ++ b) := by
      refine Rewrites.of_turn_same (fun text a s htext hi => ?_)
      unfold Scan.turn
      rw [if_neg hquote, if_neg (by simp [hminus, hdigit]), List.length_append, hi]
      rfl
    exact hfirst.append (ih (fun d hd => hx d (List.mem_cons_of_mem c hd)))

theorem rewrites_spaces {ws : Units} (h : IsSpaces ws) (b : Units) : Rewrites ws ws false b := by
  refine rewrites_plain (fun c hc => ?_) b
  have hs := h c hc
  simp only [isSpace, Bool.or_eq_true, beq_iff_eq] at hs
  rcases hs with ((rfl | rfl) | rfl) | rfl <;> decide

/-! ### Strings -/

/-- What follows a value: no character that goes on with a number, and no colon. -/
structure Follows (b : Units) : Prop where
  ends : Ends b
  noColon : isKeyPosition.scan b = false

theorem scan_spaces {ws : Units} (h : IsSpaces ws) (b : Units) : isKeyPosition.scan (ws ++ b) = isKeyPosition.scan b := by
  induction ws with
  | nil => rfl
  | cons c ws ih =>
    rw [List.cons_append, isKeyPosition.scan, if_pos (h c List.mem_cons_self)]
    exact ih (fun d hd => h d (List.mem_cons_of_mem c hd))

theorem Follows.spaces {ws : Units} (hws : IsSpaces ws) {b : Units} (h : Follows b) : Follows (ws ++ b) :=
  ⟨h.ends.spaces hws, by rw [scan_spaces hws, h.noColon]⟩

theorem hexUnit_eq_some {a b c d u : UInt16} (h : hexUnit a b c d = some u) :
    ∃ w x y z, hexValue a = some w ∧ hexValue b = some x ∧ hexValue c = some y ∧ hexValue d = some z ∧
      u = w * 0x1000 + x * 0x100 + y * 0x10 + z := by
  simp only [hexUnit, Option.bind_eq_bind, Option.bind_eq_some_iff] at h
  obtain ⟨w, hw, x, hx, y, hy, z, hz, hu⟩ := h
  exact ⟨w, x, y, z, hw, hx, hy, hz, (Option.some.inj hu).symm⟩

/-- A hexadecimal digit neither ends a string nor escapes. -/
theorem hexValue_ne {c v : UInt16} (h : hexValue c = some v) : c ≠ quote ∧ c ≠ backslash := by
  constructor
  · rintro rfl
    cases h
  · rintro rfl
    cases h

theorem endOfString_pass {c : UInt16} (hquote : c ≠ quote) (hback : c ≠ backslash) {rest : Units} (hrest : rest ≠ []) (i : Nat) :
    endOfString.scan (c :: rest) i = endOfString.scan rest (i + 1) := by
  obtain ⟨d, ds, rfl⟩ := List.exists_cons_of_ne_nil hrest
  rw [endOfString.scan, if_neg hback, if_neg hquote]

/-- The end of a string is behind its closing quote, whatever it holds. -/
theorem endOfString_eq {v s : Units} (h : IsChars v s) (b : Units) (i : Nat) :
    endOfString.scan (s ++ quote :: b) i = i + s.length + 1 := by
  induction h generalizing i with
  | nil =>
    rcases b with - | ⟨d, b⟩
    · rfl
    · rw [List.nil_append, endOfString.scan, if_neg (by decide), if_pos rfl]
      rfl
  | @plain c v s hc hquote hback _ ih =>
    rw [List.cons_append, endOfString_pass hquote hback (by simp), ih, List.length_cons]
    omega
  | @escape e c v s he _ ih =>
    rw [List.cons_append, List.cons_append, endOfString.scan, if_pos rfl, ih, List.length_cons, List.length_cons]
    omega
  | @unicode a b' c d u v s hu _ ih =>
    obtain ⟨w, x, y, z, ha, hb, hc, hd, -⟩ := hexUnit_eq_some hu
    simp only [List.cons_append]
    rw [endOfString.scan, if_pos rfl, endOfString_pass (hexValue_ne ha).1 (hexValue_ne ha).2 (by simp),
      endOfString_pass (hexValue_ne hb).1 (hexValue_ne hb).2 (by simp), endOfString_pass (hexValue_ne hc).1 (hexValue_ne hc).2 (by simp),
      endOfString_pass (hexValue_ne hd).1 (hexValue_ne hd).2 (by simp), ih]
    simp only [List.length_cons]
    omega

/-- A digit is below 16, and zero has one spelling. -/
theorem hexValue_facts {c v : UInt16} (h : hexValue c = some v) : v.toNat < 16 ∧ (v.toNat = 0 → c = zero) := by
  have hle : ∀ {x y : UInt16}, (decide (x ≤ y)) = true ↔ x.toNat ≤ y.toNat := fun {x y} => by
    rw [decide_eq_true_eq, UInt16.le_iff_toNat_le]
  unfold Json.hexValue isDigit at h
  simp only [Bool.and_eq_true, hle] at h
  rw [← UInt16.toNat_inj]
  split_ifs at h with h₁ h₂ h₃
  all_goals
    rw [← Option.some.inj h, UInt16.toNat_sub]
    simp only [zero, UInt16.toNat_ofNat] at *
    omega

/-- Four digits that spell NUL are four zeros. -/
theorem hexUnit_zero {a b c d : UInt16} (h : hexUnit a b c d = some 0) : a = zero ∧ b = zero ∧ c = zero ∧ d = zero := by
  obtain ⟨w, x, y, z, ha, hb, hc, hd, hu⟩ := hexUnit_eq_some h
  obtain ⟨hw, ha⟩ := hexValue_facts ha
  obtain ⟨hx, hb⟩ := hexValue_facts hb
  obtain ⟨hy, hc⟩ := hexValue_facts hc
  obtain ⟨hz, hd⟩ := hexValue_facts hd
  have hsum := congrArg UInt16.toNat hu
  simp only [UInt16.toNat_add, UInt16.toNat_mul, UInt16.toNat_ofNat] at hsum
  exact ⟨ha (by omega), hb (by omega), hc (by omega), hd (by omega)⟩

/-- The source of a string begins with the escape for NUL exactly when the string begins with NUL. -/
theorem nulSource_iff {v s : Units} (h : IsChars v s) (r : Units) :
    nulSource.isPrefixOf (quote :: (s ++ quote :: r)) = true ↔ v.head? = some 0 := by
  have hsource : nulSource = [quote, backslash, letterU, zero, zero, zero, zero] := by decide
  rw [List.isPrefixOf_iff_prefix, hsource, List.cons_prefix_cons, and_iff_right rfl]
  cases h with
  | nil => simp [quote, backslash]
  | @plain c v s hc hquote hback _ =>
    have hne : c ≠ 0 := by
      rintro rfl
      exact absurd hc (by decide)
    simp [hne, Ne.symm hback]
  | @escape e c v s he _ =>
    have hne : c ≠ 0 := by
      rintro rfl
      revert he
      unfold escaped
      split_ifs with h <;> simp
      rintro rfl
      exact absurd h (by decide)
    simp [hne, Ne.symm (escaped_ne he)]
  | @unicode a b c d u v s hu _ =>
    simp only [List.cons_append, List.cons_prefix_cons, true_and, List.nil_prefix, and_true, List.head?_cons, Option.some.injEq]
    constructor
    · rintro ⟨rfl, rfl, rfl, rfl⟩
      have hzero : hexUnit zero zero zero zero = some 0 := by decide
      exact (Option.some.inj (hzero.symm.trans hu)).symm
    · rintro rfl
      obtain ⟨rfl, rfl, rfl, rfl⟩ := hexUnit_zero hu
      exact ⟨rfl, rfl, rfl, rfl⟩

/-- The source of a string with its quotes. -/
def quoted (s : Units) : Units := quote :: (s ++ [quote])

/-- Where the scan stands at a string, and where it stops. -/
theorem string_places {text a s b : Units} (htext : text = a ++ (quoted s ++ b)) {v : Units} (h : IsChars v s) :
    text.drop a.length = quote :: (s ++ quote :: b) ∧ endOfString text a.length = (a ++ quoted s).length ∧
      text.drop (a ++ quoted s).length = b := by
  have hquoted : quoted s ++ b = quote :: (s ++ quote :: b) := by
    unfold quoted
    rw [List.cons_append, List.append_assoc]
    rfl
  have hdrop : text.drop a.length = quote :: (s ++ quote :: b) := by rw [htext, List.drop_left, hquoted]
  refine ⟨hdrop, ?_, ?_⟩
  · have hrest : text.drop (a.length + 1) = s ++ quote :: b := by
      rw [← List.drop_drop, hdrop]
      rfl
    unfold endOfString
    rw [hrest, endOfString_eq h]
    simp only [quoted, List.length_append, List.length_cons, List.length_nil]
    omega
  · rw [htext, ← List.append_assoc, List.drop_left]

/-- A key stays as it is. -/
theorem rewrites_key {k s b : Units} (h : IsChars k s) (hb : isKeyPosition.scan b = true) :
    Rewrites (quoted s) (quoted s) false b := by
  refine Rewrites.of_turn_same (fun text a st htext hi => ?_)
  obtain ⟨-, hstop, hrest⟩ := string_places htext h
  have hkey : isKeyPosition text (a ++ quoted s).length = true := by
    unfold isKeyPosition
    rw [hrest, hb]
  unfold Scan.turn
  rw [if_pos rfl, hi]
  simp only [hstop, hkey, not_true_eq_false, and_false, if_false]
  rfl

/-- A string that begins with NUL gets the tag in front. -/
theorem rewrites_nul {v s b : Units} (h : IsChars v s) (hb : isKeyPosition.scan b = false) (hnul : v.head? = some 0) :
    Rewrites (quoted s) (tagSource ++ (s ++ [quote])) true b := by
  refine Rewrites.of_turn_new (fun text a st htext hi => ?_) ?_
  · obtain ⟨hdrop, hstop, hrest⟩ := string_places htext h
    have hkey : isKeyPosition text (a ++ quoted s).length = false := by
      unfold isKeyPosition
      rw [hrest, hb]
    have hsource : nulSource.isPrefixOf (quote :: (s ++ quote :: b)) = true := (nulSource_iff h b).2 hnul
    have hinner : slice text (a.length + 1) (a ++ quoted s).length = s ++ [quote] := by
      have htext' : text = (a ++ [quote]) ++ ((s ++ [quote]) ++ b) := by
        rw [htext, List.append_assoc]
        rfl
      have hpart := slice_part htext' (Nat.le_refl (a ++ [quote]).length)
      rw [slice_empty, List.nil_append, List.append_assoc, List.length_append, List.length_singleton] at hpart
      exact hpart
    have hturn : nulSource.isPrefixOf (text.drop a.length) = true ∧ ¬isKeyPosition text (a ++ quoted s).length = true := by
      rw [hdrop, hkey]
      exact ⟨hsource, Bool.false_ne_true⟩
    unfold Scan.turn
    rw [if_pos rfl, hi]
    simp only [hstop, if_pos hturn, hinner, List.append_assoc]
    rfl
  · have hsource : nulSource.isPrefixOf (quoted s) = true := (nulSource_iff h []).2 hnul
    obtain ⟨rest, hrest⟩ := List.isPrefixOf_iff_prefix.1 hsource
    exact ⟨[quote], _, rest, hrest.symm, .inr rfl⟩

/-- Another string stays as it is. -/
theorem rewrites_other {v s b : Units} (h : IsChars v s) (hnul : v.head? ≠ some 0) : Rewrites (quoted s) (quoted s) false b := by
  refine Rewrites.of_turn_same (fun text a st htext hi => ?_)
  obtain ⟨hdrop, hstop, -⟩ := string_places htext h
  have hsource : ¬nulSource.isPrefixOf (text.drop a.length) = true := by
    rw [hdrop]
    exact mt (nulSource_iff h b).1 hnul
  unfold Scan.turn
  rw [if_pos rfl, hi, hstop, if_neg (fun h => hsource h.1)]
  rfl

/-! ### Numbers -/

/-- The literals that are rewritten: neither fraction nor exponent, and past the safe range. -/
def Unsafe (n : Number) : Prop := n.frac = [] ∧ n.exp = [] ∧ (intValue n > maxSafe ∨ intValue n < -maxSafe)

instance (n : Number) : Decidable (Unsafe n) := inferInstanceAs (Decidable (_ ∧ _))

theorem digit_facts {c : UInt16} (h : isDigit c = true) : (c - 0x30).toNat < 10 := by
  simp only [isDigit, Bool.and_eq_true, decide_eq_true_eq, UInt16.le_iff_toNat_le] at h
  rw [UInt16.toNat_sub]
  simp only [UInt16.toNat_ofNat] at *
  omega

/-- The digits behind a number add to its multiple. -/
theorem foldl_digits (ds : Units) (n : Nat) :
    ds.foldl (fun n c => 10 * n + (c - 0x30).toNat) n = n * 10 ^ ds.length + digitsValue ds := by
  induction ds generalizing n with
  | nil => simp [digitsValue]
  | cons d ds ih =>
    have hfirst : digitsValue (d :: ds) = (d - 0x30).toNat * 10 ^ ds.length + digitsValue ds := by
      have h := ih (10 * 0 + (d - 0x30).toNat)
      rw [Nat.mul_zero, Nat.zero_add] at h
      unfold digitsValue at h ⊢
      rw [List.foldl_cons, Nat.mul_zero, Nat.zero_add, h]
    rw [List.foldl_cons, ih, hfirst, List.length_cons, Nat.pow_succ, Nat.add_mul, Nat.add_assoc, Nat.mul_comm 10 n, Nat.mul_assoc,
      Nat.mul_comm 10]

theorem digitsValue_cons (c : UInt16) (ds : Units) : digitsValue (c :: ds) = (c - 0x30).toNat * 10 ^ ds.length + digitsValue ds := by
  have h := foldl_digits ds (c - 0x30).toNat
  unfold digitsValue at h ⊢
  rw [List.foldl_cons, Nat.mul_zero, Nat.zero_add, h]

theorem digitsValue_lt {ds : Units} (h : IsDigits ds) : digitsValue ds < 10 ^ ds.length := by
  induction ds with
  | nil => exact Nat.one_pos
  | cons c ds ih =>
    have hc := Nat.mul_le_mul_right (10 ^ ds.length) (Nat.le_of_lt_succ (digit_facts (h c List.mem_cons_self)))
    have hds := ih (fun d hd => h d (List.mem_cons_of_mem c hd))
    rw [digitsValue_cons, List.length_cons, Nat.pow_succ]
    omega

theorem IsInt.digits {int : Units} (h : IsInt int) : IsDigits int := by
  cases h with
  | zero =>
    intro c hc
    rw [List.mem_singleton.1 hc]
    decide
  | digits hd _ hds => exact List.forall_mem_cons.2 ⟨hd, hds⟩

/-- `BigInt` reads the integer that a literal is. -/
theorem parseBigInt_literal {n : Number} (h : n.Valid) (hfrac : n.frac = []) (hexp : n.exp = []) : parseBigInt n.literal = some (intValue n) := by
  obtain ⟨d, ds, hint, hd⟩ := h.int.head
  have hall : (d :: ds).all isDigit = true := List.all_eq_true.2 (hint ▸ IsInt.digits h.int)
  unfold Number.literal intValue
  rw [hfrac, hexp, List.append_nil, List.append_nil, hint]
  cases n.negative with
  | false =>
    have hne : d ≠ minus := by
      rintro rfl
      exact absurd hd (by decide)
    rw [if_neg Bool.false_ne_true, if_neg Bool.false_ne_true, List.nil_append, parseBigInt, if_neg hne, if_pos hall]
  | true => rw [if_pos rfl, if_pos rfl, List.singleton_append, parseBigInt, if_pos rfl, if_pos ⟨List.cons_ne_nil _ _, hall⟩]

/-- The digits of a literal are counted without its sign. -/
theorem literal_digits {n : Number} (h : n.Valid) (hfrac : n.frac = []) (hexp : n.exp = []) :
    (if n.literal.head? = some minus then n.literal.length - 1 else n.literal.length) = n.int.length := by
  obtain ⟨d, ds, hint, hd⟩ := h.int.head
  unfold Number.literal
  rw [hfrac, hexp, List.append_nil, List.append_nil, hint]
  cases n.negative with
  | false =>
    have hne : d ≠ minus := by
      rintro rfl
      exact absurd hd (by decide)
    simp [hne]
  | true => simp

/-- `isUnsafeInteger` finds the integers past the safe range. Fewer than 16 digits stay within it. -/
theorem isUnsafeInteger_iff {n : Number} (h : n.Valid) :
    (n.frac = [] ∧ n.exp = [] ∧ isUnsafeInteger n.literal = true) ↔ Unsafe n := by
  unfold Unsafe
  refine and_congr_right (fun hfrac => and_congr_right (fun hexp => ?_))
  have hbound := digitsValue_lt (IsInt.digits h.int)
  unfold isUnsafeInteger
  rw [literal_digits h hfrac hexp, parseBigInt_literal h hfrac hexp]
  dsimp only
  by_cases hlen : n.int.length < 16
  · have hsmall : digitsValue n.int < 10 ^ 15 := Nat.lt_of_lt_of_le hbound (Nat.pow_le_pow_right (by decide) (by omega))
    rw [if_pos hlen]
    unfold intValue maxSafe
    refine iff_of_false Bool.false_ne_true ?_
    split_ifs <;> omega
  · rw [if_neg hlen, Option.elim_some, decide_eq_true_eq]

/-- A turn at a number takes its whole literal. -/
theorem turn_number {n : Number} (h : n.Valid) {text a b : Units} (htext : text = a ++ (n.literal ++ b)) (hb : Stops b) {s : Scan}
    (hi : s.i = a.length) {c : UInt16} (hc : c = minus ∨ isDigit c = true) :
    s.turn text c =
      if n.frac = [] ∧ n.exp = [] ∧ isUnsafeInteger n.literal = true then
        { out := s.out ++ (slice text s.cut s.i ++ tagSource ++ n.literal ++ [quote]), cut := (a ++ n.literal).length, rewrote := true,
          i := (a ++ n.literal).length }
      else { s with i := (a ++ n.literal).length } := by
  have hquote : c ≠ quote := by
    rintro rfl
    exact absurd hc (by decide)
  have hread : takeNumber (text.drop s.i) = some (n, b) := by rw [htext, hi, List.drop_left, takeNumber_eq h hb]
  have hlen : s.i + n.literal.length = (a ++ n.literal).length := by rw [List.length_append, hi]
  unfold Scan.turn
  rw [if_neg hquote, if_pos hc, hread]
  dsimp only
  rw [hlen]

/-- A safe number stays as it is. -/
theorem rewrites_safe {n : Number} (h : n.Valid) (hn : ¬Unsafe n) {b : Units} (hb : Stops b) :
    Rewrites n.literal n.literal false b := by
  obtain ⟨c, rest, hlit, hc⟩ := h.head
  have hturn : ∀ (text a : Units) (s : Scan), text = a ++ (n.literal ++ b) → s.i = a.length →
      s.turn text c = { s with i := (a ++ n.literal).length } := by
    intro text a s htext hi
    rw [turn_number h htext hb hi hc, if_neg (mt (isUnsafeInteger_iff h).1 hn)]
  rw [hlit] at hturn ⊢
  exact Rewrites.of_turn_same hturn

/-- An unsafe integer becomes a string with the tag in front. -/
theorem rewrites_past {n : Number} (h : n.Valid) (hn : Unsafe n) {b : Units} (hb : Stops b) :
    Rewrites n.literal (tagSource ++ n.literal ++ [quote]) true b := by
  obtain ⟨c, rest, hlit, hc⟩ := h.head
  have hturn : ∀ (text a : Units) (s : Scan), text = a ++ (n.literal ++ b) → s.i = a.length →
      s.turn text c =
        { out := s.out ++ (slice text s.cut s.i ++ (tagSource ++ n.literal ++ [quote])), cut := (a ++ n.literal).length,
          rewrote := true, i := (a ++ n.literal).length } := by
    intro text a s htext hi
    rw [turn_number h htext hb hi hc, if_pos ((isUnsafeInteger_iff h).2 hn)]
    simp only [List.append_assoc]
  have htrigger : Triggers n.literal := by
    obtain ⟨hfrac, hexp, hpast⟩ := hn
    have hbound := digitsValue_lt (IsInt.digits h.int)
    have hlong : 16 ≤ n.int.length := by
      by_contra hshort
      have hsmall : digitsValue n.int < 10 ^ 15 := Nat.lt_of_lt_of_le hbound (Nat.pow_le_pow_right (by decide) (by omega))
      unfold intValue maxSafe at hpast
      split_ifs at hpast <;> omega
    refine ⟨if n.negative then [minus] else [], n.int, [], ?_, .inl ⟨hlong, IsInt.digits h.int⟩⟩
    rw [Number.literal, hfrac, hexp, List.append_nil]
  generalize hnew : tagSource ++ n.literal ++ [quote] = x' at hturn ⊢
  rw [hlit] at hturn htrigger ⊢
  exact Rewrites.of_turn_new hturn htrigger

/-! ### The tagged value -/

mutual

/-- The value that the emitted source is: unsafe integers and the strings that begin with NUL are strings with the tag in front. -/
def tagged : Tree → Tree
  | .null => .null
  | .bool b => .bool b
  | .number n => if Unsafe n then .string (tag ++ n.literal) else .number n
  | .string v => if v.head? = some 0 then .string (tag ++ v) else .string v
  | .array items => .array (taggedItems items)
  | .object members => .object (taggedMembers members)

def taggedItems : List Tree → List Tree
  | [] => []
  | t :: items => tagged t :: taggedItems items

def taggedMembers : List (Units × Tree) → List (Units × Tree)
  | [] => []
  | (k, t) :: members => (k, tagged t) :: taggedMembers members

end

/-- An unsafe integer as the `bigint` of exactly its value, and another literal as a `number`. -/
def exactOf (n : Number) : Value := if Unsafe n then .bigint (intValue n) else numberOf n

/-- The tag is spelled in front of a string. -/
theorem isChars_tag {v s : Units} (h : IsChars v s) : IsChars (tag ++ v) (units "\\u0000n" ++ s) :=
  .unicode (by decide) (.plain (by decide) (by decide) (by decide) h)

theorem isValue_tag {v s : Units} (h : IsChars v s) : IsValue (.string (tag ++ v)) (tagSource ++ (s ++ [quote])) := by
  have hvalue := IsValue.string (isChars_tag h)
  rwa [List.append_assoc] at hvalue

/-- Digits spell themselves. -/
theorem isChars_literal {n : Number} (h : n.Valid) (hfrac : n.frac = []) (hexp : n.exp = []) : IsChars n.literal n.literal := by
  have hself : ∀ ds : Units, IsDigits ds → IsChars ds ds := by
    intro ds
    induction ds with
    | nil => exact fun _ => .nil
    | cons d ds ih =>
      intro hds
      have hd := hds d List.mem_cons_self
      refine .plain ?_ ?_ ?_ (ih (fun e he => hds e (List.mem_cons_of_mem d he)))
      · simp only [isDigit, Bool.and_eq_true, decide_eq_true_eq] at hd
        exact UInt16.le_trans (by decide) hd.1
      · rintro rfl
        exact absurd hd (by decide)
      · rintro rfl
        exact absurd hd (by decide)
  have hint := hself n.int (IsInt.digits h.int)
  unfold Number.literal
  rw [hfrac, hexp, List.append_nil, List.append_nil]
  cases n.negative with
  | false => exact hint
  | true => exact .plain (by decide) (by decide) (by decide) hint

end BrainSdk.TypeScript.Json
