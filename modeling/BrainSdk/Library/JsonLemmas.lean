import Mathlib.Data.List.TakeWhile
import BrainSdk.Library.Json

/-!
# The parser accepts the grammar

Each part of a text is read to its end, whatever may follow it: a number up to a character that no number goes on with, a string up to its
quote, and by induction on the derivation a value, the elements of an array and the members of an object. So a text of the grammar is
parsed as the one value that it is.
-/

namespace BrainSdk.Library.Json

/-! ### Numbers are read to their end -/

/-- What may follow a value: the end of the text, white space, a comma or a closing bracket. -/
def Ends (text : Units) : Prop := ∀ c ∈ text.head?, isSpace c = true ∨ c = comma ∨ c = closeBracket ∨ c = closeBrace

theorem Ends.nil : Ends [] := fun c hc => absurd hc (by simp)

theorem ends_cons {c : UInt16} (h : isSpace c = true ∨ c = comma ∨ c = closeBracket ∨ c = closeBrace) (rest : Units) :
    Ends (c :: rest) := by
  intro d hd
  obtain rfl : c = d := Option.some.inj hd
  exact h

/-- White space may stand before what follows a value. -/
theorem Ends.spaces {ws : Units} (hws : IsSpaces ws) {text : Units} (h : Ends text) : Ends (ws ++ text) := by
  rcases ws with - | ⟨c, ws⟩
  · exact h
  · exact ends_cons (.inl (hws c List.mem_cons_self)) _

/-- No digit, point or mark is next: a number does not go on. -/
def Stops (text : Units) : Prop := ∀ c ∈ text.head?, isDigit c = false ∧ c ≠ dot ∧ isExponentMark c = false

theorem Ends.stops {text : Units} (h : Ends text) : Stops text := by
  intro c hc
  have hspace : isSpace c = true → isDigit c = false ∧ c ≠ dot ∧ isExponentMark c = false := by
    intro hs
    simp only [isSpace, Bool.or_eq_true, beq_iff_eq] at hs
    rcases hs with ((rfl | rfl) | rfl) | rfl <;> decide
  rcases h c hc with hs | rfl | rfl | rfl
  · exact hspace hs
  all_goals decide

theorem takeDigits_eq {ds r : Units} (hds : IsDigits ds) (hr : ∀ c ∈ r.head?, isDigit c = false) : takeDigits (ds ++ r) = (ds, r) := by
  have hstop : r.takeWhile isDigit = [] ∧ r.dropWhile isDigit = r := by
    rcases r with - | ⟨c, r⟩
    · exact ⟨rfl, rfl⟩
    · have hc := hr c rfl
      exact ⟨List.takeWhile_cons_of_neg (by simp [hc]), List.dropWhile_cons_of_neg (by simp [hc])⟩
  unfold takeDigits
  rw [List.takeWhile_append_of_pos hds, List.dropWhile_append_of_pos hds, hstop.1, hstop.2, List.append_nil]

theorem takeInt_eq {int r : Units} (h : IsInt int) (hr : ∀ c ∈ r.head?, isDigit c = false) : takeInt (int ++ r) = some (int, r) := by
  cases h with
  | zero => rfl
  | @digits d ds hd hne hds => rw [List.cons_append, takeInt, if_neg hne, if_pos hd, takeDigits_eq hds hr]

theorem takeFrac_eq {frac r : Units} (h : IsFrac frac) (hr : ∀ c ∈ r.head?, isDigit c = false ∧ c ≠ dot) :
    takeFrac (frac ++ r) = (frac, r) := by
  cases h with
  | none =>
    rcases r with - | ⟨c, - | ⟨d, r⟩⟩
    · rfl
    · rfl
    · exact if_neg (fun hc => (hr c rfl).2 hc.1)
  | @some d ds hds =>
    have hdigits := takeDigits_eq (fun c hc => hds c (List.mem_cons_of_mem d hc)) (fun c hc => (hr c hc).1) (r := r)
    rw [List.cons_append, List.cons_append, takeFrac, if_pos ⟨rfl, hds d List.mem_cons_self⟩, hdigits]

theorem takeExpDigits_eq {d : UInt16} {ds r : Units} (hds : IsDigits (d :: ds)) (hr : ∀ c ∈ r.head?, isDigit c = false)
    (mark whole : Units) : takeExpDigits mark whole (d :: (ds ++ r)) = (mark ++ d :: ds, r) := by
  rw [takeExpDigits, if_pos (hds d List.mem_cons_self), takeDigits_eq (fun c hc => hds c (List.mem_cons_of_mem d hc)) hr]

theorem takeExp_eq {exp r : Units} (h : IsExp exp) (hr : ∀ c ∈ r.head?, isDigit c = false ∧ isExponentMark c = false) :
    takeExp (exp ++ r) = (exp, r) := by
  have hdigit : ∀ c ∈ r.head?, isDigit c = false := fun c hc => (hr c hc).1
  cases h with
  | none =>
    rcases r with - | ⟨c, r⟩
    · rfl
    · exact if_neg (by simp [(hr c rfl).2])
  | @unsigned e d ds he hds =>
    have hsign : isSign d = false := by
      by_contra hs
      simp only [isSign, Bool.not_eq_false, Bool.or_eq_true, beq_iff_eq] at hs
      have hd := hds d List.mem_cons_self
      rcases hs with rfl | rfl <;> exact absurd hd (by decide)
    rw [List.cons_append, List.cons_append, takeExp, if_pos he]
    simp only [hsign, Bool.false_eq_true, if_false]
    exact takeExpDigits_eq hds hdigit _ _
  | @signed e s d ds he hs hds =>
    rw [List.cons_append, List.cons_append, List.cons_append, takeExp, if_pos he]
    simp only [hs, if_true]
    exact takeExpDigits_eq hds hdigit _ _

/-- The head of an exponent, or of what follows it. -/
theorem IsExp.head {exp : Units} (h : IsExp exp) {r : Units} (hr : ∀ c ∈ r.head?, isDigit c = false ∧ c ≠ dot) :
    ∀ c ∈ (exp ++ r).head?, isDigit c = false ∧ c ≠ dot := by
  have hmark : ∀ e, isExponentMark e = true → isDigit e = false ∧ e ≠ dot := by
    intro e he
    simp only [isExponentMark, Bool.or_eq_true, beq_iff_eq] at he
    rcases he with rfl | rfl <;> decide
  cases h with
  | none => exact hr
  | unsigned he hds =>
    rintro c ⟨⟩
    exact hmark _ he
  | signed he hs hds =>
    rintro c ⟨⟩
    exact hmark _ he

/-- The head of a fraction, or of what follows it. -/
theorem IsFrac.head {frac : Units} (h : IsFrac frac) {r : Units} (hr : ∀ c ∈ r.head?, isDigit c = false) :
    ∀ c ∈ (frac ++ r).head?, isDigit c = false := by
  cases h with
  | none => exact hr
  | some hds =>
    rintro c ⟨⟩
    decide

/-- An integer begins with a digit. -/
theorem IsInt.head {int : Units} (h : IsInt int) : ∃ d ds, int = d :: ds ∧ isDigit d = true := by
  cases h with
  | zero => exact ⟨_, _, rfl, by decide⟩
  | digits hd _ _ => exact ⟨_, _, rfl, hd⟩

/-- A number begins with a sign or a digit. -/
theorem Number.Valid.head {n : Number} (h : n.Valid) : ∃ c rest, n.literal = c :: rest ∧ (c = minus ∨ isDigit c = true) := by
  obtain ⟨d, ds, hint, hd⟩ := h.int.head
  unfold Number.literal
  rw [hint]
  cases n.negative with
  | false => exact ⟨d, _, rfl, .inr hd⟩
  | true => exact ⟨minus, _, rfl, .inl rfl⟩

theorem takeNumber_eq {n : Number} (h : n.Valid) {r : Units} (hr : Stops r) : takeNumber (n.literal ++ r) = some (n, r) := by
  have hexp := h.exp.head (fun c hc => ⟨(hr c hc).1, (hr c hc).2.1⟩)
  have hfrac := h.frac.head (fun c hc => (hexp c hc).1)
  have hparts : takeUnsigned n.negative (n.int ++ (n.frac ++ (n.exp ++ r))) = some (n, r) := by
    unfold takeUnsigned
    rw [takeInt_eq h.int hfrac]
    simp only [Option.bind_eq_bind, Option.bind_some, takeFrac_eq h.frac hexp,
      takeExp_eq h.exp (fun c hc => ⟨(hr c hc).1, (hr c hc).2.2⟩)]
    rfl
  obtain ⟨d, ds, hint, hd⟩ := h.int.head
  unfold Number.literal
  simp only [List.append_assoc]
  rcases hneg : n.negative with - | -
  · have hne : d ≠ minus := by
      rintro rfl
      exact absurd hd (by decide)
    rw [hneg, hint, List.cons_append] at hparts
    rw [hint, if_neg (by decide), List.nil_append, List.cons_append, takeNumber, if_neg hne, hparts]
  · rw [hneg] at hparts
    rw [if_pos rfl, List.cons_append, List.nil_append, takeNumber, if_pos rfl, hparts]

/-! ### Values are read to their end -/

theorem escaped_ne {e c : UInt16} (h : escaped e = some c) : e ≠ letterU := by
  rintro rfl
  cases h

theorem takeChars_eq {v s : Units} (h : IsChars v s) (r : Units) : takeChars (s ++ quote :: r) = some (v, r) := by
  induction h with
  | nil =>
    rw [List.nil_append, takeChars.eq_def]
    exact if_pos rfl
  | @plain c v s hc hquote hback _ ih =>
    have hlow : ¬c < 0x20 := UInt16.not_lt.2 hc
    rw [List.cons_append, takeChars.eq_def]
    simp only [if_neg hquote, if_neg hback, if_neg hlow, ih]
    rfl
  | @escape e c v s he _ ih =>
    rw [List.cons_append, List.cons_append, takeChars.eq_def]
    simp only [if_neg (by decide : backslash ≠ quote), if_true, if_neg (escaped_ne he), he, ih]
    rfl
  | @unicode a b c d u v s hu _ ih =>
    simp only [List.cons_append]
    rw [takeChars.eq_def]
    simp only [if_neg (by decide : backslash ≠ quote), if_true, hu, ih]
    rfl

/-- A name is read off the front, and no other name is. -/
theorem takeName_eq (name : String) (t : Tree) (r : Units) : takeName name t (units name ++ r) = some (t, r) := by
  unfold takeName
  rw [if_pos (List.prefix_append _ _), List.drop_left]

theorem takeName_none {name : String} {c d : UInt16} {rest : Units} (h : (units name).head? = some d) (hne : d ≠ c) (t : Tree) :
    takeName name t (c :: rest) = none := by
  refine if_neg (fun hpre => ?_)
  obtain ⟨u, hu⟩ := hpre
  rcases hname : units name with - | ⟨e, es⟩
  · rw [hname] at h
    cases h
  · rw [hname] at h hu
    exact hne ((Option.some.inj h).symm.trans (List.cons.inj hu).1)

theorem skipSpaces_append {ws : Units} (h : IsSpaces ws) (r : Units) : skipSpaces (ws ++ r) = skipSpaces r :=
  List.dropWhile_append_of_pos h

theorem skipSpaces_cons {c : UInt16} (h : isSpace c = false) (r : Units) : skipSpaces (c :: r) = c :: r :=
  List.dropWhile_cons_of_neg (by simp [h])

/-- A value begins with none of the characters that come between values. -/
theorem IsValue.head {t : Tree} {text : Units} (h : IsValue t text) :
    ∃ c rest, text = c :: rest ∧ isSpace c = false ∧ c ≠ closeBracket := by
  cases h with
  | null => exact ⟨_, _, rfl, by decide, by decide⟩
  | bool b => rcases b with - | - <;> exact ⟨_, _, rfl, by decide, by decide⟩
  | @number n h =>
    obtain ⟨c, rest, htext, hc⟩ := h.head
    refine ⟨c, rest, htext, Bool.eq_false_iff.2 (fun hs => ?_), ?_⟩
    · simp only [isSpace, Bool.or_eq_true, beq_iff_eq] at hs
      rcases hs with ((rfl | rfl) | rfl) | rfl <;> exact absurd hc (by decide)
    · rintro rfl
      exact absurd hc (by decide)
  | string h => exact ⟨_, _, rfl, by decide, by decide⟩
  | emptyArray h => exact ⟨_, _, rfl, by decide, by decide⟩
  | array h => exact ⟨_, _, rfl, by decide, by decide⟩
  | emptyObject h => exact ⟨_, _, rfl, by decide, by decide⟩
  | object h => exact ⟨_, _, rfl, by decide, by decide⟩

theorem IsValue.skip {t : Tree} {text : Units} (h : IsValue t text) (r : Units) : skipSpaces (text ++ r) = text ++ r := by
  obtain ⟨c, rest, rfl, hspace, -⟩ := h.head
  exact skipSpaces_cons hspace _

theorem skip_element {t : Tree} {pre text : Units} (hpre : IsSpaces pre) (h : IsValue t text) (post r : Units) :
    skipSpaces (pre ++ text ++ post ++ r) = text ++ (post ++ r) := by
  rw [List.append_assoc, List.append_assoc, skipSpaces_append hpre, h.skip]

theorem skip_to {ws : Units} (h : IsSpaces ws) {c : UInt16} (hc : isSpace c = false) (r : Units) : skipSpaces (ws ++ c :: r) = c :: r := by
  rw [skipSpaces_append h, skipSpaces_cons hc]

/-- The elements of an array do not begin like the end of one. -/
theorem IsElements.skip {items : List Tree} {body : Units} (h : IsElements items body) (r : Units) :
    ∃ c rest, skipSpaces (body ++ r) = c :: rest ∧ c ≠ closeBracket := by
  have helement : ∀ {t : Tree} {text : Units}, IsElement t text → ∀ r,
      ∃ c rest, skipSpaces (text ++ r) = c :: rest ∧ c ≠ closeBracket := by
    intro t text h r
    cases h with
    | @mk _ pre text post hpre hv hpost =>
      obtain ⟨c, rest, htext, -, hne⟩ := hv.head
      refine ⟨c, rest ++ (post ++ r), ?_, hne⟩
      rw [skip_element hpre hv, htext, List.cons_append]
  cases h with
  | one h => exact helement h r
  | cons h _ =>
    rw [List.append_assoc]
    exact helement h _

/-- The members of an object begin with a quote. -/
theorem IsMembers.skip {members : List (Units × Tree)} {body : Units} (h : IsMembers members body) (r : Units) :
    ∃ rest, skipSpaces (body ++ r) = quote :: rest := by
  have hmember : ∀ {m : Units × Tree} {text : Units}, IsMember m text → ∀ r, ∃ rest, skipSpaces (text ++ r) = quote :: rest := by
    rintro m text ⟨hpre, hk, hmid, hv⟩ r
    rw [List.append_assoc, skipSpaces_append hpre]
    exact ⟨_, skipSpaces_cons (by decide) _⟩
  cases h with
  | one h => exact hmember h r
  | cons h _ =>
    rw [List.append_assoc]
    exact hmember h _

mutual

/-- A value is read, whatever ends it. -/
theorem takeValue_eq : {t : Tree} → {text : Units} → IsValue t text → ∀ (fuel : Nat) (r : Units), text.length ≤ fuel → Ends r →
    takeValue fuel (text ++ r) = some (t, r)
  | _, _, .null, fuel, r, hfuel, _ => by
    obtain ⟨fuel, rfl⟩ : ∃ k, fuel = k + 1 := ⟨fuel - 1, (Nat.succ_pred (Nat.ne_of_gt (Nat.lt_of_lt_of_le (by decide) hfuel))).symm⟩
    have hname := takeName_eq "null" .null r
    have hunits : units "null" ++ r = 0x6E :: (units "ull" ++ r) := rfl
    rw [hunits] at hname ⊢
    rw [takeValue, if_neg (by decide), if_neg (by decide), if_neg (by decide), if_neg (by decide), hname]
    rfl
  | _, _, .bool b, fuel, r, hfuel, _ => by
    have hpos : 0 < (units (if b then "true" else "false")).length := by cases b <;> decide
    obtain ⟨fuel, rfl⟩ : ∃ k, fuel = k + 1 := ⟨fuel - 1, by omega⟩
    rcases b with - | -
    · have hname := takeName_eq "false" (.bool false) r
      have hunits : units "false" ++ r = 0x66 :: (units "alse" ++ r) := rfl
      rw [if_neg (by decide), hunits]
      rw [hunits] at hname
      rw [takeValue, if_neg (by decide), if_neg (by decide), if_neg (by decide), if_neg (by decide), hname,
        takeName_none (d := 0x6E) (by decide) (by decide), takeName_none (d := 0x74) (by decide) (by decide)]
      rfl
    · have hname := takeName_eq "true" (.bool true) r
      have hunits : units "true" ++ r = 0x74 :: (units "rue" ++ r) := rfl
      rw [if_pos rfl, hunits]
      rw [hunits] at hname
      rw [takeValue, if_neg (by decide), if_neg (by decide), if_neg (by decide), if_neg (by decide), hname,
        takeName_none (d := 0x6E) (by decide) (by decide)]
      rfl
  | _, _, @IsValue.number n h, fuel, r, hfuel, hr => by
    obtain ⟨c, rest, htext, hfirst⟩ := h.head
    rw [htext, List.length_cons] at hfuel
    obtain ⟨fuel, rfl⟩ : ∃ k, fuel = k + 1 := ⟨fuel - 1, by omega⟩
    have hread := takeNumber_eq h hr.stops
    have hne : c ≠ quote ∧ c ≠ openBracket ∧ c ≠ openBrace := by
      refine ⟨?_, ?_, ?_⟩
      all_goals
        rintro rfl
        exact absurd hfirst (by decide)
    rw [htext, List.cons_append] at hread ⊢
    rw [takeValue, if_neg hne.1, if_neg hne.2.1, if_neg hne.2.2, if_pos hfirst, hread]
    rfl
  | _, _, @IsValue.string v s h, fuel, r, hfuel, hr => by
    obtain ⟨fuel, rfl⟩ : ∃ k, fuel = k + 1 := ⟨fuel - 1, by rw [List.length_cons] at hfuel; omega⟩
    rw [List.cons_append, List.append_assoc, takeValue, if_pos rfl, List.cons_append, List.nil_append, takeChars_eq h]
    rfl
  | _, _, @IsValue.emptyArray ws h, fuel, r, hfuel, hr => by
    obtain ⟨fuel, rfl⟩ : ∃ k, fuel = k + 1 := ⟨fuel - 1, by rw [List.length_cons] at hfuel; omega⟩
    have hskip : skipSpaces (ws ++ [closeBracket] ++ r) = closeBracket :: r := by
      rw [List.append_assoc, skipSpaces_append h]
      exact skipSpaces_cons (by decide) _
    rw [List.cons_append, takeValue, if_neg (by decide), if_pos rfl, hskip]
    rfl
  | _, _, @IsValue.array items body h, fuel, r, hfuel, hr => by
    rw [List.length_cons, List.length_append, List.length_singleton] at hfuel
    obtain ⟨fuel, rfl⟩ : ∃ k, fuel = k + 1 := ⟨fuel - 1, by omega⟩
    obtain ⟨c, rest, hskip, hne⟩ := h.skip (closeBracket :: r)
    have hread := takeElements_eq h fuel r (by omega)
    rw [List.cons_append, List.append_assoc, List.singleton_append, takeValue, if_neg (by decide), if_pos rfl, hskip]
    simp only [if_neg hne, hread]
    rfl
  | _, _, @IsValue.emptyObject ws h, fuel, r, hfuel, hr => by
    obtain ⟨fuel, rfl⟩ : ∃ k, fuel = k + 1 := ⟨fuel - 1, by rw [List.length_cons] at hfuel; omega⟩
    have hskip : skipSpaces (ws ++ [closeBrace] ++ r) = closeBrace :: r := by
      rw [List.append_assoc, skipSpaces_append h]
      exact skipSpaces_cons (by decide) _
    rw [List.cons_append, takeValue, if_neg (by decide), if_neg (by decide), if_pos rfl, hskip]
    rfl
  | _, _, @IsValue.object members body h, fuel, r, hfuel, hr => by
    rw [List.length_cons, List.length_append, List.length_singleton] at hfuel
    obtain ⟨fuel, rfl⟩ : ∃ k, fuel = k + 1 := ⟨fuel - 1, by omega⟩
    obtain ⟨rest, hskip⟩ := h.skip (closeBrace :: r)
    have hread := takeMembers_eq h fuel r (by omega)
    have hne : quote ≠ closeBrace := by decide
    rw [List.cons_append, List.append_assoc, List.singleton_append, takeValue, if_neg (by decide), if_neg (by decide), if_pos rfl, hskip]
    simp only [if_neg hne, hread]
    rfl

/-- Elements are read up to the closing bracket. -/
theorem takeElements_eq : {items : List Tree} → {body : Units} → IsElements items body → ∀ (fuel : Nat) (r : Units),
    body.length + 1 ≤ fuel → takeElements fuel (body ++ closeBracket :: r) = some (items, r)
  | _, _, .one (@IsElement.mk t pre text post hpre h hpost), fuel, r, hfuel => by
    obtain ⟨fuel, rfl⟩ : ∃ k, fuel = k + 1 := ⟨fuel - 1, by omega⟩
    simp only [List.length_append] at hfuel
    have hends : Ends (post ++ closeBracket :: r) := (ends_cons (by decide) r).spaces hpost
    have hread := takeValue_eq h fuel _ (by omega) hends
    rw [takeElements, skip_element hpre h]
    simp only [hread, Option.bind_eq_bind, Option.bind_some, skip_to hpost (by decide : isSpace closeBracket = false) r, if_true]
  | _, _, @IsElements.cons _ items _ rest (@IsElement.mk t pre text post hpre h hpost) hrest, fuel, r, hfuel => by
    obtain ⟨fuel, rfl⟩ : ∃ k, fuel = k + 1 := ⟨fuel - 1, by omega⟩
    simp only [List.length_append, List.length_cons] at hfuel
    have hends : Ends (post ++ comma :: (rest ++ closeBracket :: r)) := (ends_cons (by decide) _).spaces hpost
    have hread := takeValue_eq h fuel _ (by omega) hends
    have hmore := takeElements_eq hrest fuel r (by omega)
    have hne : comma ≠ closeBracket := by decide
    rw [takeElements, List.append_assoc, List.cons_append, skip_element hpre h]
    simp only [hread, Option.bind_eq_bind, Option.bind_some, skip_to hpost (by decide : isSpace comma = false), if_neg hne, if_true, hmore]
    rfl

/-- Members are read up to the closing brace. -/
theorem takeMembers_eq : {members : List (Units × Tree)} → {body : Units} → IsMembers members body → ∀ (fuel : Nat) (r : Units),
    body.length + 1 ≤ fuel → takeMembers fuel (body ++ closeBrace :: r) = some (members, r)
  | _, _, .one (@IsMember.mk k s _ pre mid _ hpre hk hmid (@IsElement.mk t pre' text post hpre' h hpost)), fuel, r, hfuel => by
    obtain ⟨fuel, rfl⟩ : ∃ k, fuel = k + 1 := ⟨fuel - 1, by omega⟩
    simp only [List.length_append, List.length_cons] at hfuel
    have hends : Ends (post ++ closeBrace :: r) := (ends_cons (by decide) r).spaces hpost
    have hread := takeValue_eq h fuel _ (by omega) hends
    have hkey := takeChars_eq hk (mid ++ colon :: (pre' ++ text ++ post ++ closeBrace :: r))
    have hsource : pre ++ quote :: (s ++ quote :: (mid ++ colon :: (pre' ++ text ++ post))) ++ closeBrace :: r =
        pre ++ quote :: (s ++ quote :: (mid ++ colon :: (pre' ++ text ++ post ++ closeBrace :: r))) := by
      simp only [List.append_assoc, List.cons_append]
    rw [hsource, takeMembers, skip_to hpre (by decide)]
    simp only [if_true, hkey, Option.bind_eq_bind, Option.bind_some, skip_to hmid (by decide : isSpace colon = false),
      skip_element hpre' h, hread, skip_to hpost (by decide : isSpace closeBrace = false)]
  | _, _, @IsMembers.cons _ members _ rest (@IsMember.mk k s _ pre mid _ hpre hk hmid (@IsElement.mk t pre' text post hpre' h hpost)) hrest,
      fuel, r, hfuel => by
    obtain ⟨fuel, rfl⟩ : ∃ k, fuel = k + 1 := ⟨fuel - 1, by omega⟩
    simp only [List.length_append, List.length_cons] at hfuel
    have hends : Ends (post ++ comma :: (rest ++ closeBrace :: r)) := (ends_cons (by decide) _).spaces hpost
    have hread := takeValue_eq h fuel _ (by omega) hends
    have hmore := takeMembers_eq hrest fuel r (by omega)
    have hne : comma ≠ closeBrace := by decide
    have hkey := takeChars_eq hk (mid ++ colon :: (pre' ++ text ++ post ++ comma :: (rest ++ closeBrace :: r)))
    have hsource : pre ++ quote :: (s ++ quote :: (mid ++ colon :: (pre' ++ text ++ post))) ++ comma :: rest ++ closeBrace :: r =
        pre ++ quote :: (s ++ quote :: (mid ++ colon :: (pre' ++ text ++ post ++ comma :: (rest ++ closeBrace :: r)))) := by
      simp only [List.append_assoc, List.cons_append]
    rw [hsource, takeMembers, skip_to hpre (by decide)]
    simp only [if_true, hkey, Option.bind_eq_bind, Option.bind_some, skip_to hmid (by decide : isSpace colon = false),
      skip_element hpre' h, hread, skip_to hpost (by decide : isSpace comma = false), if_neg hne, hmore]
    rfl

end

/-- Every text of the grammar is parsed, as the value that it is. -/
theorem parse_eq {t : Tree} {text : Units} (h : IsElement t text) : parse text = some t := by
  cases h with
  | @mk _ pre text post hpre hv hpost =>
    have hend : Ends post := by
      have h := Ends.nil.spaces hpost
      rwa [List.append_nil] at h
    have hspaces : skipSpaces post = [] := List.dropWhile_eq_nil_iff.2 hpost
    have hskip := skip_element hpre hv post []
    rw [List.append_nil, List.append_nil] at hskip
    have hread := takeValue_eq hv ((pre ++ text ++ post).length + 1) post (by simp only [List.length_append]; omega) hend
    unfold parse
    rw [hskip, hread]
    exact if_pos hspaces

end BrainSdk.Library.Json
