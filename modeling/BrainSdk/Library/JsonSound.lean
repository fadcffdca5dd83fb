import BrainSdk.Library.JsonLemmas

/-!
# The parser accepts nothing else

What each part of the parser takes off the front of a text is of the grammar, and the text is what was taken and what is left. So a text
that is parsed is a text of the grammar, of the value that it is parsed as.
-/

namespace BrainSdk.Library.Json

/-! ### Numbers -/

theorem takeDigits_sound (text : Units) : IsDigits (takeDigits text).1 ∧ text = (takeDigits text).1 ++ (takeDigits text).2 :=
  ⟨fun _ hc => List.mem_takeWhile_imp hc, List.takeWhile_append_dropWhile.symm⟩

theorem takeInt_sound {text int r : Units} (h : takeInt text = some (int, r)) : IsInt int ∧ text = int ++ r := by
  rcases text with - | ⟨c, rest⟩
  · cases h
  · obtain ⟨hds, hrest⟩ := takeDigits_sound rest
    rw [takeInt] at h
    split_ifs at h with hz hd
    · cases h
      exact ⟨hz ▸ .zero, rfl⟩
    · cases h
      exact ⟨.digits hd hz hds, congrArg (c :: ·) hrest⟩

theorem takeFrac_sound (text : Units) : IsFrac (takeFrac text).1 ∧ text = (takeFrac text).1 ++ (takeFrac text).2 := by
  unfold takeFrac
  split
  · rename_i c d rest
    obtain ⟨hds, hrest⟩ := takeDigits_sound rest
    split_ifs with h
    · obtain ⟨rfl, hd⟩ := h
      refine ⟨.some (List.forall_mem_cons.2 ⟨hd, hds⟩), ?_⟩
      dsimp only
      rw [List.cons_append, List.cons_append, ← hrest]
    · exact ⟨.none, rfl⟩
  · exact ⟨.none, rfl⟩

/-- Behind a mark, and a sign if there is one: the digits make an exponent with them, or none is taken. -/
theorem takeExpDigits_sound (mark : Units) {text : Units} (hmark : ∀ d ds, IsDigits (d :: ds) → IsExp (mark ++ d :: ds)) :
    IsExp (takeExpDigits mark (mark ++ text) text).1 ∧
      mark ++ text = (takeExpDigits mark (mark ++ text) text).1 ++ (takeExpDigits mark (mark ++ text) text).2 := by
  rcases text with - | ⟨d, rest⟩
  · exact ⟨.none, rfl⟩
  · obtain ⟨hds, hrest⟩ := takeDigits_sound rest
    rw [takeExpDigits]
    split_ifs with hd
    · refine ⟨hmark _ _ (List.forall_mem_cons.2 ⟨hd, hds⟩), ?_⟩
      dsimp only
      rw [List.append_assoc, List.cons_append, ← hrest]
    · exact ⟨.none, rfl⟩

theorem takeExp_sound (text : Units) : IsExp (takeExp text).1 ∧ text = (takeExp text).1 ++ (takeExp text).2 := by
  rcases text with - | ⟨e, rest⟩
  · exact ⟨.none, rfl⟩
  · unfold takeExp
    dsimp only
    split_ifs with he
    · rcases rest with - | ⟨s, rest⟩
      · exact ⟨.none, rfl⟩
      · dsimp only
        split_ifs with hs
        · exact takeExpDigits_sound [e, s] (fun d ds hds => .signed he hs hds)
        · exact takeExpDigits_sound [e] (fun d ds hds => .unsigned he hds)
    · exact ⟨.none, rfl⟩

theorem takeUnsigned_sound {negative : Bool} {text r : Units} {n : Number} (h : takeUnsigned negative text = some (n, r)) :
    n.Valid ∧ n.negative = negative ∧ text = n.int ++ (n.frac ++ (n.exp ++ r)) := by
  simp only [takeUnsigned, Option.bind_eq_bind, Option.bind_eq_some_iff] at h
  obtain ⟨⟨int, rest⟩, hint, h⟩ := h
  obtain ⟨hvalid, rfl⟩ := takeInt_sound hint
  obtain ⟨hfrac, hrest⟩ := takeFrac_sound rest
  obtain ⟨hexp, hend⟩ := takeExp_sound (takeFrac rest).2
  cases h
  refine ⟨⟨hvalid, hfrac, hexp⟩, rfl, ?_⟩
  dsimp only
  rw [← hend, ← hrest]

theorem takeNumber_sound {text r : Units} {n : Number} (h : takeNumber text = some (n, r)) : n.Valid ∧ text = n.literal ++ r := by
  rcases text with - | ⟨c, rest⟩
  · cases h
  · rw [takeNumber] at h
    unfold Number.literal
    split_ifs at h with hc
    · obtain ⟨hvalid, hneg, rfl⟩ := takeUnsigned_sound h
      refine ⟨hvalid, ?_⟩
      rw [hneg, if_pos rfl, hc]
      simp only [List.append_assoc, List.cons_append, List.nil_append]
    · obtain ⟨hvalid, hneg, htext⟩ := takeUnsigned_sound h
      refine ⟨hvalid, ?_⟩
      rw [hneg, if_neg Bool.false_ne_true, htext]
      simp only [List.append_assoc, List.nil_append]

/-! ### Strings, names and white space -/

theorem takeChars_sound {text v r : Units} (h : takeChars text = some (v, r)) : ∃ s, IsChars v s ∧ text = s ++ quote :: r := by
  induction hlen : text.length using Nat.strong_induction_on generalizing text v with
  | _ len ih =>
    have hpush : ∀ {u : UInt16} {rest : Units}, rest.length < len → (takeChars rest).map (pushUnit u) = some (v, r) →
        ∃ v' s, v = u :: v' ∧ IsChars v' s ∧ rest = s ++ quote :: r := by
      intro u rest hlt hrest
      obtain ⟨⟨v', r'⟩, htake, heq⟩ := Option.map_eq_some_iff.1 hrest
      cases heq
      obtain ⟨s, hs, htext⟩ := ih rest.length hlt htake rfl
      exact ⟨v', s, rfl, hs, htext⟩
    rcases text with - | ⟨c, rest⟩
    · cases h
    · rw [takeChars.eq_def] at h
      dsimp only at h
      simp only [List.length_cons] at hlen
      split_ifs at h with hquote hback hlow
      · cases h
        exact ⟨[], .nil, hquote ▸ rfl⟩
      · subst hback
        rcases rest with - | ⟨e, rest⟩
        · cases h
        · simp only [List.length_cons] at hlen
          dsimp only at h
          split_ifs at h with hu
          · subst hu
            split at h
            · rename_i h1 h2 h3 h4 rest
              obtain ⟨u, hunit, h⟩ := Option.bind_eq_some_iff.1 h
              simp only [List.length_cons] at hlen
              obtain ⟨v', s, rfl, hs, rfl⟩ := hpush (by omega) h
              exact ⟨_, .unicode hunit hs, rfl⟩
            · cases h
          · obtain ⟨u, hunit, h⟩ := Option.bind_eq_some_iff.1 h
            obtain ⟨v', s, rfl, hs, rfl⟩ := hpush (by omega) h
            exact ⟨_, .escape hunit hs, rfl⟩
      · obtain ⟨v', s, rfl, hs, rfl⟩ := hpush (by omega) h
        exact ⟨_, .plain (UInt16.not_lt.1 hlow) hquote hback hs, rfl⟩

theorem takeName_sound {name : String} {t t' : Tree} {text r : Units} (h : takeName name t text = some (t', r)) :
    t' = t ∧ text = units name ++ r := by
  unfold takeName at h
  split_ifs at h with hpre
  cases h
  exact ⟨rfl, (List.prefix_iff_eq_append.1 hpre).symm⟩

theorem skipSpaces_sound (text : Units) : ∃ ws, IsSpaces ws ∧ text = ws ++ skipSpaces text :=
  ⟨text.takeWhile isSpace, fun _ hc => List.mem_takeWhile_imp hc, List.takeWhile_append_dropWhile.symm⟩

/-! ### Values -/

/-- What the parser takes at so many steps is of the grammar. -/
structure Sound (fuel : Nat) : Prop where
  value : ∀ {text r t}, takeValue fuel text = some (t, r) → ∃ x, IsValue t x ∧ text = x ++ r
  elements : ∀ {text r items}, takeElements fuel text = some (items, r) → ∃ x, IsElements items x ∧ text = x ++ closeBracket :: r
  members : ∀ {text r members}, takeMembers fuel text = some (members, r) → ∃ x, IsMembers members x ∧ text = x ++ closeBrace :: r

/-- An element: the value behind white space, and the white space behind it. -/
theorem Sound.element {fuel : Nat} (h : Sound fuel) {text r : Units} {t : Tree} (htake : takeValue fuel (skipSpaces text) = some (t, r)) :
    ∃ x, IsElement t x ∧ text = x ++ skipSpaces r := by
  obtain ⟨pre, hpre, htext⟩ := skipSpaces_sound text
  obtain ⟨x, hx, hvalue⟩ := h.value htake
  obtain ⟨post, hpost, hr⟩ := skipSpaces_sound r
  refine ⟨pre ++ x ++ post, .mk hpre hx hpost, ?_⟩
  rw [htext, hvalue, List.append_assoc, List.append_assoc, ← hr]

/-- A value at one more step. -/
theorem Sound.value_succ {fuel : Nat} (ih : Sound fuel) {text r : Units} {t : Tree} (h : takeValue (fuel + 1) text = some (t, r)) :
    ∃ x, IsValue t x ∧ text = x ++ r := by
  rcases text with - | ⟨c, rest⟩
  · cases h
  · rw [takeValue] at h
    split_ifs at h with hquote hbracket hbrace hnumber
    · obtain ⟨⟨v, r'⟩, hchars, heq⟩ := Option.map_eq_some_iff.1 h
      cases heq
      obtain ⟨s, hs, rfl⟩ := takeChars_sound hchars
      refine ⟨_, .string hs, ?_⟩
      rw [hquote, List.cons_append, List.append_assoc]
      rfl
    · obtain ⟨ws, hws, hrest⟩ := skipSpaces_sound rest
      split at h
      · cases h
      · rename_i d rest' hskip
        split_ifs at h with hclose
        · cases h
          refine ⟨_, .emptyArray hws, ?_⟩
          rw [hbracket, hrest, hskip, hclose, List.cons_append, List.append_assoc]
          rfl
        · obtain ⟨⟨items, r'⟩, hitems, heq⟩ := Option.map_eq_some_iff.1 h
          cases heq
          obtain ⟨x, hx, rfl⟩ := ih.elements hitems
          refine ⟨_, .array hx, ?_⟩
          rw [hbracket, List.cons_append, List.append_assoc]
          rfl
    · obtain ⟨ws, hws, hrest⟩ := skipSpaces_sound rest
      split at h
      · cases h
      · rename_i d rest' hskip
        split_ifs at h with hclose
        · cases h
          refine ⟨_, .emptyObject hws, ?_⟩
          rw [hbrace, hrest, hskip, hclose, List.cons_append, List.append_assoc]
          rfl
        · obtain ⟨⟨members, r'⟩, hmembers, heq⟩ := Option.map_eq_some_iff.1 h
          cases heq
          obtain ⟨x, hx, rfl⟩ := ih.members hmembers
          refine ⟨_, .object hx, ?_⟩
          rw [hbrace, List.cons_append, List.append_assoc]
          rfl
    · obtain ⟨⟨n, r'⟩, htake, heq⟩ := Option.map_eq_some_iff.1 h
      cases heq
      obtain ⟨hvalid, htext⟩ := takeNumber_sound htake
      exact ⟨_, .number hvalid, htext⟩
    · rcases Option.or_eq_some_iff.1 h with h | ⟨-, h⟩
      · obtain ⟨rfl, htext⟩ := takeName_sound h
        exact ⟨_, .null, htext⟩
      · rcases Option.or_eq_some_iff.1 h with h | ⟨-, h⟩
        · obtain ⟨rfl, htext⟩ := takeName_sound h
          exact ⟨_, .bool true, htext⟩
        · obtain ⟨rfl, htext⟩ := takeName_sound h
          exact ⟨_, .bool false, htext⟩

theorem Sound.elements_succ {fuel : Nat} (ih : Sound fuel) {text r : Units} {items : List Tree}
    (h : takeElements (fuel + 1) text = some (items, r)) : ∃ x, IsElements items x ∧ text = x ++ closeBracket :: r := by
  rw [takeElements] at h
  obtain ⟨⟨t, r₁⟩, hvalue, h⟩ := Option.bind_eq_some_iff.1 h
  obtain ⟨x, hx, htext⟩ := ih.element hvalue
  dsimp only at h
  split at h
  · cases h
  · rename_i c rest hskip
    rw [hskip] at htext
    split_ifs at h with hclose hcomma
    · cases h
      exact ⟨x, .one hx, hclose ▸ htext⟩
    · obtain ⟨⟨more, r'⟩, hmore, heq⟩ := Option.map_eq_some_iff.1 h
      cases heq
      obtain ⟨y, hy, rfl⟩ := ih.elements hmore
      refine ⟨_, .cons hx hy, ?_⟩
      rw [htext, hcomma, List.append_assoc, List.cons_append]

theorem Sound.members_succ {fuel : Nat} (ih : Sound fuel) {text r : Units} {members : List (Units × Tree)}
    (h : takeMembers (fuel + 1) text = some (members, r)) : ∃ x, IsMembers members x ∧ text = x ++ closeBrace :: r := by
  rw [takeMembers] at h
  obtain ⟨pre, hpre, htext⟩ := skipSpaces_sound text
  split at h
  · cases h
  · rename_i q key hq
    split_ifs at h with hquote
    obtain ⟨⟨k, r₁⟩, hchars, h⟩ := Option.bind_eq_some_iff.1 h
    obtain ⟨s, hs, hkey⟩ := takeChars_sound hchars
    obtain ⟨mid, hmid, hr₁⟩ := skipSpaces_sound r₁
    dsimp only at h
    split at h
    · cases h
    · rename_i c rest hc
      split_ifs at h with hcolon
      obtain ⟨⟨t, r₂⟩, hvalue, h⟩ := Option.bind_eq_some_iff.1 h
      obtain ⟨x, hx, hrest⟩ := ih.element hvalue
      have hmember : IsMember (k, t) (pre ++ quote :: (s ++ quote :: (mid ++ colon :: x))) := .mk hpre hs hmid hx
      have hwhole : text = pre ++ quote :: (s ++ quote :: (mid ++ colon :: x)) ++ skipSpaces r₂ := by
        rw [htext, hq, hquote, hkey, hr₁, hc, hcolon, hrest]
        simp only [List.append_assoc, List.cons_append]
      dsimp only at h
      split at h
      · cases h
      · rename_i d rest' hskip
        rw [hskip] at hwhole
        split_ifs at h with hclose hcomma
        · cases h
          exact ⟨_, .one hmember, hclose ▸ hwhole⟩
        · obtain ⟨⟨more, r'⟩, hmore, heq⟩ := Option.map_eq_some_iff.1 h
          cases heq
          obtain ⟨y, hy, rfl⟩ := ih.members hmore
          refine ⟨_, .cons hmember hy, ?_⟩
          rw [hwhole, hcomma, List.append_assoc _ (comma :: y), List.cons_append]

theorem sound (fuel : Nat) : Sound fuel := by
  induction fuel with
  | zero => exact ⟨(fun h => nomatch h), (fun h => nomatch h), (fun h => nomatch h)⟩
  | succ fuel ih => exact ⟨ih.value_succ, ih.elements_succ, ih.members_succ⟩

/-- What is parsed is a text of the grammar, and of no other value. -/
theorem parse_iff {t : Tree} {text : Units} : parse text = some t ↔ IsElement t text := by
  constructor
  · intro h
    unfold parse at h
    split at h
    · rename_i t' rest htake
      split_ifs at h with hend
      cases h
      obtain ⟨x, hx, htext⟩ := (sound _).element htake
      rw [hend, List.append_nil] at htext
      exact htext ▸ hx
    · cases h
  · exact parse_eq

end BrainSdk.Library.Json
