import Mathlib.Data.List.Infix
import BrainSdk.TypeScript.LooseJson

/-!
# JSON with exact integers

For every text of the grammar the scan hands `JSON.parse` a text of the grammar, and the reviver undoes what the scan did: each tag in
front of an integer gives a `bigint`, and each in front of a string is cut off.
-/

namespace BrainSdk.TypeScript.Json

open Library Library.Json Cbor

/-! ### The scan of a whole text -/

theorem loop_end {text : Units} {s : Scan} (h : text.length ≤ s.i) (turns : Nat) : s.loop text turns = s := by
  rcases turns with - | turns
  · rfl
  · rw [Scan.loop, List.getElem?_eq_none h, Option.elim_none]

/-- What the scan comes to: the source of the tagged value. If nothing was rewritten the value has nothing to tag. -/
theorem scan_element {t : Tree} {text : Units} (h : IsLooseElement t text) :
    IsElement (tagged t) ((scan text).out ++ text.drop (scan text).cut) ∧
      ((scan text).rewrote = false → evaluate exactOf t = evaluate numberOf t) ∧ ((scan text).rewrote = true → Triggers text) := by
  obtain ⟨x', changed, hx', hrewrites, hsame⟩ := rewrites_element h [] ⟨.nil, rfl⟩
  obtain ⟨s, turns, hturns, hloop, hi, hcut, hemitted, hrewrote⟩ := hrewrites.advance text [] ⟨[], 0, false, 0⟩
    (by rw [List.nil_append, List.append_nil]) rfl (Nat.le_refl 0)
  rw [List.nil_append] at hi
  have hscan : scan text = s := by
    obtain ⟨more, hmore⟩ := Nat.exists_eq_add_of_le hturns
    unfold scan
    rw [hmore, hloop, loop_end (Nat.le_of_eq hi.symm)]
  have hout : s.out ++ text.drop s.cut = x' := by
    have hwhole : slice text s.cut s.i = text.drop s.cut := by
      unfold slice
      rw [hi, List.take_length]
    unfold Scan.emitted at hemitted
    rw [hwhole] at hemitted
    rw [hemitted]
    rfl
  rw [hscan, hout, hrewrote]
  exact ⟨hx', hsame, hrewrites.triggers⟩

/-- The guard lets every text through to the scan that the scan would rewrite. -/
theorem guard_of_triggers {text : Units} (h : Triggers text) : hasLongDigits text = true ∨ includes text (units "\\u0000") = true := by
  obtain ⟨a, y, b, rfl, ⟨hlong, hdigits⟩ | rfl⟩ := h
  · refine .inl (List.any_eq_true.2 ⟨y ++ b, (List.mem_tails _ _).2 ⟨a, by rw [List.append_assoc]⟩, ?_⟩)
    rw [decide_eq_true_eq, List.takeWhile_append_of_pos hdigits, List.length_append]
    exact Nat.le_trans hlong (Nat.le_add_right _ _)
  · refine .inr (List.any_eq_true.2 ⟨units "\\u0000" ++ b, (List.mem_tails _ _).2 ⟨a, by rw [List.append_assoc]⟩, ?_⟩)
    exact List.isPrefixOf_iff_prefix.2 (List.prefix_append _ _)

/-! ### The reviver -/

theorem internalizeProperties_cons {k : Units} {v v' : Value} {properties properties' : List (Units × Value)}
    (hv : internalize reviver v = .ok v') (h : internalizeProperties reviver properties = .ok properties') :
    internalizeProperties reviver ((k, v) :: properties) = .ok ((k, v') :: properties') := by
  rw [internalizeProperties, hv, h]
  rfl

/-- A property set before the reviver is the property set behind it. -/
theorem internalize_setProperty {k : Units} {v v' : Value} (hv : internalize reviver v = .ok v') {properties properties' : List (Units × Value)}
    (h : internalizeProperties reviver properties = .ok properties') :
    internalizeProperties reviver (setProperty properties k v) = .ok (setProperty properties' k v') := by
  induction properties generalizing properties' with
  | nil =>
    obtain rfl : [] = properties' := Except.ok.inj h
    exact internalizeProperties_cons hv rfl
  | cons e properties ih =>
    obtain ⟨k₀, v₀⟩ := e
    rw [internalizeProperties] at h
    rcases hv₀ : internalize reviver v₀ with e | v₀'
    · rw [hv₀] at h
      cases h
    rcases hrest : internalizeProperties reviver properties with e | rest
    · rw [hv₀, hrest] at h
      cases h
    rw [hv₀, hrest] at h
    obtain rfl : (k₀, v₀') :: rest = properties' := Except.ok.inj h
    rw [setProperty, setProperty]
    split_ifs
    · exact internalizeProperties_cons hv hrest
    · exact internalizeProperties_cons hv₀ (ih hrest)

/-- The tag is cut off a string that begins with NUL. -/
theorem reviver_tag {v : Units} (h : v.head? = some 0) : reviver (.string (tag ++ v)) = .ok (.string v) := by
  rw [reviver, if_pos (List.isPrefixOf_iff_prefix.2 (List.prefix_append _ _)), List.drop_left]
  exact if_pos h

/-- A string that does not begin with NUL has no tag. -/
theorem reviver_other {v : Units} (h : v.head? ≠ some 0) : reviver (.string v) = .ok (.string v) := by
  unfold reviver
  refine if_neg (fun htag => h ?_)
  obtain ⟨rest, rfl⟩ := List.isPrefixOf_iff_prefix.1 htag
  rfl

/-- A tagged literal becomes its integer. -/
theorem reviver_literal {n : Number} (h : n.Valid) (hn : Unsafe n) : reviver (.string (tag ++ n.literal)) = .ok (.bigint (intValue n)) := by
  have hhead : n.literal.head? ≠ some 0 := by
    obtain ⟨c, rest, hlit, hc⟩ := h.head
    rw [hlit, List.head?_cons]
    rintro ⟨⟩
    exact absurd hc (by decide)
  rw [reviver, if_pos (List.isPrefixOf_iff_prefix.2 (List.prefix_append _ _)), List.drop_left]
  dsimp only
  rw [if_neg hhead, parseBigInt_literal h hn.1 hn.2.1, Option.elim_some]

mutual

/-- The reviver undoes the tags. -/
theorem internalize_value : {t : Tree} → {x : Units} → IsLooseValue t x →
    internalize reviver (evaluate numberOf (tagged t)) = .ok (evaluate exactOf t)
  | _, _, .null => rfl
  | _, _, .bool flag => rfl
  | _, _, @IsLooseValue.number n h => by
    rw [tagged, evaluate, exactOf]
    by_cases hn : Unsafe n
    · rw [if_pos hn, if_pos hn, evaluate, internalize]
      · exact reviver_literal h hn
      all_goals simp
    · rw [if_neg hn, if_neg hn, evaluate, numberOf]
      rfl
  | _, _, @IsLooseValue.string v s h => by
    rw [tagged, evaluate]
    by_cases hnul : v.head? = some 0
    · rw [if_pos hnul, evaluate]
      exact reviver_tag hnul
    · rw [if_neg hnul, evaluate]
      exact reviver_other hnul
  | _, _, .emptyArray h => rfl
  | _, _, .array h => by
    rw [tagged, evaluate, evaluate, internalize, internalize_elements h]
    rfl
  | _, _, .emptyObject h => rfl
  | _, _, .object h => by
    have hmembers : internalizeProperties reviver (evaluateMembers numberOf (taggedMembers _) []) = .ok (evaluateMembers exactOf _ []) :=
      internalize_members h rfl
    rw [tagged, evaluate, evaluate, internalize, hmembers]
    rfl

theorem internalize_element : {t : Tree} → {x : Units} → IsLooseElement t x →
    internalize reviver (evaluate numberOf (tagged t)) = .ok (evaluate exactOf t)
  | _, _, .mk _ h _ => internalize_value h

theorem internalize_elements : {items : List Tree} → {x : Units} → IsLooseElements items x →
    internalizeItems reviver (evaluateItems numberOf (taggedItems items)) = .ok (evaluateItems exactOf items)
  | _, _, .one h => by
    rw [taggedItems, taggedItems, evaluateItems, evaluateItems, internalizeItems, internalize_element h]
    rfl
  | _, _, .cons h hrest => by
    rw [taggedItems, evaluateItems, evaluateItems, internalizeItems, internalize_element h, internalize_elements hrest]
    rfl

theorem internalize_member : {m : Units × Tree} → {x : Units} → IsLooseMember m x →
    internalize reviver (evaluate numberOf (tagged m.2)) = .ok (evaluate exactOf m.2)
  | _, _, .mk _ _ _ h => internalize_element h
  | _, _, .integer _ _ _ _ h => internalize_element h

theorem internalize_members : {members : List (Units × Tree)} → {x : Units} → IsLooseMembers members x →
    ∀ {properties properties' : List (Units × Value)}, internalizeProperties reviver properties = .ok properties' →
    internalizeProperties reviver (evaluateMembers numberOf (taggedMembers members) properties) =
      .ok (evaluateMembers exactOf members properties')
  | _, _, .one h, _, _, hps => by
    rw [taggedMembers, taggedMembers, evaluateMembers, evaluateMembers]
    exact internalize_setProperty (internalize_member h) hps
  | _, _, .cons h hrest, _, _, hps => by
    rw [taggedMembers, evaluateMembers, evaluateMembers]
    exact internalize_members hrest (internalize_setProperty (internalize_member h) hps)

end

/-! ### The parser -/

theorem jsonParse_eq {t : Tree} {text : Units} (h : IsElement t text) : jsonParse text = .ok (evaluate numberOf t) := by
  unfold jsonParse
  rw [parse_eq h]
  rfl

/-- Where the scan changes a text, the exact value of the loose grammar comes back. -/
theorem parse_rewritten {t : Tree} {text : Units} (h : IsLooseElement t text) (hrewrote : (scan text).rewrote = true) :
    parseJsonWithBigInts text = .ok (evaluate exactOf t) := by
  obtain ⟨hrewritten, hsame, htriggers⟩ := scan_element h
  have hguard : ¬(¬hasLongDigits text = true ∧ ¬includes text (units "\\u0000") = true) := by
    rintro ⟨hlong, hnul⟩
    exact (guard_of_triggers (htriggers hrewrote)).elim hlong hnul
  unfold parseJsonWithBigInts
  simp only [if_neg hguard, hrewrote, not_true_eq_false, if_false]
  rw [jsonParse_eq hrewritten]
  exact internalize_element h

/-- Where it does not, the text is parsed as it is. -/
theorem parse_kept {text : Units} (h : (scan text).rewrote = false) : parseJsonWithBigInts text = jsonParse text := by
  unfold parseJsonWithBigInts
  simp only [h, Bool.false_eq_true, not_false_eq_true, if_true, ite_self]

/-- For every text of the grammar, the exact value comes back. -/
theorem parseJsonWithBigInts_eq {t : Tree} {text : Units} (h : IsElement t text) :
    parseJsonWithBigInts text = .ok (evaluate exactOf t) := by
  obtain ⟨-, hsame, -⟩ := scan_element (loose_element h)
  rcases hrewrote : (scan text).rewrote with - | -
  · rw [parse_kept hrewrote, jsonParse_eq h, hsame hrewrote]
  · exact parse_rewritten (loose_element h) hrewrote

/-- For every text of the grammar, `JSON.parse` and `parseJsonWithBigInts` return one tree, but for the number literals: those without
fraction and exponent past 2^53 - 1 in magnitude are `bigint`s of exactly their value, and the others what `JSON.parse` makes of them. -/
theorem parse_exact {t : Tree} {text : Units} (h : IsElement t text) :
    jsonParse text = .ok (evaluate numberOf t) ∧ parseJsonWithBigInts text = .ok (evaluate exactOf t) :=
  ⟨jsonParse_eq h, parseJsonWithBigInts_eq h⟩

/-- The integer behind the last safe one. -/
def pastSafe : Number := ⟨false, units "9007199254740993", [], []⟩

/-- A key that begins with the tag, in front of a string that does and of an unsafe integer. -/
theorem parse_exact_tagged :
    parseJsonWithBigInts (openBrace :: (units "\"\\u0000n\": [\"\\u0000n1\",9007199254740993]" ++ [closeBrace])) =
      .ok (.object [(tag, .array [.string (tag ++ [0x31]), .bigint 9007199254740993])]) := by
  have hdigits : IsDigits (units "007199254740993") := by decide
  have hvalid : pastSafe.Valid := ⟨.digits (by decide) (by decide) hdigits, .none, .none⟩
  have hstring : IsElement (.string (tag ++ [0x31])) ([] ++ quoted (units "\\u0000n" ++ [0x31]) ++ []) :=
    .mk (by decide) (.string (isChars_tag (.plain (by decide) (by decide) (by decide) .nil))) (by decide)
  have hnumber : IsElement (.number pastSafe) ([] ++ pastSafe.literal ++ []) := .mk (by decide) (.number hvalid) (by decide)
  have harray : IsElement (.array [.string (tag ++ [0x31]), .number pastSafe])
      ([0x20] ++ openBracket :: ([] ++ quoted (units "\\u0000n" ++ [0x31]) ++ [] ++ comma :: ([] ++ pastSafe.literal ++ []) ++
        [closeBracket]) ++ []) :=
    .mk (by decide) (.array (.cons hstring (.one hnumber))) (by decide)
  have hkey : IsChars (tag ++ []) (units "\\u0000n" ++ []) := isChars_tag .nil
  have hmember := IsMember.mk (by decide : IsSpaces []) hkey (by decide : IsSpaces []) harray
  have helement := IsElement.mk (by decide : IsSpaces []) (.object (.one hmember)) (by decide : IsSpaces [])
  exact (parse_exact helement).2

end BrainSdk.TypeScript.Json
