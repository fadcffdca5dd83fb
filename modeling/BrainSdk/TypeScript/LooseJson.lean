import BrainSdk.TypeScript.JsonLemmas

/-!
# JSON with integers for keys

The scan looks at no grammar: an integer past the safe range is rewritten as a string wherever it stands, also where a key is due. The
texts that the scan turns into JSON are those of the grammar with such integers among the keys.
-/

namespace BrainSdk.TypeScript.Json

open Library Library.Json Cbor

/-! ### The grammar -/

mutual

/-- The text is the value, without white space around it, where an integer past the safe range may stand for a key. -/
inductive IsLooseValue : Tree → Units → Prop
  | null : IsLooseValue .null (units "null")
  | bool (b : Bool) : IsLooseValue (.bool b) (units (if b then "true" else "false"))
  | number {n : Number} (h : n.Valid) : IsLooseValue (.number n) n.literal
  | string {v s : Units} (h : IsChars v s) : IsLooseValue (.string v) (quote :: (s ++ [quote]))
  | emptyArray {ws : Units} (h : IsSpaces ws) : IsLooseValue (.array []) (openBracket :: (ws ++ [closeBracket]))
  | array {items : List Tree} {body : Units} (h : IsLooseElements items body) :
      IsLooseValue (.array items) (openBracket :: (body ++ [closeBracket]))
  | emptyObject {ws : Units} (h : IsSpaces ws) : IsLooseValue (.object []) (openBrace :: (ws ++ [closeBrace]))
  | object {members : List (Units × Tree)} {body : Units} (h : IsLooseMembers members body) :
      IsLooseValue (.object members) (openBrace :: (body ++ [closeBrace]))

/-- The text is the value, with white space around it. -/
inductive IsLooseElement : Tree → Units → Prop
  | mk {t : Tree} {pre text post : Units} (hpre : IsSpaces pre) (h : IsLooseValue t text) (hpost : IsSpaces post) :
      IsLooseElement t (pre ++ text ++ post)

/-- At least one element, with commas between them. -/
inductive IsLooseElements : List Tree → Units → Prop
  | one {t : Tree} {text : Units} (h : IsLooseElement t text) : IsLooseElements [t] text
  | cons {t : Tree} {items : List Tree} {text rest : Units} (h : IsLooseElement t text) (hrest : IsLooseElements items rest) :
      IsLooseElements (t :: items) (text ++ comma :: rest)

/-- A key, a colon and an element. An integer is the key of its tagged literal. -/
inductive IsLooseMember : Units × Tree → Units → Prop
  | mk {k s : Units} {t : Tree} {pre mid text : Units} (hpre : IsSpaces pre) (hk : IsChars k s) (hmid : IsSpaces mid)
      (h : IsLooseElement t text) : IsLooseMember (k, t) (pre ++ quote :: (s ++ quote :: (mid ++ colon :: text)))
  | integer {n : Number} {t : Tree} {pre mid text : Units} (hpre : IsSpaces pre) (hn : n.Valid) (hpast : Unsafe n)
      (hmid : IsSpaces mid) (h : IsLooseElement t text) : IsLooseMember (tag ++ n.literal, t) (pre ++ (n.literal ++ (mid ++ colon :: text)))

/-- At least one member, with commas between them. -/
inductive IsLooseMembers : List (Units × Tree) → Units → Prop
  | one {m : Units × Tree} {text : Units} (h : IsLooseMember m text) : IsLooseMembers [m] text
  | cons {m : Units × Tree} {members : List (Units × Tree)} {text rest : Units} (h : IsLooseMember m text)
      (hrest : IsLooseMembers members rest) : IsLooseMembers (m :: members) (text ++ comma :: rest)

end

mutual

/-- A text of the grammar is one of the loose grammar. -/
theorem loose_value : {t : Tree} → {x : Units} → IsValue t x → IsLooseValue t x
  | _, _, .null => .null
  | _, _, .bool b => .bool b
  | _, _, .number h => .number h
  | _, _, .string h => .string h
  | _, _, .emptyArray h => .emptyArray h
  | _, _, .array h => .array (loose_elements h)
  | _, _, .emptyObject h => .emptyObject h
  | _, _, .object h => .object (loose_members h)

theorem loose_element : {t : Tree} → {x : Units} → IsElement t x → IsLooseElement t x
  | _, _, .mk hpre h hpost => .mk hpre (loose_value h) hpost

theorem loose_elements : {items : List Tree} → {x : Units} → IsElements items x → IsLooseElements items x
  | _, _, .one h => .one (loose_element h)
  | _, _, .cons h hrest => .cons (loose_element h) (loose_elements hrest)

theorem loose_member : {m : Units × Tree} → {x : Units} → IsMember m x → IsLooseMember m x
  | _, _, .mk hpre hk hmid h => .mk hpre hk hmid (loose_element h)

theorem loose_members : {members : List (Units × Tree)} → {x : Units} → IsMembers members x → IsLooseMembers members x
  | _, _, .one h => .one (loose_member h)
  | _, _, .cons h hrest => .cons (loose_member h) (loose_members hrest)

end

/-! ### The scan of a loose text -/

/-- The scan emits a text of the kind, and where it changes nothing the fact holds. -/
def Emits (x b : Units) (kind : Units → Prop) (same : Prop) : Prop :=
  ∃ x' changed, kind x' ∧ Rewrites x x' changed b ∧ (changed = false → same)

/-- What follows a value within brackets. -/
theorem follows_cons {c : UInt16} (h : c = comma ∨ c = closeBracket ∨ c = closeBrace) (b : Units) : Follows (c :: b) := by
  refine ⟨ends_cons (.inr h) b, ?_⟩
  rcases h with rfl | rfl | rfl <;> rfl

/-- A single character between tokens. -/
theorem rewrites_one {c : UInt16} (h : IsPlain c) (b : Units) : Rewrites [c] [c] false b :=
  rewrites_plain (fun _ hd => List.mem_singleton.1 hd ▸ h) b

/-- Brackets around what they hold. -/
theorem Rewrites.bracket {l r : UInt16} (hl : IsPlain l) (hr : IsPlain r) {x x' b : Units} {changed : Bool}
    (h : Rewrites x x' changed (r :: b)) : Rewrites (l :: (x ++ [r])) (l :: (x' ++ [r])) changed b := by
  have hall := (rewrites_one hl ((x ++ [r]) ++ b)).append (h.append (rewrites_one hr b))
  rwa [Bool.or_false, Bool.false_or] at hall

/-- No number goes on with a colon. -/
theorem stops_colon {mid : Units} (hmid : IsSpaces mid) (text : Units) : Stops (mid ++ colon :: text) := by
  rcases mid with - | ⟨c, mid⟩
  · rintro _ ⟨⟩
    decide
  · exact (ends_cons (.inl (hmid c List.mem_cons_self)) _).stops

mutual

/-- The scan turns a text of the loose grammar into one of the grammar. -/
theorem rewrites_value : {t : Tree} → {x : Units} → IsLooseValue t x → ∀ b, Follows b →
    Emits x b (IsValue (tagged t)) (evaluate exactOf t = evaluate numberOf t)
  | _, _, .null, b, _ => ⟨_, false, .null, rewrites_plain (plain_of_all (by decide)) b, fun _ => rfl⟩
  | _, _, .bool flag, b, _ => ⟨_, false, .bool flag, rewrites_plain (plain_of_all (by cases flag <;> decide)) b, fun _ => rfl⟩
  | _, _, @IsLooseValue.number n h, b, hb => by
    unfold Emits
    rw [tagged, evaluate, evaluate, exactOf]
    by_cases hn : Unsafe n
    · rw [if_pos hn]
      refine ⟨_, true, isValue_tag (isChars_literal h hn.1 hn.2.1), ?_, fun hc => by cases hc⟩
      rw [← List.append_assoc]
      exact rewrites_past h hn hb.ends.stops
    · rw [if_neg hn, if_neg hn]
      exact ⟨_, false, .number h, rewrites_safe h hn hb.ends.stops, fun _ => rfl⟩
  | _, _, @IsLooseValue.string v s h, b, hb => by
    unfold Emits
    rw [tagged]
    by_cases hnul : v.head? = some 0
    · rw [if_pos hnul]
      exact ⟨_, true, isValue_tag h, rewrites_nul h hb.noColon hnul, fun hc => by cases hc⟩
    · rw [if_neg hnul]
      exact ⟨_, false, .string h, rewrites_other h hnul, fun _ => rfl⟩
  | _, _, .emptyArray h, b, _ => ⟨_, false, .emptyArray h, (rewrites_spaces h _).bracket (by decide) (by decide), fun _ => rfl⟩
  | _, _, .array h, b, _ => by
    obtain ⟨x', changed, hx', hrewrites, hsame⟩ := rewrites_elements h (closeBracket :: b) (follows_cons (by decide) b)
    refine ⟨_, changed, ?_, hrewrites.bracket (by decide) (by decide), fun hc => ?_⟩
    · rw [tagged]
      exact .array hx'
    · rw [evaluate, evaluate, hsame hc]
  | _, _, .emptyObject h, b, _ => ⟨_, false, .emptyObject h, (rewrites_spaces h _).bracket (by decide) (by decide), fun _ => rfl⟩
  | _, _, .object h, b, _ => by
    obtain ⟨x', changed, hx', hrewrites, hsame⟩ := rewrites_members h (closeBrace :: b) (follows_cons (by decide) b)
    refine ⟨_, changed, ?_, hrewrites.bracket (by decide) (by decide), fun hc => ?_⟩
    · rw [tagged]
      exact .object hx'
    · rw [evaluate, evaluate, hsame hc]

theorem rewrites_element : {t : Tree} → {x : Units} → IsLooseElement t x → ∀ b, Follows b →
    Emits x b (IsElement (tagged t)) (evaluate exactOf t = evaluate numberOf t)
  | _, _, .mk hpre h hpost, b, hb => by
    obtain ⟨x', changed, hx', hrewrites, hsame⟩ := rewrites_value h _ (hb.spaces hpost)
    have hall := ((rewrites_spaces hpre _).append hrewrites).append (rewrites_spaces hpost b)
    rw [Bool.false_or, Bool.or_false] at hall
    exact ⟨_, changed, .mk hpre hx' hpost, hall, hsame⟩

theorem rewrites_elements : {items : List Tree} → {x : Units} → IsLooseElements items x → ∀ b, Follows b →
    Emits x b (IsElements (taggedItems items)) (evaluateItems exactOf items = evaluateItems numberOf items)
  | _, _, .one h, b, hb => by
    obtain ⟨x', changed, hx', hrewrites, hsame⟩ := rewrites_element h b hb
    exact ⟨x', changed, .one hx', hrewrites, fun hc => by rw [evaluateItems, evaluateItems, hsame hc]; rfl⟩
  | _, _, .cons h hrest, b, hb => by
    obtain ⟨x', c, hx', hfirst, hsame⟩ := rewrites_element h _ (follows_cons (.inl rfl) _)
    obtain ⟨y', d, hy', hmore, hsameRest⟩ := rewrites_elements hrest b hb
    have hall := hfirst.append ((rewrites_one (by decide : IsPlain comma) _).append hmore)
    rw [Bool.false_or] at hall
    refine ⟨_, c || d, .cons hx' hy', hall, fun hc => ?_⟩
    obtain ⟨hc, hd⟩ := Bool.or_eq_false_iff.1 hc
    rw [evaluateItems, evaluateItems, hsame hc, hsameRest hd]

theorem rewrites_member : {m : Units × Tree} → {x : Units} → IsLooseMember m x → ∀ b, Follows b →
    Emits x b (IsMember (m.1, tagged m.2)) (evaluate exactOf m.2 = evaluate numberOf m.2)
  | _, _, @IsLooseMember.mk k s t pre mid text hpre hk hmid h, b, hb => by
    obtain ⟨x', changed, hx', hrewrites, hsame⟩ := rewrites_element h b hb
    have hcolon : isKeyPosition.scan (mid ++ colon :: (text ++ b)) = true := by
      rw [scan_spaces hmid]
      rfl
    have htail := (rewrites_spaces hmid _).append ((rewrites_one (by decide : IsPlain colon) _).append hrewrites)
    have hkey : Rewrites (quoted s) (quoted s) false (mid ++ ([colon] ++ text) ++ b) := by
      refine rewrites_key hk ?_
      rw [List.append_assoc]
      exact hcolon
    have hall := (rewrites_spaces hpre _).append (hkey.append htail)
    have hshape : ∀ z : Units, quoted s ++ (mid ++ ([colon] ++ z)) = quote :: (s ++ quote :: (mid ++ colon :: z)) := by
      intro z
      simp only [quoted, List.cons_append, List.append_assoc, List.nil_append]
    rw [Bool.false_or, Bool.false_or, Bool.false_or, Bool.false_or, hshape, hshape] at hall
    exact ⟨_, changed, .mk hpre hk hmid hx', hall, hsame⟩
  | _, _, @IsLooseMember.integer n t pre mid text hpre hn hpast hmid h, b, hb => by
    obtain ⟨x', changed, hx', hrewrites, hsame⟩ := rewrites_element h b hb
    have htail := (rewrites_spaces hmid _).append ((rewrites_one (by decide : IsPlain colon) _).append hrewrites)
    have hstops : Stops (mid ++ ([colon] ++ text) ++ b) := by
      rw [List.append_assoc, List.append_assoc]
      exact stops_colon hmid (text ++ b)
    have hall := (rewrites_spaces hpre _).append ((rewrites_past hn hpast hstops).append htail)
    refine ⟨_, true, .mk hpre (isChars_tag (isChars_literal hn hpast.1 hpast.2.1)) hmid hx', ?_, fun hc => nomatch hc⟩
    have hshape : ∀ z : Units, tagSource ++ n.literal ++ [quote] ++ (mid ++ ([colon] ++ z)) =
        quote :: (units "\\u0000n" ++ n.literal ++ quote :: (mid ++ colon :: z)) := by
      intro z
      simp only [tagSource, List.cons_append, List.append_assoc, List.nil_append]
    rw [Bool.false_or, Bool.true_or, hshape] at hall
    exact hall

theorem rewrites_members : {members : List (Units × Tree)} → {x : Units} → IsLooseMembers members x → ∀ b, Follows b →
    Emits x b (IsMembers (taggedMembers members))
      (∀ properties, evaluateMembers exactOf members properties = evaluateMembers numberOf members properties)
  | _, _, .one h, b, hb => by
    obtain ⟨x', changed, hx', hrewrites, hsame⟩ := rewrites_member h b hb
    refine ⟨x', changed, .one hx', hrewrites, fun hc properties => ?_⟩
    rw [evaluateMembers, evaluateMembers, hsame hc]
    rfl
  | _, _, .cons h hrest, b, hb => by
    obtain ⟨x', c, hx', hfirst, hsame⟩ := rewrites_member h _ (follows_cons (.inl rfl) _)
    obtain ⟨y', d, hy', hmore, hsameRest⟩ := rewrites_members hrest b hb
    have hall := hfirst.append ((rewrites_one (by decide : IsPlain comma) _).append hmore)
    rw [Bool.false_or] at hall
    refine ⟨_, c || d, .cons hx' hy', hall, fun hc properties => ?_⟩
    obtain ⟨hc, hd⟩ := Bool.or_eq_false_iff.1 hc
    rw [evaluateMembers, evaluateMembers, hsame hc, hsameRest hd]

end

end BrainSdk.TypeScript.Json
