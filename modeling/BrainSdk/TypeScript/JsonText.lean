import BrainSdk.Theorems.JsonParse
import BrainSdk.TypeScript.JsonNumbers

/-!
# What `stringifyJsonWithBigInts` writes

For every value it writes a text of the grammar: `toTree` is the tree of that text. Strings are escaped so that they come back, numbers
and `bigint`s are literals, undefined properties are left out and what JSON has no text for is `null`.
-/

namespace BrainSdk.TypeScript.Json

open Library Library.Json Cbor

/-! ### Strings -/

theorem hexValue_hexDigit {n : UInt16} (h : n.toNat < 16) : Json.hexValue (hexDigit n) = some n := by
  have hall : ∀ k < 16, Json.hexValue (hexDigit (UInt16.ofNat k)) = some (UInt16.ofNat k) := by decide
  have hn := hall n.toNat h
  rwa [UInt16.ofNat_toNat] at hn

/-- The four digits of an escape spell the unit. -/
theorem hexUnit_unicode (c : UInt16) :
    hexUnit (hexDigit (c / 0x1000)) (hexDigit (c / 0x100 % 0x10)) (hexDigit (c / 0x10 % 0x10)) (hexDigit (c % 0x10)) = some c := by
  have hc := c.toNat_lt
  have h₁ : (c / 0x1000).toNat < 16 := by
    rw [UInt16.toNat_div]
    simp only [UInt16.toNat_ofNat, Nat.reducePow, Nat.reduceMod]
    omega
  have h₂ : ∀ d : UInt16, (d % 0x10).toNat < 16 := by
    intro d
    rw [UInt16.toNat_mod]
    simp only [UInt16.toNat_ofNat, Nat.reducePow, Nat.reduceMod]
    omega
  have hsum : c / 0x1000 * 0x1000 + c / 0x100 % 0x10 * 0x100 + c / 0x10 % 0x10 * 0x10 + c % 0x10 = c := by
    rw [← UInt16.toNat_inj]
    simp only [UInt16.toNat_add, UInt16.toNat_mul, UInt16.toNat_div, UInt16.toNat_mod, UInt16.toNat_ofNat, Nat.reducePow, Nat.reduceMod]
    omega
  simp only [hexUnit, hexValue_hexDigit h₁, hexValue_hexDigit (h₂ _), Option.bind_eq_bind, Option.bind_some]
  exact congrArg some hsum

theorem isChars_unicodeEscape (c : UInt16) {v s : Units} (h : IsChars v s) : IsChars (c :: v) (unicodeEscape c ++ s) :=
  .unicode (hexUnit_unicode c) h

theorem isChars_quoteUnit (c : UInt16) {v s : Units} (h : IsChars v s) : IsChars (c :: v) (quoteUnit c ++ s) := by
  unfold quoteUnit
  split_ifs with h₁ h₂ h₃ h₄ h₅ h₆ h₇ h₈
  · subst h₁
    exact .escape rfl h
  · subst h₂
    exact .escape rfl h
  · subst h₃
    exact .escape rfl h
  · subst h₄
    exact .escape rfl h
  · subst h₅
    exact .escape rfl h
  · subst h₆
    exact .escape rfl h
  · subst h₇
    exact .escape rfl h
  · exact isChars_unicodeEscape c h
  · exact .plain (UInt16.not_lt.1 h₈) h₆ h₇ h

/-- A surrogate needs no escape but for being alone. -/
theorem isChars_surrogate {c : UInt16} (hc : 0xD800 ≤ c) {v s : Units} (h : IsChars v s) : IsChars (c :: v) (c :: s) := by
  refine .plain (UInt16.le_trans (by decide) hc) ?_ ?_ h
  · rintro rfl
    exact absurd hc (by decide)
  · rintro rfl
    exact absurd hc (by decide)

/-- The source of a string stands for the string. -/
theorem isChars_quoteUnits (s : Units) : IsChars s (quoteUnits s) := by
  induction s using quoteUnits.induct with
  | case1 => exact .nil
  | case2 c h =>
    rw [quoteUnits, if_pos h, ← List.append_nil (unicodeEscape c)]
    exact isChars_unicodeEscape c .nil
  | case3 c h =>
    rw [quoteUnits, if_neg h, ← List.append_nil (quoteUnit c)]
    exact isChars_quoteUnit c .nil
  | case4 c d rest h ih =>
    rw [quoteUnits, if_pos h]
    simp only [isLead, isTrail, Bool.and_eq_true, decide_eq_true_eq] at h
    exact isChars_surrogate h.1.1 (isChars_surrogate (UInt16.le_trans (by decide) h.2.1) ih)
  | case5 c d rest h ih =>
    rw [quoteUnits, if_neg h]
    split
    · exact isChars_unicodeEscape c ih
    · exact isChars_quoteUnit c ih

/-! ### The tree of the text -/

mutual

/-- The tree of what `stringifyJsonWithBigInts` writes. -/
def toTree : Value → Tree
  | .null => .null
  | .undefined => .null
  | .boolean b => .bool b
  | .number x => if x.isFinite then (if x.abs = 0 then .number (integerLiteral 0) else .number (shortestLiteral x)) else .null
  | .bigint n => .number (integerLiteral n)
  | .string s => .string s
  | .array items => .array (treeItems items)
  | .object properties => .object ((ownOrder (treeProperties properties)).flatMap Prod.snd)

def treeItems : List Value → List Tree
  | [] => []
  | v :: items => toTree v :: treeItems items

/-- The member of each property; one that is undefined has none. -/
def treeProperties : List (Units × Value) → List (Units × List (Units × Tree))
  | [] => []
  | (k, .undefined) :: properties => (k, []) :: treeProperties properties
  | (k, v) :: properties => (k, [(k, toTree v)]) :: treeProperties properties

end

/-- The entries of an object come in the same order whatever is made of their values. -/
theorem ownOrder_map {α β : Type} (g : Units × α → β) (l : List (Units × α)) :
    ownOrder (l.map (fun e => (e.1, g e))) = (ownOrder l).map (fun e => (e.1, g e)) := by
  have hsort : ∀ l : List (Units × α),
      (l.map (fun e => (e.1, g e))).mergeSort (fun a b => digitsValue a.1 ≤ digitsValue b.1) =
        (l.mergeSort (fun a b => digitsValue a.1 ≤ digitsValue b.1)).map (fun e => (e.1, g e)) :=
    fun l => (List.map_mergeSort (f := fun e : Units × α => (e.1, g e)) (fun _ _ _ _ => rfl)).symm
  unfold ownOrder
  rw [List.map_append, List.filter_map, List.filter_map, hsort]
  rfl

theorem mem_ownOrder {α : Type} {l : List (Units × α)} {e : Units × α} (h : e ∈ ownOrder l) : e ∈ l := by
  unfold ownOrder at h
  rcases List.mem_append.1 h with h | h
  · exact List.mem_of_mem_filter (List.mem_mergeSort.1 h)
  · exact List.mem_of_mem_filter h

def Value.isUndefined : Value → Bool
  | .undefined => true
  | _ => false

/-- The part of a property, and its member. -/
def partOf (e : Units × Value) : List Units := if e.2.isUndefined then [] else [stringifyString e.1 ++ colon :: stringify e.2]

def memberOf (e : Units × Value) : List (Units × Tree) := if e.2.isUndefined then [] else [(e.1, toTree e.2)]

theorem stringifyProperties_eq (properties : List (Units × Value)) :
    stringifyProperties properties = properties.map (fun e => (e.1, partOf e)) := by
  induction properties with
  | nil => rfl
  | cons e properties ih =>
    obtain ⟨k, v⟩ := e
    cases v <;> simp only [stringifyProperties, ih, List.map_cons, partOf, Value.isUndefined] <;> rfl

theorem treeProperties_eq (properties : List (Units × Value)) :
    treeProperties properties = properties.map (fun e => (e.1, memberOf e)) := by
  induction properties with
  | nil => rfl
  | cons e properties ih =>
    obtain ⟨k, v⟩ := e
    cases v <;> simp only [treeProperties, ih, List.map_cons, memberOf, Value.isUndefined] <;> rfl

theorem stringify_object (properties : List (Units × Value)) :
    stringify (.object properties) = openBrace :: (join ((ownOrder properties).flatMap partOf) ++ [closeBrace]) := by
  rw [stringify, stringifyProperties_eq, ownOrder_map, List.flatMap_map]

theorem toTree_object (properties : List (Units × Value)) :
    toTree (.object properties) = .object ((ownOrder properties).flatMap memberOf) := by
  rw [toTree, treeProperties_eq, ownOrder_map, List.flatMap_map]

theorem stringifyItems_eq (items : List Value) : stringifyItems items = items.map stringify := by
  induction items with
  | nil => rfl
  | cons v items ih => rw [stringifyItems, ih, List.map_cons]

theorem treeItems_eq (items : List Value) : treeItems items = items.map toTree := by
  induction items with
  | nil => rfl
  | cons v items ih => rw [treeItems, ih, List.map_cons]

/-! ### The text -/

theorem element_of_value {t : Tree} {text : Units} (h : IsValue t text) : IsElement t text := by
  have helement := IsElement.mk (by decide : IsSpaces []) h (by decide : IsSpaces [])
  rwa [List.nil_append, List.append_nil] at helement

/-- Texts of values with commas between them are the elements of an array. -/
theorem elements_join {v : Value} {items : List Value} (h : ∀ v' ∈ v :: items, IsValue (toTree v') (stringify v')) :
    IsElements ((v :: items).map toTree) (join ((v :: items).map stringify)) := by
  induction items generalizing v with
  | nil =>
    unfold join
    rw [List.map_singleton, List.map_singleton, List.intercalate_singleton]
    exact .one (element_of_value (h v List.mem_cons_self))
  | cons w items ih =>
    unfold join at ih ⊢
    rw [List.map_cons, List.map_cons, List.map_cons, List.map_cons, List.intercalate_cons_cons, List.append_assoc]
    exact .cons (element_of_value (h v List.mem_cons_self)) (ih (fun v' hv' => h v' (List.mem_cons_of_mem v hv')))

theorem member_of_value {k text : Units} {t : Tree} (h : IsValue t text) : IsMember (k, t) (stringifyString k ++ colon :: text) := by
  have hmember := IsMember.mk (by decide : IsSpaces []) (isChars_quoteUnits k) (by decide : IsSpaces []) (element_of_value h)
  rw [List.nil_append, List.nil_append] at hmember
  unfold stringifyString
  rwa [List.cons_append, List.append_assoc, List.singleton_append]

/-- Parts of properties with commas between them are the members of an object, or there are none. -/
theorem members_join {entries : List (Units × Value)} (h : ∀ e ∈ entries, IsValue (toTree e.2) (stringify e.2)) :
    entries.flatMap memberOf = [] ∧ entries.flatMap partOf = [] ∨
      entries.flatMap partOf ≠ [] ∧ IsMembers (entries.flatMap memberOf) (join (entries.flatMap partOf)) := by
  induction entries with
  | nil => exact .inl ⟨rfl, rfl⟩
  | cons e entries ih =>
    have hrest := ih (fun e' he' => h e' (List.mem_cons_of_mem e he'))
    rw [List.flatMap_cons, List.flatMap_cons]
    by_cases hundefined : e.2.isUndefined = true
    · rw [memberOf, partOf, if_pos hundefined, if_pos hundefined]
      exact hrest
    · have hmember := member_of_value (k := e.1) (h e List.mem_cons_self)
      rw [memberOf, partOf, if_neg hundefined, if_neg hundefined, List.singleton_append, List.singleton_append]
      refine .inr ⟨List.cons_ne_nil _ _, ?_⟩
      rcases hrest with ⟨hnone, hnone'⟩ | ⟨hne, hmembers⟩
      · rw [hnone, hnone']
        unfold join
        rw [List.intercalate_singleton]
        exact .one hmember
      · unfold join at hmembers ⊢
        rw [List.intercalate_cons_of_ne_nil hne, List.append_assoc]
        exact .cons hmember hmembers

mutual

/-- What is written of a value is the text of its tree. -/
theorem stringify_value : (v : Value) → IsValue (toTree v) (stringify v)
  | .null => .null
  | .undefined => .null
  | .boolean b => .bool b
  | .number x => by
    rw [toTree, stringify]
    by_cases hx : x.isFinite
    · rw [if_pos hx, if_pos hx, numberText]
      by_cases hzero : x.abs = 0
      · rw [if_pos hzero, if_pos hzero]
        exact .number (integerLiteral_valid 0)
      · rw [if_neg hzero, if_neg hzero]
        exact .number (shortestLiteral_spec hx hzero).1
    · rw [if_neg hx, if_neg hx]
      exact .null
  | .bigint n => by
    rw [toTree, stringify, ← literal_integer]
    exact .number (integerLiteral_valid n)
  | .string s => .string (isChars_quoteUnits s)
  | .array [] => .emptyArray (by decide)
  | .array (v :: items) => by
    have hitems : ∀ v' ∈ v :: items, IsValue (toTree v') (stringify v') := stringify_items (v :: items)
    rw [toTree, stringify, treeItems_eq, stringifyItems_eq]
    exact .array (elements_join hitems)
  | .object properties => by
    have hall := stringify_properties properties
    have hentries : ∀ e ∈ ownOrder properties, IsValue (toTree e.2) (stringify e.2) := fun e he => hall e (mem_ownOrder he)
    rw [toTree_object, stringify_object]
    rcases members_join hentries with ⟨hnone, hnone'⟩ | ⟨-, hmembers⟩
    · rw [hnone, hnone']
      exact .emptyObject (by decide)
    · exact .object hmembers

theorem stringify_items : (items : List Value) → ∀ v ∈ items, IsValue (toTree v) (stringify v)
  | [] => by simp
  | v :: items => List.forall_mem_cons.2 ⟨stringify_value v, stringify_items items⟩

theorem stringify_properties : (properties : List (Units × Value)) → ∀ e ∈ properties, IsValue (toTree e.2) (stringify e.2)
  | [] => by simp
  | (_, v) :: properties => List.forall_mem_cons.2 ⟨stringify_value v, stringify_properties properties⟩

end

/-- Whatever the value, what `stringifyJsonWithBigInts` writes is JSON, and both parsers read the tree that it is of. -/
theorem stringify_parses (v : Value) : jsonParse (stringify v) = .ok (evaluate numberOf (toTree v)) ∧
    parseJsonWithBigInts (stringify v) = .ok (evaluate exactOf (toTree v)) :=
  ⟨jsonParse_eq (element_of_value (stringify_value v)), parseJsonWithBigInts_eq (element_of_value (stringify_value v))⟩

end BrainSdk.TypeScript.Json
