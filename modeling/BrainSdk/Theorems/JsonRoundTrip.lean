import BrainSdk.TypeScript.JsonText

/-!
# A body comes back

A value whose keys are in camel case and whose integers are of the types that the SDK gives them goes out in snake case and comes back
the same. Keys come back one by one; an object comes back entry by entry, but for the value of a statement, which arrives as a `number`
if it is small and is widened behind the others.
-/

namespace BrainSdk.TypeScript.Json

open Library Library.Json Cbor

/-! ### Keys -/

def isKeyChar (c : UInt16) : Bool := isLower c || isUpper c || isDigit c

/-- No two adjacent characters in upper case. -/
def NoRun (key : Units) : Prop := key.IsChain (fun c d => ¬(isUpper c = true ∧ isUpper d = true))

instance (key : Units) : Decidable (NoRun key) := inferInstanceAs (Decidable (key.IsChain _))

/-- The keys of the SDK: ASCII letters and digits in camel case, the first one a letter in lower case. -/
structure IsKey (key : Units) : Prop where
  chars : ∀ c ∈ key, isKeyChar c = true
  head : ∃ c rest, key = c :: rest ∧ isLower c = true
  noRun : NoRun key

theorem isKey_iff (key : Units) : key.all isKeyChar = true ∧ key.head?.any isLower = true ∧ NoRun key ↔ IsKey key := by
  rw [List.all_eq_true]
  constructor
  · rintro ⟨hchars, hhead, hnoRun⟩
    cases key with
    | nil => cases hhead
    | cons c rest => exact ⟨hchars, ⟨c, rest, rfl, hhead⟩, hnoRun⟩
  · intro h
    refine ⟨h.chars, ?_, h.noRun⟩
    obtain ⟨c, rest, rfl, hc⟩ := h.head
    exact hc

instance (key : Units) : Decidable (IsKey key) := decidable_of_iff _ (isKey_iff key)

/-- What a key may go on with behind a character that is not in upper case. -/
structure GoesOn (key : Units) : Prop where
  chars : ∀ c ∈ key, isKeyChar c = true
  head : ∀ c ∈ key.head?, isUpper c = false
  noRun : NoRun key

theorem NoRun.tail {c : UInt16} {key : Units} (h : NoRun (c :: key)) : NoRun key := by
  exact List.IsChain.tail h

/-- What the conversions do to a letter or digit. -/
theorem char_facts {c : UInt16} (h : isKeyChar c = true) : c ≠ underscore ∧
    (isUpper c = false → toLower c = c ∧ (isLower c || isDigit c) = true) ∧
    (isUpper c = true → toUpper (toLower c) = c ∧ isLower (toLower c) = true) := by
  have hall : ∀ k < 128, isKeyChar (UInt16.ofNat k) = true → UInt16.ofNat k ≠ underscore ∧
      (isUpper (UInt16.ofNat k) = false →
        toLower (UInt16.ofNat k) = UInt16.ofNat k ∧ (isLower (UInt16.ofNat k) || isDigit (UInt16.ofNat k)) = true) ∧
      (isUpper (UInt16.ofNat k) = true →
        toUpper (toLower (UInt16.ofNat k)) = UInt16.ofNat k ∧ isLower (toLower (UInt16.ofNat k)) = true) := by
    decide
  have hlt : c.toNat < 128 := by
    simp only [isKeyChar, isLower, isUpper, isDigit, Bool.or_eq_true, Bool.and_eq_true, decide_eq_true_eq, UInt16.le_iff_toNat_le] at h
    simp only [UInt16.toNat_ofNat, Nat.reducePow, Nat.reduceMod] at h
    omega
  have hc := hall c.toNat hlt
  rw [UInt16.ofNat_toNat] at hc
  exact hc h

theorem camelCase_cons {c : UInt16} (h : c ≠ underscore) (key : Units) : camelCase (c :: key) = c :: camelCase key := by
  cases key with
  | nil => rfl
  | cons d rest => rw [camelCase, if_neg (fun hc => h hc.1)]

/-- Each word that was split off is put back. -/
theorem camelCase_goesOn {key : Units} (h : GoesOn key) : camelCase (snakeCase key) = key := by
  unfold snakeCase
  induction key using splitWords.induct with
  | case1 => rfl
  | case2 c =>
    obtain ⟨-, hlower, -⟩ := char_facts (h.chars c List.mem_cons_self)
    rw [splitWords, List.map_singleton, (hlower (h.head c rfl)).1]
    rfl
  | case3 c d rest hsplit ih =>
    rw [Bool.and_eq_true] at hsplit
    have hrest : GoesOn rest := by
      refine ⟨fun e he => h.chars e (List.mem_cons_of_mem c (List.mem_cons_of_mem d he)), ?_, h.noRun.tail.tail⟩
      intro e he
      cases rest with
      | nil => cases he
      | cons e' rest =>
        obtain rfl : e' = e := Option.some.inj he
        exact Bool.eq_false_iff.2 (fun hupper => h.noRun.tail.rel ⟨hsplit.2, hupper⟩)
    obtain ⟨hc, hlower, -⟩ := char_facts (h.chars c List.mem_cons_self)
    obtain ⟨-, -, hupper⟩ := char_facts (h.chars d (List.mem_cons_of_mem c List.mem_cons_self))
    obtain ⟨hback, hlower'⟩ := hupper hsplit.2
    have hword : camelCase (underscore :: toLower d :: (splitWords rest).map toLower) = d :: rest := by
      rw [camelCase, if_pos ⟨rfl, by rw [hlower', Bool.true_or]⟩, hback, ih hrest]
    have hunderscore : toLower underscore = underscore := by decide
    rw [splitWords, if_pos (by rw [Bool.and_eq_true]; exact hsplit), List.map_cons, List.map_cons, List.map_cons,
      (hlower (h.head c rfl)).1, hunderscore, camelCase_cons hc, hword]
  | case4 c d rest hsplit ih =>
    obtain ⟨hc, hlower, -⟩ := char_facts (h.chars c List.mem_cons_self)
    obtain ⟨hlower, hword⟩ := hlower (h.head c rfl)
    have hd : isUpper d = false := by
      rw [hword, Bool.true_and] at hsplit
      exact Bool.eq_false_iff.2 hsplit
    have hrest : GoesOn (d :: rest) := by
      refine ⟨fun e he => h.chars e (List.mem_cons_of_mem c he), ?_, h.noRun.tail⟩
      rintro e ⟨⟩
      exact hd
    rw [splitWords, if_neg hsplit, List.map_cons, hlower, camelCase_cons hc, ih hrest]

theorem IsKey.goesOn {key : Units} (h : IsKey key) : GoesOn key := by
  refine ⟨h.chars, ?_, h.noRun⟩
  obtain ⟨c, rest, rfl, hc⟩ := h.head
  rintro d ⟨⟩
  by_contra hupper
  simp only [isLower, isUpper, Bool.and_eq_true, decide_eq_true_eq, UInt16.le_iff_toNat_le, Bool.not_eq_false] at hc hupper
  simp only [UInt16.toNat_ofNat, Nat.reducePow, Nat.reduceMod] at hc hupper
  omega

theorem camelCase_snakeCase {key : Units} (h : IsKey key) : camelCase (snakeCase key) = key := camelCase_goesOn h.goesOn

/-- A name that an object may be given any property under: neither an array index nor `__proto__`. -/
structure IsName (key : Units) : Prop where
  noIndex : isArrayIndex key = false
  noProto : key ≠ units "__proto__"

theorem isName_of_lower {c : UInt16} (h : isLower c = true) (rest : Units) : IsName (c :: rest) := by
  have hdigit : isDigit c = false := by
    by_contra hdigit
    simp only [isLower, isDigit, Bool.and_eq_true, decide_eq_true_eq, UInt16.le_iff_toNat_le, Bool.not_eq_false] at h hdigit
    simp only [UInt16.toNat_ofNat, Nat.reducePow, Nat.reduceMod] at h hdigit
    omega
  refine ⟨?_, ?_⟩
  · unfold isArrayIndex
    rw [List.all_cons, hdigit, Bool.false_and]
    simp
  · intro hproto
    have hc : c = underscore := (List.cons.inj hproto).1
    subst hc
    exact absurd h (by decide)

theorem IsKey.name {key : Units} (h : IsKey key) : IsName key := by
  obtain ⟨c, rest, rfl, hc⟩ := h.head
  exact isName_of_lower hc rest

/-- A key in snake case begins like the key. -/
theorem IsKey.snakeName {key : Units} (h : IsKey key) : IsName (snakeCase key) := by
  have hgoesOn := h.goesOn
  obtain ⟨c, rest, rfl, hc⟩ := h.head
  have hlower : toLower c = c := ((char_facts (h.chars c List.mem_cons_self)).2.1 (hgoesOn.head c rfl)).1
  have hhead : ∃ rest', snakeCase (c :: rest) = c :: rest' := by
    unfold snakeCase
    cases rest with
    | nil => exact ⟨[], by rw [splitWords, List.map_singleton, hlower]⟩
    | cons d rest =>
      rw [splitWords]
      split
      · exact ⟨_, by rw [List.map_cons, hlower]⟩
      · exact ⟨_, by rw [List.map_cons, hlower]⟩
  obtain ⟨rest', hrest'⟩ := hhead
  rw [hrest']
  exact isName_of_lower hc rest'

/-- Keys in camel case that come apart do so in snake case. -/
theorem nodup_snakeCase {keys : List Units} (hkeys : ∀ k ∈ keys, IsKey k) (h : keys.Nodup) : (keys.map snakeCase).Nodup := by
  refine List.Nodup.map_on ?_ h
  intro k hk k' hk' heq
  rw [← camelCase_snakeCase (hkeys k hk), heq, camelCase_snakeCase (hkeys k' hk')]

/-! ### Objects -/

theorem ownOrder_names {α : Type} {l : List (Units × α)} (h : ∀ e ∈ l, IsName e.1) : ownOrder l = l := by
  have hnone : l.filter (fun e => isArrayIndex e.1) = [] := by
    refine List.filter_eq_nil_iff.2 (fun e he => ?_)
    rw [(h e he).noIndex]
    exact Bool.false_ne_true
  have hall : l.filter (fun e => ¬isArrayIndex e.1) = l := by
    refine List.filter_eq_self.2 (fun e he => ?_)
    rw [(h e he).noIndex]
    rfl
  unfold ownOrder
  rw [hnone, hall, List.mergeSort_nil, List.nil_append]

theorem setProperty_new {l : List (Units × Value)} {k : Units} (h : k ∉ l.map Prod.fst) (v : Value) :
    setProperty l k v = l ++ [(k, v)] := by
  induction l with
  | nil => rfl
  | cons e l ih =>
    rw [List.map_cons, List.mem_cons, not_or] at h
    rw [setProperty, if_neg (Ne.symm h.1), ih h.2, List.cons_append]

/-- Assignments to different names are the properties. -/
theorem assignAll_names {l : List (Units × Value)} (hnames : ∀ e ∈ l, IsName e.1) (h : (l.map Prod.fst).Nodup) : assignAll l = l := by
  have hfold : ∀ l out : List (Units × Value), (∀ e ∈ l, IsName e.1) → ((out ++ l).map Prod.fst).Nodup →
      l.foldl (fun out e => assign out e.1 e.2) out = out ++ l := by
    intro l
    induction l with
    | nil => exact fun out _ _ => (List.append_nil out).symm
    | cons e l ih =>
      intro out hnames hnodup
      have hnew : e.1 ∉ out.map Prod.fst := by
        rw [List.map_append, List.map_cons] at hnodup
        exact fun hmem => (List.nodup_append.1 hnodup).2.2 _ hmem _ List.mem_cons_self rfl
      rw [List.foldl_cons, assign, if_neg (hnames e List.mem_cons_self).noProto, setProperty_new hnew, ih, List.append_assoc]
      · rfl
      · exact fun e' he' => hnames e' (List.mem_cons_of_mem e he')
      · rwa [List.append_assoc]
  exact hfold l [] hnames h

/-- Members with different keys are the properties. -/
theorem evaluateMembers_nodup (number : Number → Value) {members : List (Units × Tree)} (h : (members.map Prod.fst).Nodup) :
    evaluateMembers number members [] = members.map (fun m => (m.1, evaluate number m.2)) := by
  have hfold : ∀ (members : List (Units × Tree)) (properties : List (Units × Value)),
      (properties.map Prod.fst ++ members.map Prod.fst).Nodup →
      evaluateMembers number members properties = properties ++ members.map (fun m => (m.1, evaluate number m.2)) := by
    intro members
    induction members with
    | nil => exact fun properties _ => (List.append_nil properties).symm
    | cons m members ih =>
      obtain ⟨k, t⟩ := m
      intro properties hnodup
      have hnew : k ∉ properties.map Prod.fst := by
        rw [List.map_cons] at hnodup
        exact fun hmem => (List.nodup_append.1 hnodup).2.2 _ hmem _ List.mem_cons_self rfl
      rw [evaluateMembers, setProperty_new hnew, ih, List.append_assoc]
      · rfl
      · rw [List.map_append, List.append_assoc]
        exact hnodup
  exact hfold members [] h

theorem snakeProperties_eq (properties : List (Units × Value)) :
    snakeProperties properties = properties.map (fun e => (e.1, toSnakeKeys e.2)) := by
  induction properties with
  | nil => rfl
  | cons e properties ih => rw [snakeProperties, ih, List.map_cons]

theorem snakeItems_eq (items : List Value) : snakeItems items = items.map toSnakeKeys := by
  induction items with
  | nil => rfl
  | cons v items ih => rw [snakeItems, ih, List.map_cons]

theorem camelItems_eq (items : List Value) : camelItems items = items.map toCamelKeys := by
  induction items with
  | nil => rfl
  | cons v items ih => rw [camelItems, ih, List.map_cons]

theorem evaluateItems_eq (number : Number → Value) (items : List Tree) : evaluateItems number items = items.map (evaluate number) := by
  induction items with
  | nil => rfl
  | cons t items ih => rw [evaluateItems, ih, List.map_cons]

/-- What becomes of an item of `sessions`. -/
def camelSession : Value → Value
  | .number x => widen (.number x)
  | v => toCamelKeys v

theorem camelSessions_eq (items : List Value) : camelSessions items = items.map camelSession := by
  induction items with
  | nil => rfl
  | cons v items ih => cases v <;> simp only [camelSessions, ih, List.map_cons, camelSession]

/-- What becomes of the value of a property, by its key in camel case. -/
def camelField (key : Units) : Value → Value
  | .array items =>
    if isWideField key then .array items
    else if key = units "sessions" then .array (camelSessions items)
    else .array (camelItems items)
  | v => if isWideField key then widen v else toCamelKeys v

theorem camelProperties_eq (properties : List (Units × Value)) :
    camelProperties properties = properties.map (fun e => (e.1, camelField (camelCase e.1) e.2)) := by
  induction properties with
  | nil => rfl
  | cons e properties ih =>
    obtain ⟨k, v⟩ := e
    cases v <;> simp only [camelProperties, ih, List.map_cons, camelField]

/-! ### What is sent -/

/-- The safe integers. -/
def IsSafe (n : Int) : Prop := ¬(n > maxSafe ∨ n < -maxSafe)

/-- Whether the object is a statement value whose type says that it is an integer. -/
def isWideStatement (properties : List (Units × Value)) : Bool :=
  match lookup properties (units "type") with
  | some (.string type) => wideStatementValueTypes.contains type
  | _ => false

mutual

/-- The bodies of the SDK: a `bigint` is past the safe range unless the SDK types its field so, and an integral number is safe. -/
inductive Sendable : Value → Prop
  | null : Sendable .null
  | boolean (b : Bool) : Sendable (.boolean b)
  | string (s : Units) : Sendable (.string s)
  | number {x : Double} (hfinite : x.isFinite) (hzero : x.abs = 0 → x.sign = 0) (hsafe : isInteger x → IsSafe (bigInt x)) :
      Sendable (.number x)
  | bigint {n : Int} (h : ¬IsSafe n) : Sendable (.bigint n)
  | array {items : List Value} (h : ∀ v ∈ items, Sendable v) : Sendable (.array items)
  | object {properties : List (Units × Value)} (hkeys : ∀ e ∈ properties, IsKey e.1) (hnodup : (properties.map Prod.fst).Nodup)
      (h : ∀ e ∈ properties, SendableField (isWideStatement properties) e.1 e.2) : Sendable (.object properties)

/-- The value of a property by its key. -/
inductive SendableField : Bool → Units → Value → Prop
  | null {wide : Bool} {key : Units} : SendableField wide key .null
  | bigint {wide : Bool} {key : Units} (h : isWideField key = true ∨ wide = true ∧ key = units "value") (n : Int) :
      SendableField wide key (.bigint n)
  | sessions {wide : Bool} {items : List Value} (h : ∀ v ∈ items, SendableSession v) :
      SendableField wide (units "sessions") (.array items)
  | plain {wide : Bool} {key : Units} {v : Value} (hwide : isWideField key = false) (hvalue : ¬(wide = true ∧ key = units "value"))
      (hsessions : key = units "sessions" → ∀ items, v ≠ .array items) (h : Sendable v) : SendableField wide key v

/-- An item of `sessions`: every integer in it is a `bigint`. -/
inductive SendableSession : Value → Prop
  | bigint (n : Int) : SendableSession (.bigint n)
  | other {v : Value} (hnumber : ∀ x, v ≠ .number x) (h : Sendable v) : SendableSession v

end

/-- What arrives of a value, before its keys are put back in camel case. -/
def received (v : Value) : Value := evaluate exactOf (toTree (toSnakeKeys v))

theorem received_items (items : List Value) : received (.array items) = .array (items.map received) := by
  unfold received
  rw [toSnakeKeys, toTree, evaluate, snakeItems_eq, treeItems_eq, evaluateItems_eq, List.map_map, List.map_map]
  rfl

theorem isUndefined_snake (v : Value) : (toSnakeKeys v).isUndefined = v.isUndefined := by
  cases v <;> rfl

/-- The keys of properties whose keys and values were mapped. -/
theorem keys_map {α β : Type} (f : Units → Units) (g : Units × α → β) (l : List (Units × α)) :
    (l.map (fun e => (f e.1, g e))).map Prod.fst = (l.map Prod.fst).map f := by
  rw [List.map_map, List.map_map]
  rfl

theorem names_map {α β : Type} {f : Units → Units} {l : List (Units × α)} (h : ∀ e ∈ l, IsName (f e.1)) (g : Units × α → β) :
    ∀ e ∈ l.map (fun e => (f e.1, g e)), IsName e.1 := by
  intro e he
  obtain ⟨e', he', rfl⟩ := List.mem_map.1 he
  exact h e' he'

section

variable {properties : List (Units × Value)} (hkeys : ∀ e ∈ properties, IsKey e.1) (hnodup : (properties.map Prod.fst).Nodup)

include hkeys

theorem ownOrder_keys {α : Type} (g : Units × Value → α) :
    ownOrder (properties.map (fun e => (e.1, g e))) = properties.map (fun e => (e.1, g e)) :=
  ownOrder_names (names_map (f := id) (fun e he => (hkeys e he).name) g)

theorem ownOrder_snake {α : Type} (g : Units × Value → α) :
    ownOrder (properties.map (fun e => (snakeCase e.1, g e))) = properties.map (fun e => (snakeCase e.1, g e)) :=
  ownOrder_names (names_map (fun e he => (hkeys e he).snakeName) g)

include hnodup

theorem nodup_snake {α : Type} (g : Units × Value → α) : ((properties.map (fun e => (snakeCase e.1, g e))).map Prod.fst).Nodup := by
  rw [keys_map]
  refine nodup_snakeCase ?_ hnodup
  intro k hk
  obtain ⟨e, he, rfl⟩ := List.mem_map.1 hk
  exact hkeys e he

/-- The keys go out in snake case, each with its value. -/
theorem toSnakeKeys_object :
    toSnakeKeys (.object properties) = .object (properties.map (fun e => (snakeCase e.1, toSnakeKeys e.2))) := by
  rw [toSnakeKeys, snakeProperties_eq, ownOrder_keys hkeys, List.map_map]
  exact congrArg Value.object (assignAll_names (names_map (fun e he => (hkeys e he).snakeName) _) (nodup_snake hkeys hnodup _))

theorem received_object (hdefined : ∀ e ∈ properties, e.2.isUndefined = false) :
    received (.object properties) = .object (properties.map (fun e => (snakeCase e.1, received e.2))) := by
  have hmembers : (properties.map (fun e => (snakeCase e.1, toSnakeKeys e.2))).flatMap memberOf =
      properties.map (fun e => (snakeCase e.1, toTree (toSnakeKeys e.2))) := by
    rw [List.flatMap_map, List.map_eq_flatMap]
    refine List.flatMap_congr (fun e he => ?_)
    rw [memberOf, isUndefined_snake, hdefined e he, if_neg Bool.false_ne_true]
  unfold received
  rw [toSnakeKeys_object hkeys hnodup, toTree_object, ownOrder_snake hkeys, hmembers, evaluate,
    evaluateMembers_nodup _ (nodup_snake hkeys hnodup _), List.map_map]
  rfl

/-- They come back in camel case. -/
theorem toCamelKeys_object (g : Units × Value → Value) :
    toCamelKeys (.object (properties.map (fun e => (snakeCase e.1, g e)))) =
      .object (widenStatementValue (properties.map (fun e => (e.1, camelField e.1 (g e))))) := by
  have hback : (properties.map (fun e => (snakeCase e.1, camelField (camelCase (snakeCase e.1)) (g e)))).map
      (fun e => (camelCase e.1, e.2)) = properties.map (fun e => (e.1, camelField e.1 (g e))) := by
    rw [List.map_map]
    refine List.map_congr_left (fun e he => ?_)
    rw [Function.comp_apply, camelCase_snakeCase (hkeys e he)]
  have hnodup' : ((properties.map (fun e => (e.1, camelField e.1 (g e)))).map Prod.fst).Nodup := by
    have hsame := (keys_map id (fun e => camelField e.1 (g e)) properties).trans (List.map_id _)
    exact hsame ▸ hnodup
  have hassign := assignAll_names (names_map (f := id) (fun e he => (hkeys e he).name) (fun e => camelField e.1 (g e))) hnodup'
  rw [toCamelKeys, camelProperties_eq, List.map_map]
  have hcomp : (fun e : Units × Value => (e.1, camelField (camelCase e.1) e.2)) ∘ (fun e => (snakeCase e.1, g e)) =
      fun e => (snakeCase e.1, camelField (camelCase (snakeCase e.1)) (g e)) := rfl
  rw [hcomp, ownOrder_snake hkeys, hback]
  exact congrArg (fun l => Value.object (widenStatementValue l)) hassign

end

/-! ### The round trip -/

theorem exactOf_cases (n : Number) : (∃ m, exactOf n = .bigint m) ∨ exactOf n = numberOf n := by
  unfold exactOf
  split
  · exact .inl ⟨_, rfl⟩
  · exact .inr rfl

/-- What arrives as an array was sent as one. -/
theorem array_of_received {v : Value} {items : List Value} (h : received v = .array items) : ∃ items', v = .array items' := by
  have hexact : ∀ n, exactOf n ≠ .array items := by
    intro n hn
    rcases exactOf_cases n with ⟨m, hm⟩ | hm
    · rw [hm] at hn
      cases hn
    · rw [hm] at hn
      cases hn
  cases v with
  | array items' => exact ⟨items', rfl⟩
  | number x =>
    unfold received at h
    rw [toSnakeKeys, toTree] at h
    · split_ifs at h
      · exact absurd h (hexact _)
      · exact absurd h (hexact _)
      · cases h
    all_goals simp
  | bigint n => exact absurd h (hexact _)
  | _ => cases h

theorem received_bigint (n : Int) : received (.bigint n) = exactOf (integerLiteral n) := rfl

/-- A number arrives as it is. -/
theorem received_number {x : Double} (hfinite : x.isFinite) (hzero : x.abs = 0 → x.sign = 0) (hsafe : isInteger x → IsSafe (bigInt x)) :
    received (.number x) = .number x := by
  have htree : toTree (toSnakeKeys (.number x)) = if x.abs = 0 then .number (integerLiteral 0) else .number (shortestLiteral x) :=
    if_pos hfinite
  unfold received
  rw [htree]
  by_cases h : x.abs = 0
  · have hx : x = .mk 0 0 := Double.ext_fields (by rw [hzero h]; rfl) (by rw [h]; rfl)
    have hexact : exactOf (integerLiteral 0) = numberOf (integerLiteral 0) := (exactOf_integer 0).trans (if_neg (by decide))
    rw [if_pos h, evaluate, hexact, numberOf, numberValue_zero, hx]
  · rw [if_neg h, evaluate, exactOf_number hfinite h hsafe]

/-- A `bigint` comes back in a field that the SDK types so, however small it is. -/
theorem widen_received (n : Int) : widen (received (.bigint n)) = .bigint n := by
  rw [received_bigint, exactOf_integer]
  split
  · rfl
  · rename_i h
    exact widen_integer h

theorem toCamelKeys_exact (n : Number) : toCamelKeys (exactOf n) = exactOf n := by
  rcases exactOf_cases n with ⟨m, hm⟩ | hm
  · rw [hm]
    rfl
  · rw [hm]
    rfl

/-- What arrives in a field before the value of a statement is widened. -/
def arrived (wide : Bool) (e : Units × Value) : Value := if wide = true ∧ e.1 = units "value" then received e.2 else e.2

/-- An array in a field is taken for `sessions` or for a plain one by the key alone. -/
theorem camelField_plain {key : Units} (hwide : isWideField key = false) {v : Value}
    (hsessions : ∀ items, v = .array items → key ≠ units "sessions") : camelField key v = toCamelKeys v := by
  cases v with
  | array items =>
    rw [camelField, hwide, if_neg Bool.false_ne_true, if_neg (hsessions items rfl), toCamelKeys]
  | _ => simp [camelField, hwide]

theorem camelField_exact (key : Units) (n : Number) :
    camelField key (exactOf n) = if isWideField key then widen (exactOf n) else toCamelKeys (exactOf n) := by
  rcases exactOf_cases n with ⟨m, hm⟩ | hm
  · rw [hm]
    rfl
  · rw [hm]
    rfl

theorem camelSession_exact (n : Number) : camelSession (exactOf n) = widen (exactOf n) := by
  rcases exactOf_cases n with ⟨m, hm⟩ | hm
  · rw [hm]
    rfl
  · rw [hm]
    rfl

/-! ### The value of a statement -/

/-- A property that is there keeps its place. -/
theorem setProperty_map {out : List (Units × Value)} (hnodup : (out.map Prod.fst).Nodup) {k : Units} (hk : k ∈ out.map Prod.fst)
    (v : Value) : setProperty out k v = out.map (fun e => (e.1, if e.1 = k then v else e.2)) := by
  induction out with
  | nil => cases hk
  | cons e out ih =>
    obtain ⟨k', v'⟩ := e
    rw [List.map_cons, List.nodup_cons] at hnodup
    rw [setProperty, List.map_cons]
    by_cases h : k' = k
    · have hrest : out.map (fun e => (e.1, if e.1 = k then v else e.2)) = out := by
        refine (List.map_congr_left (fun e he => ?_)).trans (List.map_id _)
        have hne : e.1 ≠ k := fun heq => hnodup.1 (List.mem_map.2 ⟨e, he, heq.trans h.symm⟩)
        rw [if_neg hne]
        rfl
      rw [if_pos h, if_pos h, hrest]
    · rw [List.map_cons, List.mem_cons] at hk
      rw [if_neg h, if_neg h, ih hnodup.2 (hk.resolve_left (fun heq => h heq.symm))]

theorem lookup_eq_some {out : List (Units × Value)} {k : Units} {v : Value} (h : lookup out k = some v) : (k, v) ∈ out := by
  obtain ⟨e, he, rfl⟩ := Option.map_eq_some_iff.1 h
  have hkey : e.1 = k := by simpa using List.find?_some he
  rw [← hkey]
  exact List.mem_of_find?_eq_some he

theorem lookup_of_mem {out : List (Units × Value)} (hnodup : (out.map Prod.fst).Nodup) {e : Units × Value} (he : e ∈ out) :
    lookup out e.1 = some e.2 := by
  cases hlookup : lookup out e.1 with
  | none =>
    have hnone := List.find?_eq_none.1 (Option.map_eq_none_iff.1 hlookup) e he
    simp at hnone
  | some v =>
    have hsame := List.inj_on_of_nodup_map hnodup he (lookup_eq_some hlookup) rfl
    rw [hsame]

/-- An object whose type says that its value is an integer gets its value widened, if it has one. -/
theorem widenStatementValue_eq {out : List (Units × Value)} (hnodup : (out.map Prod.fst).Nodup) (h : isWideStatement out = true) :
    widenStatementValue out = out.map (fun e => (e.1, if e.1 = units "value" then widen e.2 else e.2)) := by
  have hwiden : ∀ v, lookup out (units "value") = some v →
      out.map (fun e => (e.1, if e.1 = units "value" then widen v else e.2)) =
        out.map (fun e => (e.1, if e.1 = units "value" then widen e.2 else e.2)) := by
    intro v hv
    refine List.map_congr_left (fun e he => ?_)
    by_cases hkey : e.1 = units "value"
    · have hsame := lookup_of_mem hnodup he
      rw [hkey, hv] at hsame
      rw [if_pos hkey, if_pos hkey, Option.some.inj hsame]
    · rw [if_neg hkey, if_neg hkey]
  have hkept : (∀ e ∈ out, e.1 = units "value" → widen e.2 = e.2) →
      out = out.map (fun e => (e.1, if e.1 = units "value" then widen e.2 else e.2)) := by
    intro hall
    refine ((List.map_congr_left (fun e he => ?_)).trans (List.map_id _)).symm
    by_cases hkey : e.1 = units "value"
    · rw [if_pos hkey, hall e he hkey]
      rfl
    · rw [if_neg hkey]
      rfl
  unfold isWideStatement at h
  unfold widenStatementValue
  split at h
  · rename_i type htype
    rw [htype]
    cases hvalue : lookup out (units "value") with
    | none =>
      refine hkept (fun e he hkey => ?_)
      rw [← hkey, lookup_of_mem hnodup he] at hvalue
      cases hvalue
    | some v =>
      have hlookup : ∀ e ∈ out, e.1 = units "value" → e.2 = v := by
        intro e he hkey
        have hsame := lookup_of_mem hnodup he
        rw [hkey, hvalue] at hsame
        exact (Option.some.inj hsame).symm
      cases v with
      | number x =>
        have hmem : units "value" ∈ out.map Prod.fst := List.mem_map.2 ⟨_, lookup_eq_some hvalue, rfl⟩
        simp only [if_pos (List.contains_iff_mem.1 h)]
        rw [setProperty_map hnodup hmem, hwiden _ hvalue]
      | _ =>
        refine hkept (fun e he hkey => ?_)
        rw [hlookup e he hkey]
        rfl
  · cases h

/-- Other objects stay as they are. -/
theorem widenStatementValue_other {out : List (Units × Value)} (h : isWideStatement out = false) : widenStatementValue out = out := by
  unfold widenStatementValue
  split
  · rename_i type x htype hvalue
    refine if_neg (fun hmem => ?_)
    unfold isWideStatement at h
    rw [htype] at h
    exact Bool.noConfusion (h.symm.trans (List.contains_iff_mem.2 hmem))
  · rfl

/-- Only the value under `type` decides. -/
theorem isWideStatement_congr {properties properties' : List (Units × Value)}
    (h : lookup properties (units "type") = lookup properties' (units "type")) :
    isWideStatement properties = isWideStatement properties' := by
  unfold isWideStatement
  rw [h]

/-- A value keeps the type beside it. -/
theorem lookup_type (properties : List (Units × Value)) (wide : Bool) :
    lookup (properties.map (fun e => (e.1, arrived wide e))) (units "type") = lookup properties (units "type") := by
  have hpred : ((fun e : Units × Value => decide (e.1 = units "type")) ∘ fun e => (e.1, arrived wide e)) =
      fun e => decide (e.1 = units "type") := rfl
  unfold lookup
  rw [List.find?_map, Option.map_map, hpred]
  cases hfind : properties.find? (fun e => decide (e.1 = units "type")) with
  | none => rfl
  | some e =>
    have hkey : e.1 = units "type" := by simpa using List.find?_some hfind
    have hne : ¬(wide = true ∧ e.1 = units "value") := by
      rintro ⟨-, hval⟩
      rw [hkey] at hval
      exact absurd hval (by decide)
    rw [Option.map_some, Option.map_some, Function.comp_apply, arrived, if_neg hne]

/-- What arrived in an object is what was sent, once the value of a statement is widened. -/
theorem widen_arrived {properties : List (Units × Value)} (hnodup : (properties.map Prod.fst).Nodup)
    (hvalue : ∀ e ∈ properties, isWideStatement properties = true → e.1 = units "value" → widen (received e.2) = e.2) :
    widenStatementValue (properties.map (fun e => (e.1, arrived (isWideStatement properties) e))) = properties := by
  have hnodup' : ((properties.map (fun e => (e.1, arrived (isWideStatement properties) e))).map Prod.fst).Nodup := by
    rw [List.map_map]
    exact hnodup
  have htype := isWideStatement_congr (lookup_type properties (isWideStatement properties))
  cases hwide : isWideStatement properties with
  | false =>
    rw [hwide] at htype
    rw [widenStatementValue_other htype]
    refine (List.map_congr_left (fun e _ => ?_)).trans (List.map_id _)
    rw [arrived, if_neg (fun h => Bool.false_ne_true h.1)]
    rfl
  | true =>
    rw [hwide] at htype hnodup' hvalue
    rw [widenStatementValue_eq hnodup' htype, List.map_map]
    refine (List.map_congr_left (fun e he => ?_)).trans (List.map_id _)
    rw [Function.comp_apply]
    by_cases hkey : e.1 = units "value"
    · rw [if_pos hkey, arrived, if_pos ⟨rfl, hkey⟩, hvalue e he rfl hkey]
      rfl
    · rw [if_neg hkey, arrived, if_neg (fun h => hkey h.2)]
      rfl

/-- What is sent is defined. -/
theorem SendableField.defined {wide : Bool} {key : Units} {v : Value} (h : SendableField wide key v) : v.isUndefined = false := by
  cases h with
  | plain _ _ _ h => cases h <;> rfl
  | _ => rfl

/-- A value that the type beside it makes an integer is a `bigint`, or null. -/
theorem SendableField.widened {wide : Bool} {key : Units} {v : Value} (h : SendableField wide key v) (hwide : wide = true)
    (hkey : key = units "value") : widen (received v) = v := by
  cases h with
  | null => rfl
  | bigint _ n => exact widen_received n
  | sessions => exact absurd hkey (by decide)
  | plain _ hvalue => exact absurd ⟨hwide, hkey⟩ hvalue

/-- An item of `sessions` that was sent as no number arrives as none. -/
theorem camelSession_received {v : Value} (h : Sendable v) (hnumber : ∀ x, v ≠ .number x) :
    camelSession (received v) = toCamelKeys (received v) := by
  cases h with
  | number hfinite hzero hsafe => exact absurd rfl (hnumber _)
  | @bigint n h =>
    rw [received_bigint, exactOf_integer, if_pos (not_not.1 h)]
    rfl
  | _ => rfl

mutual

theorem back_value : {v : Value} → Sendable v → toCamelKeys (received v) = v
  | _, .null => rfl
  | _, .boolean b => rfl
  | _, .string s => rfl
  | _, .number hfinite hzero hsafe => by
    rw [received_number hfinite hzero hsafe]
    rfl
  | _, @Sendable.bigint n h => by
    rw [received_bigint, toCamelKeys_exact, exactOf_integer]
    exact if_pos (not_not.1 h)
  | _, @Sendable.array items h => by
    rw [received_items, toCamelKeys, camelItems_eq, List.map_map]
    have hitems : items.map (toCamelKeys ∘ received) = items :=
      (List.map_congr_left (fun v hv => back_value (h v hv))).trans (List.map_id _)
    rw [hitems]
  | _, @Sendable.object properties hkeys hnodup h => by
    have hfields : ∀ e ∈ properties, camelField e.1 (received e.2) = arrived (isWideStatement properties) e :=
      fun e he => back_field (h e he)
    have hback : properties.map (fun e => (e.1, camelField e.1 (received e.2))) =
        properties.map (fun e => (e.1, arrived (isWideStatement properties) e)) :=
      List.map_congr_left (fun e he => by rw [hfields e he])
    rw [received_object hkeys hnodup (fun e he => (h e he).defined), toCamelKeys_object hkeys hnodup, hback,
      widen_arrived hnodup (fun e he hwide hkey => (h e he).widened hwide hkey)]

theorem back_field : {wide : Bool} → {key : Units} → {v : Value} → SendableField wide key v →
    camelField key (received v) = arrived wide (key, v)
  | _, _, _, .null => by
    unfold arrived camelField
    split_ifs <;> rfl
  | _, _, _, @SendableField.bigint wide key h n => by
    rw [received_bigint, camelField_exact, toCamelKeys_exact, ← received_bigint, widen_received]
    unfold arrived
    split_ifs with hwide hvalue
    · rw [show key = units "value" from hvalue.2] at hwide
      exact absurd hwide (by decide)
    · rfl
    · rfl
    · exact absurd (h.resolve_left hwide) ‹_›
  | _, _, _, @SendableField.sessions wide items h => by
    have hitems : (items.map received).map camelSession = items := by
      rw [List.map_map]
      exact (List.map_congr_left (fun v hv => back_session (h v hv))).trans (List.map_id _)
    have hkey : ¬(wide = true ∧ units "sessions" = units "value") := by
      rintro ⟨-, hkey⟩
      exact absurd hkey (by decide)
    rw [received_items, camelField, if_neg (by decide), if_pos rfl, camelSessions_eq, hitems, arrived, if_neg hkey]
  | _, _, _, .plain hwide hvalue hsessions h => by
    rw [camelField_plain hwide, back_value h, arrived, if_neg hvalue]
    intro items hitems hkey
    obtain ⟨items', rfl⟩ := array_of_received hitems
    exact hsessions hkey items' rfl

theorem back_session : {v : Value} → SendableSession v → camelSession (received v) = v
  | _, .bigint n => by rw [received_bigint, camelSession_exact, ← received_bigint, widen_received]
  | _, .other hnumber h => by rw [camelSession_received h hnumber, back_value h]

end

/-- A body comes back as it was sent. -/
theorem decodeJsonBody_stringify {v : Value} (h : Sendable v) : decodeJsonBody (stringify (toSnakeKeys v)) = .ok v := by
  unfold decodeJsonBody
  rw [parseJsonWithBigInts_eq (element_of_value (stringify_value (toSnakeKeys v)))]
  exact congrArg Except.ok (back_value h)

/-- A session id, session ids and an integer statement, all small, a wide number, and a string that looks like the tag of one. -/
def sampleBody : Value :=
  .object [(units "sessionId", .bigint 7), (units "sessions", .array [.bigint 3]),
    (units "statementValue", .object [(units "type", .string (units "integer")), (units "value", .bigint 42)]),
    (units "memoryId", .bigint (2 ^ 64)), (units "text2", .string (tag ++ units "12"))]

theorem decodeJsonBody_sampleBody : decodeJsonBody (stringify (toSnakeKeys sampleBody)) = .ok sampleBody := by
  have hstatement : Sendable (.object [(units "type", .string (units "integer")), (units "value", .bigint 42)]) := by
    refine .object (by decide) (by decide) ?_
    refine List.forall_mem_cons.2 ⟨?_, List.forall_mem_cons.2 ⟨?_, List.forall_mem_nil _⟩⟩
    · exact .plain (by decide) (by decide) (fun h => absurd h (by decide)) (.string _)
    · exact .bigint (.inr (by decide)) 42
  have hwide : ¬IsSafe (2 ^ 64) := by
    unfold IsSafe
    decide
  refine decodeJsonBody_stringify (.object (by decide) (by decide) ?_)
  refine List.forall_mem_cons.2 ⟨?_, List.forall_mem_cons.2 ⟨?_, List.forall_mem_cons.2 ⟨?_, List.forall_mem_cons.2 ⟨?_,
    List.forall_mem_cons.2 ⟨?_, List.forall_mem_nil _⟩⟩⟩⟩⟩
  · exact .bigint (.inl (by decide)) 7
  · exact .sessions (List.forall_mem_cons.2 ⟨.bigint 3, List.forall_mem_nil _⟩)
  · exact .plain (by decide) (by decide) (fun h => absurd h (by decide)) hstatement
  · exact .plain (by decide) (by decide) (fun h => absurd h (by decide)) (.bigint hwide)
  · exact .plain (by decide) (by decide) (fun h => absurd h (by decide)) (.string _)

end BrainSdk.TypeScript.Json
