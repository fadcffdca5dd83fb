import Mathlib.Data.List.Basic

/-!
# JSON texts

The grammar of RFC 8259 over the code units of UTF-16: which texts a tree is written as, with any white space and any escapes. A number
is kept in the parts of its literal and a string as the units that it stands for. `parse` reads the tree off a text.
-/

namespace BrainSdk.Library.Json

/-- A string as the languages with UTF-16 strings have it. -/
abbrev Units : Type := List UInt16

/-- The units of a text in ASCII. -/
def units (s : String) : Units := s.toList.map (fun c => UInt16.ofNat c.toNat)

/-- A number literal, in its parts. -/
structure Number where
  negative : Bool
  int : Units
  frac : Units
  exp : Units
  deriving DecidableEq, Repr

/-- A JSON value: its number literals and its members as they are written. -/
inductive Tree where
  | null
  | bool (b : Bool)
  | number (n : Number)
  | string (value : Units)
  | array (items : List Tree)
  | object (members : List (Units × Tree))

/-! ### Units -/

def quote : UInt16 := 0x22
def comma : UInt16 := 0x2C
def minus : UInt16 := 0x2D
def dot : UInt16 := 0x2E
def zero : UInt16 := 0x30
def colon : UInt16 := 0x3A
def openBracket : UInt16 := 0x5B
def backslash : UInt16 := 0x5C
def closeBracket : UInt16 := 0x5D
def openBrace : UInt16 := 0x7B
def closeBrace : UInt16 := 0x7D
/-- The `u` of an escape. -/
def letterU : UInt16 := 0x75

/-- White space between tokens. -/
def isSpace (c : UInt16) : Bool := c == 0x20 || c == 0x09 || c == 0x0A || c == 0x0D

def isDigit (c : UInt16) : Bool := 0x30 ≤ c && c ≤ 0x39

/-- `e` or `E`. -/
def isExponentMark (c : UInt16) : Bool := c == 0x65 || c == 0x45

/-- `+` or `-`. -/
def isSign (c : UInt16) : Bool := c == 0x2B || c == 0x2D

/-- The value of a hexadecimal digit. -/
def hexValue (c : UInt16) : Option UInt16 :=
  if isDigit c then some (c - 0x30)
  else if 0x61 ≤ c && c ≤ 0x66 then some (c - 0x57)
  else if 0x41 ≤ c && c ≤ 0x46 then some (c - 0x37)
  else none

/-- The unit that four hexadecimal digits spell. -/
def hexUnit (a b c d : UInt16) : Option UInt16 := do
  let a ← hexValue a
  let b ← hexValue b
  let c ← hexValue c
  let d ← hexValue d
  return a * 0x1000 + b * 0x100 + c * 0x10 + d

/-- What a character stands for behind a backslash. -/
def escaped (c : UInt16) : Option UInt16 :=
  if c == 0x22 || c == 0x5C || c == 0x2F then some c
  else if c == 0x62 then some 0x08
  else if c == 0x66 then some 0x0C
  else if c == 0x6E then some 0x0A
  else if c == 0x72 then some 0x0D
  else if c == 0x74 then some 0x09
  else none

/-! ### The grammar -/

/-- White space, or nothing. -/
def IsSpaces (ws : Units) : Prop := ∀ c ∈ ws, isSpace c = true

def IsDigits (ds : Units) : Prop := ∀ c ∈ ds, isDigit c = true

instance (ws : Units) : Decidable (IsSpaces ws) := List.decidableBAll _ ws

instance (ds : Units) : Decidable (IsDigits ds) := List.decidableBAll _ ds

/-- A number without a leading zero. -/
inductive IsInt : Units → Prop
  | zero : IsInt [zero]
  | digits {d : UInt16} {ds : Units} (hd : isDigit d = true) (hne : d ≠ zero) (hds : IsDigits ds) : IsInt (d :: ds)

/-- A point and at least one digit, or nothing. -/
inductive IsFrac : Units → Prop
  | none : IsFrac []
  | some {d : UInt16} {ds : Units} (hds : IsDigits (d :: ds)) : IsFrac (dot :: d :: ds)

/-- A mark, a sign if any, and at least one digit; or nothing. -/
inductive IsExp : Units → Prop
  | none : IsExp []
  | unsigned {e d : UInt16} {ds : Units} (he : isExponentMark e = true) (hds : IsDigits (d :: ds)) : IsExp (e :: d :: ds)
  | signed {e s d : UInt16} {ds : Units} (he : isExponentMark e = true) (hs : isSign s = true) (hds : IsDigits (d :: ds)) :
      IsExp (e :: s :: d :: ds)

/-- The literal that the parts make up. -/
def Number.literal (n : Number) : Units := (if n.negative then [minus] else []) ++ n.int ++ n.frac ++ n.exp

/-- The parts of a number literal. -/
structure Number.Valid (n : Number) : Prop where
  int : IsInt n.int
  frac : IsFrac n.frac
  exp : IsExp n.exp

/-- The source of a string between its quotes. -/
inductive IsChars : Units → Units → Prop
  | nil : IsChars [] []
  | plain {c : UInt16} {v s : Units} (hc : 0x20 ≤ c) (hquote : c ≠ quote) (hback : c ≠ backslash) (h : IsChars v s) :
      IsChars (c :: v) (c :: s)
  | escape {e c : UInt16} {v s : Units} (he : escaped e = some c) (h : IsChars v s) : IsChars (c :: v) (backslash :: e :: s)
  | unicode {a b c d u : UInt16} {v s : Units} (hu : hexUnit a b c d = some u) (h : IsChars v s) :
      IsChars (u :: v) (backslash :: letterU :: a :: b :: c :: d :: s)

mutual

/-- The text is the value, without white space around it. -/
inductive IsValue : Tree → Units → Prop
  | null : IsValue .null (units "null")
  | bool (b : Bool) : IsValue (.bool b) (units (if b then "true" else "false"))
  | number {n : Number} (h : n.Valid) : IsValue (.number n) n.literal
  | string {v s : Units} (h : IsChars v s) : IsValue (.string v) (quote :: (s ++ [quote]))
  | emptyArray {ws : Units} (h : IsSpaces ws) : IsValue (.array []) (openBracket :: (ws ++ [closeBracket]))
  | array {items : List Tree} {body : Units} (h : IsElements items body) :
      IsValue (.array items) (openBracket :: (body ++ [closeBracket]))
  | emptyObject {ws : Units} (h : IsSpaces ws) : IsValue (.object []) (openBrace :: (ws ++ [closeBrace]))
  | object {members : List (Units × Tree)} {body : Units} (h : IsMembers members body) :
      IsValue (.object members) (openBrace :: (body ++ [closeBrace]))

/-- The text is the value, with white space around it. -/
inductive IsElement : Tree → Units → Prop
  | mk {t : Tree} {pre text post : Units} (hpre : IsSpaces pre) (h : IsValue t text) (hpost : IsSpaces post) :
      IsElement t (pre ++ text ++ post)

/-- At least one element, with commas between them. -/
inductive IsElements : List Tree → Units → Prop
  | one {t : Tree} {text : Units} (h : IsElement t text) : IsElements [t] text
  | cons {t : Tree} {items : List Tree} {text rest : Units} (h : IsElement t text) (hrest : IsElements items rest) :
      IsElements (t :: items) (text ++ comma :: rest)

/-- A key, a colon and an element. -/
inductive IsMember : Units × Tree → Units → Prop
  | mk {k s : Units} {t : Tree} {pre mid text : Units} (hpre : IsSpaces pre) (hk : IsChars k s) (hmid : IsSpaces mid)
      (h : IsElement t text) : IsMember (k, t) (pre ++ quote :: (s ++ quote :: (mid ++ colon :: text)))

/-- At least one member, with commas between them. -/
inductive IsMembers : List (Units × Tree) → Units → Prop
  | one {m : Units × Tree} {text : Units} (h : IsMember m text) : IsMembers [m] text
  | cons {m : Units × Tree} {members : List (Units × Tree)} {text rest : Units} (h : IsMember m text)
      (hrest : IsMembers members rest) : IsMembers (m :: members) (text ++ comma :: rest)

end

/-! ### The parser -/

/-- The digits at the front, and what follows. -/
def takeDigits (text : Units) : Units × Units := (text.takeWhile isDigit, text.dropWhile isDigit)

/-- An integer at the front. -/
def takeInt : Units → Option (Units × Units)
  | [] => none
  | c :: rest =>
    if c = zero then some ([c], rest)
    else if isDigit c then some (c :: (takeDigits rest).1, (takeDigits rest).2)
    else none

/-- The fraction at the front, if there is one. -/
def takeFrac : Units → Units × Units
  | c :: d :: rest =>
    if c = dot ∧ isDigit d then (c :: d :: (takeDigits rest).1, (takeDigits rest).2) else ([], c :: d :: rest)
  | text => ([], text)

/-- The digits of an exponent behind its mark and sign; without one, there is no exponent. -/
def takeExpDigits (mark whole : Units) : Units → Units × Units
  | [] => ([], whole)
  | d :: rest => if isDigit d then (mark ++ d :: (takeDigits rest).1, (takeDigits rest).2) else ([], whole)

/-- The exponent at the front, if there is one. -/
def takeExp : Units → Units × Units
  | [] => ([], [])
  | e :: rest =>
    if isExponentMark e then
      match rest with
      | [] => ([], [e])
      | s :: rest' => if isSign s then takeExpDigits [e, s] (e :: rest) rest' else takeExpDigits [e] (e :: rest) rest
    else ([], e :: rest)

/-- A number without its sign. -/
def takeUnsigned (negative : Bool) (text : Units) : Option (Number × Units) := do
  let int ← takeInt text
  let frac := takeFrac int.2
  let exp := takeExp frac.2
  return (⟨negative, int.1, frac.1, exp.1⟩, exp.2)

/-- The longest number literal at the front. -/
def takeNumber : Units → Option (Number × Units)
  | [] => none
  | c :: rest => if c = minus then takeUnsigned true rest else takeUnsigned false (c :: rest)

/-- A unit in front of a string. -/
def pushUnit (u : UInt16) (r : Units × Units) : Units × Units := (u :: r.1, r.2)

/-- The string up to the closing quote, and what follows the quote. -/
def takeChars : Units → Option (Units × Units)
  | [] => none
  | c :: rest =>
    if c = quote then some ([], rest)
    else if c = backslash then
      match rest with
      | [] => none
      | e :: rest =>
        if e = letterU then
          match rest with
          | h1 :: h2 :: h3 :: h4 :: rest => (hexUnit h1 h2 h3 h4).bind (fun u => (takeChars rest).map (pushUnit u))
          | _ => none
        else (escaped e).bind (fun u => (takeChars rest).map (pushUnit u))
    else if c < 0x20 then none
    else (takeChars rest).map (pushUnit c)
termination_by structural text => text

/-- The text without the white space at its front. -/
def skipSpaces (text : Units) : Units := text.dropWhile isSpace

/-- A literal name at the front. -/
def takeName (name : String) (t : Tree) (text : Units) : Option (Tree × Units) :=
  if units name <+: text then some (t, text.drop (units name).length) else none

mutual

/-- A value at the front, at so many steps. -/
def takeValue : Nat → Units → Option (Tree × Units)
  | 0, _ => none
  | _ + 1, [] => none
  | fuel + 1, c :: rest =>
    if c = quote then (takeChars rest).map (fun r => (.string r.1, r.2))
    else if c = openBracket then
      match skipSpaces rest with
      | [] => none
      | d :: rest' => if d = closeBracket then some (.array [], rest') else (takeElements fuel rest).map (fun r => (.array r.1, r.2))
    else if c = openBrace then
      match skipSpaces rest with
      | [] => none
      | d :: rest' => if d = closeBrace then some (.object [], rest') else (takeMembers fuel rest).map (fun r => (.object r.1, r.2))
    else if c = minus ∨ isDigit c then (takeNumber (c :: rest)).map (fun r => (.number r.1, r.2))
    else
      (takeName "null" .null (c :: rest)).or ((takeName "true" (.bool true) (c :: rest)).or (takeName "false" (.bool false) (c :: rest)))

/-- Elements up to the closing bracket, and what follows it. -/
def takeElements : Nat → Units → Option (List Tree × Units)
  | 0, _ => none
  | fuel + 1, text => do
    let r ← takeValue fuel (skipSpaces text)
    match skipSpaces r.2 with
    | [] => none
    | c :: rest =>
      if c = closeBracket then some ([r.1], rest)
      else if c = comma then (takeElements fuel rest).map (fun rs => (r.1 :: rs.1, rs.2))
      else none

/-- Members up to the closing brace, and what follows it. -/
def takeMembers : Nat → Units → Option (List (Units × Tree) × Units)
  | 0, _ => none
  | fuel + 1, text =>
    match skipSpaces text with
    | [] => none
    | q :: key =>
      if q = quote then do
        let k ← takeChars key
        match skipSpaces k.2 with
        | [] => none
        | c :: rest =>
          if c = colon then do
            let r ← takeValue fuel (skipSpaces rest)
            match skipSpaces r.2 with
            | [] => none
            | c :: rest =>
              if c = closeBrace then some ([(k.1, r.1)], rest)
              else if c = comma then (takeMembers fuel rest).map (fun rs => ((k.1, r.1) :: rs.1, rs.2))
              else none
          else none
      else none

end

/-- The value that a text is, with white space around it. -/
def parse (text : Units) : Option Tree :=
  match takeValue (text.length + 1) (skipSpaces text) with
  | some (t, rest) => if skipSpaces rest = [] then some t else none
  | none => none

end BrainSdk.Library.Json
