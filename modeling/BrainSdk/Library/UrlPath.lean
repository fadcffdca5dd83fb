import Mathlib.Data.List.Forall2
import BrainSdk.Library.Bytes

/-!
# Paths of URLs

Percent-encoding, and the path state of the URL parser for a scheme with a host: a path is cut at `/` and `\`, and ends at `?` or `#`; a
segment that spells one dot is left out and one that spells two dots takes the segment before it with it, where a dot may be written as
`%2e`. A tab or a newline, which the parser removes first, does not occur in an encoded path.
-/

namespace BrainSdk.Library

/-- A segment of a path. -/
abbrev Segment : Type := List Char

/-! ### Percent-encoding -/

/-- An upper-case hexadecimal digit. -/
def hexDigit (n : Nat) : Char := if n < 10 then Char.ofNat (48 + n) else Char.ofNat (55 + n)

/-- The value of a hexadecimal digit. -/
def hexValue (c : Char) : Option Nat :=
  if '0' ≤ c ∧ c ≤ '9' then some (c.toNat - 48)
  else if 'A' ≤ c ∧ c ≤ 'F' then some (c.toNat - 55)
  else if 'a' ≤ c ∧ c ≤ 'f' then some (c.toNat - 87)
  else none

/-- A byte as `%XX`. -/
def percentByte (b : UInt8) : List Char := ['%', hexDigit (b.toNat / 16), hexDigit (b.toNat % 16)]

/-- The bytes that a percent-encoded text stands for. A `%` without two hexadecimal digits stands for itself. -/
def percentDecode : List Char → Bytes
  | '%' :: a :: b :: rest =>
    match hexValue a, hexValue b with
    | some x, some y => UInt8.ofNat (x * 16 + y) :: percentDecode rest
    | _, _ => 0x25 :: percentDecode (a :: b :: rest)
  | c :: rest => UInt8.ofNat c.toNat :: percentDecode rest
  | [] => []

/-- Every byte as itself where it is kept, else as `%XX`. -/
def escape (keep : UInt8 → Bool) (bytes : Bytes) : List Char :=
  bytes.flatMap (fun b => if keep b then [Char.ofNat b.toNat] else percentByte b)

/-! ### The path state -/

/-- The spellings of a dot. -/
def dotSpellings : List Segment := [['.'], ['%', '2', 'e'], ['%', '2', 'E']]

def isSingleDot (s : Segment) : Bool := s ∈ dotSpellings

def isDoubleDot (s : Segment) : Bool := s ∈ dotSpellings.flatMap (fun a => dotSpellings.map (a ++ ·))

/-- The segment is resolved away. -/
def isDot (s : Segment) : Bool := isSingleDot s || isDoubleDot s

/-- The path percent-encode set. -/
def inPathSet (c : Char) : Bool := c.toNat ≤ 0x20 || 0x7E < c.toNat || c ∈ ['"', '#', '<', '>', '?', '^', Char.ofNat 0x60, '\x7b', '\x7d']

/-- A character of a segment, as the parser writes it. -/
def pathChar (c : Char) : List Char := if inPathSet c then (String.utf8EncodeChar c).flatMap percentByte else [c]

/-- A segment that is followed by another. -/
def closeSegment (path : List Segment) (s : Segment) : List Segment :=
  if isDoubleDot s then path.dropLast else if isSingleDot s then path else path ++ [s]

/-- The last segment of a path. -/
def finishPath (path : List Segment) (s : Segment) : List Segment :=
  if isDoubleDot s then path.dropLast ++ [[]] else if isSingleDot s then path ++ [[]] else path ++ [s]

/-- The path state: the path so far, the segment so far, and what is left of the input. -/
def pathState (path : List Segment) (buffer : Segment) : List Char → List Segment
  | [] => finishPath path buffer
  | c :: rest =>
    if c = '/' ∨ c = '\\' then pathState (closeSegment path buffer) [] rest
    else if c = '?' ∨ c = '#' then finishPath path buffer
    else pathState path (buffer ++ pathChar c) rest

/-- A character that the path state takes as it is. -/
def isPlain (c : Char) : Bool := c ≠ '/' && c ≠ '\\' && c ≠ '?' && c ≠ '#' && !inPathSet c

/-! ### Encoded text reads back -/

theorem hexDigit_facts : ∀ n < 16, hexValue (hexDigit n) = some n ∧ isPlain (hexDigit n) = true := by decide

theorem toNat_ofNat_of_ascii : ∀ n < 128, (Char.ofNat n).toNat = n := by decide

theorem percentDecode_of_ne {c : Char} (hc : c ≠ '%') (rest : List Char) :
    percentDecode (c :: rest) = UInt8.ofNat c.toNat :: percentDecode rest := by
  rw [percentDecode]
  exact fun _ _ _ h => absurd h hc

theorem percentDecode_percentByte (b : UInt8) (rest : List Char) : percentDecode (percentByte b ++ rest) = b :: percentDecode rest := by
  have hb := b.toNat_lt
  have hhi := (hexDigit_facts (b.toNat / 16) (by omega)).1
  have hlo := (hexDigit_facts (b.toNat % 16) (by omega)).1
  have hbyte : b.toNat / 16 * 16 + b.toNat % 16 = b.toNat := by omega
  simp only [percentByte, List.cons_append, List.nil_append, percentDecode, hhi, hlo, hbyte, UInt8.ofNat_toNat]

/-- What may be kept: an ASCII character that the path state takes as it is, and no `%`. -/
def Keeps (keep : UInt8 → Bool) : Prop := ∀ b, keep b = true → b.toNat < 128 ∧ b ≠ 0x25 ∧ isPlain (Char.ofNat b.toNat) = true

variable {keep : UInt8 → Bool}

theorem keeps_of_bytes (hall : ∀ n < 256, keep (UInt8.ofNat n) = true →
    n < 128 ∧ UInt8.ofNat n ≠ 0x25 ∧ isPlain (Char.ofNat n) = true) : Keeps keep := by
  intro b hb
  have h := hall b.toNat b.toNat_lt
  rw [UInt8.ofNat_toNat] at h
  exact h hb

theorem percentDecode_escape (hkeep : Keeps keep) (bytes : Bytes) : percentDecode (escape keep bytes) = bytes := by
  induction bytes with
  | nil => rfl
  | cons b bytes ih =>
    have hcons : escape keep (b :: bytes) = (if keep b then [Char.ofNat b.toNat] else percentByte b) ++ escape keep bytes := rfl
    rw [hcons]
    by_cases hb : keep b = true
    · obtain ⟨hascii, hpercent, -⟩ := hkeep b hb
      have hval : (Char.ofNat b.toNat).toNat = b.toNat := toNat_ofNat_of_ascii _ hascii
      have hne : Char.ofNat b.toNat ≠ '%' := by
        intro h
        refine hpercent (UInt8.toNat_inj.1 ?_)
        rw [← hval, h]
        rfl
      rw [if_pos hb, List.singleton_append, percentDecode_of_ne hne, ih, hval, UInt8.ofNat_toNat]
    · rw [if_neg hb, percentDecode_percentByte, ih]

/-- Encoded text has no character that the path state would treat otherwise. -/
theorem isPlain_escape (hkeep : Keeps keep) (bytes : Bytes) : ∀ c ∈ escape keep bytes, isPlain c = true := by
  intro c hc
  obtain ⟨b, -, hc⟩ := List.mem_flatMap.1 hc
  have hb := b.toNat_lt
  by_cases hk : keep b = true
  · rw [if_pos hk, List.mem_singleton] at hc
    rw [hc]
    exact (hkeep b hk).2.2
  · rw [if_neg hk] at hc
    simp only [percentByte, List.mem_cons, List.not_mem_nil, or_false] at hc
    rcases hc with rfl | rfl | rfl
    · decide
    · exact (hexDigit_facts _ (by omega)).2
    · exact (hexDigit_facts _ (by omega)).2

theorem percentDecode_dot : ∀ s ∈ dotSpellings ++ dotSpellings.flatMap (fun a => dotSpellings.map (a ++ ·)),
    percentDecode s = [0x2E] ∨ percentDecode s = [0x2E, 0x2E] := by decide

/-- Encoded text is a dot segment exactly when it encodes one dot or two. -/
theorem isDot_escape_iff (hkeep : Keeps keep) (bytes : Bytes) :
    isDot (escape keep bytes) = true ↔ bytes = [0x2E] ∨ bytes = [0x2E, 0x2E] := by
  constructor
  · intro h
    rw [isDot, Bool.or_eq_true, isSingleDot, isDoubleDot, decide_eq_true_eq, decide_eq_true_eq, ← List.mem_append] at h
    have hdec := percentDecode_dot _ h
    rwa [percentDecode_escape hkeep] at hdec
  · cases hk : keep 0x2E with
    | true =>
      rintro (rfl | rfl)
      · simp only [escape, List.flatMap_cons, List.flatMap_nil, hk]
        decide
      · simp only [escape, List.flatMap_cons, List.flatMap_nil, hk]
        decide
    | false =>
      rintro (rfl | rfl)
      · simp only [escape, List.flatMap_cons, List.flatMap_nil, hk]
        decide
      · simp only [escape, List.flatMap_cons, List.flatMap_nil, hk]
        decide

/-! ### A path is resolved segment by segment -/

/-- Segments with a `/` between them. -/
def slashed : List Segment → List Char
  | [] => []
  | [s] => s
  | s :: rest => s ++ '/' :: slashed rest

/-- What the path state makes of segments after a path. -/
def resolve (path : List Segment) : List Segment → List Segment
  | [] => path
  | [s] => finishPath path s
  | s :: rest => resolve (closeSegment path s) rest

/-- The end of a path: the end of the URL, or a query. -/
def queryText (query : Option (List Char)) : List Char := query.elim [] ('?' :: ·)

/-- The path state collects a segment of plain characters. -/
theorem pathState_plain (path : List Segment) (buffer s : Segment) (rest : List Char) (hs : ∀ c ∈ s, isPlain c = true) :
    pathState path buffer (s ++ rest) = pathState path (buffer ++ s) rest := by
  induction s generalizing buffer with
  | nil => rw [List.nil_append, List.append_nil]
  | cons c s ih =>
    have hc := hs c List.mem_cons_self
    simp only [isPlain, ne_eq, Bool.and_eq_true, decide_eq_true_eq, Bool.not_eq_true'] at hc
    obtain ⟨⟨⟨⟨h1, h2⟩, h3⟩, h4⟩, h5⟩ := hc
    have hchar : pathChar c = [c] := by
      unfold pathChar
      rw [h5]
      rfl
    rw [List.cons_append, pathState, if_neg (by simp [h1, h2]), if_neg (by simp [h3, h4]), hchar,
      ih _ (fun d hd => hs d (List.mem_cons_of_mem _ hd)), List.append_assoc, List.singleton_append]

theorem pathState_query (path : List Segment) (s : Segment) (query : Option (List Char)) :
    pathState path s (queryText query) = finishPath path s := by
  cases query with
  | none => rfl
  | some q => rw [queryText, Option.elim_some, pathState, if_neg (by decide), if_pos (by decide)]

/-- The path state on segments of plain characters. -/
theorem pathState_slashed (path segs : List Segment) (query : Option (List Char)) (hne : segs ≠ [])
    (hplain : ∀ s ∈ segs, ∀ c ∈ s, isPlain c = true) : pathState path [] (slashed segs ++ queryText query) = resolve path segs := by
  induction segs generalizing path with
  | nil => exact absurd rfl hne
  | cons s segs ih =>
    have hs := hplain s List.mem_cons_self
    cases segs with
    | nil => rw [slashed, resolve, pathState_plain path [] s _ hs, List.nil_append, pathState_query]
    | cons t segs =>
      rw [slashed, resolve, List.append_assoc, pathState_plain path [] s _ hs, List.nil_append, List.cons_append, pathState,
        if_pos (Or.inl rfl)]
      · exact ih _ (by simp) (fun u hu => hplain u (List.mem_cons_of_mem _ hu))
      · simp
      · simp

theorem closeSegment_of_not_dot (path : List Segment) {s : Segment} (h : isDot s = false) :
    closeSegment path s = path ++ [s] ∧ finishPath path s = path ++ [s] := by
  rw [isDot, Bool.or_eq_false_iff] at h
  unfold closeSegment finishPath
  rw [h.1, h.2]
  exact ⟨rfl, rfl⟩

/-- Without dot segments the segments are put after the path. -/
theorem resolve_of_no_dots (path segs : List Segment) (h : ∀ s ∈ segs, isDot s = false) : resolve path segs = path ++ segs := by
  induction segs generalizing path with
  | nil => rw [resolve, List.append_nil]
  | cons s segs ih =>
    have hs := closeSegment_of_not_dot path (h s List.mem_cons_self)
    cases segs with
    | nil => rw [resolve, hs.2]
    | cons t segs =>
      rw [resolve, hs.1, ih _ (fun u hu => h u (List.mem_cons_of_mem _ hu)), List.append_assoc, List.singleton_append]
      simp

theorem length_closeSegment_le (path : List Segment) (s : Segment) :
    (closeSegment path s).length ≤ path.length + 1 ∧ (isDot s = true → (closeSegment path s).length ≤ path.length) := by
  unfold closeSegment isDot
  cases isDoubleDot s <;> cases isSingleDot s <;> simp <;> omega

theorem length_finishPath_le (path : List Segment) (s : Segment) : (finishPath path s).length ≤ path.length + 1 := by
  unfold finishPath
  cases isDoubleDot s <;> cases isSingleDot s <;> simp

/-- No segment adds more than one. -/
theorem length_resolve_le (path segs : List Segment) : (resolve path segs).length ≤ path.length + segs.length := by
  induction segs generalizing path with
  | nil => rw [resolve]; simp
  | cons s segs ih =>
    cases segs with
    | nil => exact length_finishPath_le path s
    | cons t segs =>
      rw [resolve]
      · have hlen := ih (closeSegment path s)
        have hclose := (length_closeSegment_le path s).1
        simp only [List.length_cons] at hlen ⊢
        omega
      · simp

/-- A dot segment leaves the path short, or empty at its end. -/
theorem resolve_of_dot (path : List Segment) {segs : List Segment} {s : Segment} (hs : s ∈ segs) (hdot : isDot s = true) :
    (resolve path segs).length < path.length + segs.length ∨
      (∃ t, segs.getLast? = some t ∧ isDot t = true) ∧ (resolve path segs).getLast? = some [] := by
  induction segs generalizing path with
  | nil => cases hs
  | cons u segs ih =>
    cases segs with
    | nil =>
      rw [List.mem_singleton] at hs
      subst hs
      refine .inr ⟨⟨s, rfl, hdot⟩, ?_⟩
      rw [resolve]
      unfold finishPath
      unfold isDot at hdot
      cases hdd : isDoubleDot s with
      | true => simp
      | false =>
        rw [hdd, Bool.or_false] at hdot
        simp [hdot]
    | cons t segs =>
      have hstep : resolve path (u :: t :: segs) = resolve (closeSegment path u) (t :: segs) := by
        rw [resolve]
        simp
      rw [hstep]
      by_cases hu : isDot u = true
      · have hclose := (length_closeSegment_le path u).2 hu
        have hlen := length_resolve_le (closeSegment path u) (t :: segs)
        simp only [List.length_cons] at hlen ⊢
        omega
      · have hs' : s ∈ t :: segs := by
          rcases List.mem_cons.1 hs with rfl | hs
          · exact absurd hdot hu
          · exact hs
        have hclose := (length_closeSegment_le path u).1
        rcases ih (closeSegment path u) hs' with hlt | ⟨⟨v, hv, hvdot⟩, hlast⟩
        · simp only [List.length_cons] at hlt ⊢
          omega
        · exact .inr ⟨⟨v, by rw [List.getLast?_cons_cons, hv], hvdot⟩, hlast⟩

/-- Rendered pieces, each read back by `Reads`, come out after the path exactly when none of them is a dot segment, where a piece that is
not a dot segment reads back as rendered and one that is does not read back as an empty segment. -/
theorem resolve_reads_iff {Piece : Type} {render : Piece → Segment} {Reads : Piece → Segment → Prop} {pieces : List Piece}
    (path : List Segment) (hreads : ∀ p ∈ pieces, Reads p (render p)) (hdot : ∀ p ∈ pieces, isDot (render p) = true → ¬Reads p []) :
    (∃ out, resolve path (pieces.map render) = path ++ out ∧ List.Forall₂ Reads pieces out) ↔ ∀ p ∈ pieces, isDot (render p) = false := by
  constructor
  · rintro ⟨out, heq, hall⟩ p hp
    by_contra hp'
    rw [Bool.not_eq_false] at hp'
    have hlen : out.length = pieces.length := hall.length_eq.symm
    rcases resolve_of_dot path (List.mem_map_of_mem (f := render) hp) hp' with hlt | ⟨⟨s, hs, hsdot⟩, hlast⟩
    · rw [heq, List.length_append, List.length_map, hlen] at hlt
      exact absurd hlt (Nat.lt_irrefl _)
    · -- the last piece is a dot segment and comes out empty
      obtain ⟨q, hq, rfl⟩ : ∃ q, pieces.getLast? = some q ∧ render q = s := by simpa using hs
      have hout : out.getLast? = some [] := by
        rw [heq, List.getLast?_append] at hlast
        cases hlast' : out.getLast? with
        | none =>
          rw [List.getLast?_eq_none_iff] at hlast'
          rw [hlast', List.length_nil] at hlen
          rw [List.length_eq_zero_iff.1 hlen.symm] at hq
          cases hq
        | some t => simpa [hlast'] using hlast
      obtain ⟨pieces', rfl⟩ := List.getLast?_eq_some_iff.1 hq
      obtain ⟨out', rfl⟩ := List.getLast?_eq_some_iff.1 hout
      have hforall := List.forall₂_reverse_iff.2 hall
      rw [List.reverse_append, List.reverse_append] at hforall
      cases hforall with
      | cons hlast'' _ => exact hdot q (by simp) hsdot hlast''
  · intro h
    refine ⟨pieces.map render, ?_, ?_⟩
    · refine resolve_of_no_dots _ _ (fun s hs => ?_)
      obtain ⟨p, hp, rfl⟩ := List.mem_map.1 hs
      exact h p hp
    · rw [List.forall₂_map_right_iff, List.forall₂_same]
      exact hreads

end BrainSdk.Library
