import Mathlib.Data.List.TakeWhile
import BrainSdk.Http.SseLemmas

/-!
# Three parsers, one feed

On a stream of ASCII bytes the parsers see the same lines. Rust keeps the data of an event in one string and takes an empty string for no
data, so it loses empty data lines at the start of an event, and the event itself if it has no others. Python cuts off all carriage
returns at the end of a line where the others cut off one, so it reads a line that ends in several as another one.
-/

namespace BrainSdk.Http

open Library

/-! ### Lines of an ASCII stream -/

/-- The character of an ASCII byte. -/
def toChar (b : UInt8) : Char := Char.ofNat b.toNat

/-- A stream of ASCII bytes. -/
def IsAscii (stream : Bytes) : Prop := ∀ b ∈ stream, b.toNat < 128

/-- A decoder of UTF-8 reads ASCII bytes as their characters. -/
def AsciiText (decode : Bytes → Text) : Prop := ∀ bytes, IsAscii bytes → decode bytes = bytes.map toChar

/-- A streaming decoder of UTF-8 reads ASCII bytes as their characters and keeps nothing back. -/
def AsciiDecoder (D : TypeScript.TextDecoder) : Prop := ∀ bytes, IsAscii bytes → D.decode D.init bytes = (bytes.map toChar, D.init)

/-- The complete lines of a stream, with their carriage returns. -/
def rawLines (stream : Bytes) : List Text := (linesFrom '\n' [] (stream.map toChar)).1

/-- A line without the carriage returns at its end. -/
def stripAll (line : Text) : Text := (line.reverse.dropWhile (· = '\r')).reverse

theorem toChar_injective : Function.Injective toChar := by
  have hall : ∀ n < 256, (Char.ofNat n).toNat = n := by decide +kernel
  intro a b h
  have hnat := congrArg Char.toNat h
  unfold toChar at hnat
  rw [hall _ a.toNat_lt, hall _ b.toNat_lt] at hnat
  exact UInt8.toNat_inj.1 hnat

/-- The complete lines of a stream as bytes. -/
theorem rawLines_eq (stream : Bytes) : rawLines stream = (linesFrom 0x0A [] stream).1.map (List.map toChar) := by
  have hnl : ∀ b ∈ stream, toChar b = '\n' ↔ b = 0x0A := fun b _ => ⟨fun h => toChar_injective h, fun h => h ▸ rfl⟩
  have h := linesFrom_map [] stream hnl
  rw [List.map_nil] at h
  unfold rawLines
  rw [h]

theorem stripOne_map (line : Bytes) : stripOne '\r' (line.map toChar) = (stripOne 0x0D line).map toChar := by
  have hcr : line.getLast?.map toChar = some '\r' ↔ line.getLast? = some 0x0D :=
    (Option.map_injective toChar_injective).eq_iff (b := some 0x0D)
  unfold stripOne
  rw [List.getLast?_map]
  by_cases h : line.getLast? = some 0x0D
  · rw [if_pos h, if_pos (hcr.2 h), List.map_dropLast]
  · rw [if_neg h, if_neg (fun h' => h (hcr.1 h'))]

theorem stripAll_map (line : Bytes) : stripAll (line.map toChar) = ((line.reverse.dropWhile (· = 0x0D)).reverse).map toChar := by
  have hcr : ((fun c => decide (c = '\r')) ∘ toChar) = fun b : UInt8 => decide (b = 0x0D) := by
    funext b
    exact decide_eq_decide.2 (toChar_injective.eq_iff (b := 0x0D))
  unfold stripAll
  rw [← List.map_reverse, List.dropWhile_map, hcr, List.map_reverse]

/-- The lines that a parser of bytes reads of an ASCII stream. -/
theorem lineTexts_eq {R : LineReader UInt8} {strip : Text → Text} (hnl : R.newline = 0x0A) (htext : AsciiText R.text)
    (hsub : ∀ line, ∀ b ∈ R.strip line, b ∈ line) (hstrip : ∀ line, strip (line.map toChar) = (R.strip line).map toChar)
    {stream : Bytes} (hstream : IsAscii stream) : lineTexts R [] stream = (rawLines stream).map strip := by
  unfold lineTexts
  rw [rawLines_eq, List.map_map, hnl]
  refine List.map_congr_left (fun line hline => ?_)
  have hascii : IsAscii (R.strip line) := by
    intro b hb
    have hmem := mem_of_mem_linesFrom hline (hsub line b hb)
    rw [List.nil_append] at hmem
    exact hstream b hmem
  rw [htext _ hascii, Function.comp_apply, hstrip]

theorem mem_of_mem_stripOne {line : Bytes} {b : UInt8} (h : b ∈ stripOne 0x0D line) : b ∈ line := by
  unfold stripOne at h
  split at h
  · exact (List.dropLast_sublist _).subset h
  · exact h

theorem lineTexts_python {decode : Bytes → Text} (hdecode : AsciiText decode) {stream : Bytes} (hstream : IsAscii stream) :
    lineTexts (Python.sseLine decode) [] stream = (rawLines stream).map stripAll := by
  refine lineTexts_eq rfl hdecode (fun line b hb => ?_) stripAll_map hstream
  have hmem := (List.dropWhile_sublist _).subset (List.mem_reverse.1 hb)
  exact List.mem_reverse.1 hmem

theorem lineTexts_rust {decode : Bytes → Text} (hdecode : AsciiText decode) {stream : Bytes} (hstream : IsAscii stream) :
    lineTexts (Rust.sseLine decode) [] stream = (rawLines stream).map (stripOne '\r') :=
  lineTexts_eq rfl hdecode (fun _ _ hb => mem_of_mem_stripOne hb) stripOne_map hstream

/-- The texts of the chunks of an ASCII stream, put end to end, are its characters. -/
theorem flatten_texts {D : TypeScript.TextDecoder} (hD : AsciiDecoder D) {chunks : List Bytes} (hchunks : IsAscii chunks.flatten) :
    (D.texts D.init chunks).flatten = chunks.flatten.map toChar := by
  induction chunks with
  | nil => rfl
  | cons chunk chunks ih =>
    rw [List.flatten_cons] at hchunks
    have hchunk := hD chunk (fun b hb => hchunks b (List.mem_append_left _ hb))
    rw [TypeScript.TextDecoder.texts, hchunk, List.flatten_cons, ih (fun b hb => hchunks b (List.mem_append_right _ hb)),
      List.flatten_cons, List.map_append]

theorem lineTexts_typeScript {D : TypeScript.TextDecoder} (hD : AsciiDecoder D) {chunks : List Bytes} (hchunks : IsAscii chunks.flatten) :
    lineTexts TypeScript.sseLine [] (D.texts D.init chunks).flatten = (rawLines chunks.flatten).map (stripOne '\r') := by
  rw [flatten_texts hD hchunks]
  rfl

/-! ### Carriage returns -/

/-- A line that does nothing: a comment, or a field that the parsers do not know. -/
def Ignored (line : Text) : Prop :=
  line ≠ [] ∧ (line.head? = some ':' ∨ (partition line).1 ∉ ["event".toList, "id".toList, "data".toList])

/-- Only lines that do nothing end in two carriage returns or more. -/
def CrClean (stream : Bytes) : Prop := ∀ line ∈ rawLines stream, ['\r', '\r'] <:+ line → Ignored (stripAll line)

theorem onLine_ignored {Data : Type} (B : DataBuffer Data) (s : Fields Data) {line : Text} (h : Ignored line) :
    onLine B s line = (none, s) := by
  obtain ⟨hne, hcolon | hfield⟩ := h
  · unfold onLine
    rw [if_neg hne, if_pos hcolon]
  · simp only [List.mem_cons, List.not_mem_nil, or_false, not_or] at hfield
    obtain ⟨hevent, hid, hdata⟩ := hfield
    unfold onLine
    dsimp only
    rw [if_neg hne, if_neg hevent, if_neg hid, if_neg hdata, ite_self]

/-- A line is its text and its carriage returns. -/
theorem exists_stripAll (line : Text) : ∃ n, line = stripAll line ++ List.replicate n '\r' := by
  have hall : ∀ c ∈ line.reverse.takeWhile (· = '\r'), c = '\r' := by
    intro c hc
    simpa using List.mem_takeWhile_imp hc
  have hsplit := List.takeWhile_append_dropWhile (p := fun c => decide (c = '\r')) (l := line.reverse)
  refine ⟨(line.reverse.takeWhile (· = '\r')).length, ?_⟩
  have hline := congrArg List.reverse hsplit
  rw [List.reverse_append, List.reverse_reverse, List.eq_replicate_of_mem hall, List.reverse_replicate] at hline
  exact hline.symm

theorem stripAll_getLast (line : Text) : (stripAll line).getLast? ≠ some '\r' := by
  unfold stripAll
  rw [List.getLast?_reverse]
  intro h
  have hnot := List.head?_dropWhile_not (fun c => decide (c = '\r')) line.reverse
  rw [h] at hnot
  simp at hnot

/-- Carriage returns after a line that does nothing leave it so. -/
theorem Ignored.append_cr {line : Text} (h : Ignored line) (n : Nat) : Ignored (line ++ List.replicate n '\r') := by
  obtain ⟨hne, hline⟩ := h
  refine ⟨fun h => hne (List.append_eq_nil_iff.1 h).1, ?_⟩
  rcases hline with hcolon | hfield
  · refine .inl ?_
    cases line with
    | nil => exact absurd rfl hne
    | cons c line => exact hcolon
  · refine .inr ?_
    have hcrs : ∀ m, (List.replicate m '\r').takeWhile (· ≠ ':') = List.replicate m '\r' := by
      intro m
      rw [List.takeWhile_eq_self_iff]
      intro c hc
      rw [(List.mem_replicate.1 hc).2]
      decide
    unfold partition at hfield ⊢
    dsimp only at hfield ⊢
    rw [List.takeWhile_append, hcrs]
    split
    · rename_i hlen
      have hself : line.takeWhile (· ≠ ':') = line := (List.takeWhile_prefix _).eq_of_length hlen
      rw [hself] at hfield
      cases n with
      | zero => simpa using hfield
      | succ n =>
        -- the field ends in a carriage return, and none of the three does
        intro hmem
        have hlast : (line ++ List.replicate (n + 1) '\r').getLast? = some '\r' := by
          rw [List.replicate_succ', ← List.append_assoc, List.getLast?_append]
          rfl
        simp only [List.mem_cons, List.not_mem_nil, or_false] at hmem
        rcases hmem with hmem | hmem | hmem <;> rw [hmem] at hlast <;> exact absurd hlast (by decide)
    · exact hfield

/-- Where only lines that do nothing end in several carriage returns, both ways of cutting them off read the same. -/
theorem onLine_stripAll {Data : Type} (B : DataBuffer Data) (s : Fields Data) {line : Text}
    (h : ['\r', '\r'] <:+ line → Ignored (stripAll line)) : onLine B s (stripAll line) = onLine B s (stripOne '\r' line) := by
  obtain ⟨n, hn⟩ := exists_stripAll line
  have hlast := stripAll_getLast line
  generalize stripAll line = text at hn hlast h ⊢
  subst hn
  match n, h with
  | 0, _ =>
    rw [List.replicate_zero, List.append_nil]
    unfold stripOne
    rw [if_neg hlast]
  | 1, _ =>
    have hone : stripOne '\r' (text ++ List.replicate 1 '\r') = text := by
      unfold stripOne
      rw [List.replicate_one, List.getLast?_concat, if_pos rfl, List.dropLast_concat]
    rw [hone]
  | n + 2, h =>
    have hignored : Ignored text := h ⟨text ++ List.replicate n '\r', by
      rw [List.append_assoc, ← List.replicate_append_replicate (n := n) (m := 2)]
      rfl⟩
    have hmore : stripOne '\r' (text ++ List.replicate (n + 2) '\r') = text ++ List.replicate (n + 1) '\r' := by
      unfold stripOne
      rw [List.replicate_succ' (n := n + 1), ← List.append_assoc, List.getLast?_concat, if_pos rfl, List.dropLast_concat]
    rw [hmore, onLine_ignored B s hignored, onLine_ignored B s (hignored.append_cr (n + 1))]

theorem foldLines_stripAll {Data : Type} (B : DataBuffer Data) (lines : List Text) (s : Fields Data)
    (h : ∀ line ∈ lines, ['\r', '\r'] <:+ line → Ignored (stripAll line)) :
    foldLines B s (lines.map stripAll) = foldLines B s (lines.map (stripOne '\r')) := by
  induction lines generalizing s with
  | nil => rfl
  | cons line lines ih =>
    rw [List.map_cons, List.map_cons, foldLines, foldLines, onLine_stripAll B s (h line List.mem_cons_self),
      ih _ (fun l hl => h l (List.mem_cons_of_mem _ hl))]

/-! ### Empty data lines -/

/-- The value of a data line. -/
def dataValue (line : Text) : Option Text :=
  if line.head? ≠ some ':' ∧ (partition line).1 = "data".toList then some (removeSpace (partition line).2) else none

/-- No event that is dispatched begins with an empty data line. `first` is the first data line since the last dispatch. -/
def DataStarts : Option Text → List Text → Prop
  | _, [] => True
  | first, line :: lines =>
    if line = [] then first ≠ some [] ∧ DataStarts none lines else DataStarts (first.or (dataValue line)) lines

instance DataStarts.decidable : (first : Option Text) → (lines : List Text) → Decidable (DataStarts first lines)
  | _, [] => isTrue trivial
  | first, line :: lines =>
    have := DataStarts.decidable none lines
    have := DataStarts.decidable (first.or (dataValue line)) lines
    inferInstanceAs (Decidable (if line = [] then first ≠ some [] ∧ DataStarts none lines
      else DataStarts (first.or (dataValue line)) lines))

/-- What Rust keeps of data lines: those from the first that is not empty. -/
def joined (data : List Text) : Text := List.intercalate ['\n'] (data.dropWhile List.isEmpty)

/-- The two subscriptions have read the same. -/
structure SameFields (s : Fields (List Text)) (s' : Fields Text) : Prop where
  event : s'.event = s.event
  data : s'.data = joined s.data
  lastId : s'.lastId = s.lastId

theorem intercalate_ne_nil {value : Text} (h : value ≠ []) (rest : List Text) : List.intercalate ['\n'] (value :: rest) ≠ [] := by
  cases rest with
  | nil =>
    rw [List.intercalate_singleton]
    exact h
  | cons next rest =>
    rw [List.intercalate_cons_cons]
    intro hnil
    exact h (List.append_eq_nil_iff.1 (List.append_eq_nil_iff.1 hnil).1).1

/-- Rust has no data exactly when every data line is empty. -/
theorem joined_eq_nil_iff {data : List Text} : joined data = [] ↔ data.dropWhile List.isEmpty = [] := by
  unfold joined
  constructor
  · intro h
    cases hdrop : data.dropWhile List.isEmpty with
    | nil => rfl
    | cons value rest =>
      have hnot := List.head?_dropWhile_not List.isEmpty data
      rw [hdrop] at h hnot
      refine absurd h (intercalate_ne_nil (fun hv => ?_) rest)
      rw [hv] at hnot
      cases hnot
  · intro h
    rw [h]
    rfl

/-- Rust takes a data line as the list of data lines does. -/
theorem joined_push (data : List Text) (value : Text) : Rust.joinedBuffer.push (joined data) value = joined (data ++ [value]) := by
  have happend : ∀ (front : List Text), front ≠ [] →
      List.intercalate ['\n'] (front ++ [value]) = List.intercalate ['\n'] front ++ '\n' :: value := by
    intro front hne
    induction front with
    | nil => exact absurd rfl hne
    | cons a front ih =>
      cases front with
      | nil => rw [List.singleton_append, List.intercalate_cons_cons, List.intercalate_singleton, List.intercalate_singleton]; simp
      | cons b front =>
        rw [List.cons_append, List.cons_append, List.intercalate_cons_cons, List.intercalate_cons_cons, ← List.cons_append,
          ih (by simp), List.append_assoc (a ++ ['\n'])]
  by_cases hdrop : data.dropWhile List.isEmpty = []
  · have hnil := joined_eq_nil_iff.2 hdrop
    have hright : joined (data ++ [value]) = value := by
      unfold joined
      rw [List.dropWhile_append, hdrop]
      cases value with
      | nil => rfl
      | cons c value => exact List.intercalate_singleton
    rw [hright, hnil]
    rfl
  · have hne : (joined data).isEmpty = false := by
      rw [List.isEmpty_eq_false_iff]
      exact fun h => hdrop (joined_eq_nil_iff.1 h)
    have hright : joined (data ++ [value]) = joined data ++ '\n' :: value := by
      unfold joined
      rw [List.dropWhile_append, if_neg (by rw [List.isEmpty_iff]; exact hdrop), happend _ hdrop]
    rw [hright]
    unfold Rust.joinedBuffer
    dsimp only
    rw [hne]
    rfl

/-- The data of an event that begins with an empty line is longer as a list of lines. -/
theorem joined_ne_of_head {data : List Text} (hhead : data.head? = some []) (hne : joined data ≠ []) :
    lineBuffer.join data ≠ joined data := by
  have hle : ∀ data : List Text, (joined data).length ≤ (List.intercalate ['\n'] data).length := by
    intro data
    induction data with
    | nil => exact Nat.le_refl _
    | cons value data ih =>
      by_cases hv : value.isEmpty = true
      · have hdrop : joined (value :: data) = joined data := by
          unfold joined
          rw [List.dropWhile_cons_of_pos hv]
        rw [hdrop]
        refine ih.trans ?_
        cases data with
        | nil => exact Nat.zero_le _
        | cons next data =>
          rw [List.intercalate_cons_cons, List.length_append]
          exact Nat.le_add_left _ _
      · unfold joined
        rw [List.dropWhile_cons_of_neg hv]
  cases data with
  | nil => cases hhead
  | cons value data =>
    obtain rfl : value = [] := Option.some.inj hhead
    have hdrop : joined ([] :: data) = joined data := by
      unfold joined
      rw [List.dropWhile_cons_of_pos rfl]
    rw [hdrop] at hne ⊢
    cases data with
    | nil => exact absurd rfl hne
    | cons next data =>
      have hlen := hle (next :: data)
      intro heq
      have hlen' := congrArg List.length heq
      unfold lineBuffer at hlen'
      dsimp only at hlen'
      rw [List.intercalate_cons_cons, List.length_append] at hlen'
      simp at hlen'
      omega

theorem joined_of_head {data : List Text} {value : Text} (hhead : data.head? = some value) (hv : value ≠ []) :
    joined data = lineBuffer.join data := by
  cases data with
  | nil => cases hhead
  | cons first data =>
    obtain rfl : first = value := Option.some.inj hhead
    unfold joined lineBuffer
    rw [List.dropWhile_cons_of_neg (by rw [List.isEmpty_iff]; exact hv)]

/-- A line that is not blank does the same to both subscriptions and dispatches nothing. -/
theorem onLine_of_ne_nil {s : Fields (List Text)} {s' : Fields Text} (hs : SameFields s s') {line : Text} (hline : line ≠ []) :
    (onLine lineBuffer s line).1 = none ∧ (onLine Rust.joinedBuffer s' line).1 = none ∧
    SameFields (onLine lineBuffer s line).2 (onLine Rust.joinedBuffer s' line).2 ∧
    (onLine lineBuffer s line).2.data.head? = s.data.head?.or (dataValue line) := by
  have hnone : ¬(line.head? ≠ some ':' ∧ (partition line).1 = "data".toList) → s.data.head?.or (dataValue line) = s.data.head? := by
    intro h
    unfold dataValue
    rw [if_neg h, Option.or_none]
  unfold onLine
  dsimp only
  rw [if_neg hline, if_neg hline]
  by_cases hcolon : line.head? = some ':'
  · rw [if_pos hcolon, if_pos hcolon, hnone (fun h => h.1 hcolon)]
    exact ⟨rfl, rfl, hs, rfl⟩
  rw [if_neg hcolon, if_neg hcolon]
  by_cases hevent : (partition line).1 = "event".toList
  · rw [if_pos hevent, if_pos hevent, hnone (fun h => absurd (hevent.symm.trans h.2) (by decide))]
    exact ⟨rfl, rfl, ⟨rfl, hs.data, hs.lastId⟩, rfl⟩
  rw [if_neg hevent, if_neg hevent]
  by_cases hid : (partition line).1 = "id".toList
  · rw [if_pos hid, if_pos hid, hnone (fun h => absurd (hid.symm.trans h.2) (by decide))]
    exact ⟨rfl, rfl, ⟨hs.event, hs.data, rfl⟩, rfl⟩
  rw [if_neg hid, if_neg hid]
  by_cases hdata : (partition line).1 = "data".toList
  · rw [if_pos hdata, if_pos hdata]
    refine ⟨rfl, rfl, ⟨hs.event, ?_, hs.lastId⟩, ?_⟩
    · dsimp only
      rw [hs.data, joined_push]
      rfl
    · unfold dataValue
      rw [if_pos ⟨hcolon, hdata⟩]
      exact List.head?_append
  · rw [if_neg hdata, if_neg hdata, hnone (fun h => hdata h.2)]
    exact ⟨rfl, rfl, hs, rfl⟩

/-- What a blank line dispatches in the two subscriptions, and that both start over. -/
theorem onLine_nil {s : Fields (List Text)} {s' : Fields Text} (hs : SameFields s s') :
    (onLine lineBuffer s []).1 = (if s.data = [] then none else some ⟨s.event, lineBuffer.join s.data⟩) ∧
    (onLine Rust.joinedBuffer s' []).1 = (if joined s.data = [] then none else some ⟨s.event, joined s.data⟩) ∧
    SameFields (onLine lineBuffer s []).2 (onLine Rust.joinedBuffer s' []).2 ∧ (onLine lineBuffer s []).2.data = [] := by
  obtain ⟨hevent, hdata, hlastId⟩ := hs
  unfold onLine
  rw [if_pos rfl, if_pos rfl, hdata, hevent]
  by_cases hnil : s.data = []
  · have hjoined : joined s.data = [] := by
      rw [hnil]
      rfl
    rw [hjoined, hnil]
    exact ⟨rfl, rfl, ⟨rfl, rfl, hlastId⟩, rfl⟩
  · have hempty : lineBuffer.isEmpty s.data = false := List.isEmpty_eq_false_iff.2 hnil
    rw [hempty, if_neg hnil]
    by_cases hjoined : joined s.data = []
    · rw [hjoined]
      exact ⟨rfl, rfl, ⟨rfl, rfl, hlastId⟩, rfl⟩
    · have hempty' : Rust.joinedBuffer.isEmpty (joined s.data) = false := List.isEmpty_eq_false_iff.2 hjoined
      rw [hempty', if_neg hjoined]
      exact ⟨rfl, rfl, ⟨rfl, rfl, hlastId⟩, rfl⟩

/-- On the same lines the two ways to keep data end with the same last event id, and they dispatch the same frames exactly when no event
begins with an empty data line. The string dispatches no more than the list. -/
theorem foldLines_eq_iff (lines : List Text) {s : Fields (List Text)} {s' : Fields Text} (hs : SameFields s s') :
    (foldLines Rust.joinedBuffer s' lines).1.length ≤ (foldLines lineBuffer s lines).1.length ∧
    (foldLines Rust.joinedBuffer s' lines).2.lastId = (foldLines lineBuffer s lines).2.lastId ∧
    ((foldLines lineBuffer s lines).1 = (foldLines Rust.joinedBuffer s' lines).1 ↔ DataStarts s.data.head? lines) := by
  induction lines generalizing s s' with
  | nil => exact ⟨Nat.le_refl _, hs.lastId, iff_of_true rfl trivial⟩
  | cons line lines ih =>
    rw [foldLines, foldLines, DataStarts]
    dsimp only
    by_cases hline : line = []
    · subst hline
      obtain ⟨hframe, hframe', hs', hdata⟩ := onLine_nil hs
      obtain ⟨hlen, hid, hiff⟩ := ih hs'
      rw [if_pos rfl, hframe, hframe']
      rw [hdata, List.head?_nil] at hiff
      -- by the first data line of the event: none, empty, or not
      cases hhead : s.data.head? with
      | none =>
        have hnil : s.data = [] := List.head?_eq_none_iff.1 hhead
        have hjoined : joined s.data = [] := by
          rw [hnil]
          rfl
        rw [if_pos hnil, if_pos hjoined, Option.toList_none, List.nil_append, List.nil_append, hiff]
        exact ⟨hlen, hid, by simp⟩
      | some value =>
        have hne : s.data ≠ [] := by
          intro h
          rw [h] at hhead
          cases hhead
        rw [if_neg hne]
        by_cases hvalue : value = []
        · subst hvalue
          by_cases hjoined : joined s.data = []
          · rw [if_pos hjoined, Option.toList_none, List.nil_append]
            refine ⟨by simpa using Nat.le_succ_of_le hlen, hid, iff_of_false (fun heq => ?_) (fun h => h.1 rfl)⟩
            have hlen' := congrArg List.length heq
            simp at hlen'
            omega
          · rw [if_neg hjoined]
            refine ⟨by simpa using hlen, hid, iff_of_false (fun heq => ?_) (fun h => h.1 rfl)⟩
            have hdata' := congrArg Frame.data (List.cons.inj heq).1
            exact joined_ne_of_head hhead hjoined hdata'
        · have hjoin := joined_of_head hhead hvalue
          have hjoined : joined s.data ≠ [] := by
            obtain ⟨rest, hrest⟩ := List.head?_eq_some_iff.1 hhead
            rw [hjoin, hrest]
            exact intercalate_ne_nil hvalue rest
          rw [if_neg hjoined, hjoin]
          refine ⟨by simpa using hlen, hid, ?_⟩
          rw [Option.toList_some, List.singleton_append, List.singleton_append, List.cons.injEq, hiff]
          simp [hvalue]
    · obtain ⟨hframe, hframe', hs', hdata⟩ := onLine_of_ne_nil hs hline
      obtain ⟨hlen, hid, hiff⟩ := ih hs'
      rw [hdata] at hiff
      rw [if_neg hline, hframe, hframe', Option.toList_none, List.nil_append, List.nil_append]
      exact ⟨hlen, hid, hiff⟩

/-! ### The three feeds -/

/-- The decoders of the three parsers, which read ASCII as it is. -/
structure AsciiDecoders where
  python : Bytes → Text
  rust : Bytes → Text
  typeScript : TypeScript.TextDecoder
  python_ascii : AsciiText python
  rust_ascii : AsciiText rust
  typeScript_ascii : AsciiDecoder typeScript

variable (D : AsciiDecoders) {stream : Bytes}

/-- For every stream of ASCII bytes, however each parser reads it in chunks: TypeScript and Rust agree exactly when no event that is
dispatched begins with an empty data line, and where only lines that do nothing end in several carriage returns all three do. -/
theorem sse_parsers_agree_iff (hstream : IsAscii stream) (pyChunks tsChunks rustChunks : List Bytes) (hpy : pyChunks.flatten = stream)
    (hts : tsChunks.flatten = stream) (hrust : rustChunks.flatten = stream) :
    (TypeScript.sseFeed D.typeScript tsChunks = Rust.sseFeed D.rust rustChunks ↔
      DataStarts none ((rawLines stream).map (stripOne '\r'))) ∧
    (CrClean stream →
      (Python.sseFeed D.python pyChunks = TypeScript.sseFeed D.typeScript tsChunks ∧
        TypeScript.sseFeed D.typeScript tsChunks = Rust.sseFeed D.rust rustChunks ↔
        DataStarts none ((rawLines stream).map (stripOne '\r')))) := by
  have hrustFeed : TypeScript.sseFeed D.typeScript tsChunks = Rust.sseFeed D.rust rustChunks ↔
      DataStarts none ((rawLines stream).map (stripOne '\r')) := by
    have hstart : SameFields ⟨none, lineBuffer.empty, none⟩ ⟨none, Rust.joinedBuffer.empty, none⟩ := ⟨rfl, rfl, rfl⟩
    obtain ⟨-, hid, hiff⟩ := foldLines_eq_iff ((rawLines stream).map (stripOne '\r')) hstart
    subst hts
    unfold TypeScript.sseFeed Rust.sseFeed
    rw [feed_eq, feed_eq, lineTexts_typeScript D.typeScript_ascii hstream, hrust, lineTexts_rust D.rust_ascii hstream, Prod.mk.injEq, hid]
    exact (and_iff_left rfl).trans hiff
  refine ⟨hrustFeed, fun hclean => ?_⟩
  have hpyFeed : Python.sseFeed D.python pyChunks = TypeScript.sseFeed D.typeScript tsChunks := by
    subst hts
    unfold Python.sseFeed TypeScript.sseFeed
    rw [feed_eq, feed_eq, lineTexts_typeScript D.typeScript_ascii hstream, hpy, lineTexts_python D.python_ascii hstream,
      foldLines_stripAll lineBuffer _ _ hclean]
  rw [and_iff_right hpyFeed]
  exact hrustFeed

/-- Decoders that read every byte as the character of its number. -/
def asciiDecoders : AsciiDecoders where
  python := List.map toChar
  rust := List.map toChar
  typeScript := { State := Unit, init := (), decode := fun _ bytes => (bytes.map toChar, ()) }
  python_ascii _ _ := rfl
  rust_ascii _ _ := rfl
  typeScript_ascii _ _ := rfl

/-- A keep-alive, and an event of two data lines with both kinds of line ends, read in three ways. -/
theorem sse_parsers_agree_iff_stored :
    Python.sseFeed asciiDecoders.python [utf8 ": ok\n\nevent: stored\r\nid: 7\ndata: 1\r\ndata:\n\n"] =
      TypeScript.sseFeed asciiDecoders.typeScript [utf8 ": ok\n\nevent: sto", utf8 "red\r\nid: 7\ndata: 1\r\ndata:\n\n"] ∧
    TypeScript.sseFeed asciiDecoders.typeScript [utf8 ": ok\n\nevent: sto", utf8 "red\r\nid: 7\ndata: 1\r\ndata:\n\n"] =
      Rust.sseFeed asciiDecoders.rust [utf8 ": ok\n\nevent: stored\r", utf8 "\nid: 7\ndata: 1\r\ndata:\n", utf8 "\n"] := by
  have hascii : IsAscii (utf8 ": ok\n\nevent: stored\r\nid: 7\ndata: 1\r\ndata:\n\n") := by
    unfold IsAscii
    decide +kernel
  have hcr : ∀ line ∈ rawLines (utf8 ": ok\n\nevent: stored\r\nid: 7\ndata: 1\r\ndata:\n\n"), ¬['\r', '\r'] <:+ line := by
    decide +kernel
  have hagree := sse_parsers_agree_iff asciiDecoders hascii [utf8 ": ok\n\nevent: stored\r\nid: 7\ndata: 1\r\ndata:\n\n"]
    [utf8 ": ok\n\nevent: sto", utf8 "red\r\nid: 7\ndata: 1\r\ndata:\n\n"]
    [utf8 ": ok\n\nevent: stored\r", utf8 "\nid: 7\ndata: 1\r\ndata:\n", utf8 "\n"] (by decide +kernel) (by decide +kernel) (by decide +kernel)
  exact (hagree.2 (fun line hline h => absurd h (hcr line hline))).2 (by decide +kernel)

/-- An event with one empty data line is an event to Python and TypeScript and none to Rust. A data line that ends in two carriage returns
is cut off by both in Python, and keeps one in the others. -/
theorem sse_parsers_differ :
    Python.sseFeed asciiDecoders.python [utf8 "data:\n\n"] = ([⟨none, []⟩], none) ∧
    TypeScript.sseFeed asciiDecoders.typeScript [utf8 "data:\n\n"] = ([⟨none, []⟩], none) ∧
    Rust.sseFeed asciiDecoders.rust [utf8 "data:\n\n"] = ([], none) ∧
    Python.sseFeed asciiDecoders.python [utf8 "data: 1\r\r\n\n"] = ([⟨none, ['1']⟩], none) ∧
    TypeScript.sseFeed asciiDecoders.typeScript [utf8 "data: 1\r\r\n\n"] = ([⟨none, ['1', '\r']⟩], none) ∧
    Rust.sseFeed asciiDecoders.rust [utf8 "data: 1\r\r\n\n"] = ([⟨none, ['1', '\r']⟩], none) ∧
    TypeScript.sseFeed asciiDecoders.typeScript [utf8 "data:\n\n"] ≠ Rust.sseFeed asciiDecoders.rust [utf8 "data:\n\n"] ∧
    Python.sseFeed asciiDecoders.python [utf8 "data: 1\r\r\n\n"] ≠
      TypeScript.sseFeed asciiDecoders.typeScript [utf8 "data: 1\r\r\n\n"] := by
  refine ⟨?_, ?_, ?_, ?_, ?_, ?_, ?_, ?_⟩ <;> decide

end BrainSdk.Http
