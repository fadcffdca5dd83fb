import BrainSdk.Cbor.Float
import BrainSdk.Cbor.ScanLemmas

/-!
# Reading CBOR

What the bytes of an item of definite length stand for, after RFC 8949: as a relation, and as a decoder that agrees with it. A bignum is
the integer it spells. Encoders are held to this decoder; the SDKs themselves leave the reading to third-party packages.
-/

namespace BrainSdk.Cbor

open Library

/-- A data item. -/
inductive Data where
  | int (n : Int)
  | bytes (b : Bytes)
  | text (s : String)
  | array (items : List Data)
  | map (entries : List (Data × Data))
  | tagged (tag : Nat) (content : Data)
  | bool (b : Bool)
  | null
  | undefined
  | simple (n : Nat)
  | float (x : Double)

/-- The tag of an unsigned bignum. -/
def bignumTag : Nat := 2

/-- What a simple value stands for. -/
def simpleValue : Nat → Data
  | 20 => .bool false
  | 21 => .bool true
  | 22 => .null
  | 23 => .undefined
  | n => .simple n

/-- The string that UTF-8 bytes spell. -/
def ofUtf8 (bs : Bytes) : Option String := String.fromUTF8? ⟨bs.toArray⟩

theorem ofUtf8_utf8 (s : String) : ofUtf8 (utf8 s) = some s := by
  have hbytes : (⟨(utf8 s).toArray⟩ : ByteArray) = s.toByteArray := by
    unfold utf8
    rw [String.toUTF8_eq_toByteArray, Array.toArray_toList]
  have hvalid : s.toByteArray.IsValidUTF8 := s.isValidUTF8
  unfold ofUtf8 String.fromUTF8?
  rw [hbytes, dif_pos hvalid]
  rfl

/-! ### What bytes stand for -/

/-- The bytes are an item of definite length that stands for the data. -/
inductive Encoding : Data → Bytes → Prop
  | uint {n : Nat} {head : Bytes} (hhead : IsHead 0 n head) : Encoding (.int n) head
  | nint {n : Nat} {head : Bytes} (hhead : IsHead 1 n head) : Encoding (.int (-1 - n)) head
  | bytes {b head : Bytes} (hhead : IsHead 2 b.length head) : Encoding (.bytes b) (head ++ b)
  | text {s : String} {head : Bytes} (hhead : IsHead 3 (utf8 s).length head) : Encoding (.text s) (head ++ utf8 s)
  | array {items : List (Data × Bytes)} {head : Bytes} (hhead : IsHead 4 items.length head) (hitems : ∀ x ∈ items, Encoding x.1 x.2) :
      Encoding (.array (items.map Prod.fst)) (head ++ (items.map Prod.snd).flatten)
  | map {entries : List ((Data × Bytes) × (Data × Bytes))} {head : Bytes} (hhead : IsHead 5 entries.length head)
      (hkeys : ∀ e ∈ entries, Encoding e.1.1 e.1.2) (hvalues : ∀ e ∈ entries, Encoding e.2.1 e.2.2) :
      Encoding (.map (entries.map (fun e => (e.1.1, e.2.1)))) (head ++ (entries.map (fun e => e.1.2 ++ e.2.2)).flatten)
  | bignum {b head tag : Bytes} (htag : IsHead 6 bignumTag tag) (hhead : IsHead 2 b.length head) :
      Encoding (.int (fromBytesBE b)) (tag ++ (head ++ b))
  | tagged {n : Nat} {d : Data} {tag x : Bytes} (htag : IsHead 6 n tag) (hn : n ≠ bignumTag) (hx : Encoding d x) :
      Encoding (.tagged n d) (tag ++ x)
  | simple {n : Nat} {head : Bytes} (hhead : IsHead 7 n head) (hlen : head.length = 1) : Encoding (simpleValue n) head
  | simpleWide {n : Nat} {head : Bytes} (hhead : IsHead 7 n head) (hlen : head.length = 2) (hn : 32 ≤ n) : Encoding (.simple n) head
  | half {bits : Bytes} (hlen : bits.length = 2) : Encoding (.float (widen .binary16 (fromBytesBE bits))) (0xF9 :: bits)
  | single {bits : Bytes} (hlen : bits.length = 4) : Encoding (.float (widen .binary32 (fromBytesBE bits))) (0xFA :: bits)
  | double {bits : Bytes} (hlen : bits.length = 8) : Encoding (.float (BitVec.ofNat 64 (fromBytesBE bits))) (0xFB :: bits)

/-! ### The decoder -/

/-- The initial byte of a head, its argument, and what follows. -/
def readHead : Bytes → Option (UInt8 × Nat × Bytes)
  | [] => none
  | ib :: bs =>
    if additionalInfo ib < 24 then some (ib, additionalInfo ib, bs)
    else if additionalInfo ib ≤ 27 ∧ argWidth (additionalInfo ib) ≤ bs.length then
      some (ib, fromBytesBE (bs.take (argWidth (additionalInfo ib))), bs.drop (argWidth (additionalInfo ib)))
    else none

/-- So many bytes, and what follows. -/
def readBytes (n : Nat) (bs : Bytes) : Option (Bytes × Bytes) := if n ≤ bs.length then some (bs.take n, bs.drop n) else none

/-- So many items, and what follows. -/
def readMany {α : Type} (read : Bytes → Option (α × Bytes)) : Nat → Bytes → Option (List α × Bytes)
  | 0, bs => some ([], bs)
  | n + 1, bs => do
    let (x, bs) ← read bs
    let (xs, bs) ← readMany read n bs
    return (x :: xs, bs)

/-- A key and a value. -/
def readPair {α : Type} (read : Bytes → Option (α × Bytes)) (bs : Bytes) : Option ((α × α) × Bytes) := do
  let (k, bs) ← read bs
  let (v, bs) ← read bs
  return ((k, v), bs)

/-- A tag around its content. -/
def fold (tag : Nat) (content : Data) : Option Data :=
  if tag = bignumTag then
    match content with
    | .bytes b => some (.int (fromBytesBE b))
    | _ => none
  else some (.tagged tag content)

/-- A simple value or a float. -/
def readSimple (ib : UInt8) (arg : Nat) : Option Data :=
  if additionalInfo ib < 24 then some (simpleValue arg)
  else if additionalInfo ib = 24 then if 32 ≤ arg then some (.simple arg) else none
  else if additionalInfo ib = 25 then some (.float (widen .binary16 arg))
  else if additionalInfo ib = 26 then some (.float (widen .binary32 arg))
  else some (.float (BitVec.ofNat 64 arg))

/-- What follows a head. -/
def readRest (read : Bytes → Option (Data × Bytes)) (ib : UInt8) (arg : Nat) (bs : Bytes) : Option (Data × Bytes) :=
  if major ib = 0 then some (.int arg, bs)
  else if major ib = 1 then some (.int (-1 - arg), bs)
  else if major ib = 2 then (readBytes arg bs).map (fun r => (.bytes r.1, r.2))
  else if major ib = 3 then (readBytes arg bs).bind (fun r => (ofUtf8 r.1).map (fun s => (.text s, r.2)))
  else if major ib = 4 then (readMany read arg bs).map (fun r => (.array r.1, r.2))
  else if major ib = 5 then (readMany (readPair read) arg bs).map (fun r => (.map r.1, r.2))
  else if major ib = 6 then (read bs).bind (fun r => (fold arg r.1).map (fun d => (d, r.2)))
  else (readSimple ib arg).map (fun d => (d, bs))

/-- One item, and what follows, at so many levels. -/
def readItem : Nat → Bytes → Option (Data × Bytes)
  | 0, _ => none
  | left + 1, bs => (readHead bs).bind (fun h => readRest (readItem left) h.1 h.2.1 h.2.2)

/-- One item, and what follows. An item is at least one byte longer than what it holds, so there are bytes enough for its levels. -/
def decode (bs : Bytes) : Option (Data × Bytes) := readItem bs.length bs

/-! ### The decoder reads what the bytes stand for -/

theorem readHead_eq {m a : Nat} {head : Bytes} (h : IsHead m a head) (t : Bytes) :
    ∃ ib bs, head = ib :: bs ∧ major ib = m ∧ readHead (head ++ t) = some (ib, a, t) := by
  cases h with
  | @immediate ib hlt => exact ⟨ib, [], rfl, rfl, if_pos hlt⟩
  | @wide ib bs hl hu hlen =>
    refine ⟨ib, bs, rfl, rfl, ?_⟩
    have hroom : additionalInfo ib ≤ 27 ∧ argWidth (additionalInfo ib) ≤ (bs ++ t).length := by
      rw [List.length_append]
      omega
    rw [List.cons_append, readHead, if_neg (by omega), if_pos hroom, ← hlen, List.take_left, List.drop_left]

theorem readBytes_eq (b t : Bytes) : readBytes b.length (b ++ t) = some (b, t) := by
  unfold readBytes
  rw [if_pos (by rw [List.length_append]; omega), List.take_left, List.drop_left]

/-- Items read one by one are read in a row. -/
theorem readMany_eq {α β : Type} {read : Bytes → Option (α × Bytes)} {xs : List β} (value : β → α) (bytes : β → Bytes)
    (h : ∀ x ∈ xs, ∀ t, read (bytes x ++ t) = some (value x, t)) (t : Bytes) :
    readMany read xs.length ((xs.map bytes).flatten ++ t) = some (xs.map value, t) := by
  induction xs with
  | nil => rfl
  | cons x xs ih =>
    have hfirst := h x List.mem_cons_self ((xs.map bytes).flatten ++ t)
    have hrest := ih (fun y hy => h y (List.mem_cons_of_mem x hy))
    rw [List.map_cons, List.flatten_cons, List.append_assoc, List.length_cons, readMany, hfirst]
    simp only [Option.bind_eq_bind, Option.bind_some, hrest]
    rfl

theorem le_length_flatten {bs : Bytes} {xs : List Bytes} (h : bs ∈ xs) : bs.length ≤ xs.flatten.length := by
  induction xs with
  | nil => cases h
  | cons x xs ih =>
    rw [List.flatten_cons, List.length_append]
    rcases List.mem_cons.1 h with rfl | hmem
    · exact Nat.le_add_right _ _
    · exact Nat.le_trans (ih hmem) (Nat.le_add_left _ _)

theorem readItem_head {m a : Nat} {head t : Bytes} (h : IsHead m a head) (left : Nat) :
    ∃ ib, major ib = m ∧ readItem (left + 1) (head ++ t) = readRest (readItem left) ib a t := by
  obtain ⟨ib, bs, -, hmajor, hread⟩ := readHead_eq h t
  refine ⟨ib, hmajor, ?_⟩
  rw [readItem, hread]
  rfl

theorem readRest_uint {read : Bytes → Option (Data × Bytes)} {ib : UInt8} (h : major ib = 0) (arg : Nat) (bs : Bytes) :
    readRest read ib arg bs = some (.int arg, bs) := if_pos h

theorem readRest_bytes {read : Bytes → Option (Data × Bytes)} {ib : UInt8} (h : major ib = 2) (arg : Nat) (bs : Bytes) :
    readRest read ib arg bs = (readBytes arg bs).map (fun r => (.bytes r.1, r.2)) := by
  unfold readRest
  rw [h]
  rfl

theorem readRest_tag {read : Bytes → Option (Data × Bytes)} {ib : UInt8} (h : major ib = 6) (arg : Nat) (bs : Bytes) :
    readRest read ib arg bs = (read bs).bind (fun r => (fold arg r.1).map (fun d => (d, r.2))) := by
  unfold readRest
  rw [h]
  rfl

theorem readRest_simple {read : Bytes → Option (Data × Bytes)} {ib : UInt8} (h : major ib = 7) (arg : Nat) (bs : Bytes) :
    readRest read ib arg bs = (readSimple ib arg).map (fun d => (d, bs)) := by
  unfold readRest
  rw [h]
  rfl

/-- A float is read off the bytes behind its initial byte. -/
theorem readItem_float {ib : UInt8} {bits : Bytes} {x : Double} (hmajor : major ib = 7) (hl : 24 ≤ additionalInfo ib)
    (hu : additionalInfo ib ≤ 27) (hlen : bits.length = argWidth (additionalInfo ib))
    (hx : readSimple ib (fromBytesBE bits) = some (.float x)) (left : Nat) (t : Bytes) :
    readItem (left + 1) (ib :: bits ++ t) = some (.float x, t) := by
  have hroom : additionalInfo ib ≤ 27 ∧ argWidth (additionalInfo ib) ≤ (bits ++ t).length := by
    rw [List.length_append]
    omega
  rw [readItem, List.cons_append, readHead, if_neg (by omega), if_pos hroom, ← hlen, List.take_left, List.drop_left, Option.bind_some,
    readRest_simple hmajor, hx]
  rfl

/-- A head of major type 7 tells a simple value by its width. -/
theorem readSimple_eq {n : Nat} {head : Bytes} (h : IsHead 7 n head) (t : Bytes) :
    ∃ ib, major ib = 7 ∧ readHead (head ++ t) = some (ib, n, t) ∧ head.length = 1 + argWidth (additionalInfo ib) ∧
      additionalInfo ib ≤ 27 := by
  obtain ⟨ib, bs, hhead, hmajor, hread⟩ := readHead_eq h t
  obtain ⟨ib', bs', hhead', -, h27, hlen⟩ := h.eq_cons
  obtain ⟨rfl, rfl⟩ := List.cons.inj (hhead.symm.trans hhead')
  refine ⟨ib, hmajor, hread, ?_, h27⟩
  rw [hhead, List.length_cons, hlen, Nat.add_comm]

/-- The decoder reads what the bytes of an item stand for and leaves what follows. -/
theorem Encoding.read {d : Data} {x : Bytes} (h : Encoding d x) {left : Nat} (hleft : x.length ≤ left) (t : Bytes) :
    readItem left (x ++ t) = some (d, t) := by
  induction h generalizing left t with
  | uint hhead =>
    have hpos := hhead.length_pos
    obtain ⟨left, rfl⟩ : ∃ k, left = k + 1 := ⟨left - 1, by omega⟩
    obtain ⟨ib, hmajor, hread⟩ := readItem_head (t := t) hhead left
    rw [hread, readRest_uint hmajor]
  | nint hhead =>
    have hpos := hhead.length_pos
    obtain ⟨left, rfl⟩ : ∃ k, left = k + 1 := ⟨left - 1, by omega⟩
    obtain ⟨ib, hmajor, hread⟩ := readItem_head (t := t) hhead left
    rw [hread]
    unfold readRest
    rw [hmajor]
    rfl
  | @bytes b head hhead =>
    have hpos := hhead.length_pos
    rw [List.length_append] at hleft
    obtain ⟨left, rfl⟩ : ∃ k, left = k + 1 := ⟨left - 1, by omega⟩
    obtain ⟨ib, hmajor, hread⟩ := readItem_head (t := b ++ t) hhead left
    rw [List.append_assoc, hread, readRest_bytes hmajor, readBytes_eq]
    rfl
  | @text s head hhead =>
    have hpos := hhead.length_pos
    rw [List.length_append] at hleft
    obtain ⟨left, rfl⟩ : ∃ k, left = k + 1 := ⟨left - 1, by omega⟩
    obtain ⟨ib, hmajor, hread⟩ := readItem_head (t := utf8 s ++ t) hhead left
    rw [List.append_assoc, hread]
    unfold readRest
    rw [hmajor, readBytes_eq, Option.bind_some, ofUtf8_utf8]
    rfl
  | @array items head hhead hitems ih =>
    have hpos := hhead.length_pos
    rw [List.length_append] at hleft
    obtain ⟨left, rfl⟩ : ∃ k, left = k + 1 := ⟨left - 1, by omega⟩
    obtain ⟨ib, hmajor, hread⟩ := readItem_head (t := (items.map Prod.snd).flatten ++ t) hhead left
    have hall : ∀ x ∈ items, ∀ u, readItem left (x.2 ++ u) = some (x.1, u) := by
      intro x hx u
      have hle := le_length_flatten (List.mem_map_of_mem (f := Prod.snd) hx)
      exact ih x hx (by omega) u
    rw [List.append_assoc, hread]
    unfold readRest
    rw [hmajor, readMany_eq Prod.fst Prod.snd hall t]
    rfl
  | @map entries head hhead hkeys hvalues ihkeys ihvalues =>
    have hpos := hhead.length_pos
    rw [List.length_append] at hleft
    obtain ⟨left, rfl⟩ : ∃ k, left = k + 1 := ⟨left - 1, by omega⟩
    obtain ⟨ib, hmajor, hread⟩ := readItem_head (t := (entries.map (fun e => e.1.2 ++ e.2.2)).flatten ++ t) hhead left
    have hall : ∀ e ∈ entries, ∀ u, readPair (readItem left) (e.1.2 ++ e.2.2 ++ u) = some ((e.1.1, e.2.1), u) := by
      intro e he u
      have hle := le_length_flatten (List.mem_map_of_mem (f := fun e : (Data × Bytes) × (Data × Bytes) => e.1.2 ++ e.2.2) he)
      rw [List.length_append] at hle
      have hkey : readItem left (e.1.2 ++ (e.2.2 ++ u)) = some (e.1.1, e.2.2 ++ u) := ihkeys e he (by omega) (e.2.2 ++ u)
      have hvalue : readItem left (e.2.2 ++ u) = some (e.2.1, u) := ihvalues e he (by omega) u
      unfold readPair
      rw [List.append_assoc, hkey]
      simp only [Option.bind_eq_bind, Option.bind_some, hvalue]
      rfl
    have hmany := readMany_eq (fun e : (Data × Bytes) × (Data × Bytes) => (e.1.1, e.2.1)) (fun e => e.1.2 ++ e.2.2) hall t
    rw [List.append_assoc, hread]
    unfold readRest
    rw [hmajor, hmany]
    rfl
  | @bignum b head tag htag hhead =>
    have hpos := hhead.length_pos
    have htagPos := htag.length_pos
    rw [List.length_append, List.length_append] at hleft
    obtain ⟨left, rfl⟩ : ∃ k, left = k + 1 + 1 := ⟨left - 2, by omega⟩
    obtain ⟨ib, hmajor, hread⟩ := readItem_head (t := head ++ (b ++ t)) htag (left + 1)
    obtain ⟨ib', hmajor', hread'⟩ := readItem_head (t := b ++ t) hhead left
    rw [List.append_assoc, List.append_assoc, hread, readRest_tag hmajor, hread', readRest_bytes hmajor', readBytes_eq]
    rfl
  | @tagged n d tag x htag hn hx ih =>
    have htagPos := htag.length_pos
    rw [List.length_append] at hleft
    obtain ⟨left, rfl⟩ : ∃ k, left = k + 1 := ⟨left - 1, by omega⟩
    obtain ⟨ib, hmajor, hread⟩ := readItem_head (t := x ++ t) htag left
    have hfold : fold n d = some (.tagged n d) := if_neg hn
    rw [List.append_assoc, hread, readRest_tag hmajor, ih (by omega), Option.bind_some, hfold]
    rfl
  | @simple n head hhead hlen =>
    obtain ⟨left, rfl⟩ : ∃ k, left = k + 1 := ⟨left - 1, by omega⟩
    obtain ⟨ib, hmajor, hread, hwidth, h27⟩ := readSimple_eq hhead t
    have hlow : additionalInfo ib < 24 := by
      by_contra hge
      rcases argWidth_cases (Nat.le_of_not_lt hge) h27 with ⟨-, hw⟩ | ⟨-, hw⟩ | ⟨-, hw⟩ | ⟨-, hw⟩ <;> omega
    have hvalue : readSimple ib n = some (simpleValue n) := if_pos hlow
    rw [readItem, hread, Option.bind_some, readRest_simple hmajor, hvalue]
    rfl
  | @simpleWide n head hhead hlen hn =>
    obtain ⟨left, rfl⟩ : ∃ k, left = k + 1 := ⟨left - 1, by omega⟩
    obtain ⟨ib, hmajor, hread, hwidth, h27⟩ := readSimple_eq hhead t
    have hai : additionalInfo ib = 24 := by
      rcases Nat.lt_or_ge (additionalInfo ib) 24 with hlt | hge
      · have hw : argWidth (additionalInfo ib) = 0 := if_pos hlt
        omega
      · rcases argWidth_cases hge h27 with ⟨h, -⟩ | ⟨-, hw⟩ | ⟨-, hw⟩ | ⟨-, hw⟩ <;> omega
    have hvalue : readSimple ib n = some (.simple n) := by
      unfold readSimple
      rw [hai, if_neg (by omega), if_pos rfl, if_pos hn]
    rw [readItem, hread, Option.bind_some, readRest_simple hmajor, hvalue]
    rfl
  | @half bits hlen =>
    obtain ⟨left, rfl⟩ : ∃ k, left = k + 1 := ⟨left - 1, by rw [List.length_cons] at hleft; omega⟩
    exact readItem_float (by decide) (by decide) (by decide) hlen rfl left t
  | @single bits hlen =>
    obtain ⟨left, rfl⟩ : ∃ k, left = k + 1 := ⟨left - 1, by rw [List.length_cons] at hleft; omega⟩
    exact readItem_float (by decide) (by decide) (by decide) hlen rfl left t
  | @double bits hlen =>
    obtain ⟨left, rfl⟩ : ∃ k, left = k + 1 := ⟨left - 1, by rw [List.length_cons] at hleft; omega⟩
    exact readItem_float (by decide) (by decide) (by decide) hlen rfl left t

theorem decode_encoding {d : Data} {x : Bytes} (h : Encoding d x) (t : Bytes) : decode (x ++ t) = some (d, t) := by
  unfold decode
  exact h.read (by rw [List.length_append]; omega) t

/-- What stands for data is one item. -/
theorem Encoding.item {d : Data} {x : Bytes} (h : Encoding d x) : Item x := by
  have hscalar : ∀ {m a : Nat} {head : Bytes}, IsHead m a head → m = 0 ∨ m = 1 ∨ m = 7 → Item head := by
    intro m a head hhead hm
    have hcontent : ([] : Bytes).length = contentLength m a := (contentLength_eq_zero (by omega)).symm
    have harity : ([] : List Bytes).length = arity m a := by rcases hm with rfl | rfl | rfl <;> rfl
    have h := Item.mk hhead hcontent harity (fun x hx => absurd hx List.not_mem_nil)
    rwa [List.append_nil, List.flatten_nil, List.append_nil] at h
  have hstring : ∀ {m : Nat} {b head : Bytes}, IsHead m b.length head → m = 2 ∨ m = 3 → Item (head ++ b) := by
    intro m b head hhead hm
    have hcontent : b.length = contentLength m b.length := (if_pos hm).symm
    have harity : ([] : List Bytes).length = arity m b.length := (arity_eq_zero hm).symm
    have h := Item.mk hhead hcontent harity (fun x hx => absurd hx List.not_mem_nil)
    rwa [List.flatten_nil, List.append_nil] at h
  have hgroup : ∀ {m a : Nat} {head : Bytes} {items : List Bytes}, IsHead m a head → ¬(m = 2 ∨ m = 3) → items.length = arity m a →
      (∀ x ∈ items, Item x) → Item (head ++ items.flatten) := by
    intro m a head items hhead hm hlen hitems
    have hcontent : ([] : Bytes).length = contentLength m a := (contentLength_eq_zero hm).symm
    have h := Item.mk hhead hcontent hlen hitems
    rwa [List.append_nil] at h
  have hwide : ∀ {ib : UInt8} {bits : Bytes}, major ib = 7 → 24 ≤ additionalInfo ib → additionalInfo ib ≤ 27 →
      bits.length = argWidth (additionalInfo ib) → Item (ib :: bits) := by
    intro ib bits hmajor hl hu hlen
    exact hscalar (.wide hl hu hlen) (.inr (.inr hmajor))
  induction h with
  | uint hhead => exact hscalar hhead (.inl rfl)
  | nint hhead => exact hscalar hhead (.inr (.inl rfl))
  | bytes hhead => exact hstring hhead (.inl rfl)
  | text hhead => exact hstring hhead (.inr rfl)
  | @array items head hhead hitems ih =>
    refine hgroup hhead (by omega) (by rw [List.length_map, arity_array]) ?_
    intro x hx
    obtain ⟨y, hy, rfl⟩ := List.mem_map.1 hx
    exact ih y hy
  | @map entries head hhead hkeys hvalues ihkeys ihvalues =>
    -- the keys and the values, one by one
    have hflat : (entries.map (fun e => e.1.2 ++ e.2.2)).flatten = (entries.flatMap (fun e => [e.1.2, e.2.2])).flatten := by
      clear hhead hkeys hvalues ihkeys ihvalues
      induction entries with
      | nil => rfl
      | cons e entries ih =>
        rw [List.map_cons, List.flatten_cons, ih, List.flatMap_cons, List.flatten_append]
        simp
    have hlen : (entries.flatMap (fun e => [e.1.2, e.2.2])).length = arity 5 entries.length := by
      rw [List.length_flatMap, arity_map]
      simp [Nat.mul_comm]
    rw [hflat]
    refine hgroup hhead (by omega) hlen ?_
    intro x hx
    obtain ⟨e, he, hx⟩ := List.mem_flatMap.1 hx
    rcases List.mem_cons.1 hx with rfl | hx
    · exact ihkeys e he
    · rw [List.mem_singleton.1 hx]
      exact ihvalues e he
  | @bignum b head tag htag hhead =>
    have hitems : ∀ x ∈ [head ++ b], Item x := by
      intro x hx
      rw [List.mem_singleton.1 hx]
      exact hstring hhead (.inl rfl)
    have h := hgroup htag (by decide) (by rw [arity_tag]; rfl) hitems
    rwa [List.flatten_singleton] at h
  | @tagged n d tag x htag hn hx ih =>
    have hitems : ∀ y ∈ [x], Item y := by
      intro y hy
      rw [List.mem_singleton.1 hy]
      exact ih
    have h := hgroup htag (by decide) (by rw [arity_tag]; rfl) hitems
    rwa [List.flatten_singleton] at h
  | simple hhead _ => exact hscalar hhead (.inr (.inr rfl))
  | simpleWide hhead _ _ => exact hscalar hhead (.inr (.inr rfl))
  | half hlen => exact hwide (by decide) (by decide) (by decide) hlen
  | single hlen => exact hwide (by decide) (by decide) (by decide) hlen
  | double hlen => exact hwide (by decide) (by decide) (by decide) hlen

end BrainSdk.Cbor
