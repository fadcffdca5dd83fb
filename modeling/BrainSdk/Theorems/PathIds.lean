import Mathlib.Data.Fin.VecNotation
import BrainSdk.Http.Path

/-!
# An id does not rewrite the route

An id is escaped so that the request addresses the row it names. Both clients escape every character that could end or cut the path, but
no escaping keeps a segment of one or two dots: the URL parser resolves it away, also where the dots are written `%2E`.
-/

namespace BrainSdk.Http

open Library

/-- What a segment of the request says: the fixed segment, or the bytes of the id. -/
def Piece.Reads (ids : Fin 2 → String) : Piece → Segment → Prop
  | .literal s, out => out = s.toList
  | .id slot, out => percentDecode out = utf8 (ids slot)

/-- The path has the segments of the route, in order, after those of the base URL. -/
def Addresses (base : List Segment) (route : IdRoute) (ids : Fin 2 → String) (path : List Segment) : Prop :=
  ∃ out, path = base ++ out ∧ List.Forall₂ (Piece.Reads ids) route.pieces out

/-- No id of the route is one dot or two. -/
def NoDotIds (route : IdRoute) (ids : Fin 2 → String) : Prop := ∀ slot, Piece.id slot ∈ route.pieces → ids slot ≠ "." ∧ ids slot ≠ ".."

/-- A way of writing ids as escaped bytes. -/
def WritesEscaped (writeId : String → List Char) : Prop := ∃ keep, Keeps keep ∧ ∀ id, writeId id = escape keep (utf8 id)

/-- A fixed segment that is plain and no dot segment. -/
def Piece.isFixed : Piece → Bool
  | .literal s => s.toList.all isPlain && !isDot s.toList
  | .id _ => true

theorem isFixed_pieces (route : IdRoute) : route.pieces.all Piece.isFixed = true := by
  cases route <;> decide

theorem literal_facts (route : IdRoute) (s : String) (h : Piece.literal s ∈ route.pieces) :
    (∀ c ∈ s.toList, isPlain c = true) ∧ isDot s.toList = false := by
  have hs : Piece.isFixed (.literal s) = true := List.all_eq_true.1 (isFixed_pieces route) _ h
  rw [Piece.isFixed, Bool.and_eq_true, List.all_eq_true, Bool.not_eq_true'] at hs
  exact hs

/-- Whatever the escaping keeps, the request addresses the row exactly when no id is one dot or two. -/
theorem addresses_iff {writeId : String → List Char} (hw : WritesEscaped writeId) (base : List Segment) (route : IdRoute)
    (ids : Fin 2 → String) (query : Option (List Char)) :
    Addresses base route ids (requestPath base (route.text writeId ids ++ queryText query)) ↔ NoDotIds route ids := by
  obtain ⟨keep, hkeep, hwrite⟩ := hw
  have hplain : ∀ s ∈ route.pieces.map (Piece.render writeId ids), ∀ c ∈ s, isPlain c = true := by
    intro s hs
    obtain ⟨p, hp, rfl⟩ := List.mem_map.1 hs
    cases p with
    | literal s => exact (literal_facts route s hp).1
    | id slot =>
      rw [Piece.render, hwrite]
      exact isPlain_escape hkeep _
  have hreads : ∀ p ∈ route.pieces, Piece.Reads ids p (Piece.render writeId ids p) := by
    intro p _
    cases p with
    | literal s => exact rfl
    | id slot =>
      rw [Piece.render, Piece.Reads, hwrite]
      exact percentDecode_escape hkeep _
  have hdot : ∀ p ∈ route.pieces, isDot (Piece.render writeId ids p) = true → ¬Piece.Reads ids p [] := by
    intro p hp hdot hempty
    cases p with
    | literal s => exact absurd hdot (by rw [Piece.render, (literal_facts route s hp).2]; decide)
    | id slot =>
      rw [Piece.render, hwrite, isDot_escape_iff hkeep] at hdot
      rw [Piece.Reads] at hempty
      rw [← hempty] at hdot
      simp [percentDecode] at hdot
  have hne : route.pieces.map (Piece.render writeId ids) ≠ [] := by
    cases route <;> simp [IdRoute.pieces]
  have hpath : requestPath base (route.text writeId ids ++ queryText query) = resolve base (route.pieces.map (Piece.render writeId ids)) :=
    pathState_slashed base _ query hne hplain
  unfold Addresses NoDotIds
  rw [hpath, resolve_reads_iff base hreads hdot]
  have hdot1 : utf8 "." = [0x2E] := by decide
  have hdot2 : utf8 ".." = [0x2E, 0x2E] := by decide
  have hslot : ∀ slot, isDot (Piece.render writeId ids (.id slot)) = false ↔ ids slot ≠ "." ∧ ids slot ≠ ".." := by
    intro slot
    rw [← Bool.not_eq_true, Piece.render, hwrite, isDot_escape_iff hkeep, ← hdot2, ← hdot1, utf8_injective.eq_iff, utf8_injective.eq_iff,
      not_or]
  constructor
  · intro h slot hslot'
    exact (hslot slot).1 (h _ hslot')
  · intro h p hp
    cases p with
    | literal s => exact (literal_facts route s hp).2
    | id slot => exact (hslot slot).2 (h slot hp)

end BrainSdk.Http

namespace BrainSdk.TypeScript

open Library Http

/-- The bytes that `encodeURIComponent` leaves as they are. -/
def isUriUnescapedByte (b : UInt8) : Bool := b < 128 && isUriUnescaped (Char.ofNat b.toNat)

theorem keeps_isUriUnescapedByte : Keeps isUriUnescapedByte := keeps_of_bytes (by decide +kernel)

/-- An ASCII character is its own UTF-8 byte. -/
theorem utf8EncodeChar_of_ascii {c : Char} (h : c.toNat < 128) : String.utf8EncodeChar c = [UInt8.ofNat c.toNat] := by
  unfold String.utf8EncodeChar
  exact if_pos (Nat.le_of_lt_succ h)

/-- The UTF-8 bytes of any other character are no ASCII. -/
theorem utf8EncodeChar_of_not_ascii {c : Char} (h : 128 ≤ c.toNat) : ∀ b ∈ String.utf8EncodeChar c, 128 ≤ b.toNat := by
  have hval : ¬c.val.toNat ≤ 127 := Nat.not_le.2 h
  intro b hb
  unfold String.utf8EncodeChar at hb
  dsimp only at hb
  rw [if_neg hval] at hb
  split at hb
  · simp only [List.mem_cons, List.not_mem_nil, or_false] at hb
    rcases hb with rfl | rfl <;> rw [UInt8.toNat_ofNat'] <;> omega
  · split at hb
    · simp only [List.mem_cons, List.not_mem_nil, or_false] at hb
      rcases hb with rfl | rfl | rfl <;> rw [UInt8.toNat_ofNat'] <;> omega
    · simp only [List.mem_cons, List.not_mem_nil, or_false] at hb
      rcases hb with rfl | rfl | rfl | rfl <;> rw [UInt8.toNat_ofNat'] <;> omega

theorem isUriUnescaped_ascii {c : Char} (h : isUriUnescaped c = true) : c.toNat < 128 := by
  simp only [isUriUnescaped, Bool.or_eq_true, Bool.and_eq_true, decide_eq_true_eq, List.mem_cons, List.not_mem_nil, or_false] at h
  rcases h with ((⟨-, h⟩ | ⟨-, h⟩) | ⟨-, h⟩) | h
  · exact Nat.lt_of_le_of_lt h (by decide)
  · exact Nat.lt_of_le_of_lt h (by decide)
  · exact Nat.lt_of_le_of_lt h (by decide)
  · rcases h with rfl | rfl | rfl | rfl | rfl | rfl | rfl | rfl | rfl <;> decide

/-- `encodeURIComponent` character by character is the escaping of the UTF-8 bytes. -/
theorem encodeURIComponent_eq (s : String) : encodeURIComponent s = escape isUriUnescapedByte (utf8 s) := by
  unfold encodeURIComponent escape
  rw [utf8_eq_flatMap, List.flatMap_assoc]
  refine List.flatMap_congr (fun c _ => ?_)
  rcases Nat.lt_or_ge c.toNat 128 with hascii | hhigh
  · have hbyte : (UInt8.ofNat c.toNat).toNat = c.toNat := by
      rw [UInt8.toNat_ofNat']
      omega
    have hkeep : isUriUnescapedByte (UInt8.ofNat c.toNat) = isUriUnescaped c := by
      have hlt : UInt8.ofNat c.toNat < 128 := by
        rw [UInt8.lt_iff_toNat_lt, hbyte]
        exact hascii
      unfold isUriUnescapedByte
      rw [hbyte, Char.ofNat_toNat, decide_eq_true hlt, Bool.true_and]
    rw [utf8EncodeChar_of_ascii hascii, List.flatMap_singleton, List.flatMap_singleton, hkeep, hbyte, Char.ofNat_toNat]
  · have hnot : isUriUnescaped c = false := by
      rw [← Bool.not_eq_true]
      intro h
      have := isUriUnescaped_ascii h
      omega
    rw [hnot]
    refine List.flatMap_congr (fun b hb => ?_)
    have hb128 := utf8EncodeChar_of_not_ascii hhigh b hb
    have hkeep : isUriUnescapedByte b = false := by
      have hge : ¬b < 128 := by
        rw [UInt8.lt_iff_toNat_lt]
        exact Nat.not_lt.2 hb128
      unfold isUriUnescapedByte
      rw [decide_eq_false hge, Bool.false_and]
    rw [hkeep]
    rfl

theorem writesEscaped_pathId : WritesEscaped pathId := ⟨isUriUnescapedByte, keeps_isUriUnescapedByte, encodeURIComponent_eq⟩

end BrainSdk.TypeScript

namespace BrainSdk.Rust

open Library Http

theorem keeps_isUnreserved : Keeps isUnreserved := keeps_of_bytes (by decide +kernel)

theorem writesEscaped_segment : WritesEscaped segment := ⟨isUnreserved, keeps_isUnreserved, fun _ => rfl⟩

end BrainSdk.Rust

namespace BrainSdk.Http

open Library

/-- For every route and every pair of ids, the request of the TypeScript client and that of the Rust client has the segments of the route
with the ids in their slots, exactly when no id of the route is one dot or two. -/
theorem route_kept_iff (base : List Segment) (route : IdRoute) (ids : Fin 2 → String) (query : Option (List Char)) :
    (Addresses base route ids (requestPath base (route.text TypeScript.pathId ids ++ queryText query)) ↔ NoDotIds route ids) ∧
    (Addresses base route ids (requestPath base (route.text Rust.segment ids ++ queryText query)) ↔ NoDotIds route ids) :=
  ⟨addresses_iff TypeScript.writesEscaped_pathId base route ids query, addresses_iff Rust.writesEscaped_segment base route ids query⟩

/-- To drop `whoami` of the kind `..` is to delete `/v1/whoami`, in both clients. -/
theorem dotdot_rewrites_route :
    IdRoute.dropSchema.text TypeScript.pathId !["..", "whoami"] = "/v1/schema/../whoami".toList ∧
    IdRoute.dropSchema.text Rust.segment !["..", "whoami"] = "/v1/schema/%2E%2E/whoami".toList ∧
    requestPath [] (IdRoute.dropSchema.text TypeScript.pathId !["..", "whoami"]) = ["v1".toList, "whoami".toList] ∧
    requestPath [] (IdRoute.dropSchema.text Rust.segment !["..", "whoami"]) = ["v1".toList, "whoami".toList] ∧
    ¬Addresses [] .dropSchema !["..", "whoami"]
      (requestPath [] (IdRoute.dropSchema.text TypeScript.pathId !["..", "whoami"])) ∧
    ¬Addresses [] .dropSchema !["..", "whoami"]
      (requestPath [] (IdRoute.dropSchema.text Rust.segment !["..", "whoami"])) := by
  have hts : requestPath [] (IdRoute.dropSchema.text TypeScript.pathId !["..", "whoami"]) = ["v1".toList, "whoami".toList] := by
    decide
  have hrust : requestPath [] (IdRoute.dropSchema.text Rust.segment !["..", "whoami"]) = ["v1".toList, "whoami".toList] := by
    decide
  have hshort : ¬Addresses [] .dropSchema !["..", "whoami"] ["v1".toList, "whoami".toList] := by
    rintro ⟨out, heq, hall⟩
    have hlen := hall.length_eq
    rw [List.nil_append] at heq
    rw [← heq] at hlen
    exact absurd hlen (by decide)
  refine ⟨by decide, by decide, hts, hrust, ?_, ?_⟩
  · rw [hts]
    exact hshort
  · rw [hrust]
    exact hshort

end BrainSdk.Http
