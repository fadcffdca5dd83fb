import BrainSdk.Theorems.JsonParse
import BrainSdk.TypeScript.Rewritten

/-!
# What the exact parser accepts

`JSON.parse` accepts the texts of the grammar, and `parseJsonWithBigInts` those of the loose grammar: an integer past the safe range that
stands for a key is rewritten as a string like any other, and a string is what belongs there. On every other text the two agree.
-/

namespace BrainSdk.TypeScript.Json

open Library Library.Json Cbor

/-- The call throws. -/
def Throws (r : Except SyntaxError Value) : Prop := ∃ e, r = .error e

theorem throws_iff {r : Except SyntaxError Value} : Throws r ↔ ¬∃ v, r = .ok v := by
  cases r with
  | ok v => exact iff_of_false (fun ⟨_, h⟩ => nomatch h) (fun h => h ⟨v, rfl⟩)
  | error e => exact iff_of_true ⟨e, rfl⟩ (fun ⟨_, h⟩ => nomatch h)

/-- `JSON.parse` returns exactly on the texts of the grammar. -/
theorem jsonParse_ok_iff {text : Units} : (∃ v, jsonParse text = .ok v) ↔ ∃ t, IsElement t text := by
  simp only [← parse_iff]
  unfold jsonParse
  cases parse text with
  | none => exact iff_of_false (fun ⟨_, h⟩ => nomatch h) (fun ⟨_, h⟩ => nomatch h)
  | some t => exact iff_of_true ⟨_, rfl⟩ ⟨t, rfl⟩

/-- `parseJsonWithBigInts` returns exactly on the texts of the loose grammar. -/
theorem parseJsonWithBigInts_ok_iff {text : Units} : (∃ v, parseJsonWithBigInts text = .ok v) ↔ ∃ t, IsLooseElement t text := by
  have hrewritten := scan_rewritten text
  cases hrewrote : (scan text).rewrote with
  | false =>
    rw [parse_kept hrewrote, jsonParse_ok_iff]
    refine ⟨Exists.imp fun t h => loose_element h, ?_⟩
    rintro ⟨t, h⟩
    refine ⟨tagged t, ?_⟩
    have hemitted := (scan_element h).1
    rwa [scan_kept hrewrote] at hemitted
  | true =>
    refine ⟨?_, ?_⟩
    swap
    · rintro ⟨t, h⟩
      exact ⟨_, parse_rewritten h hrewrote⟩
    rintro ⟨v, h⟩
    unfold parseJsonWithBigInts at h
    split_ifs at h with hguard
    · obtain ⟨t, ht⟩ := jsonParse_ok_iff.1 ⟨v, h⟩
      exact ⟨t, loose_element ht⟩
    · simp only [hrewrote, not_true_eq_false, if_false] at h
      cases hparsed : jsonParse ((scan text).out ++ text.drop (scan text).cut) with
      | error e =>
        rw [hparsed] at h
        cases h
      | ok w =>
        obtain ⟨t, ht⟩ := jsonParse_ok_iff.1 ⟨w, hparsed⟩
        exact hrewritten.loose ht

/-- An integer past the safe range for a key: `JSON.parse` throws, `parseJsonWithBigInts` returns an object. -/
theorem integer_key_accepted :
    ¬(Throws (parseJsonWithBigInts (openBrace :: (units "9007199254740993:1" ++ [closeBrace]))) ↔
      Throws (jsonParse (openBrace :: (units "9007199254740993:1" ++ [closeBrace])))) := by
  have hdigits : IsDigits (units "007199254740993") := by decide
  have hvalid : pastSafe.Valid := ⟨.digits (by decide) (by decide) hdigits, .none, .none⟩
  have hone : (⟨false, units "1", [], []⟩ : Number).Valid := ⟨.digits (by decide) (by decide) (by decide), .none, .none⟩
  have hvalue := IsLooseElement.mk (by decide : IsSpaces []) (.number hone) (by decide : IsSpaces [])
  have hmember := IsLooseMember.integer (by decide : IsSpaces []) hvalid (by decide) (by decide : IsSpaces []) hvalue
  have htext := IsLooseElement.mk (by decide : IsSpaces []) (.object (.one hmember)) (by decide : IsSpaces [])
  have hparse : parse (openBrace :: (units "9007199254740993:1" ++ [closeBrace])) = none := by decide
  have hthrows : Throws (jsonParse (openBrace :: (units "9007199254740993:1" ++ [closeBrace]))) := by
    unfold jsonParse
    rw [hparse]
    exact ⟨_, rfl⟩
  intro h
  exact throws_iff.1 (h.2 hthrows) (parseJsonWithBigInts_ok_iff.2 ⟨_, htext⟩)

/-- The two throw on the same texts but on those of the loose grammar that are not of the grammar: with an integer past the safe range for
a key, and nothing else amiss. -/
theorem throws_alike_iff (text : Units) :
    (Throws (parseJsonWithBigInts text) ↔ Throws (jsonParse text)) ↔
      ((∃ t, IsLooseElement t text) → ∃ t, IsElement t text) := by
  rw [throws_iff, throws_iff, parseJsonWithBigInts_ok_iff, jsonParse_ok_iff]
  have hloose : (∃ t, IsElement t text) → ∃ t, IsLooseElement t text := fun ⟨t, h⟩ => ⟨t, loose_element h⟩
  tauto

end BrainSdk.TypeScript.Json
