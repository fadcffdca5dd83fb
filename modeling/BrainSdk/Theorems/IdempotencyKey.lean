import BrainSdk.Http.Calls
import BrainSdk.Http.ClientLemmas

/-!
# Retried writes carry a key

A server can tell a repeated write from a second one only by a key that all attempts of a call carry and no other call does. The
TypeScript client sends one. The Python and the Rust client retry the same verbs without, so their writes are deduplicable only where no
call is sent a second time.
-/

namespace BrainSdk.Http

open Library

variable {Body Outcome Wait Result : Type}

/-- The call is sent more than once. -/
def Call.SentTwice (c : Call Body Outcome Wait Result) : Prop := c.loop.Sends c.outcomes 1

/-- Every attempt that is sent carries the key. -/
def Call.Carries (c : Call Body Outcome Wait Result) (key : String) : Prop :=
  ∀ n, c.loop.Sends c.outcomes n → (c.request n).header "idempotency-key" = some key

/-- Every call that is sent more than once carries one key that is not empty, and no two calls carry the same. -/
def Deduplicable (calls : List (Call Body Outcome Wait Result)) : Prop :=
  (∀ c ∈ calls, c.SentTwice → ∃ key, key ≠ "" ∧ c.Carries key) ∧
  calls.Pairwise (fun c c' => ∀ key, ¬(c.Carries key ∧ c'.Carries key))

/-- Where no request has a key, the calls are deduplicable exactly when each is sent once. -/
theorem deduplicable_iff_of_no_key {calls : List (Call Body Outcome Wait Result)}
    (hnone : ∀ c ∈ calls, (c.request 0).header "idempotency-key" = none) : Deduplicable calls ↔ ∀ c ∈ calls, ¬c.SentTwice := by
  have hcarries : ∀ c ∈ calls, ∀ key, ¬c.Carries key := by
    intro c hc key h
    have hkey := h 0 Loop.sends_zero
    rw [hnone c hc] at hkey
    cases hkey
  constructor
  · intro h c hc htwice
    obtain ⟨key, -, hkey⟩ := h.1 c hc htwice
    exact hcarries c hc key hkey
  · intro h
    refine ⟨fun c hc htwice => absurd htwice (h c hc), ?_⟩
    exact List.pairwise_of_forall_mem_list (fun c hc _ _ key hkey => hcarries c hc key hkey.1)

end BrainSdk.Http

namespace BrainSdk.TypeScript

open Library Http

/-- What is assumed of the first `count` draws from the random source: a UUID is not empty, and no two draws come to the same key. -/
structure FreshDraws (draws : Nat → Draw) (count : Nat) : Prop where
  uuid : ∀ n < count, ∀ u, (draws n).randomUUID = some u → u ≠ ""
  distinct : ∀ m < count, ∀ n < count, m ≠ n → (draws m).key ≠ (draws n).key

/-- A key is not empty. -/
theorem FreshDraws.key_ne_empty {draws : Nat → Draw} {count n : Nat} (h : FreshDraws draws count) (hn : n < count) :
    (draws n).key ≠ "" := by
  unfold Draw.key
  cases hu : (draws n).randomUUID with
  | some u => exact h.uuid n hn u hu
  | none => simp

variable {Body T : Type}

/-- The key is a header of every request. -/
theorem header_sendWith (c : WriteCall Body T) (key : String) (n : Nat) :
    ((c.sendWith key).request n).header "idempotency-key" = some key := by
  simp [WriteCall.sendWith, requestOnce.request, assign, Request.header]

/-- The calls of a process, in the order in which they are made: each has the key of a draw of its own. -/
theorem session_keys (draws : Nat → Draw) (calls : List (WriteCall Body T)) (drawn : Nat) :
    ∃ sent : List (WriteCall Body T × Nat),
      (calls.mapM (WriteCall.send draws) drawn).1 = sent.map (fun s => s.1.sendWith (draws s.2).key) ∧
      (∀ s ∈ sent, drawn ≤ s.2 ∧ s.2 < drawn + calls.length) ∧ sent.Pairwise (fun s s' => s.2 ≠ s'.2) := by
  induction calls generalizing drawn with
  | nil => exact ⟨[], rfl, by simp, .nil⟩
  | cons c calls ih =>
    obtain ⟨sent, hsent, hbounds, hne⟩ := ih (drawn + 1)
    refine ⟨(c, drawn) :: sent, ?_, ?_, ?_⟩
    · rw [List.map_cons, ← hsent, List.mapM_cons]
      rfl
    · intro s hs
      rw [List.length_cons]
      rcases List.mem_cons.1 hs with rfl | hs
      · omega
      · have := hbounds s hs
        omega
    · refine List.pairwise_cons.2 ⟨fun s hs => ?_, hne⟩
      have := hbounds s hs
      omega

/-- However the attempts of the calls come out, the writes of the TypeScript client are deduplicable. -/
theorem session_deduplicable {draws : Nat → Draw} {calls : List (WriteCall Body T)} (h : FreshDraws draws calls.length) :
    Deduplicable (calls.mapM (WriteCall.send draws) 0).1 := by
  obtain ⟨sent, hsent, hbounds, hne⟩ := session_keys draws calls 0
  have hlt : ∀ s ∈ sent, s.2 < calls.length := by
    intro s hs
    have := hbounds s hs
    omega
  rw [hsent]
  refine ⟨?_, List.pairwise_map.2 (hne.imp_of_mem ?_)⟩
  · intro c hc _
    obtain ⟨s, hs, rfl⟩ := List.mem_map.1 hc
    exact ⟨_, h.key_ne_empty (hlt s hs), fun n _ => header_sendWith s.1 _ n⟩
  · rintro s s' hmem hmem' hss key ⟨hs, hs'⟩
    have hkey := hs 0 Loop.sends_zero
    have hkey' := hs' 0 Loop.sends_zero
    rw [header_sendWith] at hkey hkey'
    exact h.distinct s.2 (hlt s hmem) s'.2 (hlt s' hmem') hss (Option.some.inj (hkey.trans hkey'.symm))

end BrainSdk.TypeScript

namespace BrainSdk.Rust

open Library Http

variable {Body R : Type}

/-- The first exchange is one after which the loop sends again. -/
def WriteCall.Resent (c : WriteCall Body R) : Prop :=
  1 < c.policy.maxAttempts.toNat ∧ ((c.outcomes 0).Transient ∨ (c.outcomes 0).Undecodable c.libs)

theorem sentTwice_iff (c : WriteCall Body R) : c.send.SentTwice ↔ c.Resent := by
  unfold Http.Call.SentTwice WriteCall.Resent
  rw [← Nat.zero_add 1, Loop.sends_succ]
  simp only [WriteCall.send, sendWithQuery_again, Loop.sends_zero, true_and, and_or_left]

/-- Exactly when the writes of the Rust client are deduplicable. -/
theorem writes_deduplicable_iff (calls : List (WriteCall Body R)) :
    Deduplicable (calls.map WriteCall.send) ↔ ∀ c ∈ calls, ¬c.Resent := by
  rw [deduplicable_iff_of_no_key]
  · simp only [List.forall_mem_map, sentTwice_iff]
  · intro c hc
    obtain ⟨c, -, rfl⟩ := List.mem_map.1 hc
    simp [WriteCall.send, sendOnce.request, Request.header]

end BrainSdk.Rust

namespace BrainSdk.Python

open Library Http

variable {Body : Type}

/-- The first exchange is one after which the loop sends again. -/
def WriteCall.Resent (c : WriteCall Body) : Prop :=
  1 < c.policy.maxAttempts ∧ ((c.outcomes 0).Transient ∨ (c.outcomes 0).Undecodable) ∧ Waits c.libs c.policy 1 (c.outcomes 0)

theorem sentTwice_iff (c : WriteCall Body) : c.send.SentTwice ↔ c.Resent := by
  unfold Http.Call.SentTwice WriteCall.Resent
  rw [← Nat.zero_add 1, Loop.sends_succ]
  simp only [WriteCall.send, request_again, Loop.sends_zero, true_and, ← and_or_left, ← or_and_right, Nat.zero_add, Nat.cast_one]

/-- Exactly when the writes of the Python client are deduplicable. -/
theorem writes_deduplicable_iff (calls : List (WriteCall Body)) :
    Deduplicable (calls.map WriteCall.send) ↔ ∀ c ∈ calls, ¬c.Resent := by
  rw [deduplicable_iff_of_no_key]
  · simp only [List.forall_mem_map, sentTwice_iff]
  · intro c hc
    obtain ⟨c, -, rfl⟩ := List.mem_map.1 hc
    simp [WriteCall.send, requestOnce.request, Request.header]

end BrainSdk.Python

namespace BrainSdk.Http

/-- With fresh keys the writes of the TypeScript client are deduplicable whatever comes of their attempts. Those of the Rust and the
Python client are exactly when no call's first exchange is one after which the loop sends again. -/
theorem writes_deduplicable {Body T R : Type} (draws : Nat → TypeScript.Draw) (tsCalls : List (TypeScript.WriteCall Body T))
    (hfresh : TypeScript.FreshDraws draws tsCalls.length) (pyCalls : List (Python.WriteCall Body))
    (rustCalls : List (Rust.WriteCall Body R)) :
    Deduplicable (tsCalls.mapM (TypeScript.WriteCall.send draws) 0).1 ∧
    (Deduplicable (pyCalls.map Python.WriteCall.send) ↔ ∀ c ∈ pyCalls, ¬c.Resent) ∧
    (Deduplicable (rustCalls.map Rust.WriteCall.send) ↔ ∀ c ∈ rustCalls, ¬c.Resent) :=
  ⟨TypeScript.session_deduplicable hfresh, Python.writes_deduplicable_iff pyCalls, Rust.writes_deduplicable_iff rustCalls⟩

/-- An edge that answers 503 to every attempt, with the default policies. In TypeScript two calls carry two keys. In Python and in Rust
calls that are not to be retried are deduplicable. -/
theorem writes_deduplicable_unavailable :
    Deduplicable (([.encode, .encodeVector].map (fun verb => TypeScript.WriteCall.mk "http://127.0.0.1:8080" "key"
      ⟨0x4008000000000000#64⟩ (TypeScript.HttpLibraries.mk (T := Unit) (fun _ => none) id (fun _ => .ok ())) verb "text"
      (fun _ => .response 503 none (.ok "")))).mapM (TypeScript.WriteCall.send (fun n => ⟨some (if n = 0 then
        "7f1c3c52-9a55-4a2e-8f0b-5f2d0f6d9a10" else "c2a9d0de-0f0e-4a35-9b7e-1b8a0a7c4e21"), "", "", ""⟩)) 0).1 ∧
    Deduplicable ([Python.WriteCall.mk "http://127.0.0.1:8080" "key" ⟨1, 0, 0⟩
      ⟨fun _ => .error ⟨"JSONDecodeError", "Expecting value: line 1 column 1 (char 0)"⟩, fun _ => "", fun _ => .ok ()⟩ .encode "text"
      (fun _ => .response 503 none (.ok []))].map Python.WriteCall.send) ∧
    Deduplicable ([Rust.WriteCall.mk (R := Unit) "http://127.0.0.1:8080" "key" ⟨1, .zero, .zero⟩
      ⟨fun _ => "", fun _ => none, fun _ => .error "EOF while parsing a value at line 1 column 0"⟩ .encode "text"
      (fun _ => .response 503 none (.ok []))].map Rust.WriteCall.send) := by
  refine (writes_deduplicable _ _ ⟨?_, ?_⟩ _ _).imp_right (fun h => ⟨h.1.2 ?_, h.2.2 ?_⟩)
  · intro n _ u hu
    rw [← Option.some.inj hu]
    split <;> decide
  · intro m hm n hn hmn
    simp only [List.length_map, List.length_cons, List.length_nil] at hm hn
    have hcases : m = 0 ∧ n = 1 ∨ m = 1 ∧ n = 0 := by omega
    rcases hcases with ⟨rfl, rfl⟩ | ⟨rfl, rfl⟩ <;> decide
  · intro c hc hresent
    rw [List.mem_singleton.1 hc] at hresent
    exact absurd hresent.1 (by decide)
  · intro c hc hresent
    rw [List.mem_singleton.1 hc] at hresent
    exact absurd hresent.1 (by decide)

/-- An edge that answers 503 to every attempt, with the default policies: the call is sent again, without a key. -/
theorem retried_write_without_key :
    ¬Deduplicable ([Python.WriteCall.mk "http://127.0.0.1:8080" "key" ⟨3, 0x3FB999999999999A#64, 0x4000000000000000#64⟩
      ⟨fun _ => .error ⟨"JSONDecodeError", "Expecting value: line 1 column 1 (char 0)"⟩, fun _ => "", fun _ => .ok ()⟩ .encode "text"
      (fun _ => .response 503 none (.ok []))].map Python.WriteCall.send) ∧
    ¬Deduplicable ([Rust.WriteCall.mk (R := Unit) "http://127.0.0.1:8080" "key" ⟨3, .fromMillis 100, .fromSecs 2⟩
      ⟨fun _ => "", fun _ => none, fun _ => .error "EOF while parsing a value at line 1 column 0"⟩ .encode "text"
      (fun _ => .response 503 none (.ok []))].map Rust.WriteCall.send) := by
  rw [Python.writes_deduplicable_iff, Rust.writes_deduplicable_iff]
  refine ⟨fun h => h _ (List.mem_singleton_self _) ⟨by decide, .inl ?_, none, 0x3FB999999999999A#64, rfl, ?_, rfl⟩,
    fun h => h _ (List.mem_singleton_self _) ⟨by decide, .inl ⟨by decide, by decide⟩⟩⟩
  · exact rfl
  · decide +kernel

end BrainSdk.Http
