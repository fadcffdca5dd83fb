import BrainSdk.Python.Cbor2
import BrainSdk.Theorems.EncoderRoundTrip
import BrainSdk.Theorems.StatementBytes

/-!
# A codec within the documentation

The encoder of the statement objects, with the reference decoder behind it, is a `cbor2` as far as its documentation says: it reads back
every plain value that it wrote. So the two directions of `cbor2` that the payload codec relies on exist.
-/

namespace BrainSdk.Python

open Library Format Cbor TypeScript

/-! ### Loading -/

mutual

/-- The Python value of a data item. A key that is no text, and a tag, are dropped. -/
def ofData : Data → Value
  | .int n => .int n
  | .bytes b => .bytes b
  | .text s => .str s
  | .array items => .list (ofItems items)
  | .map entries => .dict (ofEntries entries)
  | .tagged _ content => ofData content
  | .bool b => .bool b
  | .null => .none
  | .undefined => .none
  | .simple n => .int n
  | .float x => .float x

def ofItems : List Data → List Value
  | [] => []
  | x :: xs => ofData x :: ofItems xs

def ofEntries : List (Data × Data) → List (String × Value)
  | [] => []
  | (k, v) :: rest => ((match k with | .text s => s | _ => ""), ofData v) :: ofEntries rest

end

/-- The one item that the bytes are. -/
def plainLoads (bytes : Bytes) : Except PyException Value :=
  match Cbor.decode bytes with
  | some (d, []) => .ok (ofData d)
  | _ => .error (.other "CBORDecodeError")

/-! ### What is written is read back -/

/-- The bytes stand for data that loads as the value. -/
def Loads (v : Value) (d : Data) (bytes : Bytes) : Prop := (bytes.length < 2 ^ 64 → Encoding d bytes) ∧ ofData d = v.loaded

/-- A narrowest encoding stands for its double. -/
theorem Narrowest.encoding {x : Double} {bytes : Bytes} (h : Narrowest x bytes) : Encoding (.float x) bytes := by
  cases h with
  | @half bits hbits hx =>
    have hlt : bits < 256 ^ 2 := hbits
    have henc := Encoding.half (length_toBytesBE 2 bits)
    rwa [fromBytesBE_toBytesBE_of_lt hlt, hx] at henc
  | @single bits hhalf hbits hx =>
    have hlt : bits < 256 ^ 4 := hbits
    have henc := Encoding.single (length_toBytesBE 4 bits)
    rwa [fromBytesBE_toBytesBE_of_lt hlt, hx] at henc
  | double hhalf hsingle => exact writeDouble_encoding x

/-- The elements of a list are written in a row. -/
theorem plainItems_loads {items : List Value}
    (h : ∀ x ∈ items, ∃ d bytes, plainDumps shortestFloatBytes x = .ok bytes ∧ Loads x d bytes) :
    ∃ xs : List (Data × Bytes), concatM (plainDumps shortestFloatBytes) items = .ok (xs.map Prod.snd).flatten ∧
      xs.length = items.length ∧ (∀ x ∈ xs, x.2.length < 2 ^ 64 → Encoding x.1 x.2) ∧ ofItems (xs.map Prod.fst) = loadedItems items := by
  induction items with
  | nil => exact ⟨[], rfl, rfl, fun x hx => absurd hx List.not_mem_nil, rfl⟩
  | cons x items ih =>
    obtain ⟨d, bytes, hdumps, henc, hof⟩ := h x List.mem_cons_self
    obtain ⟨xs, hrest, hlen, hall, hofs⟩ := ih (fun y hy => h y (List.mem_cons_of_mem x hy))
    refine ⟨(d, bytes) :: xs, ?_, ?_, List.forall_mem_cons.2 ⟨henc, hall⟩, ?_⟩
    · rw [concatM, hdumps, hrest]
      rfl
    · rw [List.length_cons, hlen, List.length_cons]
    · rw [List.map_cons, ofItems, hof, hofs, loadedItems]

/-- The entries of a dict are written in a row. -/
theorem plainEntries_loads {entries : List (String × Value)}
    (h : ∀ e ∈ entries, ∃ d bytes, plainDumps shortestFloatBytes e.2 = .ok bytes ∧ Loads e.2 d bytes) :
    ∃ xs : List ((Data × Bytes) × (Data × Bytes)),
      concatM (fun e => (plainDumps shortestFloatBytes e.2).map ((shortestHead 3 (utf8 e.1).length ++ utf8 e.1) ++ ·)) entries =
        .ok (xs.map (fun e => e.1.2 ++ e.2.2)).flatten ∧
      xs.length = entries.length ∧ (∀ e ∈ xs, e.1.2.length < 2 ^ 64 → Encoding e.1.1 e.1.2) ∧
      (∀ e ∈ xs, e.2.2.length < 2 ^ 64 → Encoding e.2.1 e.2.2) ∧
      ofEntries (xs.map (fun e => (e.1.1, e.2.1))) = loadedEntries entries := by
  induction entries with
  | nil => exact ⟨[], rfl, rfl, fun x hx => absurd hx List.not_mem_nil, fun x hx => absurd hx List.not_mem_nil, rfl⟩
  | cons e entries ih =>
    obtain ⟨k, v⟩ := e
    obtain ⟨d, bytes, hdumps, henc, hof⟩ := h (k, v) List.mem_cons_self
    obtain ⟨xs, hrest, hlen, hkeys, hvalues, hofs⟩ := ih (fun y hy => h y (List.mem_cons_of_mem _ hy))
    have hkey : (shortestHead 3 (utf8 k).length ++ utf8 k).length < 2 ^ 64 →
        Encoding (.text k) (shortestHead 3 (utf8 k).length ++ utf8 k) := by
      intro hsize
      rw [List.length_append] at hsize
      exact .text (isHead_shortest (by decide) (by omega))
    refine ⟨((.text k, shortestHead 3 (utf8 k).length ++ utf8 k), (d, bytes)) :: xs, ?_, ?_, List.forall_mem_cons.2 ⟨hkey, hkeys⟩,
      List.forall_mem_cons.2 ⟨henc, hvalues⟩, ?_⟩
    · rw [concatM, hdumps, hrest]
      rfl
    · rw [List.length_cons, hlen, List.length_cons]
    · rw [List.map_cons, ofEntries, hof, hofs, loadedEntries]

/-- A plain value is written as bytes that stand for it. -/
theorem plainDumps_loads {n : Nat} {v : Value} (h : Plain n v) :
    ∃ d bytes, plainDumps shortestFloatBytes v = .ok bytes ∧ Loads v d bytes := by
  induction h with
  | none => exact ⟨.null, _, rfl, fun _ => simple_encoding 22 (by decide), rfl⟩
  | bool b =>
    refine ⟨.bool b, _, rfl, fun _ => ?_, rfl⟩
    rcases b with - | -
    · exact simple_encoding 20 (by decide)
    · exact simple_encoding 21 (by decide)
  | @int n i hi =>
    obtain ⟨k, rfl⟩ : ∃ k : Nat, i = .ofNat k := ⟨i.toNat, (Int.toNat_of_nonneg hi).symm⟩
    refine ⟨.int k, _, by rw [plainDumps], fun hlen => ?_, rfl⟩
    split_ifs at hlen ⊢ with hlt
    · exact .uint (isHead_shortest (by decide) hlt)
    · have hwrite : writeBignum k = plainBignum 2 k := by
        have hne : ¬((Nat.digits 256 k).reverse.map UInt8.ofNat).length = 0 := by
          rw [List.length_map, List.length_reverse, List.length_eq_zero_iff, Nat.digits_eq_nil_iff_eq_zero]
          omega
        unfold writeBignum plainBignum
        simp only [if_neg hne, pushHead_eq]
      rw [← hwrite] at hlen ⊢
      exact writeBignum_encoding k hlen
  | str s =>
    refine ⟨.text s, _, by rw [plainDumps], fun hlen => .text (isHead_shortest (by decide) ?_), rfl⟩
    rw [List.length_append] at hlen
    omega
  | bytes b =>
    refine ⟨.bytes b, _, by rw [plainDumps], fun hlen => .bytes (isHead_shortest (by decide) ?_), rfl⟩
    rw [List.length_append] at hlen
    omega
  | @floatField n x hx hover =>
    obtain ⟨bytes, hbytes, hnarrow⟩ := shortest_narrowest hx hover
    exact ⟨.float x, bytes, by rw [plainDumps, hbytes], fun _ => Narrowest.encoding hnarrow, rfl⟩
  | @list n items hitems ih =>
    obtain ⟨xs, hdumps, hcount, henc, hof⟩ := plainItems_loads ih
    refine ⟨.array (xs.map Prod.fst), _, by rw [plainDumps, plainItems_eq, hdumps]; rfl, fun hlen => ?_, ?_⟩
    · rw [List.length_append] at hlen
      have h := array_encoding henc (by omega)
      rwa [pushHead_eq, hcount] at h
    · rw [ofData, hof, Value.loaded]
  | @dict n entries hkeys hentries ih =>
    obtain ⟨xs, hdumps, hcount, hencKeys, hencValues, hof⟩ := plainEntries_loads ih
    refine ⟨.map (xs.map (fun e => (e.1.1, e.2.1))), _, by rw [plainDumps, plainEntries_eq, hdumps]; rfl, fun hlen => ?_, ?_⟩
    · rw [List.length_append] at hlen
      have h := map_encoding hencKeys hencValues (by omega)
      rwa [pushHead_eq, hcount] at h
    · rw [ofData, hof, Value.loaded]

/-- It is within the documentation, in both directions. -/
def plainCodec : Cbor2Codec where
  toCbor2 := plainCbor2
  loads := plainLoads
  none_eq _ := rfl
  bignum_eq hook n hn := by
    have hdumps : plainCbor2.dumps hook (.int (.ofNat n)) = .ok (if n < 2 ^ 64 then shortestHead 0 n else plainBignum 2 n) := by
      show plainDumps hook (.int (.ofNat n)) = _
      rw [plainDumps]
    rw [if_neg (by omega)] at hdumps
    exact hdumps
  loads_dumps v bytes h hdumps hlen := by
    have hmax : maxBytes < 2 ^ 64 := by decide
    obtain ⟨d, bytes', hdumps', henc, hof⟩ := plainDumps_loads h
    obtain rfl : bytes' = bytes := Except.ok.inj (hdumps'.symm.trans hdumps)
    have hdecode := decode_encoding (henc (Nat.lt_trans hlen hmax)) []
    rw [List.append_nil] at hdecode
    unfold plainLoads
    rw [hdecode, ← hof]

end BrainSdk.Python
