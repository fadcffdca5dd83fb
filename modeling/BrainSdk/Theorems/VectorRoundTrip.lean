import BrainSdk.Python.PlainClasses
import BrainSdk.Python.PlainCodec

/-!
# Direct vectors survive the wire

The payload is a CBOR map and the vector behind it. The scanner ends where the map does whatever follows, so the section is cut off as it
was put on, and its bytes are the singles of the vector.
-/

namespace BrainSdk.Python.Types

open Library Format Cbor PyObject

/-! ### Requests -/

/-- An identity: two strings and capability bits. -/
structure ActAs.Typed (a : ActAs Value) : Prop where
  namespace_ : Annotation.str.Holds a.namespace_
  space : Annotation.str.Holds a.space
  grant : Annotation.int.Holds a.grant

/-- The requests: integers of a u128, floats of single precision. -/
structure EncodeVectorDirectRequest.Typed (x : EncodeVectorDirectRequest Value) : Prop where
  text : Annotation.str.Holds x.text
  model_fingerprint : Annotation.bytes.Holds x.model_fingerprint
  session_id : Annotation.int.Holds x.session_id
  kind : Annotation.int.Holds x.kind
  salience_hint : Annotation.float.Holds x.salience_hint
  edges : ∀ values ∈ x.edges, edgeRequest.Typed values
  request_id : Annotation.bytes.Holds x.request_id
  txn_id : Annotation.Holds (.optional .bytes) x.txn_id
  deduplicate : Annotation.bool.Holds x.deduplicate
  vector : ∀ v ∈ x.vector, Representable v
  act_as : ∀ a ∈ x.act_as, a.Typed

/-! ### The vector section -/

/-- The section is 4 bytes an element, and unpacks to the vector. -/
theorem f32ListToLeBytes_ok {vector : List Double} (h : ∀ v ∈ vector, Representable v) :
    ∃ data, f32ListToLeBytes vector = .ok data ∧ data.length = 4 * vector.length ∧ unpackSingles data vector.length = vector := by
  induction vector with
  | nil => exact ⟨[], rfl, rfl, rfl⟩
  | cons x xs ih =>
    obtain ⟨single, hsingle, hlen, hunpack⟩ := unpack_pack (h x List.mem_cons_self)
    obtain ⟨data, hdata, hdataLen, hrest⟩ := ih (fun v hv => h v (List.mem_cons_of_mem x hv))
    refine ⟨single ++ data, ?_, ?_, ?_⟩
    · rw [f32ListToLeBytes, hsingle, hdata]
      rfl
    · rw [List.length_append, hlen, hdataLen, List.length_cons]
      omega
    · rw [List.length_cons, unpackSingles, List.take_left' hlen, List.drop_left' hlen, hunpack, hrest]

/-- `le_bytes_to_f32_list` undoes `f32_list_to_le_bytes`. -/
theorem leBytes_round_trip {vector : List Double} (h : ∀ v ∈ vector, Representable v) :
    ∃ data, f32ListToLeBytes vector = .ok data ∧ leBytesToF32List data = .ok vector := by
  obtain ⟨data, hdata, hlen, hunpack⟩ := f32ListToLeBytes_ok h
  refine ⟨data, hdata, ?_⟩
  unfold leBytesToF32List
  rw [hlen, if_neg (by omega), Nat.mul_div_cancel_left _ (by decide), hunpack]

/-! ### The map of a request -/

/-- `ActAs.from_map` undoes `to_map`: a grant that is left out was 0. -/
theorem ActAs.round_trip {a : ActAs Value} (ha : a.Typed) :
    ∃ m, a.toMap = .ok m ∧ isNone m.loaded = false ∧ Plain 1 m ∧ ActAs.fromMap m.loaded = .ok a := by
  obtain ⟨namespace_, space, grant⟩ := a
  obtain ⟨hnamespace, hspace, hgrant⟩ := ha
  dsimp only at hnamespace hspace hgrant
  obtain ⟨hnamespacePlain, hnamespaceLoaded⟩ := hnamespace.plain rfl
  obtain ⟨hspacePlain, hspaceLoaded⟩ := hspace.plain rfl
  obtain ⟨hgrantPlain, hgrantLoaded⟩ := hgrant.plain rfl
  obtain ⟨n, rfl⟩ : ∃ n, grant = .int n := by
    cases grant with
    | int n => exact ⟨n, rfl⟩
    | _ => exact hgrant.elim
  obtain ⟨entries, hentries⟩ : ∃ entries, entries = [("namespace", namespace_), ("space", space)] ++
    (if truthy (.int n) then [("grant", .int n)] else []) := ⟨_, rfl⟩
  have hmap : toMap ⟨namespace_, space, .int n⟩ = .ok (.dict entries) := by rw [hentries, toMap]
  have hkeys : (entries.map Prod.fst).Nodup := by
    rw [hentries]
    split_ifs <;> simp
  have hread : ∀ {k : String} {v : Value}, v.loaded = v → (k, v) ∈ entries → subscript (Value.dict entries).loaded k = .ok v := by
    intro k v hloaded hmem
    rw [subscript_loaded hkeys hmem, hloaded]
  have hget : (get (Value.dict entries).loaded "grant").bind (fun grant => PyObject.int (grant.getD (ofInt 0))) = .ok (.int n) := by
    by_cases hn : n = 0
    · have hmissing : "grant" ∉ entries.map Prod.fst := by
        rw [hentries, hn]
        simp [truthy]
      rw [get_missing hmissing, hn]
      rfl
    · have htruthy : truthy (.int n) = true := decide_eq_true hn
      have hmem : ("grant", Value.int n) ∈ entries := by
        rw [hentries, if_pos htruthy]
        simp
      rw [get_loaded hkeys hmem]
      rfl
  refine ⟨.dict entries, hmap, by rw [Value.loaded]; rfl, .dict hkeys ?_, ?_⟩
  · rw [hentries]
    split_ifs <;> simp [hnamespacePlain, hspacePlain, hgrantPlain]
  · unfold fromMap
    rw [hread hnamespaceLoaded (k := "namespace") (by simp [hentries]), hread hspaceLoaded (k := "space") (by simp [hentries])]
    simp only [bind, Except.bind] at hget ⊢
    rw [hget]
    rfl

/-- What `act_as` adds to the map: nothing, or an entry that is read back. -/
theorem actAs_entries {act_as : Option (ActAs Value)} (h : ∀ a ∈ act_as, a.Typed) :
    ∃ last : List (String × Value), act_as.elim (.ok []) (fun a => a.toMap.map (fun m => [("act_as", m)])) = .ok last ∧
      (last = [] ∧ act_as = none ∨
        ∃ m, last = [("act_as", m)] ∧ Plain 2 m ∧ optional ActAs.fromMap m.loaded = .ok act_as) := by
  rcases act_as with - | a
  · exact ⟨[], rfl, .inl ⟨rfl, rfl⟩⟩
  · obtain ⟨m, hm, hnone, hplain, hback⟩ := ActAs.round_trip (h a rfl)
    refine ⟨[("act_as", m)], ?_, .inr ⟨m, rfl, hplain.mono (by decide), ?_⟩⟩
    · rw [Option.elim_some, hm]
      rfl
    · unfold optional
      rw [hnone, hback]
      rfl

/-- `from_map` undoes `to_map`, but for the vector. -/
theorem EncodeVectorDirectRequest.map_round_trip {x : EncodeVectorDirectRequest Value} (hx : x.Typed) :
    ∃ entries, x.toMap = .ok (.dict entries) ∧ Plain 3 (.dict entries) ∧
      fromMap (Value.dict entries).loaded = .ok { x with vector := [] } := by
  obtain ⟨text, model_fingerprint, session_id, kind, salience_hint, edges, request_id, txn_id, deduplicate, vector, act_as⟩ := x
  obtain ⟨htext, hfingerprint, hsession, hkind, hsalience, hedges, hrequest, htxn, hdeduplicate, -, hact⟩ := hx
  dsimp only at htext hfingerprint hsession hkind hsalience hedges hrequest htxn hdeduplicate hact ⊢
  obtain ⟨salience', hround, hsaliencePlain, hsalienceLoaded⟩ := written hsalience (fun _ => rfl)
  have hround' : roundF32 salience_hint = .ok salience' := hround
  obtain ⟨ms, hms, hmsPlain, hmsBack⟩ := PlainClass.list_round_trip consistent_edgeRequest hedges
  obtain ⟨last, hlast, hlastCases⟩ := actAs_entries hact
  obtain ⟨entries, hentries⟩ : ∃ entries, entries = [("text", text), ("model_fingerprint", model_fingerprint), ("session_id", session_id),
    ("kind", kind), ("salience_hint", salience'), ("edges", .list ms), ("request_id", request_id), ("txn_id", txn_id),
    ("deduplicate", deduplicate)] ++ last := ⟨_, rfl⟩
  have hkeys : (entries.map Prod.fst).Nodup := by
    rcases hlastCases with ⟨rfl, -⟩ | ⟨m, rfl, -⟩ <;> simp [hentries]
  refine ⟨entries, ?_, ?_, ?_⟩
  · unfold toMap
    simp only [hround', hms, hlast, bind, Except.bind, hentries]
    rfl
  · have hfield : ∀ {a : Annotation} {v : Value}, a.Holds v → a.floating = false → Plain 2 v :=
      fun hv hf => (hv.plain hf).1.mono (by decide)
    have hlastPlain : ∀ e ∈ last, Plain 2 e.2 := by
      rcases hlastCases with ⟨rfl, -⟩ | ⟨m, rfl, hm, -⟩ <;> simp [*]
    refine .dict hkeys ?_
    simp only [hentries, List.cons_append, List.nil_append, List.forall_mem_cons]
    exact ⟨hfield htext rfl, hfield hfingerprint rfl, hfield hsession rfl, hfield hkind rfl, hsaliencePlain.mono (by decide), hmsPlain,
      hfield hrequest rfl, hfield htxn rfl, hfield hdeduplicate rfl, hlastPlain⟩
  · have hread : ∀ {k : String} {v : Value}, (k, v) ∈ entries → subscript (Value.dict entries).loaded k = .ok v.loaded :=
      fun hmem => subscript_loaded hkeys hmem
    have hfield : ∀ {a : Annotation} {k : String} {v : Value}, a.Holds v → a.floating = false → (k, v) ∈ entries →
        subscript (Value.dict entries).loaded k = .ok v := by
      intro a k v hv hf hmem
      rw [hread hmem, (hv.plain hf).2]
    have hactBack : ∃ o, get (Value.dict entries).loaded "act_as" = .ok o ∧
        o.elim (.ok none) (optional ActAs.fromMap) = .ok act_as := by
      rcases hlastCases with ⟨rfl, rfl⟩ | ⟨m, rfl, -, hback⟩
      · exact ⟨none, get_missing (by simp [hentries]), rfl⟩
      · exact ⟨some m.loaded, get_loaded hkeys (by simp [hentries]), hback⟩
    obtain ⟨o, hget, ho⟩ := hactBack
    unfold fromMap
    rw [hget, hfield (k := "text") htext rfl (by simp [hentries]),
      hfield (k := "model_fingerprint") hfingerprint rfl (by simp [hentries]),
      hfield (k := "session_id") hsession rfl (by simp [hentries]), hfield (k := "kind") hkind rfl (by simp [hentries]),
      hread (k := "salience_hint") (v := salience') (by simp [hentries]), hsalienceLoaded,
      hread (k := "edges") (v := .list ms) (by simp [hentries]), hfield (k := "request_id") hrequest rfl (by simp [hentries]),
      hfield (k := "txn_id") htxn rfl (by simp [hentries]), hfield (k := "deduplicate") hdeduplicate rfl (by simp [hentries])]
    simp only [bind, Except.bind] at hmsBack ⊢
    rw [hmsBack]
    simp only [ho]
    rfl

/-! ### The bytes of a request -/

/-- For every request of the types its fields are annotated with, `decode_payload` gives back the request that `encode_payload` wrote. -/
theorem vector_round_trip (C : Cbor2Codec) {x : EncodeVectorDirectRequest Value} (hx : x.Typed)
    (hsize : ∀ bytes, x.encodePayload C.toCbor2 = .ok bytes → bytes.length < maxBytes) :
    ∃ bytes, x.encodePayload C.toCbor2 = .ok bytes ∧ decodeVectorPayload C.loads bytes = .ok x := by
  obtain ⟨entries, hmap, hplain, hback⟩ := EncodeVectorDirectRequest.map_round_trip hx
  obtain ⟨cbor, hcbor, hread⟩ := toCborBytes_plain C hplain
  obtain ⟨section_, hsection, hvector⟩ := leBytes_round_trip hx.vector
  have hencode : x.encodePayload C.toCbor2 = .ok (cbor ++ section_) := by
    unfold EncodeVectorDirectRequest.encodePayload
    rw [hmap]
    simp only [bind, Except.bind, hcbor, hsection]
    rfl
  have hlen := hsize _ hencode
  rw [List.length_append] at hlen
  obtain ⟨hend, hloads⟩ := hread (by omega)
  refine ⟨cbor ++ section_, hencode, ?_⟩
  have hslice : slice (cbor ++ section_) 0 cbor.length = cbor := by
    unfold slice
    rw [List.take_left, List.drop_zero]
  have hitem : fromCborPrefix C.loads (cbor ++ section_) = .ok ((Value.dict entries).loaded, cbor.length) :=
    fromCborPrefix_ok (hend section_) (by rw [hslice, hloads])
  have hdict : asMap (Value.dict entries).loaded = .ok (Value.dict entries).loaded := rfl
  unfold decodeVectorPayload
  simp only [hitem, hdict, bind, Except.bind, hback, List.drop_left, hvector]
  rfl

/-- A request with an edge and an identity. The section is 160 four times, each an empty map to CBOR, and four zeros. -/
def identifiedRequest : EncodeVectorDirectRequest Value where
  text := .str "vector"
  model_fingerprint := .bytes [1, 2, 3, 4]
  session_id := .int (2 ^ 64)
  kind := .int 0
  salience_hint := .float 0x3FF8000000000000#64
  edges := [[.int 9, .int 1, .float 0x3FE0000000000000#64]]
  request_id := .bytes [5, 6]
  txn_id := .none
  deduplicate := .bool true
  vector := [0xBC14141400000000#64, 0]
  act_as := some ⟨.str "acme", .str "", .int 0⟩

theorem vector_round_trip_identified :
    ∃ bytes, identifiedRequest.encodePayload plainCbor2 = .ok bytes ∧
      decodeVectorPayload plainCodec.loads bytes = .ok identifiedRequest := by
  have hint : ∀ n : Int, 0 ≤ n → n < 2 ^ 128 → Annotation.int.Holds (.int n) := fun n hl hu => ⟨hl, hu⟩
  have hsalience : Representable 0x3FF8000000000000#64 := ⟨by decide +kernel, has_iff_round.2 (by decide +kernel)⟩
  have hweight : Representable 0x3FE0000000000000#64 := ⟨by decide +kernel, has_iff_round.2 (by decide +kernel)⟩
  have hfirst : Representable 0xBC14141400000000#64 := ⟨by decide +kernel, has_iff_round.2 (by decide +kernel)⟩
  have hzero : Representable 0#64 := ⟨by decide +kernel, has_iff_round.2 (by decide +kernel)⟩
  have hedges : ∀ values ∈ identifiedRequest.edges, edgeRequest.Typed values := by
    intro values hvalues
    rw [List.mem_singleton.1 hvalues]
    exact .cons (hint 9 (by decide) (by decide)) (.cons (hint 1 (by decide) (by decide)) (.cons hweight .nil))
  have hvector : ∀ v ∈ identifiedRequest.vector, Representable v :=
    List.forall_mem_cons.2 ⟨hfirst, List.forall_mem_cons.2 ⟨hzero, fun v hv => absurd hv List.not_mem_nil⟩⟩
  have hact : ∀ a ∈ identifiedRequest.act_as, a.Typed := by
    rintro a ⟨⟩
    exact ⟨trivial, trivial, hint 0 (by decide) (by decide)⟩
  have htyped : identifiedRequest.Typed :=
    ⟨trivial, trivial, hint _ (by decide) (by decide), hint _ (by decide) (by decide), hsalience, hedges, trivial, trivial,
      trivial, hvector, hact⟩
  have hlength : (identifiedRequest.encodePayload plainCbor2).map List.length = .ok 186 := by decide +kernel
  refine vector_round_trip plainCodec htyped (fun bytes hbytes => ?_)
  have hbytes' : identifiedRequest.encodePayload plainCbor2 = .ok bytes := hbytes
  rw [hbytes'] at hlength
  rw [Except.ok.inj hlength]
  decide

end BrainSdk.Python.Types
