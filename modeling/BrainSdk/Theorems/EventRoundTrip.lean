import BrainSdk.Python.PlainClasses
import BrainSdk.Python.PlainCodec

/-!
# Subscription events survive the wire

Each body class gives back its instance, since its lists fit together; a variant finds its class again; and the keys of the event itself
are written and read once each. In between, the bytes are one item that the scanner measures and `cbor2` reads back.
-/

namespace BrainSdk.Python.Types

open Library Format Cbor PyObject

/-! ### Events -/

/-- A variant name of the table, with an instance of its class. -/
def Tagged.Typed (types : List (String × PlainClass)) (t : Tagged Value) : Prop :=
  ∃ name, (name, t.body) ∈ types ∧ t.variant = .str name ∧ t.body.Typed t.value

/-- The events: integers of a u128, floats of single precision, and payloads of their classes. -/
structure SubscriptionEvent.Typed (e : SubscriptionEvent Value) : Prop where
  event_type : Annotation.int.Holds e.event_type
  memory_id : Annotation.int.Holds e.memory_id
  session_id : Annotation.int.Holds e.session_id
  text : Annotation.str.Holds e.text
  kind : Annotation.int.Holds e.kind
  salience : Annotation.float.Holds e.salience
  timestamp_unix_nanos : Annotation.int.Holds e.timestamp_unix_nanos
  lsn : Annotation.int.Holds e.lsn
  graph_payload : ∀ t ∈ e.graph_payload, t.Typed graphEventTypes
  edge_payload : ∀ values ∈ e.edge_payload, edgeEventPayload.Typed values
  stage_kind : Annotation.Holds (.optional .int) e.stage_kind
  stage_outcome : Annotation.Holds (.optional .int) e.stage_outcome
  stage_payload : ∀ t ∈ e.stage_payload, t.Typed stageTypes

/-! ### Payloads of an event -/

/-- A value of the nesting that loads as something to build the object from. -/
def Rebuilds {α : Type} (n : Nat) (build : Value → Except PyException α) (x : α) (m : Value) : Prop :=
  Plain n m ∧ build m.loaded = .ok x

/-- A variant is found again with its class. -/
theorem Tagged.round_trip {types : List (String × PlainClass)} (hnames : (types.map Prod.fst).Nodup)
    (hconsistent : ∀ t ∈ types, t.2.Consistent) (what : String) {t : Tagged Value} (ht : t.Typed types) :
    ∃ m, t.toCborValue = .ok m ∧ isNone m.loaded = false ∧ Rebuilds 2 (Tagged.fromCborValue types what) t m := by
  obtain ⟨variant, body, values⟩ := t
  obtain ⟨name, hmem, hvariant, hvalues⟩ := ht
  dsimp only at hmem hvariant hvalues
  subst hvariant
  obtain ⟨m, hm, -, hplain, hback⟩ := PlainClass.round_trip (hconsistent _ hmem) hvalues
  refine ⟨.dict [(name, m)], ?_, rfl, .dict (by simp) (fun e he => ?_), ?_⟩
  · unfold toCborValue
    rw [hm]
    rfl
  · rw [List.mem_singleton.1 he]
    exact hplain
  · have hsingle : single (Value.dict [(name, m)]).loaded = .ok (.str name, m.loaded) := rfl
    have hfound : types.find? (fun t => equals (Value.str name) t.1) = some (name, body) := by
      have hswap : (fun t : String × PlainClass => equals (Value.str name) t.1) = (fun t => decide (t.1 = name)) := by
        funext t
        exact decide_eq_decide.2 eq_comm
      rw [hswap]
      exact find_of_mem hnames hmem
    have hclass : classOf types what (Value.str name) = .ok (name, body) := by
      unfold classOf
      rw [hfound]
      rfl
    unfold fromCborValue
    rw [hsingle]
    simp only [bind, Except.bind, hclass, hback]
    rfl

/-- An absent payload is `None`, and a present one is none. -/
theorem noneOr_round_trip {α : Type} {toMap : α → Except PyException Value} {build : Value → Except PyException α} {n : Nat}
    {o : Option α} (h : ∀ x ∈ o, ∃ m, toMap x = .ok m ∧ isNone m.loaded = false ∧ Rebuilds n build x m) :
    ∃ m, noneOr toMap o = .ok m ∧ Rebuilds n (optional build) o m := by
  rcases o with - | x
  · exact ⟨.none, rfl, .none, rfl⟩
  · obtain ⟨m, hm, hnone, hplain, hback⟩ := h x rfl
    refine ⟨m, hm, hplain, ?_⟩
    unfold optional
    rw [hnone, hback]
    rfl

/-- An instance of a class is a dict. -/
theorem PlainClass.rebuilds {c : PlainClass} (hc : c.Consistent) {values : Instance Value} (hv : c.Typed values) :
    ∃ m, c.toMapOf values = .ok m ∧ isNone m.loaded = false ∧ Rebuilds 2 c.fromMapOf values m := by
  obtain ⟨m, hm, hnone, hplain, hback⟩ := PlainClass.round_trip hc hv
  exact ⟨m, hm, hnone, hplain.mono (by decide), hback⟩

/-! ### The map of an event -/

/-- `from_map` undoes `to_map`, through the CBOR of the map. -/
theorem SubscriptionEvent.map_round_trip {e : SubscriptionEvent Value} (he : e.Typed) :
    ∃ entries, e.toMap = .ok (.dict entries) ∧ Plain 3 (.dict entries) ∧ fromMap (Value.dict entries).loaded = .ok e := by
  obtain ⟨event_type, memory_id, session_id, text, kind, salience, timestamp_unix_nanos, lsn, graph_payload, edge_payload, stage_kind,
    stage_outcome, stage_payload⟩ := e
  obtain ⟨hevent_type, hmemory_id, hsession_id, htext, hkind, hsalience, htimestamp, hlsn, hgraph, hedge, hstage_kind, hstage_outcome,
    hstage⟩ := he
  dsimp only at hevent_type hmemory_id hsession_id htext hkind hsalience htimestamp hlsn hgraph hedge hstage_kind hstage_outcome hstage
  obtain ⟨salience', hround, hplain, hloaded⟩ := written hsalience (fun _ => rfl)
  obtain ⟨graph, hg, hgraphPlain, hgraphBack⟩ := noneOr_round_trip (fun t ht =>
    Tagged.round_trip (by decide) consistent_graphEventTypes "graph event" (hgraph t ht))
  obtain ⟨edge, hedgeMap, hedgePlain, hedgeBack⟩ := noneOr_round_trip (fun values hvalues =>
    PlainClass.rebuilds consistent_edgeEventPayload (hedge values hvalues))
  obtain ⟨stage, hs, hstagePlain, hstageBack⟩ := noneOr_round_trip (fun t ht =>
    Tagged.round_trip (by decide) consistent_stageTypes "stage payload" (hstage t ht))
  have hround' : roundF32 salience = .ok salience' := hround
  obtain ⟨entries, hentries⟩ : ∃ entries, entries = [("event_type", event_type), ("memory_id", memory_id), ("session_id", session_id),
    ("text", text), ("kind", kind), ("salience", salience'), ("timestamp_unix_nanos", timestamp_unix_nanos), ("lsn", lsn),
    ("graph_payload", graph), ("edge_payload", edge), ("stage_kind", stage_kind), ("stage_outcome", stage_outcome),
    ("stage_payload", stage)] := ⟨_, rfl⟩
  have hkeys : (entries.map Prod.fst).Nodup := by simp [hentries]
  refine ⟨entries, ?_, ?_, ?_⟩
  · unfold toMap
    simp only [hround', hg, hedgeMap, hs, bind, Except.bind, hentries]
    rfl
  · have hfield : ∀ {a : Annotation} {v : Value}, a.Holds v → a.floating = false → Plain 2 v :=
      fun hv hf => (hv.plain hf).1.mono (by decide)
    refine .dict hkeys ?_
    simp only [hentries, List.forall_mem_cons]
    exact ⟨hfield hevent_type rfl, hfield hmemory_id rfl, hfield hsession_id rfl, hfield htext rfl, hfield hkind rfl,
      hplain.mono (by decide), hfield htimestamp rfl, hfield hlsn rfl, hgraphPlain, hedgePlain, hfield hstage_kind rfl,
      hfield hstage_outcome rfl, hstagePlain, fun x hx => absurd hx List.not_mem_nil⟩
  · have hfield : ∀ {a : Annotation} {k : String} {v : Value}, a.Holds v → a.floating = false → (k, v) ∈ entries →
        subscript (Value.dict entries).loaded k = .ok v := by
      intro a k v hv hf hmem
      rw [subscript_loaded hkeys hmem, (hv.plain hf).2]
    have hread : ∀ {k : String} {v : Value}, (k, v) ∈ entries → subscript (Value.dict entries).loaded k = .ok v.loaded :=
      fun hmem => subscript_loaded hkeys hmem
    unfold fromMap
    rw [hfield (k := "event_type") hevent_type rfl (by simp [hentries]), hfield (k := "memory_id") hmemory_id rfl (by simp [hentries]),
      hfield (k := "session_id") hsession_id rfl (by simp [hentries]), hfield (k := "text") htext rfl (by simp [hentries]),
      hfield (k := "kind") hkind rfl (by simp [hentries]), hread (k := "salience") (v := salience') (by simp [hentries]), hloaded,
      hfield (k := "timestamp_unix_nanos") htimestamp rfl (by simp [hentries]), hfield (k := "lsn") hlsn rfl (by simp [hentries]),
      hread (k := "graph_payload") (v := graph) (by simp [hentries]), hread (k := "edge_payload") (v := edge) (by simp [hentries]),
      hfield (k := "stage_kind") hstage_kind rfl (by simp [hentries]),
      hfield (k := "stage_outcome") hstage_outcome rfl (by simp [hentries]),
      hread (k := "stage_payload") (v := stage) (by simp [hentries])]
    have hgraph' : optional graphEventFromCborValue graph.loaded = .ok graph_payload := hgraphBack
    have hedge' : optional edgeEventPayload.fromMapOf edge.loaded = .ok edge_payload := hedgeBack
    have hstage' : optional stageFromCborValue stage.loaded = .ok stage_payload := hstageBack
    simp only [bind, Except.bind, hgraph', hedge', hstage']
    rfl

/-! ### The bytes of an event -/

/-- For every event of the types its fields are annotated with, `decode_payload` gives back the event that `encode_payload` wrote. -/
theorem event_round_trip (C : Cbor2Codec) {e : SubscriptionEvent Value} (he : e.Typed)
    (hsize : ∀ bytes, e.encodePayload C.toCbor2 = .ok bytes → bytes.length < maxBytes) :
    ∃ bytes, e.encodePayload C.toCbor2 = .ok bytes ∧ decodePayload C.loads SubscriptionEvent.fromMap bytes = .ok e := by
  obtain ⟨entries, hmap, hplain, hback⟩ := SubscriptionEvent.map_round_trip he
  obtain ⟨bytes, hbytes, hread⟩ := toCborBytes_plain C hplain
  have hencode : e.encodePayload C.toCbor2 = .ok bytes := by
    unfold SubscriptionEvent.encodePayload
    rw [hmap]
    exact hbytes
  obtain ⟨hend, hloads⟩ := hread (hsize bytes hencode)
  refine ⟨bytes, hencode, ?_⟩
  have hdict : asMap (Value.dict entries).loaded = .ok (Value.dict entries).loaded := rfl
  have hvalue : fromCbor C.loads bytes = .ok (Value.dict entries).loaded := fromCbor_ok (by simpa using hend []) hloads
  unfold decodePayload
  simp only [hvalue, hdict, bind, Except.bind, hback]

/-- A relation is created and a stage has run, with the salience 1.5 and the last memory id. -/
def relationEvent : SubscriptionEvent Value where
  event_type := .int 7
  memory_id := .int (2 ^ 128 - 1)
  session_id := .int 0
  text := .str "relation"
  kind := .int 1
  salience := .float 0x3FF8000000000000#64
  timestamp_unix_nanos := .int 1700000000000000000
  lsn := .int 5
  graph_payload := some ⟨.str "RelationCreated", relationCreatedEvent, [.bytes [1, 2], .str "knows", .bytes [3], .bytes [4]]⟩
  edge_payload := none
  stage_kind := .int 2
  stage_outcome := .none
  stage_payload := some ⟨.str "Hype", stageHypePayload, [.int 2, .int 40, .str ""]⟩

theorem event_round_trip_relation :
    ∃ bytes, relationEvent.encodePayload plainCbor2 = .ok bytes ∧
      decodePayload plainCodec.loads SubscriptionEvent.fromMap bytes = .ok relationEvent := by
  have hint : ∀ n : Int, 0 ≤ n → n < 2 ^ 128 → Annotation.int.Holds (.int n) := fun n hl hu => ⟨hl, hu⟩
  have hgraph : ∀ t ∈ relationEvent.graph_payload, t.Typed graphEventTypes := by
    rintro t ⟨⟩
    exact ⟨"RelationCreated", by decide +kernel, rfl, .cons trivial (.cons trivial (.cons trivial (.cons trivial .nil)))⟩
  have hstage : ∀ t ∈ relationEvent.stage_payload, t.Typed stageTypes := by
    rintro t ⟨⟩
    exact ⟨"Hype", by decide +kernel, rfl,
      .cons (hint 2 (by decide) (by decide)) (.cons (hint 40 (by decide) (by decide)) (.cons trivial .nil))⟩
  have hsalience : Representable 0x3FF8000000000000#64 := ⟨by decide +kernel, has_iff_round.2 (by decide +kernel)⟩
  have htyped : relationEvent.Typed :=
    ⟨hint _ (by decide) (by decide), hint _ (by decide) (by decide), hint _ (by decide) (by decide), trivial,
      hint _ (by decide) (by decide), hsalience, hint _ (by decide) (by decide), hint _ (by decide) (by decide), hgraph,
      fun values h => absurd h (by simp [relationEvent]), hint 2 (by decide) (by decide), trivial, hstage⟩
  have hlength : (relationEvent.encodePayload plainCbor2).map List.length = .ok 312 := by decide +kernel
  refine event_round_trip plainCodec htyped (fun bytes hbytes => ?_)
  have hbytes' : relationEvent.encodePayload plainCbor2 = .ok bytes := hbytes
  rw [hbytes'] at hlength
  rw [Except.ok.inj hlength]
  decide

end BrainSdk.Python.Types
