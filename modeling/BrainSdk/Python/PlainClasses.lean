import Mathlib.Data.List.Forall2
import BrainSdk.Python.Cbor2

/-!
# Classes of plain attributes there and back

Whether the three lists of a class fit together can be decided: each key that `from_map` reads is written from the attribute that it goes
into, rounded where the attribute is a float. For such a class `from_map` gives back the instance that `to_map` was called on.
-/

namespace BrainSdk.Python.Types

open Library Format Cbor

/-- Finite, and a number of single precision. -/
def Representable (x : Double) : Prop := x.isFinite ∧ binary32.Has x.magnitude

/-- The values of an annotation. Integers are those of a u128, floats those of single precision. -/
def Annotation.Holds : Annotation → Value → Prop
  | .int, .int n => 0 ≤ n ∧ n < 2 ^ 128
  | .float, .float x => Representable x
  | .str, .str _ => True
  | .bytes, .bytes _ => True
  | .bool, .bool _ => True
  | .optional _, .none => True
  | .optional a, v => a.Holds v
  | _, _ => False

/-- Whether floats are among the values. -/
def Annotation.floating : Annotation → Bool
  | .float => true
  | .optional a => a.floating
  | _ => false

/-- An instance with a value of its annotation in each attribute. -/
def PlainClass.Typed (c : PlainClass) (values : Instance Value) : Prop := List.Forall₂ (fun a v => Annotation.Holds a.2 v) c.attributes values

/-- The lists of a class fit together. -/
def PlainClass.Consistent (c : PlainClass) : Prop :=
  c.fromMap.length = c.attributes.length ∧ (c.attributes.map Prod.fst).Nodup ∧ (c.toMap.map MapEntry.key).Nodup ∧
    (∀ a ∈ c.attributes, a.2.floating = true → a.2 = .float) ∧
    (∀ e ∈ c.toMap, ∃ a ∈ c.attributes, a.1 = e.attr ∧ e.rounded = a.2.floating) ∧
    ∀ p ∈ c.fromMap.zip c.attributes, ∃ e ∈ c.toMap, e.key = p.1 ∧ e.attr = p.2.1

instance (c : PlainClass) : Decidable c.Consistent := inferInstanceAs (Decidable (_ ∧ _))

theorem consistent_graphEventTypes : ∀ t ∈ graphEventTypes, t.2.Consistent := by decide +kernel

theorem consistent_stageTypes : ∀ t ∈ stageTypes, t.2.Consistent := by decide +kernel

theorem consistent_edgeEventPayload : edgeEventPayload.Consistent := by decide +kernel

theorem consistent_edgeRequest : edgeRequest.Consistent := by decide +kernel

/-! ### Lists -/

theorem find_of_mem {α : Type} {entries : List (String × α)} (hnd : (entries.map Prod.fst).Nodup) {k : String} {v : α}
    (h : (k, v) ∈ entries) : entries.find? (fun e => e.1 = k) = some (k, v) := by
  induction entries with
  | nil => cases h
  | cons e entries ih =>
    rw [List.map_cons, List.nodup_cons] at hnd
    rcases List.mem_cons.1 h with rfl | hmem
    · exact List.find?_cons_of_pos (by simp)
    · have hne : ¬e.1 = k := fun heq => hnd.1 (heq ▸ List.mem_map_of_mem (f := Prod.fst) hmem)
      rw [List.find?_cons_of_neg (by simpa using hne)]
      exact ih hnd.2 hmem

theorem mapM_ok {α β ε : Type} {f : α → Except ε β} {xs : List α} {P : α → β → Prop} (h : ∀ x ∈ xs, ∃ y, f x = .ok y ∧ P x y) :
    ∃ ys, xs.mapM f = .ok ys ∧ List.Forall₂ P xs ys := by
  induction xs with
  | nil => exact ⟨[], rfl, .nil⟩
  | cons x xs ih =>
    obtain ⟨y, hy, hP⟩ := h x List.mem_cons_self
    obtain ⟨ys, hys, hall⟩ := ih (fun x' hx' => h x' (List.mem_cons_of_mem x hx'))
    refine ⟨y :: ys, ?_, .cons hP hall⟩
    rw [List.mapM_cons, hy, hys]
    rfl

theorem mapM_of_forall₂ {α β ε : Type} {f : α → Except ε β} {xs : List α} {ys : List β}
    (h : List.Forall₂ (fun x y => f x = .ok y) xs ys) : xs.mapM f = .ok ys := by
  induction h with
  | nil => rfl
  | cons hy _ ih =>
    rw [List.mapM_cons, hy, ih]
    rfl

/-- What stands at one place of two lists has something at the same place of a third. -/
theorem exists_zip {α β γ : Type} {xs : List α} {ys : List β} {zs : List γ} (hy : xs.length = ys.length) {x : α} {z : γ}
    (h : (x, z) ∈ xs.zip zs) : ∃ y, (x, y) ∈ xs.zip ys ∧ (y, z) ∈ ys.zip zs := by
  induction xs generalizing ys zs with
  | nil => cases h
  | cons x' xs ih =>
    rcases ys with - | ⟨y, ys⟩
    · cases hy
    rcases zs with - | ⟨z', zs⟩
    · cases h
    rw [List.zip_cons_cons] at h ⊢
    rcases List.mem_cons.1 h with heq | hmem
    · obtain ⟨rfl, rfl⟩ := Prod.mk.inj heq
      exact ⟨y, List.mem_cons_self, List.mem_cons_self⟩
    · obtain ⟨y', hxy, hyz⟩ := ih (Nat.succ.inj hy) hmem
      exact ⟨y', List.mem_cons_of_mem _ hxy, List.mem_cons_of_mem _ hyz⟩

/-! ### Values -/

theorem unpack_pack {x : Double} (hx : Representable x) : ∃ data, packSingle x = .ok data ∧ data.length = 4 ∧ unpackSingle data = x := by
  obtain ⟨hfits, -⟩ := has_iff_round.1 hx.2
  obtain ⟨-, hwiden⟩ := narrow_binary32.widen_round hx.2
  have hpack := structPack_ok hfits 4 "f"
  have hunpack := narrow_binary32.unpack_pack x.sign_lt hfits
  rw [hwiden] at hunpack
  generalize x.sign * binary32.signBit + binary32.round x.magnitude = bits at hpack hunpack
  refine ⟨(toBytesBE 4 bits).reverse, ?_, ?_, ?_⟩
  · unfold packSingle
    rw [hpack]
    rfl
  · rw [List.length_reverse, length_toBytesBE]
  · unfold unpackSingle
    rw [List.reverse_reverse, hunpack]

/-- A float field of single precision is written as it is. -/
theorem roundF32_eq {x : Double} (hx : Representable x) : roundF32 (.float x) = .ok (.floatField x) := by
  obtain ⟨data, hdata, -, hunpack⟩ := unpack_pack hx
  have hround : roundF32 (.float x) = (packSingle x).map (fun data => .floatField (unpackSingle data)) := by rw [roundF32]
  rw [hround, hdata]
  exact congrArg (fun y => Except.ok (Value.floatField y)) hunpack

theorem Representable.plain {x : Double} (hx : Representable x) (n : Nat) : Plain n (.floatField x) :=
  .floatField hx.1 (round32_lt_iff.1 (has_iff_round.1 hx.2).1)

/-- Values without floats are plain, and loaded as they are. -/
theorem Annotation.Holds.plain {a : Annotation} {v : Value} (h : a.Holds v) (hfloat : a.floating = false) :
    Plain 0 v ∧ v.loaded = v := by
  induction a with
  | int =>
    cases v with
    | int n => exact ⟨.int h.1, rfl⟩
    | _ => exact h.elim
  | float => cases hfloat
  | str =>
    cases v with
    | str s => exact ⟨.str s, rfl⟩
    | _ => exact h.elim
  | bytes =>
    cases v with
    | bytes b => exact ⟨.bytes b, rfl⟩
    | _ => exact h.elim
  | bool =>
    cases v with
    | bool b => exact ⟨.bool b, rfl⟩
    | _ => exact h.elim
  | optional a ih =>
    cases v with
    | none => exact ⟨.none, rfl⟩
    | _ => exact ih h hfloat

/-- The value that is written for an attribute: plain, and the attribute once it is loaded. -/
theorem written {a : Annotation} {v : Value} (h : a.Holds v) (hfloat : a.floating = true → a = .float) :
    ∃ w, (if a.floating then roundF32 v else .ok v) = .ok w ∧ Plain 0 w ∧ w.loaded = v := by
  rcases hf : a.floating with - | -
  · obtain ⟨hplain, hloaded⟩ := h.plain hf
    exact ⟨v, rfl, hplain, hloaded⟩
  · obtain rfl := hfloat hf
    cases v with
    | float x => exact ⟨.floatField x, roundF32_eq h, Representable.plain h 0, rfl⟩
    | _ => exact h.elim

/-! ### The round trip of a class -/

theorem typed_mem {c : PlainClass} {values : Instance Value} (h : c.Typed values) {a : String × Annotation} {v : Value}
    (hmem : (a, v) ∈ c.attributes.zip values) : a.2.Holds v := (List.forall₂_iff_zip.1 h).2 hmem

/-- An attribute has the value at its place. -/
theorem getAttribute_eq {c : PlainClass} (hnames : (c.attributes.map Prod.fst).Nodup) {values : Instance Value}
    (hlen : c.attributes.length ≤ values.length) {a : String × Annotation} {v : Value} (hmem : (a, v) ∈ c.attributes.zip values) :
    getAttribute c values a.1 = .ok v := by
  have hzip : (a.1, v) ∈ (c.attributes.map Prod.fst).zip values := by
    rw [List.zip_map_left]
    exact List.mem_map.2 ⟨(a, v), hmem, rfl⟩
  have hnodup : (((c.attributes.map Prod.fst).zip values).map Prod.fst).Nodup := by
    rwa [List.map_fst_zip (by rwa [List.length_map])]
  unfold getAttribute
  rw [find_of_mem hnodup hzip]
  rfl

theorem lookup_eq {entries : List (String × Value)} (hkeys : (entries.map Prod.fst).Nodup) {k : String} {v : Value}
    (h : (k, v) ∈ entries) : Value.lookup entries k = some v := by
  unfold Value.lookup
  rw [find_of_mem hkeys h]
  rfl

/-- A key of a dict has its value, once the dict is loaded. -/
theorem lookup_loaded {entries : List (String × Value)} (hkeys : (entries.map Prod.fst).Nodup) {k : String} {v : Value}
    (h : (k, v) ∈ entries) : Value.lookup (loadedEntries entries) k = some v.loaded := by
  have hkeys' : ((loadedEntries entries).map Prod.fst).Nodup := by
    rw [loadedEntries_eq, List.map_map]
    exact hkeys
  have hmem : (k, v.loaded) ∈ loadedEntries entries := by
    rw [loadedEntries_eq]
    exact List.mem_map.2 ⟨(k, v), h, rfl⟩
  exact lookup_eq hkeys' hmem

/-- `m[k]` of a key of a loaded dict. -/
theorem subscript_loaded {entries : List (String × Value)} (hkeys : (entries.map Prod.fst).Nodup) {k : String} {v : Value}
    (h : (k, v) ∈ entries) : PyObject.subscript (Value.dict entries).loaded k = .ok v.loaded := by
  have hdict : PyObject.subscript (Value.dict entries).loaded k =
      (Value.lookup (loadedEntries entries) k).elim (.error (.keyError k)) .ok := by
    rw [Value.loaded]
    rfl
  rw [hdict, lookup_loaded hkeys h, Option.elim_some]

/-- `m.get(k)` of a key of a loaded dict. -/
theorem get_loaded {entries : List (String × Value)} (hkeys : (entries.map Prod.fst).Nodup) {k : String} {v : Value}
    (h : (k, v) ∈ entries) : PyObject.get (Value.dict entries).loaded k = .ok (some v.loaded) := by
  rw [Value.loaded]
  exact congrArg Except.ok (lookup_loaded hkeys h)

/-- `m.get(k)` of another key. -/
theorem get_missing {entries : List (String × Value)} {k : String} (h : k ∉ entries.map Prod.fst) :
    PyObject.get (Value.dict entries).loaded k = .ok none := by
  have hnone : (loadedEntries entries).find? (fun e => e.1 = k) = none := by
    rw [List.find?_eq_none]
    intro e he
    rw [loadedEntries_eq] at he
    obtain ⟨e', he', rfl⟩ := List.mem_map.1 he
    rw [decide_eq_true_eq]
    intro heq
    exact h (List.mem_map.2 ⟨e', he', heq⟩)
  have hlookup : Value.lookup (loadedEntries entries) k = none := by
    unfold Value.lookup
    rw [hnone]
    rfl
  rw [Value.loaded]
  exact congrArg Except.ok hlookup

/-- `from_map` undoes `to_map`, through the CBOR of the map. -/
theorem PlainClass.round_trip {c : PlainClass} (hc : c.Consistent) {values : Instance Value} (hv : c.Typed values) :
    ∃ m, c.toMapOf values = .ok m ∧ PyObject.isNone m.loaded = false ∧ Plain 1 m ∧ c.fromMapOf m.loaded = .ok values := by
  obtain ⟨harity, hnames, hkeys, hfloat, hwrites, hreads⟩ := hc
  have hlen : c.attributes.length = values.length := hv.length_eq
  -- each entry is written from the attribute at some place
  have hstep : ∀ e ∈ c.toMap, ∃ y : String × Value,
      (do
        let value ← getAttribute c values e.attr
        let value ← e.write value
        return (e.key, value)) = .ok y ∧
      (y.1 = e.key ∧ Plain 0 y.2 ∧ ∀ a v, (a, v) ∈ c.attributes.zip values → a.1 = e.attr → y.2.loaded = v) := by
    intro e he
    obtain ⟨a, ha, hattr, hrounded⟩ := hwrites e he
    obtain ⟨v, hmem⟩ : ∃ v, (a, v) ∈ c.attributes.zip values := by
      obtain ⟨i, hi, rfl⟩ := List.mem_iff_getElem.1 ha
      have hi' : i < (c.attributes.zip values).length := by
        rw [List.length_zip]
        omega
      refine ⟨values[i], ?_⟩
      rw [← List.getElem_zip (h := hi')]
      exact List.getElem_mem hi'
    obtain ⟨w, hw, hplain, hloaded⟩ := written (typed_mem hv hmem) (hfloat a ha)
    refine ⟨(e.key, w), ?_, rfl, hplain, ?_⟩
    · have hwrite : e.write v = .ok w := by
        unfold MapEntry.write
        rw [hrounded, hw]
      rw [← hattr, getAttribute_eq hnames (Nat.le_of_eq hlen) hmem]
      simp only [bind, Except.bind, hwrite]
      rfl
    · intro a' v' hmem' hattr'
      have hv' := getAttribute_eq hnames (Nat.le_of_eq hlen) hmem'
      rw [hattr', ← hattr, getAttribute_eq hnames (Nat.le_of_eq hlen) hmem] at hv'
      rw [hloaded]
      exact Except.ok.inj hv'
  obtain ⟨entries, hentries, hall⟩ := mapM_ok hstep
  have hkeysEq : entries.map Prod.fst = c.toMap.map MapEntry.key := by
    clear hentries
    generalize c.toMap = es at hall
    induction hall with
    | nil => rfl
    | cons h _ ih => rw [List.map_cons, h.1, ih, List.map_cons]
  refine ⟨.dict entries, ?_, rfl, ?_, ?_⟩
  · unfold toMapOf
    rw [hentries]
    rfl
  · refine .dict (hkeysEq ▸ hkeys) (fun y hy => ?_)
    obtain ⟨i, hi, rfl⟩ := List.mem_iff_getElem.1 hy
    exact ((List.forall₂_iff_get.1 hall).2 i (by rw [hall.length_eq]; exact hi) hi).2.1
  · -- each key that is read was written, from the attribute at its own place
    refine mapM_of_forall₂ (List.forall₂_iff_zip.2 ⟨harity.trans hlen, ?_⟩)
    intro k v hkv
    obtain ⟨a, hka, hav⟩ := exists_zip harity hkv
    obtain ⟨e, he, hkey, hattr⟩ := hreads (k, a) hka
    obtain ⟨i, hi, rfl⟩ := List.mem_iff_getElem.1 he
    have hi' : i < entries.length := by
      rw [← hall.length_eq]
      exact hi
    obtain ⟨hk, -, hval⟩ := (List.forall₂_iff_get.1 hall).2 i hi hi'
    have hentry : (k, entries[i].2) = entries[i] := Prod.ext (hk.trans hkey).symm rfl
    have hloaded : entries[i].2.loaded = v := hval a v hav hattr.symm
    rw [subscript_loaded (hkeysEq ▸ hkeys) (hentry ▸ List.getElem_mem hi'), hloaded]

/-- A list of instances, each as its dict. -/
theorem PlainClass.list_round_trip {c : PlainClass} (hc : c.Consistent) {instances : List (Instance Value)}
    (h : ∀ values ∈ instances, c.Typed values) :
    ∃ ms, instances.mapM c.toMapOf = .ok ms ∧ Plain 2 (.list ms) ∧
      (PyObject.list (Value.list ms).loaded).bind (fun ms => ms.mapM c.fromMapOf) = .ok instances := by
  have hstep : ∀ values ∈ instances, ∃ m, c.toMapOf values = .ok m ∧ (Plain 1 m ∧ c.fromMapOf m.loaded = .ok values) := by
    intro values hvalues
    obtain ⟨m, hm, -, hplain, hback⟩ := PlainClass.round_trip hc (h values hvalues)
    exact ⟨m, hm, hplain, hback⟩
  obtain ⟨ms, hms, hall⟩ := mapM_ok hstep
  refine ⟨ms, hms, .list (fun m hm => ?_), ?_⟩
  · obtain ⟨i, hi, rfl⟩ := List.mem_iff_getElem.1 hm
    exact ((List.forall₂_iff_get.1 hall).2 i (by rw [hall.length_eq]; exact hi) hi).1
  · have hlist : PyObject.list (Value.list ms).loaded = .ok (ms.map Value.loaded) := by
      rw [Value.loaded, loadedItems_eq]
      rfl
    have hback : (ms.map Value.loaded).mapM c.fromMapOf = .ok instances := by
      refine mapM_of_forall₂ (List.forall₂_map_left_iff.2 ?_)
      exact hall.flip.imp (fun m values hm => hm.2)
    rw [hlist]
    exact hback

end BrainSdk.Python.Types
