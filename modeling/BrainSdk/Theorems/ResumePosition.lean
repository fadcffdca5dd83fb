import BrainSdk.Theorems.ChunkFree

/-!
# Where a feed resumes

The last event id is set when an id line is read, and the item of its frame is given out at the blank line after it. So a feed that is cut
between the two, or a frame that does not decode, leaves the id of an item that no caller has seen.
-/

namespace BrainSdk.Http

open Library

/-! ### The frames of a feed -/

/-- The value of a line that sets the named field. -/
def fieldValue (name : String) (line : Text) : Option Text :=
  if line.head? ≠ some ':' ∧ (partition line).1 = name.toList then some (removeSpace (partition line).2) else none

/-- The lines of a feed between blank lines, and those after the last. -/
def blocks (lines : List Text) : List (List Text) × List Text := linesFrom ([] : Text) [] lines

/-- The id of some lines: that of the last id line. -/
def idOf (lines : List Text) : Option Text := (lines.filterMap (fieldValue "id")).getLast?

/-- Every frame has one id line and a data line. What has neither is no frame, as a comment is. -/
def WellFormed (lines : List Text) : Prop :=
  ∀ block ∈ (blocks lines).1,
    (block.filterMap (fieldValue "id") = [] ∧ block.filterMap (fieldValue "data") = []) ∨
    ((block.filterMap (fieldValue "id")).length = 1 ∧ block.filterMap (fieldValue "data") ≠ [])

section

variable {Data : Type} (B : DataBuffer Data) (E : Ends) (decodes : Frame → Bool)

/-- The data of some lines. -/
def dataOf (lines : List Text) : Data := (lines.filterMap (fieldValue "data")).foldl B.push B.empty

/-- The frame of a block. -/
def frameOf (block : List Text) : Frame :=
  { event := (block.filterMap (fieldValue "event")).getLast?, data := B.join (dataOf B block) }

/-- The blocks of a feed that are dispatched: those with data. -/
def frames (lines : List Text) : List (List Text) := (blocks lines).1.filter (fun block => !B.isEmpty (dataOf B block))

/-- The ids of the frames that decode. -/
def handed (blocks : List (List Text)) : List (Option Text) := (blocks.filter (fun block => decodes (frameOf B block))).map idOf

/-- Every frame that does not decode repeats the id of one that was given out before, and the last id line that came is that of a frame that
was given out. A feed that ends at the first frame that does not decode comes no further. -/
def Resumable (lines : List Text) : Prop :=
  (∀ before block after, frames B lines = before ++ block :: after →
    (E.onUndecodable = true → ∀ b ∈ before, decodes (frameOf B b) = true) → decodes (frameOf B block) = false →
    idOf block ∈ handed B decodes before) ∧
  ((E.onUndecodable = true → ∀ b ∈ frames B lines, decodes (frameOf B b) = true) →
    idOf lines ≠ none → idOf lines ∈ handed B decodes (frames B lines))

/-- Where every frame decodes, only the last id line is in question. -/
theorem resumable_of_decode {lines : List Text}
    (h : (∀ block ∈ frames B lines, decodes (frameOf B block) = true) ∧ idOf lines ∈ handed B decodes (frames B lines)) :
    Resumable B E decodes lines := by
  refine ⟨fun before block after hframes _ hno => ?_, fun _ _ => h.2⟩
  have hyes : decodes (frameOf B block) = true := h.1 block (by rw [hframes]; simp)
  rw [hno] at hyes
  cases hyes

end

/-- The last event id after some calls is unset, or it is the one there was when an item was given out. -/
def Delivered (given : List (Given × Option Text)) : Prop :=
  ∀ id, given.getLast?.bind Prod.snd = some id → ∃ frame, (Given.item frame, some id) ∈ given

/-! ### Lines, blocks and calls -/

/-- A buffer that is empty is the one that nothing was pushed to. -/
structure LawfulBuffer {Data : Type} (B : DataBuffer Data) : Prop where
  empty : B.isEmpty B.empty = true
  of_isEmpty : ∀ data, B.isEmpty data = true → data = B.empty

theorem lawful_lineBuffer : LawfulBuffer lineBuffer := ⟨rfl, fun _ h => List.isEmpty_iff.1 h⟩

theorem lawful_joinedBuffer : LawfulBuffer Rust.joinedBuffer := ⟨rfl, fun _ h => List.isEmpty_iff.1 h⟩

section

variable {Data : Type} {B : DataBuffer Data} {E : Ends} {decodes : Frame → Bool}

/-- A line that is not blank sets what its field names. -/
theorem onLine_fields (s : Fields Data) {line : Text} (h : line ≠ []) :
    onLine B s line =
      (none,
        { event := (fieldValue "event" line).or s.event
          data := (fieldValue "data" line).toList.foldl B.push s.data
          lastId := (fieldValue "id" line).or s.lastId }) := by
  unfold onLine
  rw [if_neg h]
  by_cases hcolon : line.head? = some ':'
  · simp [fieldValue, hcolon]
  · rw [if_neg hcolon]
    by_cases hevent : (partition line).1 = "event".toList
    · simp [fieldValue, hcolon, hevent]
    · by_cases hid : (partition line).1 = "id".toList
      · simp [fieldValue, hcolon, hid]
      · by_cases hdata : (partition line).1 = "data".toList
        · simp [fieldValue, hcolon, hdata]
        · rw [if_neg hevent, if_neg hid, if_neg hdata]
          simp only [fieldValue, hevent, hid, hdata, and_false, if_false]
          rfl

/-- The last value of a line and others is theirs, else its own. -/
theorem getLast?_filterMap_cons {α β : Type} (g : α → Option β) (a : α) (l : List α) :
    ((a :: l).filterMap g).getLast? = (l.filterMap g).getLast?.or (g a) := by
  cases ha : g a with
  | none => rw [List.filterMap_cons_none ha, Option.or_none]
  | some b =>
    rw [List.filterMap_cons_some ha, List.getLast?_cons]
    cases (l.filterMap g).getLast? <;> rfl

/-- The last value of some lines and others is theirs, else that of the first. -/
theorem idOf_append (l l' : List Text) : idOf (l ++ l') = (idOf l').or (idOf l) := by
  unfold idOf
  rw [List.filterMap_append, List.getLast?_append]

/-- Lines that are not blank are taken one after the other. -/
theorem takeLines_block (s : Fields Data) {block : List Text} (hblock : [] ∉ block) (rest : List Text) :
    takeLines B s (block ++ rest) =
      takeLines B
        { event := (block.filterMap (fieldValue "event")).getLast?.or s.event
          data := (block.filterMap (fieldValue "data")).foldl B.push s.data
          lastId := (idOf block).or s.lastId } rest := by
  induction block generalizing s with
  | nil => rfl
  | cons line block ih =>
    have hline : line ≠ [] := fun h => hblock (h ▸ List.mem_cons_self)
    have hrest : [] ∉ block := fun h => hblock (List.mem_cons_of_mem _ h)
    rw [List.cons_append, takeLines, onLine_fields s hline]
    dsimp only
    rw [ih _ hrest]
    unfold idOf
    rw [getLast?_filterMap_cons, getLast?_filterMap_cons, Option.or_assoc, Option.or_assoc]
    congr 2
    cases hdata : fieldValue "data" line with
    | none => rw [List.filterMap_cons_none hdata]; rfl
    | some value => rw [List.filterMap_cons_some hdata]; rfl

/-- The fields between two blocks. -/
def between (B : DataBuffer Data) (lastId : Option Text) : Fields Data := { event := none, data := B.empty, lastId := lastId }

/-- A block is dispatched when it has data, and is dropped otherwise. -/
theorem takeLines_blank (hB : LawfulBuffer B) (lastId : Option Text) {block : List Text} (hblock : [] ∉ block) (rest : List Text) :
    takeLines B (between B lastId) (block ++ [] :: rest) =
      if B.isEmpty (dataOf B block) then takeLines B (between B ((idOf block).or lastId)) rest
      else (some (frameOf B block), between B ((idOf block).or lastId), rest) := by
  have hdata : (block.filterMap (fieldValue "data")).foldl B.push (between B lastId).data = dataOf B block := rfl
  rw [takeLines_block _ hblock, hdata, takeLines, onLine, if_pos rfl]
  dsimp only
  by_cases hempty : B.isEmpty (dataOf B block) = true
  · rw [if_pos hempty, if_pos hempty]
    dsimp only
    rw [hB.of_isEmpty _ hempty]
    rfl
  · rw [if_neg hempty, if_neg hempty]
    dsimp only
    unfold frameOf between
    rw [Option.or_none]

/-- What follows the last blank line dispatches nothing. -/
theorem takeLines_left (lastId : Option Text) {left : List Text} (hleft : [] ∉ left) :
    ∃ fields, takeLines B (between B lastId) left = (none, fields, []) ∧ fields.lastId = (idOf left).or lastId := by
  have h := takeLines_block (B := B) (between B lastId) hleft []
  rw [List.append_nil] at h
  exact ⟨_, h, rfl⟩

/-- The last event id after any calls is unset, that of an item given out before, or that of one they gave out. -/
def DeliveredFrom (B : DataBuffer Data) (E : Ends) (decodes : Frame → Bool) (given : List (Option Text)) (l : LineFeed Data) : Prop :=
  ∀ n id, (lineCalls B E decodes n l).getLast?.bind Prod.snd = some id →
    some id ∈ given ∨ ∃ frame, (Given.item frame, some id) ∈ lineCalls B E decodes n l

/-- The last of some calls is the last of those after the first, or the first. -/
theorem last_lineCalls (n : Nat) (l : LineFeed Data) :
    (lineCalls B E decodes (n + 1) l).getLast?.bind Prod.snd =
      if n = 0 then (lineCall B E decodes l).2.fields.lastId
      else (lineCalls B E decodes n (lineCall B E decodes l).2).getLast?.bind Prod.snd := by
  rw [lineCalls, List.getLast?_cons]
  cases n with
  | zero => rfl
  | succ n =>
    rw [if_neg (Nat.succ_ne_zero n), lineCalls, List.getLast?_cons]
    rfl

/-- A call that gives an item out hands its id on. -/
theorem deliveredFrom_of_item {given : List (Option Text)} {l l' : LineFeed Data} {frame : Frame}
    (h : lineCall B E decodes l = (.item frame, l')) :
    DeliveredFrom B E decodes given l ↔ DeliveredFrom B E decodes (given ++ [l'.fields.lastId]) l' := by
  have hcalls : ∀ n, lineCalls B E decodes (n + 1) l = (.item frame, l'.fields.lastId) :: lineCalls B E decodes n l' := by
    intro n
    rw [lineCalls, h]
  constructor
  · intro hd n id hlast
    have hn : n ≠ 0 := by
      rintro rfl
      cases hlast
    have hlast' := @last_lineCalls Data B E decodes n l
    rw [if_neg hn, h] at hlast'
    rcases hd (n + 1) id (hlast'.trans hlast) with hgiven | ⟨frame', hmem⟩
    · exact .inl (List.mem_append_left _ hgiven)
    · rw [hcalls] at hmem
      rcases List.mem_cons.1 hmem with heq | hmem
      · exact .inl (List.mem_append_right _ (List.mem_singleton.2 (Prod.mk.inj heq).2))
      · exact .inr ⟨frame', hmem⟩
  · intro hd n id hlast
    cases n with
    | zero => cases hlast
    | succ n =>
      rw [last_lineCalls, h] at hlast
      rw [hcalls]
      split at hlast
      · have hid : l'.fields.lastId = some id := hlast
        exact .inr ⟨frame, by rw [hid]; exact List.mem_cons_self⟩
      · rcases hd n id hlast with hgiven | ⟨frame', hmem⟩
        · rcases List.mem_append.1 hgiven with hgiven | hid
          · exact .inl hgiven
          · exact .inr ⟨frame, by rw [← List.mem_singleton.1 hid]; exact List.mem_cons_self⟩
        · exact .inr ⟨frame', List.mem_cons_of_mem _ hmem⟩

/-- A call that gives no item out must leave an id that was handed on before. -/
theorem deliveredFrom_of_not_item {given : List (Option Text)} {l l' : LineFeed Data} {g : Given} (h : lineCall B E decodes l = (g, l'))
    (hg : ∀ frame, g ≠ .item frame) :
    DeliveredFrom B E decodes given l ↔
      (l'.fields.lastId ≠ none → l'.fields.lastId ∈ given) ∧ DeliveredFrom B E decodes given l' := by
  have hcalls : ∀ n, lineCalls B E decodes (n + 1) l = (g, l'.fields.lastId) :: lineCalls B E decodes n l' := by
    intro n
    rw [lineCalls, h]
  have hmem : ∀ n frame id, (Given.item frame, some id) ∈ lineCalls B E decodes (n + 1) l →
      (Given.item frame, some id) ∈ lineCalls B E decodes n l' := by
    intro n frame id hmem
    rw [hcalls] at hmem
    exact (List.mem_cons.1 hmem).resolve_left (fun heq => hg frame (Prod.mk.inj heq).1.symm)
  constructor
  · intro hd
    refine ⟨fun hne => ?_, fun n id hlast => ?_⟩
    · obtain ⟨id, hid⟩ := Option.ne_none_iff_exists'.1 hne
      have hlast := @last_lineCalls Data B E decodes 0 l
      rw [if_pos rfl, h] at hlast
      rw [hid]
      refine (hd 1 id (hlast.trans hid)).resolve_right ?_
      rintro ⟨frame, hitem⟩
      cases hmem 0 frame id hitem
    · have hn : n ≠ 0 := by
        rintro rfl
        cases hlast
      have hlast' := @last_lineCalls Data B E decodes n l
      rw [if_neg hn, h] at hlast'
      rcases hd (n + 1) id (hlast'.trans hlast) with hgiven | ⟨frame, hitem⟩
      · exact .inl hgiven
      · exact .inr ⟨frame, hmem n frame id hitem⟩
  · rintro ⟨hid, hd⟩ n id hlast
    cases n with
    | zero => cases hlast
    | succ n =>
      rw [last_lineCalls, h] at hlast
      rw [hcalls]
      split at hlast
      · have hid' : l'.fields.lastId = some id := hlast
        rw [hid'] at hid
        exact .inl (hid (by simp))
      · rcases hd n id hlast with hgiven | ⟨frame, hitem⟩
        · exact .inl hgiven
        · exact .inr ⟨frame, List.mem_cons_of_mem _ hitem⟩

/-- A feed with nothing more to give keeps its last event id. -/
theorem deliveredFrom_idle {given : List (Option Text)} {l : LineFeed Data} (hl : l.done = true ∨ (l.lines = [] ∧ l.failure = none)) :
    DeliveredFrom B E decodes given l ↔ (l.fields.lastId ≠ none → l.fields.lastId ∈ given) := by
  have hcall : ∃ l', lineCall B E decodes l = (.stop, l') ∧ l'.done = true ∧ l'.fields.lastId = l.fields.lastId := by
    unfold lineCall
    by_cases hdone : l.done = true
    · rw [if_pos hdone]
      exact ⟨l, rfl, hdone, rfl⟩
    · obtain ⟨hlines, hfailure⟩ := hl.resolve_left hdone
      rw [if_neg hdone, hlines, hfailure]
      exact ⟨_, rfl, rfl, rfl⟩
  obtain ⟨l', hcall, hdone, hid⟩ := hcall
  have hdone' : lineCall B E decodes l' = (.stop, l') := by
    unfold lineCall
    rw [if_pos hdone]
  rw [deliveredFrom_of_not_item hcall nofun, hid]
  refine and_iff_left_of_imp ?_
  intro hlast n
  induction n with
  | zero => nofun
  | succ n ih =>
    intro id hlast'
    rw [last_lineCalls, hdone'] at hlast'
    split at hlast'
    · have hid' : l'.fields.lastId = some id := hlast'
      rw [hid] at hid'
      rw [hid'] at hlast
      exact .inl (hlast nofun)
    · rcases ih id hlast' with hgiven | ⟨frame, hitem⟩
      · exact .inl hgiven
      · rw [lineCalls, hdone']
        exact .inr ⟨frame, List.mem_cons_of_mem _ hitem⟩

/-- `Resumable` of frames that come after items with the ids `given`, where `last` is the last id of all. -/
def ResumableFrom (B : DataBuffer Data) (E : Ends) (decodes : Frame → Bool) (given : List (Option Text)) (last : Option Text)
    (frames : List (List Text)) : Prop :=
  (∀ before block after, frames = before ++ block :: after →
    (E.onUndecodable = true → ∀ b ∈ before, decodes (frameOf B b) = true) → decodes (frameOf B block) = false →
    idOf block ∈ given ++ handed B decodes before) ∧
  ((E.onUndecodable = true → ∀ b ∈ frames, decodes (frameOf B b) = true) → last ≠ none → last ∈ given ++ handed B decodes frames)

theorem resumableFrom_nil {given : List (Option Text)} {last : Option Text} :
    ResumableFrom B E decodes given last [] ↔ (last ≠ none → last ∈ given) := by
  constructor
  · intro h hlast
    have := h.2 (fun _ => nofun) hlast
    rwa [handed, List.filter_nil, List.map_nil, List.append_nil] at this
  · intro h
    refine ⟨fun before block after hnil => ?_, fun _ hlast => List.mem_append_left _ (h hlast)⟩
    simp at hnil

theorem handed_cons_of_decodes {block : List Text} (h : decodes (frameOf B block) = true) (frames : List (List Text)) :
    handed B decodes (block :: frames) = idOf block :: handed B decodes frames := by
  simp only [handed, List.filter_cons, h, if_true, List.map_cons]

theorem handed_cons_of_undecodable {block : List Text} (h : decodes (frameOf B block) = false) (frames : List (List Text)) :
    handed B decodes (block :: frames) = handed B decodes frames := by
  simp only [handed, List.filter_cons, h, Bool.false_eq_true, if_false]

theorem resumableFrom_of_decodes {given : List (Option Text)} {last : Option Text} {block : List Text} {frames : List (List Text)}
    (h : decodes (frameOf B block) = true) :
    ResumableFrom B E decodes given last (block :: frames) ↔ ResumableFrom B E decodes (given ++ [idOf block]) last frames := by
  constructor
  · rintro ⟨hframes, hlast⟩
    refine ⟨fun before b after hsplit hall hb => ?_, fun hall hne => ?_⟩
    · have := hframes (block :: before) b after (by rw [hsplit, List.cons_append]) ?_ hb
      · rwa [handed_cons_of_decodes h, ← List.singleton_append, ← List.append_assoc] at this
      · exact fun hE => List.forall_mem_cons.2 ⟨h, hall hE⟩
    · have := hlast (fun hE => List.forall_mem_cons.2 ⟨h, hall hE⟩) hne
      rwa [handed_cons_of_decodes h, ← List.singleton_append, ← List.append_assoc] at this
  · rintro ⟨hframes, hlast⟩
    refine ⟨fun before b after hsplit hall hb => ?_, fun hall hne => ?_⟩
    · cases before with
      | nil =>
        obtain ⟨rfl, -⟩ := List.cons.inj hsplit
        exact nomatch h.symm.trans hb
      | cons b' before =>
        obtain ⟨rfl, hrest⟩ := List.cons.inj hsplit
        rw [handed_cons_of_decodes h, ← List.singleton_append, ← List.append_assoc]
        exact hframes before b after hrest (fun hE => (List.forall_mem_cons.1 (hall hE)).2) hb
    · rw [handed_cons_of_decodes h, ← List.singleton_append, ← List.append_assoc]
      exact hlast (fun hE => (List.forall_mem_cons.1 (hall hE)).2) hne

theorem resumableFrom_of_undecodable {given : List (Option Text)} {last : Option Text} {block : List Text} {frames : List (List Text)}
    (h : decodes (frameOf B block) = false) :
    ResumableFrom B E decodes given last (block :: frames) ↔
      idOf block ∈ given ∧ (E.onUndecodable = false → ResumableFrom B E decodes given last frames) := by
  constructor
  · rintro ⟨hframes, hlast⟩
    refine ⟨?_, fun hE => ⟨fun before b after hsplit hall hb => ?_, fun hall hne => ?_⟩⟩
    · have := hframes [] block frames rfl (fun _ => nofun) h
      rwa [handed, List.filter_nil, List.map_nil, List.append_nil] at this
    · have := hframes (block :: before) b after (by rw [hsplit, List.cons_append]) (fun hE' => nomatch hE.symm.trans hE') hb
      rwa [handed_cons_of_undecodable h] at this
    · have := hlast (fun hE' => nomatch hE.symm.trans hE') hne
      rwa [handed_cons_of_undecodable h] at this
  · rintro ⟨hid, hrest⟩
    refine ⟨fun before b after hsplit hall hb => ?_, fun hall hne => ?_⟩
    · cases before with
      | nil =>
        obtain ⟨rfl, -⟩ := List.cons.inj hsplit
        exact List.mem_append_left _ hid
      | cons b' before =>
        obtain ⟨rfl, htail⟩ := List.cons.inj hsplit
        have hE : E.onUndecodable = false :=
          Bool.eq_false_iff.2 fun hE => nomatch h.symm.trans (hall hE block List.mem_cons_self)
        rw [handed_cons_of_undecodable h]
        exact (hrest hE).1 before b after htail (fun hE' => nomatch hE.symm.trans hE') hb
    · have hE : E.onUndecodable = false :=
        Bool.eq_false_iff.2 fun hE => nomatch h.symm.trans (hall hE block List.mem_cons_self)
      rw [handed_cons_of_undecodable h]
      exact (hrest hE).2 (fun hE' => nomatch hE.symm.trans hE') hne

/-- Some blocks with their blank lines, and the lines after them. -/
def linesOf (bs : List (List Text)) (left : List Text) : List Text := bs.flatMap (· ++ [[]]) ++ left

theorem linesOf_cons (block : List Text) (bs : List (List Text)) (left : List Text) :
    linesOf (block :: bs) left = block ++ [] :: linesOf bs left := by
  unfold linesOf
  rw [List.flatMap_cons, List.append_assoc, List.append_assoc, List.singleton_append]

/-- Block after block: the blocks that are dispatched hand on their ids as long as they decode. -/
theorem deliveredFrom_iff (hB : LawfulBuffer B) {bs : List (List Text)} {left : List Text} (hbs : ∀ b ∈ bs, [] ∉ b) (hleft : [] ∉ left)
    (hid : ∀ b ∈ bs, B.isEmpty (dataOf B b) = false → idOf b ≠ none) (failure : Option String) (given : List (Option Text))
    (lastId : Option Text) :
    DeliveredFrom B E decodes given { fields := between B lastId, lines := linesOf bs left, failure := failure, done := false } ↔
      ResumableFrom B E decodes given ((idOf (linesOf bs left)).or lastId) (bs.filter (fun block => !B.isEmpty (dataOf B block))) := by
  induction bs generalizing given lastId with
  | nil =>
    obtain ⟨fields, htake, hlast⟩ := takeLines_left (B := B) lastId hleft
    rw [List.filter_nil, resumableFrom_nil]
    rw [show linesOf [] left = left from rfl, ← hlast]
    cases failure with
    | none =>
      have hcall : lineCall B E decodes ⟨between B lastId, left, none, false⟩ = (.stop, ⟨fields, [], none, true⟩) := by
        simp only [lineCall, htake, Bool.false_eq_true, if_false]
      rw [deliveredFrom_of_not_item hcall (by simp), deliveredFrom_idle (.inl rfl)]
      exact and_self_iff
    | some message =>
      have hcall : lineCall B E decodes ⟨between B lastId, left, some message, false⟩ =
          (.failed message, ⟨fields, [], none, E.onFailure⟩) := by
        simp only [lineCall, htake, Bool.false_eq_true, if_false]
      rw [deliveredFrom_of_not_item hcall (by simp), deliveredFrom_idle (.inr ⟨rfl, rfl⟩)]
      exact and_self_iff
  | cons block bs ih =>
    obtain ⟨hblock, hbs⟩ := List.forall_mem_cons.1 hbs
    obtain ⟨hidblock, hid⟩ := List.forall_mem_cons.1 hid
    have htake := takeLines_blank hB lastId hblock (linesOf bs left)
    have hlast : (idOf (linesOf (block :: bs) left)).or lastId = (idOf (linesOf bs left)).or ((idOf block).or lastId) := by
      rw [linesOf_cons, idOf_append, Option.or_assoc]
      rfl
    rw [hlast, linesOf_cons]
    cases hempty : B.isEmpty (dataOf B block) with
    | true =>
      rw [if_pos hempty] at htake
      rw [List.filter_cons_of_neg (by simp [hempty]), ← ih hbs hid]
      have hsame : ∀ n, lineCalls B E decodes n ⟨between B lastId, block ++ [] :: linesOf bs left, failure, false⟩ =
          lineCalls B E decodes n ⟨between B ((idOf block).or lastId), linesOf bs left, failure, false⟩ := by
        intro n
        cases n with
        | zero => rfl
        | succ n =>
          have hcall : lineCall B E decodes ⟨between B lastId, block ++ [] :: linesOf bs left, failure, false⟩ =
              lineCall B E decodes ⟨between B ((idOf block).or lastId), linesOf bs left, failure, false⟩ := by
            simp only [lineCall, htake, Bool.false_eq_true, if_false]
          rw [lineCalls, lineCalls, hcall]
      unfold DeliveredFrom
      simp only [hsame]
    | false =>
      rw [if_neg (by rw [hempty]; exact Bool.false_ne_true)] at htake
      obtain ⟨id, hidb⟩ := Option.ne_none_iff_exists'.1 (hidblock hempty)
      rw [hidb, Option.some_or] at htake ⊢
      rw [List.filter_cons_of_pos (by simp [hempty])]
      cases hdecodes : decodes (frameOf B block) with
      | true =>
        have hcall : lineCall B E decodes ⟨between B lastId, block ++ [] :: linesOf bs left, failure, false⟩ =
            (.item (frameOf B block), ⟨between B (some id), linesOf bs left, failure, false⟩) := by
          simp only [lineCall, htake, hdecodes, Bool.false_eq_true, if_false, if_true]
        rw [deliveredFrom_of_item hcall, resumableFrom_of_decodes hdecodes, hidb]
        exact ih hbs hid _ (some id)
      | false =>
        have hcall : lineCall B E decodes ⟨between B lastId, block ++ [] :: linesOf bs left, failure, false⟩ =
            (.undecodable (frameOf B block), ⟨between B (some id), linesOf bs left, failure, E.onUndecodable⟩) := by
          simp only [lineCall, htake, hdecodes, Bool.false_eq_true, if_false]
        rw [deliveredFrom_of_not_item hcall (by simp), resumableFrom_of_undecodable hdecodes, hidb]
        cases hE : E.onUndecodable with
        | true =>
          rw [deliveredFrom_idle (.inl rfl)]
          simp [between]
        | false =>
          rw [ih hbs hid _ (some id)]
          simp [between]

/-- Every id that a feed leaves between two calls is one handed on with an item exactly when the feed is resumable. -/
theorem delivered_lines_iff (hB : LawfulBuffer B) {lines : List Text} (hwf : WellFormed lines) (failure : Option String) :
    (∀ n, Delivered (lineCalls B E decodes n { fields := between B none, lines := lines, failure := failure, done := false })) ↔
      Resumable B E decodes lines := by
  have hbs : ∀ b ∈ (blocks lines).1, [] ∉ b := fun b hb => newline_not_mem_line List.not_mem_nil hb
  have hleft : [] ∉ (blocks lines).2 := newline_not_mem_rest List.not_mem_nil lines
  have hid : ∀ b ∈ (blocks lines).1, B.isEmpty (dataOf B b) = false → idOf b ≠ none := by
    intro b hb hdata
    rcases hwf b hb with ⟨-, hnone⟩ | ⟨hone, -⟩
    · rw [dataOf, hnone, List.foldl_nil, hB.empty] at hdata
      exact nomatch hdata
    · unfold idOf
      rw [ne_eq, List.getLast?_eq_none_iff, ← List.length_eq_zero_iff, hone]
      decide
  have hjoin : linesOf (blocks lines).1 (blocks lines).2 = lines := linesFrom_join [] lines
  have h := @deliveredFrom_iff Data B E decodes hB _ _ hbs hleft hid failure [] none
  rw [hjoin, Option.or_none] at h
  have hdelivered : (∀ n, Delivered (lineCalls B E decodes n ⟨between B none, lines, failure, false⟩)) ↔
      DeliveredFrom B E decodes [] ⟨between B none, lines, failure, false⟩ := by
    simp only [Delivered, DeliveredFrom, List.not_mem_nil, false_or]
  rw [hdelivered, h]
  unfold ResumableFrom Resumable
  simp only [List.nil_append]
  rfl

end

/-- The JSON of an event of the feed, piece by piece. -/
def eventText (lsn : String) : List String :=
  ["\x7b\"event_type\":\"encoded\",", "\"memory_id\":\"5\",", "\"session_id\":1,", "\"text\":\"hi\",", "\"kind\":1,",
    "\"salience\":0.5,", "\"timestamp_unix_nanos\":7,", "\"lsn\":", lsn, "\x7d"]

/-- The frames of two such events decode. -/
def decodesEvent (frame : Frame) : Bool :=
  frame.data = (eventText "42").flatMap String.toList || frame.data = (eventText "43").flatMap String.toList

/-- A feed of one event that is cut after the id line of the next. -/
def cutFeed : List Bytes := [("id: 42\ndata: " :: eventText "42" ++ ["\n\nid: 43\n"]).flatMap utf8]

/-- The last event id is then that of the event that did not come. -/
theorem cut_feed_runs_ahead :
    (¬∀ (chunks : List Bytes) (n : Nat), [] ∉ chunks → WellFormed (lineTexts (Python.sseLine (List.map toChar)) [] chunks.flatten) →
      Delivered (Python.feedCalls (List.map toChar) decodesEvent n (bodyReads none chunks))) ∧
    (¬∀ (chunks : List Bytes) (n : Nat), WellFormed (lineTexts (Rust.sseLine (List.map toChar)) [] chunks.flatten) →
      Delivered (Rust.feedCalls (List.map toChar) decodesEvent n (bodyReads none chunks))) ∧
    ¬∀ (chunks : List Bytes) (n : Nat), WellFormed (lineTexts TypeScript.sseLine [] (chunks.flatten.map toChar)) →
      Delivered (TypeScript.feedCalls asciiDecoders.typeScript decodesEvent n (bodyReads none chunks)) := by
  have hahead : ∀ given, given = [(Given.item ⟨none, (eventText "42").flatMap String.toList⟩, some ['4', '2']),
      (Given.stop, some ['4', '3'])] → ¬Delivered given := by
    rintro given rfl h
    obtain ⟨frame, hmem⟩ := h ['4', '3'] rfl
    simp at hmem
  unfold WellFormed
  refine ⟨fun h => ?_, fun h => ?_, fun h => ?_⟩
  · exact hahead _ (by decide +kernel) (h cutFeed 2 (by decide +kernel) (by decide +kernel))
  · exact hahead _ (by decide +kernel) (h cutFeed 2 (by decide +kernel))
  · exact hahead _ (by decide +kernel) (h cutFeed 2 (by decide +kernel))

/-- For every feed whose frames have one id line each and a data line, however it is cut into chunks and wherever it ends or fails: between
any two calls the last event id is unset or that of an item given out before exactly when every frame that came and does not decode repeats
the id of such an item, and the last id line that came is that of one. -/
theorem delivered_iff_resumable {chunks : List Bytes} (hchunks : [] ∉ chunks) {D : TypeScript.TextDecoder} {whole : Bytes → Text}
    (hD : Streams D whole) (decodePython decodeRust : Bytes → Text) (decodesPython decodesRust decodesTypeScript : Frame → Bool)
    (failure : Option String) :
    (WellFormed (lineTexts (Python.sseLine decodePython) [] chunks.flatten) →
      ((∀ n, Delivered (Python.feedCalls decodePython decodesPython n (bodyReads failure chunks))) ↔
        Resumable lineBuffer Python.feedEnds decodesPython (lineTexts (Python.sseLine decodePython) [] chunks.flatten))) ∧
    (WellFormed (lineTexts (Rust.sseLine decodeRust) [] chunks.flatten) →
      ((∀ n, Delivered (Rust.feedCalls decodeRust decodesRust n (bodyReads failure chunks))) ↔
        Resumable Rust.joinedBuffer Rust.feedEnds decodesRust (lineTexts (Rust.sseLine decodeRust) [] chunks.flatten))) ∧
    (WellFormed (lineTexts TypeScript.sseLine [] (whole chunks.flatten)) →
      ((∀ n, Delivered (TypeScript.feedCalls D decodesTypeScript n (bodyReads failure chunks))) ↔
        Resumable lineBuffer TypeScript.feedEnds decodesTypeScript (lineTexts TypeScript.sseLine [] (whole chunks.flatten)))) := by
  refine ⟨fun hwf => ?_, fun hwf => ?_, fun hwf => ?_⟩
  · simp only [feedCalls_python _ _ _ failure hchunks]
    exact delivered_lines_iff lawful_lineBuffer hwf failure
  · simp only [feedCalls_rust]
    exact delivered_lines_iff lawful_joinedBuffer hwf failure
  · simp only [feedCalls_typeScript hD]
    exact delivered_lines_iff lawful_lineBuffer hwf failure

/-- Two events in whole, in two chunks. -/
def wholeFeed : List Bytes :=
  [("id: 42\ndata: " :: eventText "42" ++ ["\n\ni"]).flatMap utf8, ("d: 43\ndata: " :: eventText "43" ++ ["\n\n"]).flatMap utf8]

theorem delivered_iff_resumable_whole :
    (∀ n, Delivered (Python.feedCalls (List.map toChar) decodesEvent n (bodyReads none wholeFeed))) ∧
    (∀ n, Delivered (Rust.feedCalls (List.map toChar) decodesEvent n (bodyReads none wholeFeed))) ∧
    ∀ n, Delivered (TypeScript.feedCalls asciiDecoders.typeScript decodesEvent n (bodyReads none wholeFeed)) := by
  obtain ⟨hpython, hrust, htypeScript⟩ := @delivered_iff_resumable wholeFeed (by decide +kernel) _ _ streams_ascii (List.map toChar)
    (List.map toChar) decodesEvent decodesEvent decodesEvent none
  unfold WellFormed at hpython hrust htypeScript
  refine ⟨(hpython ?_).2 (resumable_of_decode _ _ _ ?_), (hrust ?_).2 (resumable_of_decode _ _ _ ?_),
    (htypeScript ?_).2 (resumable_of_decode _ _ _ ?_)⟩ <;>
    decide +kernel

end BrainSdk.Http
