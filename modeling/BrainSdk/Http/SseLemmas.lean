import BrainSdk.Http.Sse

/-!
# A feed line by line

Whatever the chunks, a feed comes to what its complete lines do to the fields, one after the other.
-/

namespace BrainSdk.Http

open Library

section

variable {Data : Type} (B : DataBuffer Data)

/-- Lines one after the other: the frames they dispatch, and the fields they leave. -/
def foldLines (s : Fields Data) : List Text → List Frame × Fields Data
  | [] => ([], s)
  | line :: lines =>
    let r := foldLines (onLine B s line).2 lines
    ((onLine B s line).1.toList ++ r.1, r.2)

theorem foldLines_append (s : Fields Data) (lines lines' : List Text) :
    foldLines B s (lines ++ lines') =
      ((foldLines B s lines).1 ++ (foldLines B (foldLines B s lines).2 lines').1, (foldLines B (foldLines B s lines).2 lines').2) := by
  induction lines generalizing s with
  | nil => rfl
  | cons line lines ih =>
    rw [List.cons_append, foldLines, foldLines, ih]
    dsimp only
    rw [List.append_assoc]

end

section

variable {α Data : Type} [DecidableEq α] (R : LineReader α) (B : DataBuffer Data)

/-- The texts of the complete lines of what is read, where `line` has been read before, and what is left. -/
def lineTexts (line a : List α) : List Text := (linesFrom R.newline line a).1.map (fun l => R.text (R.strip l))

/-- The loop of `take_frame` stops at the end of the buffer, all of whose lines it has taken, or at the first frame. -/
theorem takeFrame_loop_spec (s : Fields Data) (line rest : List α) :
    match takeFrame.loop R B s line rest with
    | (none, sub) => foldLines B s (lineTexts R line rest) = ([], sub.fields) ∧ sub.buf = (linesFrom R.newline line rest).2
    | (some frame, sub) =>
      sub.buf.length < rest.length ∧
      foldLines B s (lineTexts R line rest) =
        (frame :: (foldLines B sub.fields (lineTexts R [] sub.buf)).1, (foldLines B sub.fields (lineTexts R [] sub.buf)).2) ∧
      (linesFrom R.newline [] sub.buf).2 = (linesFrom R.newline line rest).2 := by
  induction rest generalizing s line with
  | nil => exact ⟨rfl, rfl⟩
  | cons a rest ih =>
    rw [takeFrame.loop]
    unfold lineTexts
    rw [linesFrom]
    by_cases ha : a = R.newline
    · rw [if_pos ha, if_pos ha]
      dsimp only
      rw [List.map_cons, foldLines]
      cases hon : onLine B s (R.text (R.strip line)) with
      | mk frame s' =>
        cases frame with
        | some frame => exact ⟨Nat.lt_succ_self _, rfl, rfl⟩
        | none =>
          have hrest := ih s' []
          revert hrest
          dsimp only
          cases takeFrame.loop R B s' [] rest with
          | mk frame sub =>
            cases frame with
            | none => exact fun h => h
            | some frame => exact fun h => ⟨Nat.lt_succ_of_lt h.1, h.2⟩
    · rw [if_neg ha, if_neg ha]
      have hrest := ih s (line ++ [a])
      revert hrest
      cases takeFrame.loop R B s (line ++ [a]) rest with
      | mk frame sub =>
        cases frame with
        | none => exact fun h => h
        | some frame => exact fun h => ⟨Nat.lt_succ_of_lt h.1, h.2⟩

/-- Draining a buffer takes all its lines. -/
theorem drain_spec (n : Nat) (sub : Subscription α Data) (hn : sub.buf.length < n) :
    drain R B n sub =
      ((foldLines B sub.fields (lineTexts R [] sub.buf)).1,
        ⟨(foldLines B sub.fields (lineTexts R [] sub.buf)).2, (linesFrom R.newline [] sub.buf).2⟩) := by
  induction n generalizing sub with
  | zero => exact absurd hn (Nat.not_lt_zero _)
  | succ n ih =>
    have hspec := takeFrame_loop_spec R B sub.fields [] sub.buf
    rw [drain, takeFrame]
    revert hspec
    cases takeFrame.loop R B sub.fields [] sub.buf with
    | mk frame sub' =>
      cases frame with
      | none =>
        rintro ⟨hfold, hbuf⟩
        dsimp only
        rw [hfold, ← hbuf]
      | some frame =>
        rintro ⟨hlen, hfold, hbuf⟩
        dsimp only
        rw [ih sub' (by omega), hfold, hbuf]

/-- Reading a feed to its end takes all lines of the buffer and the chunks, put end to end. -/
theorem readAll_spec (sub : Subscription α Data) (chunks : List (List α)) :
    readAll R B sub chunks =
      ((foldLines B sub.fields (lineTexts R [] (sub.buf ++ chunks.flatten))).1,
        ⟨(foldLines B sub.fields (lineTexts R [] (sub.buf ++ chunks.flatten))).2,
          (linesFrom R.newline [] (sub.buf ++ chunks.flatten)).2⟩) := by
  induction chunks generalizing sub with
  | nil => rw [readAll, drain_spec R B _ sub (Nat.lt_succ_self _), List.flatten_nil, List.append_nil]
  | cons chunk chunks ih =>
    have hrest : R.newline ∉ (linesFrom R.newline [] sub.buf).2 := newline_not_mem_rest List.not_mem_nil _
    have hlines : lineTexts R [] (sub.buf ++ (chunk ++ chunks.flatten)) =
        lineTexts R [] sub.buf ++ lineTexts R [] ((linesFrom R.newline [] sub.buf).2 ++ (chunk ++ chunks.flatten)) := by
      unfold lineTexts
      rw [linesFrom_append, linesFrom_of_not_mem hrest, List.nil_append, List.map_append]
    have hleft : (linesFrom R.newline [] (sub.buf ++ (chunk ++ chunks.flatten))).2 =
        (linesFrom R.newline [] ((linesFrom R.newline [] sub.buf).2 ++ (chunk ++ chunks.flatten))).2 := by
      rw [linesFrom_append, linesFrom_of_not_mem hrest, List.nil_append]
    rw [readAll, drain_spec R B _ sub (Nat.lt_succ_self _)]
    dsimp only
    rw [ih]
    dsimp only
    rw [List.flatten_cons, List.append_assoc, hlines, foldLines_append, hleft]

/-- What a feed comes to, from its complete lines. -/
theorem feed_eq (chunks : List (List α)) :
    feed R B chunks =
      ((foldLines B ⟨none, B.empty, none⟩ (lineTexts R [] chunks.flatten)).1,
        (foldLines B ⟨none, B.empty, none⟩ (lineTexts R [] chunks.flatten)).2.lastId) := by
  unfold feed
  rw [readAll_spec]
  rfl

end

end BrainSdk.Http
