import Mathlib.Data.List.Basic

/-!
# Lines of a stream

The complete lines of a stream and what follows the last line end. Reading on from what is left gives the lines that the stream has in one
piece, so a reader that keeps the unfinished line in a buffer does not depend on how the stream is cut.
-/

namespace BrainSdk.Library

variable {α β : Type} [DecidableEq α] [DecidableEq β]

/-- The complete lines of a stream, without their ends, and the unfinished one. `line` is what has been read of the first. -/
def linesFrom (newline : α) (line : List α) : List α → List (List α) × List α
  | [] => ([], line)
  | a :: rest =>
    if a = newline then
      let r := linesFrom newline [] rest
      (line :: r.1, r.2)
    else linesFrom newline (line ++ [a]) rest

variable {newline : α}

/-- The lines of a stream that goes on. -/
theorem linesFrom_append (line a b : List α) :
    linesFrom newline line (a ++ b) =
      ((linesFrom newline line a).1 ++ (linesFrom newline (linesFrom newline line a).2 b).1,
        (linesFrom newline (linesFrom newline line a).2 b).2) := by
  induction a generalizing line with
  | nil => rfl
  | cons x a ih =>
    rw [List.cons_append, linesFrom, linesFrom]
    by_cases hx : x = newline
    · rw [if_pos hx, if_pos hx, ih]
      rfl
    · rw [if_neg hx, if_neg hx, ih]

/-- The unfinished line has no line end. -/
theorem newline_not_mem_rest {line : List α} (hline : newline ∉ line) (a : List α) : newline ∉ (linesFrom newline line a).2 := by
  induction a generalizing line with
  | nil => exact hline
  | cons x a ih =>
    rw [linesFrom]
    by_cases hx : x = newline
    · rw [if_pos hx]
      exact ih (List.not_mem_nil)
    · rw [if_neg hx]
      refine ih (fun h => ?_)
      rcases List.mem_append.1 h with h | h
      · exact hline h
      · exact hx (List.mem_singleton.1 h).symm

/-- What has no line end is read onto the line. -/
theorem linesFrom_of_not_mem {a : List α} (ha : newline ∉ a) (line b : List α) :
    linesFrom newline line (a ++ b) = linesFrom newline (line ++ a) b := by
  induction a generalizing line with
  | nil => rw [List.nil_append, List.append_nil]
  | cons x a ih =>
    have hx : x ≠ newline := fun h => ha (h ▸ List.mem_cons_self)
    rw [List.cons_append, linesFrom, if_neg hx, ih (fun h => ha (List.mem_cons_of_mem _ h)), List.append_assoc, List.singleton_append]

/-- The lines of a stream whose symbols are read as others. -/
theorem linesFrom_map {f : α → β} {newline' : β} (line a : List α) (hf : ∀ x ∈ a, f x = newline' ↔ x = newline) :
    linesFrom newline' (line.map f) (a.map f) =
      ((linesFrom newline line a).1.map (List.map f), (linesFrom newline line a).2.map f) := by
  induction a generalizing line with
  | nil => rfl
  | cons x a ih =>
    have ha : ∀ y ∈ a, f y = newline' ↔ y = newline := fun y hy => hf y (List.mem_cons_of_mem _ hy)
    rw [List.map_cons, linesFrom, linesFrom]
    by_cases hx : x = newline
    · have hnil := ih [] ha
      rw [List.map_nil] at hnil
      rw [if_pos hx, if_pos ((hf x List.mem_cons_self).2 hx), hnil]
      rfl
    · have hsnoc := ih (line ++ [x]) ha
      rw [List.map_append, List.map_singleton] at hsnoc
      rw [if_neg hx, if_neg (fun h => hx ((hf x List.mem_cons_self).1 h)), hsnoc]

/-- The symbols of the lines are symbols of the stream. -/
theorem mem_of_mem_linesFrom {line a l : List α} (hl : l ∈ (linesFrom newline line a).1) {x : α} (hx : x ∈ l) : x ∈ line ++ a := by
  induction a generalizing line with
  | nil => cases hl
  | cons y a ih =>
    rw [linesFrom] at hl
    by_cases hy : y = newline
    · rw [if_pos hy] at hl
      rcases List.mem_cons.1 hl with rfl | hl
      · exact List.mem_append_left _ hx
      · exact List.mem_append_right _ (List.mem_cons_of_mem _ (by simpa using ih hl))
    · rw [if_neg hy] at hl
      have h := ih hl
      simpa [or_assoc] using h

/-- No line has a line end. -/
theorem newline_not_mem_line {line : List α} (hline : newline ∉ line) {a l : List α} (hl : l ∈ (linesFrom newline line a).1) :
    newline ∉ l := by
  induction a generalizing line with
  | nil => cases hl
  | cons x a ih =>
    rw [linesFrom] at hl
    by_cases hx : x = newline
    · rw [if_pos hx] at hl
      rcases List.mem_cons.1 hl with rfl | hl
      · exact hline
      · exact ih List.not_mem_nil hl
    · rw [if_neg hx] at hl
      refine ih (fun h => ?_) hl
      rcases List.mem_append.1 h with h | h
      · exact hline h
      · exact hx (List.mem_singleton.1 h).symm

/-- The lines with their ends, and what is left, are the stream. -/
theorem linesFrom_join (line a : List α) :
    (linesFrom newline line a).1.flatMap (· ++ [newline]) ++ (linesFrom newline line a).2 = line ++ a := by
  induction a generalizing line with
  | nil => rw [linesFrom, List.flatMap_nil, List.nil_append, List.append_nil]
  | cons x a ih =>
    rw [linesFrom]
    by_cases hx : x = newline
    · rw [if_pos hx, List.flatMap_cons, List.append_assoc, ih [], hx, List.append_assoc]
      rfl
    · rw [if_neg hx, ih, List.append_assoc, List.singleton_append]

end BrainSdk.Library
