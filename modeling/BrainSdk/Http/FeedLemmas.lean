import BrainSdk.Http.Feed

/-!
# Calls on a feed line by line

A call takes lines up to the one that dispatches a frame, whatever the reads they come in. So what the calls on a feed come to depends on
its complete lines and on how it ends, and on nothing else.
-/

namespace BrainSdk.Http

open Library

section

variable {Data : Type} (B : DataBuffer Data) (E : Ends) (decodes : Frame → Bool)

/-- Lines up to the first that dispatches a frame: the frame, the fields, and the lines after it. -/
def takeLines (s : Fields Data) : List Text → Option Frame × Fields Data × List Text
  | [] => (none, s, [])
  | line :: lines =>
    match onLine B s line with
    | (some frame, s') => (some frame, s', lines)
    | (none, s') => takeLines s' lines

/-- A feed as the lines it still has, and how it ends: the body ends, or a read fails. -/
structure LineFeed (Data : Type) where
  fields : Fields Data
  lines : List Text
  failure : Option String
  done : Bool

/-- A call on it. -/
def lineCall (s : LineFeed Data) : Given × LineFeed Data :=
  if s.done then (.stop, s)
  else
    match takeLines B s.fields s.lines, s.failure with
    | (some frame, fields, lines), _ =>
      if decodes frame then (.item frame, { s with fields := fields, lines := lines })
      else (.undecodable frame, { s with fields := fields, lines := lines, done := E.onUndecodable })
    | (none, fields, _), none => (.stop, { fields := fields, lines := [], failure := none, done := true })
    | (none, fields, _), some message => (.failed message, { fields := fields, lines := [], failure := none, done := E.onFailure })

/-- Calls one after the other. -/
def lineCalls : Nat → LineFeed Data → List (Given × Option Text)
  | 0, _ => []
  | n + 1, s =>
    let r := lineCall B E decodes s
    (r.1, r.2.fields.lastId) :: lineCalls n r.2

end

section

variable {α Data : Type} [DecidableEq α] (R : LineReader α) (B : DataBuffer Data) {E : Ends} {decodes : Frame → Bool}

/-- The loop of `take_frame` on a buffer to which more has been added. -/
theorem takeFrame_loop_append (s : Fields Data) (line rest more : List α) :
    takeFrame.loop R B s line (rest ++ more) =
      match takeFrame.loop R B s line rest with
      | (some frame, sub) => (some frame, { sub with buf := sub.buf ++ more })
      | (none, sub) => takeFrame.loop R B sub.fields sub.buf more := by
  induction rest generalizing s line with
  | nil => rfl
  | cons a rest ih =>
    rw [List.cons_append, takeFrame.loop, takeFrame.loop]
    by_cases ha : a = R.newline
    · rw [if_pos ha, if_pos ha]
      cases hon : onLine B s (R.text (R.strip line)) with
      | mk frame s' =>
        cases frame with
        | some frame => rfl
        | none => exact ih s' []
    · rw [if_neg ha, if_neg ha]
      exact ih s (line ++ [a])

/-- What has no line end is taken onto the line. -/
theorem takeFrame_loop_of_not_mem {a : List α} (ha : R.newline ∉ a) (s : Fields Data) (line rest : List α) :
    takeFrame.loop R B s line (a ++ rest) = takeFrame.loop R B s (line ++ a) rest := by
  induction a generalizing line with
  | nil => rw [List.nil_append, List.append_nil]
  | cons x a ih =>
    have hx : x ≠ R.newline := fun h => ha (h ▸ List.mem_cons_self)
    rw [List.cons_append, takeFrame.loop, if_neg hx, ih (fun h => ha (List.mem_cons_of_mem _ h)), List.append_assoc,
      List.singleton_append]

/-- What has no line end has no complete line. -/
theorem lineTexts_of_not_mem {buf : List α} (h : R.newline ∉ buf) : lineTexts R [] buf = [] := by
  have hlines := linesFrom_of_not_mem h [] []
  rw [List.append_nil, List.nil_append] at hlines
  simp only [lineTexts, hlines, linesFrom, List.map_nil]

/-- The loop takes the lines of the buffer to the first frame, and leaves an unfinished line when there is none. -/
theorem takeFrame_loop_lines (s : Fields Data) {line : List α} (hline : R.newline ∉ line) (rest : List α) :
    (takeFrame.loop R B s line rest).1 = (takeLines B s (lineTexts R line rest)).1 ∧
    (takeFrame.loop R B s line rest).2.fields = (takeLines B s (lineTexts R line rest)).2.1 ∧
    lineTexts R [] (takeFrame.loop R B s line rest).2.buf = (takeLines B s (lineTexts R line rest)).2.2 ∧
    ((takeFrame.loop R B s line rest).1 = none → R.newline ∉ (takeFrame.loop R B s line rest).2.buf) := by
  induction rest generalizing s line with
  | nil =>
    have hnil : lineTexts R [] line = [] := by
      have h := linesFrom_of_not_mem hline [] []
      rw [List.append_nil, List.nil_append] at h
      simp only [lineTexts, h, linesFrom, List.map_nil]
    exact ⟨rfl, rfl, hnil, fun _ => hline⟩
  | cons a rest ih =>
    by_cases ha : a = R.newline
    · have hcons : lineTexts R line (a :: rest) = R.text (R.strip line) :: lineTexts R [] rest := by
        simp only [lineTexts, linesFrom, if_pos ha, List.map_cons]
      rw [takeFrame.loop, if_pos ha, hcons, takeLines]
      cases hon : onLine B s (R.text (R.strip line)) with
      | mk frame s' =>
        cases frame with
        | some frame => exact ⟨rfl, rfl, rfl, by simp⟩
        | none => exact ih s' List.not_mem_nil
    · have hcons : lineTexts R line (a :: rest) = lineTexts R (line ++ [a]) rest := by
        simp only [lineTexts, linesFrom, if_neg ha]
      rw [takeFrame.loop, if_neg ha, hcons]
      refine ih s (fun h => ?_)
      rcases List.mem_append.1 h with h | h
      · exact hline h
      · exact ha (List.mem_singleton.1 h).symm

/-- `take_frame` on a buffer to which more has been added. -/
theorem takeFrame_append (sub : Subscription α Data) (more : List α) :
    takeFrame R B { sub with buf := sub.buf ++ more } =
      match takeFrame R B sub with
      | (some frame, sub') => (some frame, { sub' with buf := sub'.buf ++ more })
      | (none, sub') => takeFrame R B { sub' with buf := sub'.buf ++ more } := by
  have hrest := (takeFrame_loop_lines R B sub.fields List.not_mem_nil sub.buf).2.2.2
  unfold takeFrame
  rw [takeFrame_loop_append]
  revert hrest
  cases takeFrame.loop R B sub.fields [] sub.buf with
  | mk frame sub' =>
    cases frame with
    | some frame => exact fun _ => rfl
    | none =>
      intro hrest
      exact (takeFrame_loop_of_not_mem R B (hrest rfl) sub'.fields [] more).symm

/-- The last reads of a feed. -/
def lastReads : Option String → List (Read α)
  | none => []
  | some message => [.error message]

/-- A whole frame is given without a read. -/
theorem pull_of_frame {sub sub' : Subscription α Data} {frame : Frame} (h : takeFrame R B sub = (some frame, sub'))
    (reads : List (Read α)) : pull R B E sub reads = (.frame frame, sub', reads) := by
  unfold pull
  rw [h]

/-- Without one the reads go on. -/
theorem pull_of_none {sub sub' : Subscription α Data} (h : takeFrame R B sub = (none, sub')) (reads : List (Read α)) :
    pull R B E sub reads =
      match reads with
      | [] => (.stop, sub', [])
      | .error message :: reads => (.failed message, sub', reads)
      | .ok chunk :: reads =>
        if E.onEmpty = true ∧ chunk = [] then (.stop, sub', reads)
        else pull R B E { sub' with buf := sub'.buf ++ chunk } reads := by
  conv_lhs => unfold pull
  rw [h]
  rcases reads with - | ⟨message | chunk, reads⟩ <;> rfl

/-- A call pulls the frame that is first in the buffer and all chunks, and stops at the end of them when there is none. -/
theorem pull_eq (sub : Subscription α Data) {chunks : List (List α)} (hchunks : E.onEmpty = true → [] ∉ chunks)
    (failure : Option String) :
    match takeFrame R B { sub with buf := sub.buf ++ chunks.flatten } with
    | (some frame, sub') =>
      ∃ buf chunks', pull R B E sub (chunks.map .ok ++ lastReads failure) =
        (.frame frame, ⟨sub'.fields, buf⟩, chunks'.map .ok ++ lastReads failure) ∧ buf ++ chunks'.flatten = sub'.buf ∧ chunks' <:+ chunks
    | (none, sub') =>
      pull R B E sub (chunks.map .ok ++ lastReads failure) =
        (match failure with | none => .stop | some message => .failed message, sub', []) := by
  induction chunks generalizing sub with
  | nil =>
    rw [List.flatten_nil, List.append_nil, List.map_nil, List.nil_append]
    change match takeFrame R B sub with | (some frame, sub') => _ | (none, sub') => _
    cases htake : takeFrame R B sub with
    | mk frame sub' =>
      cases frame with
      | some frame => exact ⟨sub'.buf, [], pull_of_frame R B htake _, List.append_nil _, List.suffix_refl _⟩
      | none =>
        dsimp only
        rw [pull_of_none R B htake]
        cases failure <;> rfl
  | cons chunk chunks ih =>
    have hne : ¬(E.onEmpty = true ∧ chunk = []) := fun ⟨hE, hnil⟩ => hchunks hE (hnil ▸ List.mem_cons_self)
    have hchunks' : E.onEmpty = true → [] ∉ chunks := fun hE hmem => hchunks hE (List.mem_cons_of_mem _ hmem)
    rw [takeFrame_append, List.flatten_cons, List.map_cons, List.cons_append]
    cases htake : takeFrame R B sub with
    | mk frame sub' =>
      cases frame with
      | some frame => exact ⟨sub'.buf, chunk :: chunks, pull_of_frame R B htake _, rfl, List.suffix_refl _⟩
      | none =>
        have hrest := ih { sub' with buf := sub'.buf ++ chunk } hchunks'
        rw [pull_of_none R B htake]
        dsimp only at hrest ⊢
        rw [if_neg hne]
        rw [List.append_assoc] at hrest
        revert hrest
        cases takeFrame R B { sub' with buf := sub'.buf ++ (chunk ++ chunks.flatten) } with
        | mk frame sub'' =>
          cases frame with
          | none => exact fun h => h
          | some frame =>
            rintro ⟨buf, chunks', heq, hbuf, hsuffix⟩
            exact ⟨buf, chunks', heq, hbuf, hsuffix.trans (List.suffix_cons _ _)⟩

/-- The feed still has these lines and this end. -/
structure Reads (E : Ends) (s : Feed α Data) (l : LineFeed Data) : Prop where
  fields : s.sub.fields = l.fields
  done : s.done = l.done
  rest : s.done = false → ∃ chunks : List (List α), (E.onEmpty = true → [] ∉ chunks) ∧
    s.reads = chunks.map .ok ++ lastReads l.failure ∧ lineTexts R [] (s.sub.buf ++ chunks.flatten) = l.lines

/-- What a call pulls, from the lines that the feed still has. -/
theorem pull_lines (sub : Subscription α Data) {chunks : List (List α)} (hchunks : E.onEmpty = true → [] ∉ chunks)
    (failure : Option String) :
    match takeLines B sub.fields (lineTexts R [] (sub.buf ++ chunks.flatten)) with
    | (some frame, fields, lines) =>
      ∃ (sub' : Subscription α Data) (chunks' : List (List α)), pull R B E sub (chunks.map .ok ++ lastReads failure) =
        (.frame frame, sub', chunks'.map .ok ++ lastReads failure) ∧ sub'.fields = fields ∧
        (E.onEmpty = true → [] ∉ chunks') ∧ lineTexts R [] (sub'.buf ++ chunks'.flatten) = lines
    | (none, fields, _) =>
      ∃ sub', pull R B E sub (chunks.map .ok ++ lastReads failure) =
        (match failure with | none => .stop | some message => .failed message, sub', []) ∧ sub'.fields = fields ∧
        lineTexts R [] sub'.buf = [] := by
  have hpull := pull_eq R B sub hchunks failure
  have hlines := takeFrame_loop_lines R B sub.fields List.not_mem_nil (sub.buf ++ chunks.flatten)
  unfold takeFrame at hpull
  dsimp only at hpull
  cases htake : takeFrame.loop R B sub.fields [] (sub.buf ++ chunks.flatten) with
  | mk frame sub' =>
    cases htexts : takeLines B sub.fields (lineTexts R [] (sub.buf ++ chunks.flatten)) with
    | mk frame' rest =>
      rw [htake, htexts] at hlines
      rw [htake] at hpull
      obtain ⟨hframe, hfields, hrest, hnone⟩ := hlines
      obtain rfl : frame = frame' := hframe
      cases frame with
      | some frame =>
        obtain ⟨buf, chunks', heq, hbuf, hsuffix⟩ := hpull
        refine ⟨⟨sub'.fields, buf⟩, chunks', heq, hfields, fun hE hmem => hchunks hE (hsuffix.subset hmem), ?_⟩
        dsimp only
        rw [hbuf]
        exact hrest
      | none => exact ⟨sub', hpull, hfields, lineTexts_of_not_mem R (hnone rfl)⟩

/-- A call on a feed is a call on its lines. -/
theorem Reads.call {s : Feed α Data} {l : LineFeed Data} (h : Reads R E s l) :
    (call R B E decodes s).1 = (lineCall B E decodes l).1 ∧ Reads R E (call R B E decodes s).2 (lineCall B E decodes l).2 := by
  unfold Http.call lineCall
  cases hdone : s.done with
  | true =>
    rw [← h.done, hdone]
    exact ⟨rfl, h⟩
  | false =>
    obtain ⟨chunks, hchunks, hreads, hlines⟩ := h.rest hdone
    have hpull := pull_lines R B s.sub hchunks l.failure
    rw [h.fields, hlines] at hpull
    rw [← h.done, hdone, hreads]
    simp only [Bool.false_eq_true, if_false]
    revert hpull
    cases takeLines B l.fields l.lines with
    | mk frame rest =>
      cases frame with
      | some frame =>
        rintro ⟨sub', chunks', heq, hfields, hchunks', hrest⟩
        rw [heq]
        dsimp only
        cases decodes frame with
        | true => exact ⟨rfl, hfields, rfl, fun _ => ⟨chunks', hchunks', rfl, hrest⟩⟩
        | false => exact ⟨rfl, hfields, rfl, fun _ => ⟨chunks', hchunks', rfl, hrest⟩⟩
      | none =>
        rintro ⟨sub', heq, hfields, hrest⟩
        rw [heq]
        cases l.failure with
        | none => exact ⟨rfl, hfields, rfl, nofun⟩
        | some message =>
          refine ⟨rfl, hfields, rfl, fun _ => ⟨[], fun _ => List.not_mem_nil, rfl, ?_⟩⟩
          dsimp only
          rw [List.flatten_nil, List.append_nil]
          exact hrest

/-- Calls on a feed are calls on its lines. -/
theorem Reads.calls (n : Nat) {s : Feed α Data} {l : LineFeed Data} (h : Reads R E s l) :
    calls R B E decodes n s = lineCalls B E decodes n l := by
  induction n generalizing s l with
  | zero => rfl
  | succ n ih =>
    obtain ⟨hgiven, hnext⟩ := @Reads.call _ _ _ R B E decodes _ _ h
    rw [Http.calls, lineCalls, hgiven, hnext.fields, ih hnext]

/-- The feed of chunks that a failure may follow, as its lines. -/
def newLines (failure : Option String) (stream : List α) : LineFeed Data :=
  { fields := ⟨none, B.empty, none⟩, lines := lineTexts R [] stream, failure := failure, done := false }

/-- What calls on a feed come to depends on its stream, however it is cut into chunks. -/
theorem calls_newFeed (n : Nat) {chunks : List (List α)} (hchunks : E.onEmpty = true → [] ∉ chunks) (failure : Option String) :
    calls R B E decodes n (newFeed B (chunks.map .ok ++ lastReads failure)) =
      lineCalls B E decodes n (newLines R B failure chunks.flatten) := by
  refine Reads.calls R B n ⟨rfl, rfl, fun _ => ⟨chunks, hchunks, rfl, ?_⟩⟩
  rfl

end

end BrainSdk.Http
