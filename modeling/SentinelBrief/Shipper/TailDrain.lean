import SentinelBrief.Shipper.Tail

/-!
What one drain does to the part of the file read so far. Between calls the
bytes from the first one read up to the position are: whole lines already
dealt with, then the buffer or the start of a line being dropped. A line that
is dropped has fewer than a batch of usable lines before it, so lines held
back for a later call never precede a dropped one.
-/
namespace ShipperTail
open SeparatedLines Utf8Text BufferedReading

def usable (lim : Nat) (ls : List Bytes) : List Bytes := ls.filter fun l => l.length ≤ lim

def overlong (lim : Nat) (ls : List Bytes) : List Bytes := ls.filter fun l => lim < l.length

@[simp] theorem usable_nil (lim : Nat) : usable lim [] = [] := rfl

@[simp] theorem usable_append (lim : Nat) (ls ms : List Bytes) :
    usable lim (ls ++ ms) = usable lim ls ++ usable lim ms := by simp [usable]

@[simp] theorem overlong_nil (lim : Nat) : overlong lim [] = [] := rfl

@[simp] theorem overlong_append (lim : Nat) (ls ms : List Bytes) :
    overlong lim (ls ++ ms) = overlong lim ls ++ overlong lim ms := by simp [overlong]

theorem usable_cons_long {lim : Nat} {l : Bytes} (ls : List Bytes) (long : lim < l.length) :
    usable lim (l :: ls) = usable lim ls := by
  simp [usable, long]

theorem usable_cons_short {lim : Nat} {l : Bytes} (ls : List Bytes) (short : l.length ≤ lim) :
    usable lim (l :: ls) = l :: usable lim ls := by
  simp [usable, short]

theorem overlong_cons_long {lim : Nat} {l : Bytes} (ls : List Bytes) (long : lim < l.length) :
    overlong lim (l :: ls) = l :: overlong lim ls := by
  simp [overlong, long]

theorem usable_length_le (lim : Nat) (ls : List Bytes) : (usable lim ls).length ≤ ls.length :=
  List.length_filter_le _ _

theorem usable_all {lim : Nat} {ls : List Bytes} (short : ∀ l ∈ ls, l.length ≤ lim) :
    usable lim ls = ls := by
  simpa [usable] using short

theorem overlong_none {lim : Nat} {ls : List Bytes} (short : ∀ l ∈ ls, l.length ≤ lim) :
    overlong lim ls = [] := by
  simpa [overlong] using short

theorem usable_short {lim : Nat} {ls : List Bytes} : ∀ l ∈ usable lim ls, l.length ≤ lim := by
  intro l member
  simpa using (List.mem_filter.mp member).2

/-- Every over-long line has fewer than `b` usable lines before it. -/
def Early (lim b : Nat) (ls : List Bytes) : Prop :=
  ∀ before l after, ls = before ++ l :: after → lim < l.length → (usable lim before).length < b

theorem early_nil (lim b : Nat) : Early lim b [] := by
  intro before l after eq
  simp at eq

theorem early_of_short {lim b : Nat} {ls : List Bytes} (short : ∀ l ∈ ls, l.length ≤ lim) :
    Early lim b ls := by
  intro before l after eq long
  have := short l (by simp [eq])
  omega

theorem early_append_first {lim b : Nat} {ls ms : List Bytes} {l : Bytes}
    (early : Early lim b ls) (room : (usable lim ls).length < b)
    (short : ∀ m ∈ ms, m.length ≤ lim) : Early lim b (ls ++ l :: ms) := by
  intro before x after eq long
  rcases List.append_eq_append_iff.mp eq with ⟨cs, hb, ht⟩ | ⟨cs, hl, ht⟩
  · cases cs with
    | nil => simpa [hb] using room
    | cons y cs =>
      simp only [List.cons_append, List.cons.injEq] at ht
      have := short x (by simp [ht.2])
      omega
  · cases cs with
    | nil => simpa [hl] using room
    | cons y cs =>
      simp only [List.cons_append, List.cons.injEq] at ht
      obtain ⟨rfl, _⟩ := ht
      exact early before x cs hl long

/-- The first `b` usable lines and all over-long ones form an initial segment. -/
theorem early_split {lim b : Nat} {ls : List Bytes} (early : Early lim b ls) :
    ∃ front, ls = front ++ (usable lim ls).drop b ∧ usable lim front = (usable lim ls).take b := by
  induction ls generalizing b with
  | nil => exact ⟨[], by simp⟩
  | cons x ls ih =>
    by_cases long : lim < x.length
    · have tail : Early lim b ls := by
        intro before l after eq hl
        have h := early (x :: before) l after (by simp [eq]) hl
        rwa [usable_cons_long before long] at h
      obtain ⟨front, split, taken⟩ := ih tail
      refine ⟨x :: front, ?_, ?_⟩
      · rw [usable_cons_long ls long, List.cons_append, ← split]
      · rw [usable_cons_long ls long, usable_cons_long front long, taken]
    · have short : x.length ≤ lim := by omega
      cases b with
      | zero =>
        have rest : ∀ l ∈ ls, l.length ≤ lim := by
          intro l member
          obtain ⟨before, after, eq⟩ := List.append_of_mem member
          have h := early (x :: before) l after (by simp [eq])
          omega
        exact ⟨[], by rw [usable_cons_short ls short, usable_all rest]; simp, by simp⟩
      | succ b =>
        have tail : Early lim b ls := by
          intro before l after eq hl
          have h := early (x :: before) l after (by simp [eq]) hl
          rw [usable_cons_short before short] at h
          simpa using h
        obtain ⟨front, split, taken⟩ := ih tail
        refine ⟨x :: front, ?_, ?_⟩
        · rw [usable_cons_short ls short, List.drop_succ_cons, List.cons_append, ← split]
        · rw [usable_cons_short ls short, usable_cons_short front short, List.take_succ_cons, taken]

theorem chunk_le_bound (cfg : TailConfig) : cfg.readChunkBytes ≤ cfg.maxLineBytes := by
  simp only [TailConfig.maxLineBytes, maxLineBytesFactor]
  omega

theorem partial_length (buffer : Bytes) :
    buffer.length - partialStart buffer = (rest newline buffer).length := by
  have := rest_length_le (c := newline) buffer
  simp only [partialStart]
  omega

/-- State of the read loop. `seen` is everything read since the first line that
    was not handed out by an earlier call. -/
structure Loop (cfg : TailConfig) (wasDropping : Option Nat) (wasLines : Nat) (seen : Bytes)
    (d : Drain) : Prop where
  same : usable cfg.maxLineBytes (complete newline d.buffer) =
    usable cfg.maxLineBytes (complete newline seen)
  whole : d.droppingBytes = none → rest newline d.buffer = rest newline seen ∧
    (rest newline seen).length ≤ cfg.maxLineBytes
  lost : ∀ n, d.droppingBytes = some n → rest newline d.buffer = [] ∧
    (rest newline seen).length = n ∧ cfg.maxLineBytes < n ∧
    (complete newline d.buffer).length < cfg.maxBatchLines
  early : Early cfg.maxLineBytes cfg.maxBatchLines (complete newline seen)
  part : (complete newline d.buffer).Sublist (complete newline seen)
  counted : d.droppedLines + (overlong cfg.maxLineBytes (complete newline d.buffer)).length =
    wasLines + (overlong cfg.maxLineBytes (complete newline seen)).length
  moved : d.droppedBytes = 0 → d.droppingBytes = wasDropping

variable {cfg : TailConfig} {wasDropping : Option Nat} {wasLines : Nat} {seen chunk : Bytes}
  {d : Drain}

theorem loop_room (inv : Loop cfg wasDropping wasLines seen d)
    (room : (complete newline d.buffer).length < cfg.maxBatchLines) :
    (usable cfg.maxLineBytes (complete newline seen)).length < cfg.maxBatchLines := by
  rw [← inv.same]
  have := usable_length_le cfg.maxLineBytes (complete newline d.buffer)
  omega

theorem early_next_chunk (inv : Loop cfg wasDropping wasLines seen d)
    (room : (complete newline d.buffer).length < cfg.maxBatchLines)
    (short : chunk.length ≤ cfg.readChunkBytes) :
    Early cfg.maxLineBytes cfg.maxBatchLines (complete newline (seen ++ chunk)) := by
  rw [complete_append]
  have bound := chunk_le_bound cfg
  have free := sep_not_mem_rest (c := newline) seen
  cases found : complete newline chunk with
  | nil =>
    rw [(complete_free_nil free found).1, List.append_nil]
    exact inv.early
  | cons l ls =>
    rw [(complete_free_cons free found).1]
    refine early_append_first inv.early (loop_room inv room) ?_
    intro m member
    have inside : m ∈ complete newline chunk := by simp [found, member]
    have := complete_length_lt inside
    omega

theorem takeChunk_whole (inv : Loop cfg wasDropping wasLines seen d)
    (steady : d.droppingBytes = none)
    (room : (complete newline d.buffer).length < cfg.maxBatchLines)
    (short : chunk.length ≤ cfg.readChunkBytes) :
    Loop cfg wasDropping wasLines (seen ++ chunk) (takeChunk cfg chunk d) := by
  obtain ⟨tail, _⟩ := inv.whole steady
  have lines : complete newline (d.buffer ++ chunk) =
      complete newline d.buffer ++ complete newline (rest newline seen ++ chunk) := by
    rw [complete_append, tail]
  have left : rest newline (d.buffer ++ chunk) = rest newline (seen ++ chunk) := by
    rw [rest_append, tail, ← rest_append]
  have same : usable cfg.maxLineBytes (complete newline (d.buffer ++ chunk)) =
      usable cfg.maxLineBytes (complete newline (seen ++ chunk)) := by
    rw [lines, complete_append seen, usable_append, usable_append, inv.same]
  have counted : d.droppedLines +
      (overlong cfg.maxLineBytes (complete newline (d.buffer ++ chunk))).length =
      wasLines + (overlong cfg.maxLineBytes (complete newline (seen ++ chunk))).length := by
    have := inv.counted
    rw [lines, complete_append seen, overlong_append, overlong_append, List.length_append,
      List.length_append]
    omega
  have early := early_next_chunk inv room short
  have part : (complete newline (d.buffer ++ chunk)).Sublist (complete newline (seen ++ chunk)) := by
    rw [lines, complete_append seen]
    exact inv.part.append_right _
  simp only [takeChunk, skipDroppedLine, steady, dropOversizePartial, partial_length, left]
  split
  · rename_i within
    exact ⟨same, fun _ => ⟨left, within⟩, by simp, early, part, counted,
      fun zero => by rw [← steady]; exact inv.moved (by simpa using zero)⟩
  · rename_i beyond
    have cutBuffer : (d.buffer ++ chunk).take (partialStart (d.buffer ++ chunk)) =
        unlines newline (complete newline (d.buffer ++ chunk)) := take_unlines _
    have again : complete newline (unlines newline (complete newline (d.buffer ++ chunk))) =
        complete newline (d.buffer ++ chunk) := by
      have h := complete_unlines (c := newline) _ [] (sep_not_mem_complete (d.buffer ++ chunk))
      simpa using h
    have gone : rest newline (unlines newline (complete newline (d.buffer ++ chunk))) = [] := by
      have h := rest_unlines (c := newline) _ [] (sep_not_mem_complete (d.buffer ++ chunk))
      simpa using h
    -- the incomplete line is longer than a chunk, so the chunk ends no line
    have quiet : complete newline (rest newline seen ++ chunk) = [] := by
      have bound := chunk_le_bound cfg
      have free := sep_not_mem_rest (c := newline) seen
      cases found : complete newline chunk with
      | nil => exact (complete_free_nil free found).1
      | cons l ls =>
        have ending := (complete_free_cons free found).2
        have size := rest_length_le (c := newline) chunk
        rw [rest_append, ending] at beyond
        omega
    rw [cutBuffer]
    refine ⟨by rw [again]; exact same, by simp, ?_, early, by rw [again]; exact part,
      by rw [again]; exact counted, ?_⟩
    · intro n eq
      simp only [Option.some.injEq] at eq
      refine ⟨gone, eq, by omega, ?_⟩
      rw [again, lines, quiet, List.append_nil]
      exact room
    · intro none
      simp only at none
      omega

theorem takeChunk_lost {n : Nat} (inv : Loop cfg wasDropping wasLines seen d)
    (dropping : d.droppingBytes = some n) (some : chunk ≠ [])
    (short : chunk.length ≤ cfg.readChunkBytes) :
    Loop cfg wasDropping wasLines (seen ++ chunk) (takeChunk cfg chunk d) := by
  obtain ⟨gone, size, long, room⟩ := inv.lost n dropping
  have free := sep_not_mem_rest (c := newline) seen
  have bound := chunk_le_bound cfg
  have positive : 0 < chunk.length := List.length_pos_iff.mpr some
  cases found : chunk.findIdx? (· == newline) with
  | none =>
    have quiet := complete_free chunk (find_sep_none found)
    have more := complete_free_nil free quiet
    have tail : rest newline chunk = chunk := rest_free chunk (find_sep_none found)
    have lines : complete newline (seen ++ chunk) = complete newline seen := by
      rw [complete_append, more.1, List.append_nil]
    simp only [takeChunk, skipDroppedLine, dropping, found, dropOversizePartial, partial_length,
      List.append_nil, gone, List.length_nil, Nat.zero_le, if_true]
    refine ⟨by rw [lines]; exact inv.same, by simp, ?_, by rw [lines]; exact inv.early,
      by rw [lines]; exact inv.part, by rw [lines]; exact inv.counted, ?_⟩
    · intro m eq
      simp only [Option.some.injEq] at eq
      refine ⟨gone, ?_, by omega, room⟩
      rw [rest_append, more.2, tail, List.length_append]
      omega
    · intro none
      simp only at none
      omega
  | some i =>
    obtain ⟨u, v, rfl, clean, rfl⟩ := find_sep_split found
    have after : (u ++ newline :: v).drop (u.length + 1) = v := by simp
    have ended : complete newline (seen ++ (u ++ newline :: v)) =
        complete newline seen ++ (rest newline seen ++ u) :: complete newline v := by
      rw [complete_append, ← List.append_assoc, complete_free_sep _ v (by simp [free, clean])]
    have tail : rest newline (seen ++ (u ++ newline :: v)) = rest newline v := by
      rw [rest_append, ← List.append_assoc, rest_free_sep _ v (by simp [free, clean])]
    have lines : complete newline (d.buffer ++ v) =
        complete newline d.buffer ++ complete newline v := by
      rw [complete_append, gone, List.nil_append]
    have left : rest newline (d.buffer ++ v) = rest newline v := by
      rw [rest_append, gone, List.nil_append]
    have small : (rest newline v).length ≤ cfg.maxLineBytes := by
      have := rest_length_le (c := newline) v
      simp only [List.length_append, List.length_cons] at short
      omega
    have longer : cfg.maxLineBytes < (rest newline seen ++ u).length := by
      rw [List.length_append]
      omega
    simp only [takeChunk, skipDroppedLine, dropping, found, warnOversizeLine, dropOversizePartial,
      partial_length, after, left, small, if_true]
    refine ⟨?_, fun _ => ⟨by rw [left, tail], by rw [tail]; exact small⟩, by simp, ?_, ?_, ?_, ?_⟩
    · rw [lines, ended, usable_append, usable_append, usable_cons_long _ longer, inv.same]
    · rw [ended]
      refine early_append_first inv.early (loop_room inv room) ?_
      intro m member
      have := complete_length_lt (c := newline) member
      simp only [List.length_append, List.length_cons] at short
      omega
    · rw [lines, ended]
      exact inv.part.append (List.sublist_cons_self _ _)
    · have := inv.counted
      rw [lines, ended, overlong_append, overlong_append, overlong_cons_long _ longer]
      simp only [List.length_append, List.length_cons]
      omega
    · intro none
      simp only at none
      omega

theorem takeChunk_loop (inv : Loop cfg wasDropping wasLines seen d)
    (room : d.buffer.count newline < cfg.maxBatchLines) (some : chunk ≠ [])
    (short : chunk.length ≤ cfg.readChunkBytes) :
    Loop cfg wasDropping wasLines (seen ++ chunk) (takeChunk cfg chunk d) := by
  rw [count_sep] at room
  cases dropping : d.droppingBytes with
  | none => exact takeChunk_whole inv dropping room short
  | some n => exact takeChunk_lost inv dropping some short

theorem skipDroppedLine_frame (chunk : Bytes) (d : Drain) :
    (skipDroppedLine chunk d).2.2.toReader = d.toReader ∧
    (skipDroppedLine chunk d).2.2.content = d.content ∧
    (skipDroppedLine chunk d).2.2.atEof = d.atEof ∧
    (skipDroppedLine chunk d).2.2.buffer = d.buffer ∧
    (skipDroppedLine chunk d).2.2.droppedBytes = d.droppedBytes ∧
    (skipDroppedLine chunk d).1.length + (skipDroppedLine chunk d).2.1 = chunk.length := by
  unfold skipDroppedLine
  split
  · simp
  · split
    · simp
    · rename_i found
      obtain ⟨u, v, rfl, _, rfl⟩ := find_sep_split found
      simp [warnOversizeLine]
      omega

theorem dropOversizePartial_frame (cfg : TailConfig) (d : Drain) :
    (dropOversizePartial cfg d).2.toReader = d.toReader ∧
    (dropOversizePartial cfg d).2.content = d.content ∧
    (dropOversizePartial cfg d).2.atEof = d.atEof ∧
    (dropOversizePartial cfg d).2.droppedBytes = d.droppedBytes ∧
    (dropOversizePartial cfg d).2.buffer.length + (dropOversizePartial cfg d).1 = d.buffer.length := by
  simp only [dropOversizePartial]
  split
  · simp
  · have : partialStart d.buffer ≤ d.buffer.length := Nat.sub_le _ _
    simp
    omega

theorem takeChunk_frame (cfg : TailConfig) (chunk : Bytes) (d : Drain) :
    (takeChunk cfg chunk d).toReader = d.toReader ∧
    (takeChunk cfg chunk d).content = d.content ∧ (takeChunk cfg chunk d).atEof = d.atEof ∧
    (takeChunk cfg chunk d).buffer.length + (takeChunk cfg chunk d).droppedBytes =
      d.buffer.length + d.droppedBytes + chunk.length := by
  simp only [takeChunk]
  obtain ⟨reader, content, eof, buffer, bytes, total⟩ := skipDroppedLine_frame chunk d
  generalize skipDroppedLine chunk d = skipped at *
  obtain ⟨reader', content', eof', bytes', total'⟩ := dropOversizePartial_frame cfg
    { skipped.2.2 with droppedBytes := skipped.2.2.droppedBytes + skipped.2.1,
                       buffer := skipped.2.2.buffer ++ skipped.1 }
  simp only [List.length_append] at total'
  refine ⟨reader'.trans reader, content'.trans content, eof'.trans eof, ?_⟩
  rw [bytes']
  simp only [bytes, buffer] at total' ⊢
  omega

theorem loop_file (inv : Loop cfg wasDropping wasLines seen d) (reader : Reader UInt8) (content : Bytes)
    (atEof : Bool) : Loop cfg wasDropping wasLines seen
      { d with toReader := reader, content := content, atEof := atEof } :=
  ⟨inv.same, inv.whole, inv.lost, inv.early, inv.part, inv.counted, inv.moved⟩

/-- A read loop from any position, also one past the end of the file: `more` is what it reads,
    `added` what the file grows by meanwhile. -/
structure LoopFrom (cfg : TailConfig) (wasDropping : Option Nat) (wasLines : Nat)
    (growth : List Bytes) (seen more added : Bytes) (d d' : Drain) : Prop where
  loop : Loop cfg wasDropping wasLines (seen ++ more) d'
  content : d'.content = d.content ++ added
  grown : added <+: growth.flatten
  moved : d'.pos = d.pos + more.length
  read : ∀ later, more ++ pending d'.toReader (d'.content ++ later) =
    pending d.toReader (d'.content ++ later)
  fresh : Fresh d.toReader d.content → Fresh d'.toReader d'.content
  eof : d'.atEof = true →
    pending d'.toReader d'.content = [] ∧ d'.buffer.count newline < cfg.maxBatchLines
  batch : d'.atEof = false → cfg.maxBatchLines ≤ d'.buffer.count newline
  account : d'.buffer.length + d'.droppedBytes = d.buffer.length + d.droppedBytes + more.length

theorem loopFrom_full {growth : List Bytes} (inv : Loop cfg wasDropping wasLines seen d)
    (going : d.atEof = false) (full : ¬ d.buffer.count newline < cfg.maxBatchLines) :
    LoopFrom cfg wasDropping wasLines growth seen [] [] d d where
  loop := by simpa using inv
  content := by simp
  grown := List.nil_prefix
  moved := rfl
  read _ := rfl
  fresh := id
  eof eof := by simp [going] at eof
  batch _ := by omega
  account := rfl

theorem loopFrom_last {g : Bytes} {gs : List Bytes} (inv : Loop cfg wasDropping wasLines seen d)
    (room : d.buffer.count newline < cfg.maxBatchLines)
    (last : (readChunk cfg { d with content := d.content ++ g }).1 = []) :
    LoopFrom cfg wasDropping wasLines (g :: gs) seen [] g d
      { (readChunk cfg { d with content := d.content ++ g }).2 with atEof := true } where
  loop := by
    rw [List.append_nil]
    exact loop_file inv _ _ _
  content := rfl
  grown := List.prefix_append _ _
  moved := by
    rw [← last]
    rfl
  read later := by
    rw [← last]
    exact read_pending ..
  fresh held := fresh_read _ _ (fresh_grow held g)
  eof _ := by
    refine ⟨?_, room⟩
    have read := read_rest cfg.bufferBytes cfg.readChunkBytes (d.content ++ g) d.toReader
    rw [read_nil cfg.bufferBytes cfg.chunk_pos last] at read
    exact (List.append_eq_nil_iff.mp read).2
  batch eof := by cases eof
  account := rfl

theorem readChunk_length (cfg : TailConfig) (d : Drain) :
    (readChunk cfg d).1.length ≤ cfg.readChunkBytes := read_length cfg.bufferBytes ..

theorem loopFrom_turn {g : Bytes} {gs : List Bytes} {more added : Bytes} {d' : Drain}
    (later : LoopFrom cfg wasDropping wasLines gs
      (seen ++ (readChunk cfg { d with content := d.content ++ g }).1) more added
      (takeChunk cfg (readChunk cfg { d with content := d.content ++ g }).1
        (readChunk cfg { d with content := d.content ++ g }).2) d') :
    LoopFrom cfg wasDropping wasLines (g :: gs) seen
      ((readChunk cfg { d with content := d.content ++ g }).1 ++ more) (g ++ added) d d' := by
  obtain ⟨reader, content, _, total⟩ := takeChunk_frame cfg
    (readChunk cfg { d with content := d.content ++ g }).1
    (readChunk cfg { d with content := d.content ++ g }).2
  have longer : d'.content = d.content ++ g ++ added := by
    rw [later.content, content]
    rfl
  have turn : ∀ rest, (readChunk cfg { d with content := d.content ++ g }).1 ++
      pending (readChunk cfg { d with content := d.content ++ g }).2.toReader
        (d.content ++ g ++ rest) = pending d.toReader (d.content ++ g ++ rest) :=
    fun rest => read_pending ..
  refine ⟨by rw [← List.append_assoc]; exact later.loop, by rw [longer, List.append_assoc],
    ?_, ?_, ?_, ?_, later.eof, later.batch, ?_⟩
  · exact (List.prefix_append_right_inj g).mpr later.grown
  · rw [later.moved, reader, List.length_append, ← Nat.add_assoc]
    rfl
  · intro rest
    rw [List.append_assoc, later.read rest, reader, longer, List.append_assoc (d.content ++ g), turn]
  · intro held
    apply later.fresh
    rw [reader, content]
    exact fresh_read _ _ (fresh_grow held g)
  · have account := later.account
    change _ = d.buffer.length + d.droppedBytes + _ at total
    rw [List.length_append]
    omega

theorem drainLoop_from {growth : List Bytes} {d' : Drain}
    (done : drainLoop cfg growth d = some d') (going : d.atEof = false)
    (inv : Loop cfg wasDropping wasLines seen d) :
    ∃ more added, LoopFrom cfg wasDropping wasLines growth seen more added d d' := by
  induction growth generalizing d seen with
  | nil =>
    simp only [drainLoop] at done
    split at done
    · cases done
    · rename_i full
      cases done
      exact ⟨[], [], loopFrom_full inv going full⟩
  | cons g gs ih =>
    simp only [drainLoop] at done
    split at done
    · rename_i room
      split at done
      · rename_i last
        cases done
        exact ⟨[], g, loopFrom_last inv room (List.isEmpty_iff.mp last)⟩
      · rename_i some
        have eof := (takeChunk_frame cfg (readChunk cfg { d with content := d.content ++ g }).1
          (readChunk cfg { d with content := d.content ++ g }).2).2.2.1
        obtain ⟨more, added, later⟩ := ih done (eof.trans going)
          (takeChunk_loop (loop_file inv _ _ _) room (by simpa using some) (readChunk_length cfg _))
        exact ⟨_, _, loopFrom_turn later⟩
    · rename_i full
      cases done
      exact ⟨[], [], loopFrom_full inv going full⟩

/-- What the tailer carries from call to call: `left` are the bytes read after the last line
    dealt with. They are in the buffer, or belong to a line being dropped. -/
structure Carried (cfg : TailConfig) (left buffer : Bytes) (droppingBytes : Option Nat) : Prop where
  whole : droppingBytes = none → left = buffer ∧
    (∀ l ∈ complete newline buffer, l.length ≤ cfg.maxLineBytes) ∧
    (rest newline buffer).length ≤ cfg.maxLineBytes
  lost : ∀ n, droppingBytes = some n →
    buffer = [] ∧ newline ∉ left ∧ left.length = n ∧ cfg.maxLineBytes < n

/-- Between two calls: `done` are the whole lines dealt with since `base`. -/
structure Settled (cfg : TailConfig) (content : Bytes) (base : Nat) (done : List Bytes)
    (left : Bytes) (r : Reader UInt8) (buffer : Bytes) (droppingBytes : Option Nat) : Prop
    extends Carried cfg left buffer droppingBytes where
  read : content.take r.pos = content.take base ++ unlines newline done ++ left
  from_base : base ≤ r.pos
  within : r.pos ≤ content.length
  lines : ∀ l ∈ done, newline ∉ l
  fresh : Fresh r content

variable {base : Nat} {done : List Bytes} {left : Bytes}

theorem carried_loop (inv : Carried cfg left d.buffer d.droppingBytes) :
    Loop cfg d.droppingBytes d.droppedLines left d := by
  cases dropping : d.droppingBytes with
  | none =>
    obtain ⟨rfl, lines, tail⟩ := inv.whole dropping
    exact ⟨rfl, fun _ => ⟨rfl, tail⟩, by simp [dropping], early_of_short lines,
      List.Sublist.refl _, rfl, fun _ => dropping⟩
  | some n =>
    obtain ⟨empty, free, size, long⟩ := inv.lost n dropping
    have quiet := complete_free left free
    have tail : rest newline left = left := rest_free left free
    refine ⟨by simp [empty, quiet], by simp [dropping], ?_, by rw [quiet]; exact early_nil _ _,
      by simp [empty], by simp [empty, quiet], fun _ => dropping⟩
    intro m eq
    rw [dropping, Option.some.injEq] at eq
    subst eq
    exact ⟨by simp [empty], by rw [tail, size], long, by simpa [empty] using cfg.batch_pos⟩

theorem unlines_over_length (ls : List Bytes) :
    (unlines newline ls).length = (ls.map fun part => part.length + 1).sum := by
  induction ls with
  | nil => rfl
  | cons l ls ih =>
    simp only [unlines_cons, List.length_append, List.length_cons, List.map_cons, List.sum_cons]
    omega

theorem overlong_all {lim : Nat} {ls : List Bytes} (none : usable lim ls = []) :
    overlong lim ls = ls := by
  simp only [usable, overlong, List.filter_eq_nil_iff, List.filter_eq_self] at none ⊢
  intro l member
  simpa using none l member

structure Handed (cfg : TailConfig) (wasLines : Nat) (seen : Bytes) (d : Drain)
    (front : List Bytes) (left : Bytes) : Prop
    extends Carried cfg left (splitBuffer cfg d).2.buffer d.droppingBytes where
  parts : seen = unlines newline front ++ left
  clean : ∀ l ∈ front, newline ∉ l
  handed : (splitBuffer cfg d).1 = usable cfg.maxLineBytes front
  counted : (splitBuffer cfg d).2.droppedLines =
    wasLines + (overlong cfg.maxLineBytes front).length
  few : d.buffer.count newline < cfg.maxBatchLines → newline ∉ left
  many : cfg.maxBatchLines ≤ d.buffer.count newline → front ≠ []

theorem splitBuffer_handed (inv : Loop cfg wasDropping wasLines seen d) :
    ∃ front left, Handed cfg wasLines seen d front left := by
  obtain ⟨front, split, taken⟩ := early_split inv.early
  have kept : keptParts cfg d = usable cfg.maxLineBytes (complete newline seen) := inv.same
  have held : ∀ l ∈ (keptParts cfg d).drop cfg.maxBatchLines, l.length ≤ cfg.maxLineBytes := by
    intro l member
    rw [kept] at member
    exact usable_short l (List.mem_of_mem_drop member)
  rw [← kept] at split taken
  have clean : ∀ l ∈ front ++ (keptParts cfg d).drop cfg.maxBatchLines, newline ∉ l := by
    rw [← split]
    exact sep_not_mem_complete seen
  have few : d.buffer.count newline < cfg.maxBatchLines →
      (keptParts cfg d).drop cfg.maxBatchLines = [] := by
    intro room
    rw [count_sep] at room
    have := usable_length_le cfg.maxLineBytes (complete newline d.buffer)
    exact List.drop_eq_nil_of_le (by simp only [keptParts, usable] at *; omega)
  refine ⟨front, unlines newline ((keptParts cfg d).drop cfg.maxBatchLines) ++ rest newline seen,
    ⟨?_, ?_⟩, ?_, fun l member => clean l (by simp [member]), taken.symm, ?_, ?_, ?_⟩
  · intro steady
    obtain ⟨tail, short⟩ := inv.whole steady
    have free := sep_not_mem_rest (c := newline) seen
    have behind : ∀ l ∈ (keptParts cfg d).drop cfg.maxBatchLines, newline ∉ l :=
      fun l member => clean l (by simp [member])
    simp only [splitBuffer, tail]
    refine ⟨trivial, ?_, ?_⟩
    · rw [complete_unlines _ _ behind, complete_free _ free, List.append_nil]
      exact held
    · rw [rest_unlines _ _ behind, rest_free _ free]
      exact short
  · intro n dropping
    obtain ⟨gone, size, long, room⟩ := inv.lost n dropping
    have none := few (by rw [count_sep]; exact room)
    refine ⟨by simp [splitBuffer, gone, none], ?_, by simp [none, size], long⟩
    simp [none, sep_not_mem_rest]
  · rw [← List.append_assoc, ← unlines_append, ← split]
    exact (unlines_rest seen).symm
  · have counted := inv.counted
    rw [split, overlong_append, overlong_none held, List.append_nil] at counted
    exact counted
  · intro room
    simp [few room, sep_not_mem_rest]
  · rintro batch rfl
    rw [count_sep] at batch
    have positive := cfg.batch_pos
    -- nothing left the buffer, so no line of it is usable; then all of `seen` is over-long
    have none : keptParts cfg d = [] := by
      have : (keptParts cfg d).take cfg.maxBatchLines = [] := taken.symm
      rcases List.take_eq_nil_iff.mp this with zero | nil
      · omega
      · exact nil
    have seen_none : complete newline seen = [] := by
      rw [split, none]
      simp
    have part := inv.part
    rw [seen_none, List.sublist_nil] at part
    rw [part, List.length_nil] at batch
    omega

theorem splitBuffer_silent (none : (splitBuffer cfg d).1 = []) :
    (splitBuffer cfg d).2.buffer.length + (splitBuffer cfg d).2.droppedBytes =
      d.buffer.length + d.droppedBytes := by
  have positive := cfg.batch_pos
  have kept : keptParts cfg d = [] := by
    rcases List.take_eq_nil_iff.mp none with zero | nil
    · omega
    · exact nil
  have oversize : oversizeParts cfg d = complete newline d.buffer := overlong_all kept
  have size := congrArg List.length (unlines_rest (c := newline) d.buffer)
  rw [List.length_append, unlines_over_length] at size
  simp only [splitBuffer, kept, oversize, List.drop_nil, unlines_nil, List.nil_append]
  omega

/-- What one `_drain_open_file` does from any position: `more` is what it reads, `front` are the
    lines it deals with, `added` is what the file grows by. -/
structure DrainedFrom (cfg : TailConfig) (growth : List Bytes) (left more added left' : Bytes)
    (front : List Bytes) (f f' : OpenFile) (disk disk' : Disk) (t t' : LogTailer)
    (result : Except Raised (List PyStr)) : Prop where
  file : t'.file = some f'
  inode : f'.inode = f.inode
  keeps : t'.inode = t.inode
  errno : t'.lastOpenErrno = t.lastOpenErrno
  after : disk' = disk.setContent f.inode (disk.content f.inode ++ added)
  grown : added <+: growth.flatten
  moved : f'.pos = f.pos + more.length
  read : ∀ later, more ++ pending f'.toReader (disk.content f.inode ++ added ++ later) =
    pending f.toReader (disk.content f.inode ++ added ++ later)
  fresh : Fresh f.toReader (disk.content f.inode) →
    Fresh f'.toReader (disk.content f.inode ++ added)
  parts : left ++ more = unlines newline front ++ left'
  clean : ∀ l ∈ front, newline ∉ l
  carried : Carried cfg left' t'.buffer t'.droppingBytes
  counted : t'.droppedLines = t.droppedLines + (overlong cfg.maxLineBytes front).length
  batch : (usable cfg.maxLineBytes front).length ≤ cfg.maxBatchLines
  outcome : result = match (usable cfg.maxLineBytes front).mapM decode with
    | none => .error .unicodeDecodeError
    | some lines => .ok lines
  eof : t'.atEof = true →
    pending f'.toReader (disk.content f.inode ++ added) = [] ∧ newline ∉ left'
  some : t'.atEof = false → front ≠ []
  pending : (∃ lines, result = .ok lines) →
    (t'.pendingState = t.pendingState ∧ f'.pos + t.buffer.length = f.pos + t'.buffer.length ∧
      t'.droppingBytes = t.droppingBytes) ∨
    t'.pendingState = Option.some ⟨(t.inode.getD 0 : Nat), (f'.pos : Int) - t'.buffer.length⟩

theorem drainOpenFile_from {growth : List Bytes} {f : OpenFile} {disk disk' : Disk}
    {t t' : LogTailer} {result : Except Raised (List PyStr)}
    (call : drainOpenFile cfg growth f disk t = some (result, t', disk'))
    (inv : Carried cfg left t.buffer t.droppingBytes) :
    ∃ more added left' front f',
      DrainedFrom cfg growth left more added left' front f f' disk disk' t t' result := by
  simp only [drainOpenFile] at call
  cases loop : drainLoop cfg growth (beginDrain disk f t) with
  | none =>
    rw [loop] at call
    cases call
  | some d =>
    simp only [loop] at call
    obtain ⟨more, added, ran⟩ := drainLoop_from loop rfl (carried_loop (d := beginDrain disk f t) inv)
    obtain ⟨front, left', out⟩ := splitBuffer_handed ran.loop
    have content : d.content = disk.content f.inode ++ added := ran.content
    have read := ran.read
    have held := ran.fresh
    have eof : d.atEof = true →
        pending d.toReader (disk.content f.inode ++ added) = [] ∧ newline ∉ left' := by
      intro eof
      obtain ⟨ended, few⟩ := ran.eof eof
      exact ⟨by rw [← content]; exact ended, out.few few⟩
    have some : d.atEof = false → front ≠ [] := fun full => out.many (ran.batch full)
    have silent : (splitBuffer cfg d).1 = [] → (splitBuffer cfg d).2.droppedBytes = 0 →
        d.pos + t.buffer.length = f.pos + (splitBuffer cfg d).2.buffer.length ∧
        d.droppingBytes = t.droppingBytes := by
      intro none zero
      have account : d.buffer.length + d.droppedBytes = t.buffer.length + 0 + more.length := ran.account
      have moved : d.pos = f.pos + more.length := ran.moved
      have total := splitBuffer_silent none
      have grows : d.droppedBytes ≤ (splitBuffer cfg d).2.droppedBytes := Nat.le_add_right _ _
      exact ⟨by omega, ran.loop.moved (by omega)⟩
    rw [content] at read held
    refine ⟨more, added, left', front, { f with toReader := d.toReader }, ?_⟩
    have size : (usable cfg.maxLineBytes front).length ≤ cfg.maxBatchLines := by
      rw [← out.handed]
      exact List.length_take_le _ _
    rw [out.handed] at call silent
    cases decoded : (usable cfg.maxLineBytes front).mapM decode with
    | none =>
      rw [decoded] at call
      cases call
      exact ⟨rfl, rfl, rfl, rfl, by rw [content], ran.grown, ran.moved, read, held, out.parts,
        out.clean, out.toCarried, out.counted, size, by rw [decoded], eof, some, by simp⟩
    | some lines =>
      rw [decoded] at call
      have same := congrArg List.length (mapM_eq_some_iff.mp decoded)
      cases call
      split
      · exact ⟨rfl, rfl, rfl, rfl, by rw [content], ran.grown, ran.moved, read, held, out.parts,
          out.clean, out.toCarried, out.counted, size, by rw [decoded], eof, some, fun _ => .inr rfl⟩
      · rename_i quiet
        have quiet := not_or.mp quiet
        have none : lines = [] := by simpa using quiet.1
        have zero : (splitBuffer cfg d).2.droppedBytes = 0 := by simpa using quiet.2
        refine ⟨rfl, rfl, rfl, rfl, by rw [content], ran.grown, ran.moved, read, held, out.parts,
          out.clean, out.toCarried, out.counted, size, by rw [decoded], eof, some,
          fun _ => .inl ⟨rfl, silent ?_ zero⟩⟩
        apply List.eq_nil_of_length_eq_zero
        simpa [none] using same

structure Drained (cfg : TailConfig) (growth : List Bytes) (base : Nat) (done front : List Bytes)
    (left added : Bytes) (f f' : OpenFile) (disk disk' : Disk) (t t' : LogTailer)
    (result : Except Raised (List PyStr)) : Prop where
  file : t'.file = some f'
  inode : f'.inode = f.inode
  keeps : t'.inode = t.inode
  errno : t'.lastOpenErrno = t.lastOpenErrno
  after : disk' = disk.setContent f.inode (disk.content f.inode ++ added)
  grown : added <+: growth.flatten
  settled : Settled cfg (disk.content f.inode ++ added) base (done ++ front) left f'.toReader
    t'.buffer t'.droppingBytes
  counted : t'.droppedLines = t.droppedLines + (overlong cfg.maxLineBytes front).length
  batch : (usable cfg.maxLineBytes front).length ≤ cfg.maxBatchLines
  outcome : result = match (usable cfg.maxLineBytes front).mapM decode with
    | none => .error .unicodeDecodeError
    | some lines => .ok lines
  eof : t'.atEof = true →
    f'.pos = (disk.content f.inode ++ added).length ∧ newline ∉ left
  more : t'.atEof = false → front ≠ []
  pending : (∃ lines, result = .ok lines) →
    (t'.pendingState = t.pendingState ∧ f'.pos + t.buffer.length = f.pos + t'.buffer.length ∧
      t'.droppingBytes = t.droppingBytes) ∨
    t'.pendingState = some ⟨(t.inode.getD 0 : Nat), (f'.pos : Int) - t'.buffer.length⟩

theorem settled_read {content added left' more : Bytes} {front : List Bytes} {r r' : Reader UInt8}
    {buffer buffer' : Bytes} {dropping dropping' : Option Nat}
    (inv : Settled cfg content base done left r buffer dropping)
    (moved : r'.pos = r.pos + more.length)
    (read : more ++ pending r' (content ++ added) = pending r (content ++ added))
    (fresh : Fresh r' (content ++ added)) (parts : left ++ more = unlines newline front ++ left')
    (clean : ∀ l ∈ front, newline ∉ l) (carried : Carried cfg left' buffer' dropping') :
    Settled cfg (content ++ added) base (done ++ front) left' r' buffer' dropping' := by
  have inside : base ≤ content.length := inv.from_base.trans inv.within
  have behind : more <+: (content ++ added).drop r.pos := by
    rw [← pending_fresh (fresh_grow inv.fresh added), ← read]
    exact List.prefix_append _ _
  have size : r.pos + more.length ≤ (content ++ added).length := by
    have := behind.length_le
    have within := inv.within
    rw [List.length_drop] at this
    rw [List.length_append] at this ⊢
    omega
  refine ⟨carried, ?_, by rw [moved]; exact inv.from_base.trans (Nat.le_add_right _ _),
    by rw [moved]; exact size, ?_, fresh⟩
  · rw [moved, List.take_add, List.take_append_of_le_length inv.within, inv.read,
      List.take_append_of_le_length inside, ← List.prefix_iff_eq_take.mp behind, unlines_append]
    simp only [List.append_assoc, parts]
  · intro l member
    rcases List.mem_append.mp member with old | new
    · exact inv.lines l old
    · exact clean l new

theorem drainOpenFile_drained {growth : List Bytes} {f : OpenFile} {disk disk' : Disk}
    {t t' : LogTailer} {result : Except Raised (List PyStr)}
    (call : drainOpenFile cfg growth f disk t = some (result, t', disk'))
    (inv : Settled cfg (disk.content f.inode) base done left f.toReader t.buffer
      t.droppingBytes) :
    ∃ front left' added f',
      Drained cfg growth base done front left' added f f' disk disk' t t' result := by
  obtain ⟨more, added, left', front, f', out⟩ := drainOpenFile_from call inv.toCarried
  have read := out.read []
  rw [List.append_nil] at read
  have fresh := out.fresh inv.fresh
  have settled := settled_read inv out.moved read fresh out.parts out.clean out.carried
  refine ⟨front, left', added, f', out.file, out.inode, out.keeps, out.errno, out.after, out.grown,
    settled, out.counted, out.batch, out.outcome, fun eof => ⟨?_, (out.eof eof).2⟩, out.some,
    out.pending⟩
  have ended := (out.eof eof).1
  rw [pending_fresh fresh, List.drop_eq_nil_iff] at ended
  exact Nat.le_antisymm settled.within ended

end ShipperTail
