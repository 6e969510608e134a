import SentinelBrief.Shipper.ReadFeed
import SentinelBrief.Shipper.TailRuns

/-!
A log that is cut short while the tailer holds it open. The held file is read on from the
old position, so what the tailer sees after the cut is its buffer, the bytes read ahead
before the cut, and then what comes to stand past these.
-/
namespace ShipperTailTruncated
open ShipperTail ShipperTailRuns SeparatedLines Utf8Text StepRuns
open BufferedReading (pending pending_grow)
open ShipperReadFeed (carriedBytes Bounded bounded_of_carried)

variable {cfg : TailConfig} {growth : List Bytes} {f g : OpenFile} {disk disk' : Disk}
  {t t' : LogTailer} {left : Bytes}

/-- The tailers that calls on any files lead to. How much is read ahead may differ, since a
    file can grow between the parts of one read. -/
inductive Made (cfg : TailConfig) : LogTailer → Prop where
  | fresh : Made cfg {}
  | reads {t : LogTailer} {f : OpenFile} (ahead : Bytes) (before : Made cfg t)
      (file : t.file = some f) : Made cfg { t with file := some { f with ahead := ahead } }
  | read {persist : Bool} {growth : List Bytes} {disk disk' : Disk} {t t' : LogTailer}
      {r : Except Raised (List PyStr)} (before : Made cfg t)
      (call : readNewLines cfg persist growth disk t = some (r, t', disk')) : Made cfg t'
  | commit {t : LogTailer} (disk : Disk) (before : Made cfg t) : Made cfg (commitOffset t disk).1

structure Fit (cfg : TailConfig) (t : LogTailer) : Prop where
  bounded : Bounded cfg t
  inode : ∀ f, t.file = some f → t.inode = some f.inode

theorem fit_commit (inv : Fit cfg t) : Fit cfg (commitOffset t disk).1 := by
  unfold commitOffset
  split
  · exact inv
  · exact ⟨inv.bounded, inv.inode⟩

theorem fit_settle (persist rotated : Bool) (inv : Fit cfg t) :
    Fit cfg (settleCall persist rotated t disk).1 := by
  have chosen : Fit cfg (if rotated && t.atEof then t.closeFile else t) := by
    split
    · exact ⟨⟨fun _ => by simp [carriedBytes, LogTailer.closeFile], fun n lost => by cases lost⟩,
        fun f open_f => by cases open_f⟩
    · exact inv
  cases persist with
  | false => exact chosen
  | true => exact fit_commit chosen

theorem fit_drain {result : Except Raised (List PyStr)}
    (call : drainOpenFile cfg growth f disk t = some (result, t', disk')) (bounded : Bounded cfg t)
    (inode : t.inode = some f.inode) : Fit cfg t' := by
  obtain ⟨more, added, left', front, f', out⟩ := drainOpenFile_from call bounded
  refine ⟨bounded_of_carried left' out.carried, fun g open_g => ?_⟩
  rw [out.file, Option.some.injEq] at open_g
  rw [out.keeps, inode, ← open_g, out.inode]

theorem fit_read {persist : Bool} {r : Except Raised (List PyStr)} (inv : Fit cfg t)
    (call : readNewLines cfg persist growth disk t = some (r, t', disk')) : Fit cfg t' := by
  have settled : ∀ {rotated : Bool} {t₁ : LogTailer} {disk₁ : Disk}, Fit cfg t₁ →
      ((∃ e, r = .error e ∧ t' = t₁ ∧ disk' = disk₁) ∨
        ∃ lines, r = .ok lines ∧ (t', disk') = settleCall persist rotated t₁ disk₁) →
      Fit cfg t' :=
    fun fit ended => ended_keeps (P := fun t _ => Fit cfg t) ended fit (fit_settle persist _ fit)
  cases file : t.file with
  | some f =>
    obtain ⟨t₁, disk₁, drained, after⟩ := readNewLines_open file call
    obtain ⟨errno, frame⟩ := statInode_frame disk t
    rw [frame] at drained
    exact settled (fit_drain drained inv.bounded (inv.inode f file)) after
  | none =>
    rcases readNewLines_closed file call with ⟨_, _, _, rfl, _⟩ | ⟨errno, _, _, _, rfl⟩ |
      ⟨t₀, f, t₁, disk₁, opened, open_f, drained, after⟩
    · exact inv
    · split
      · exact inv
      · exact ⟨inv.bounded, inv.inode⟩
    · obtain ⟨i, target, state, _, rfl, _, _⟩ := openAtSavedOffset_opened opened
      simp only [Option.some.injEq] at open_f
      subst open_f
      exact settled (fit_drain drained inv.bounded rfl) after

theorem fit_of_made (made : Made cfg t) : Fit cfg t := by
  induction made with
  | fresh =>
    exact ⟨⟨fun _ => by simp [carriedBytes], fun n lost => by cases lost⟩,
      fun f open_f => by cases open_f⟩
  | @reads t f ahead before file ih =>
    refine ⟨ih.bounded, fun g open_g => ?_⟩
    cases open_g
    exact ih.inode f file
  | read before call ih => exact fit_read ih call
  | commit disk before ih => exact fit_commit ih

def truncated (disk : Disk) (f : OpenFile) (n : Nat) (t : LogTailer) : Following :=
  { disk := disk.setContent f.inode ((disk.content f.inode).take n), tailer := t,
    files := [f.inode], returned := [] }

def Stays (_ : Following) (e : Event) : Prop := e ≠ .rename

/-- `left₀` was carried at the cut; since then `read` was read and `dealt` returned or dropped. -/
structure Continues (cfg : TailConfig) (f : OpenFile) (left₀ : Bytes) (w : Following) (g : OpenFile)
    (dealt : List Bytes) (left read : Bytes) : Prop where
  entry : w.disk.entry = .file f.inode
  file : w.tailer.file = some g
  same : g.inode = f.inode
  inode : w.tailer.inode = some f.inode
  carried : Carried cfg left w.tailer.buffer w.tailer.droppingBytes
  stream : ∀ later, read ++ pending g.toReader (w.disk.content f.inode ++ later) =
    pending f.toReader (w.disk.content f.inode ++ later)
  parts : left₀ ++ read = unlines newline dealt ++ left
  clean : ∀ l ∈ dealt, newline ∉ l
  results : (∃ outs : List (List PyStr), w.returned = outs.map .ok ∧
      outs.flatten.map some = (usable cfg.maxLineBytes dealt).map decode) ∨
    (∃ e, .error e ∈ w.returned) ∧ ∃ l ∈ usable cfg.maxLineBytes dealt, decode l = none

variable {w w' : Following} {left₀ read : Bytes} {dealt : List Bytes}

theorem continues_start {n : Nat} (fit : Fit cfg t) (file : t.file = some f)
    (entry : disk.entry = .file f.inode) :
    Continues cfg f (carriedBytes t) (truncated disk f n t) f [] (carriedBytes t) [] where
  entry := entry
  file := file
  same := rfl
  inode := fit.inode f file
  carried := fit.bounded
  stream _ := rfl
  parts := by simp
  clean := by simp
  results := .inl ⟨[], rfl, rfl⟩

theorem continues_read_on (inv : Continues cfg f left₀ w g dealt left read) :
    read ++ pending g.toReader (w.disk.content f.inode) =
      pending f.toReader (w.disk.content f.inode) := by
  simpa using inv.stream []

def upcoming (f : OpenFile) (left₀ : Bytes) (w : Following) : List Bytes :=
  complete newline (left₀ ++ pending f.toReader (w.disk.content f.inode))

theorem continues_dealt (inv : Continues cfg f left₀ w g dealt left read) :
    dealt <+: upcoming f left₀ w := by
  rw [upcoming, ← continues_read_on inv, ← List.append_assoc, inv.parts, List.append_assoc,
    complete_unlines _ _ inv.clean]
  exact List.prefix_append _ _

theorem results_append {front : List Bytes} {r : Except Raised (List PyStr)}
    (before : (∃ outs : List (List PyStr), w.returned = outs.map .ok ∧
        outs.flatten.map some = (usable cfg.maxLineBytes dealt).map decode) ∨
      (∃ e, .error e ∈ w.returned) ∧ ∃ l ∈ usable cfg.maxLineBytes dealt, decode l = none)
    (outcome : r = match (usable cfg.maxLineBytes front).mapM decode with
      | none => .error .unicodeDecodeError
      | some lines => .ok lines) :
    (∃ outs : List (List PyStr), w.returned ++ [r] = outs.map .ok ∧
        outs.flatten.map some = (usable cfg.maxLineBytes (dealt ++ front)).map decode) ∨
      (∃ e, .error e ∈ w.returned ++ [r]) ∧
        ∃ l ∈ usable cfg.maxLineBytes (dealt ++ front), decode l = none := by
  rcases before with ⟨outs, returned, texts⟩ | ⟨⟨e, raised⟩, l, member, bad⟩
  · cases decoded : (usable cfg.maxLineBytes front).mapM decode with
    | some lines =>
      rw [decoded] at outcome
      refine .inl ⟨outs ++ [lines], by simp [returned, outcome], ?_⟩
      simp [texts, mapM_eq_some_iff.mp decoded]
    | none =>
      rw [decoded] at outcome
      have bad : ∃ l ∈ usable cfg.maxLineBytes front, decode l = none := by
        by_contra all
        have valid : ∀ l ∈ usable cfg.maxLineBytes front, (decode l).isSome := fun l member =>
          Option.isSome_iff_ne_none.mpr fun none => all ⟨l, member, none⟩
        obtain ⟨lines, eq⟩ := mapM_decode_isSome valid
        rw [decoded] at eq
        cases eq
      obtain ⟨l, member, bad⟩ := bad
      exact .inr ⟨⟨_, List.mem_append_right _ (List.mem_singleton.mpr outcome.symm)⟩, l,
        by simp [member], bad⟩
  · exact .inr ⟨⟨e, List.mem_append_left _ raised⟩, l, by simp [member], bad⟩

/-- Without a rotation the file stays open. -/
theorem settle_held (persist : Bool) (t : LogTailer) (disk : Disk) :
    (settleCall persist false t disk).1.file = t.file ∧ (settleCall persist false t disk).1.inode = t.inode ∧
      (settleCall persist false t disk).1.buffer = t.buffer ∧
      (settleCall persist false t disk).1.droppingBytes = t.droppingBytes := by
  cases persist with
  | false => exact ⟨rfl, rfl, rfl, rfl⟩
  | true =>
    simp only [settleCall, Bool.false_and, Bool.false_eq_true, if_false, if_true, commitOffset]
    split <;> exact ⟨rfl, rfl, rfl, rfl⟩

theorem continues_read {persist : Bool} {r : Except Raised (List PyStr)}
    (inv : Continues cfg f left₀ w g dealt left read)
    (call : readNewLines cfg persist growth w.disk w.tailer = some (r, t', disk')) :
    ∃ g' front left' read', Continues cfg f left₀
        { w with disk := disk', tailer := t', returned := w.returned ++ [r] } g'
        (dealt ++ front) left' read' ∧
      (front ≠ [] ∨ dealt ++ front =
        upcoming f left₀ { w with disk := disk', tailer := t', returned := w.returned ++ [r] }) := by
  obtain ⟨t₁, disk₁, drained, after⟩ := readNewLines_open inv.file call
  have current : statInode w.disk w.tailer = (some f.inode, w.tailer) := by
    simp [statInode, inv.entry]
  rw [current] at drained after
  simp only [inv.inode, ne_eq, not_true_eq_false, decide_false] at after
  obtain ⟨more, added, left', front, g', out⟩ := drainOpenFile_from drained inv.carried
  obtain ⟨file', inode', buffer', dropping'⟩ := ended_keeps
    (P := fun t _ => t.file = t₁.file ∧ t.inode = t₁.inode ∧ t.buffer = t₁.buffer ∧
      t.droppingBytes = t₁.droppingBytes) after ⟨rfl, rfl, rfl, rfl⟩ (settle_held persist t₁ disk₁)
  obtain ⟨content', entry'⟩ := ended_disk after
  have content : disk'.content f.inode = w.disk.content f.inode ++ added := by
    rw [content', out.after, inv.same, setContent_same]
  have further : ∀ later, (read ++ more) ++ pending g'.toReader (disk'.content f.inode ++ later) =
      pending f.toReader (disk'.content f.inode ++ later) := by
    intro later
    have step := out.read later
    rw [inv.same] at step
    rw [content, List.append_assoc read, step, List.append_assoc (w.disk.content f.inode), inv.stream]
  have whole : left₀ ++ (read ++ more) = unlines newline (dealt ++ front) ++ left' := by
    rw [← List.append_assoc, inv.parts, List.append_assoc, out.parts, unlines_append,
      List.append_assoc]
  have all_clean : ∀ l ∈ dealt ++ front, newline ∉ l := by
    intro l member
    rcases List.mem_append.mp member with old | new
    · exact inv.clean l old
    · exact out.clean l new
  have later : Continues cfg f left₀
      { w with disk := disk', tailer := t', returned := w.returned ++ [r] } g'
      (dealt ++ front) left' (read ++ more) := by
    refine ⟨?_, file'.trans out.file, out.inode.trans inv.same, ?_, ?_, further, whole, all_clean,
      results_append inv.results out.outcome⟩
    · simp only [entry', out.after, setContent_entry, inv.entry]
    · simp only [inode', out.keeps, inv.inode]
    · simp only [buffer', dropping']
      exact out.carried
  refine ⟨g', front, left', read ++ more, later, ?_⟩
  cases ended : t₁.atEof with
  | false => exact .inl (out.some ended)
  | true =>
    right
    obtain ⟨last, free⟩ := out.eof ended
    have all := continues_read_on later
    rw [inv.same, ← content] at last
    simp only [last, List.append_nil] at all
    rw [upcoming, ← all, whole, complete_unlines _ _ all_clean, complete_free _ free, List.append_nil]

theorem continues_step {e : Event} (inv : Continues cfg f left₀ w g dealt left read)
    (stays : Stays w e) (taken : step cfg w e = some w') :
    ∃ g' dealt' left' read', Continues cfg f left₀ w' g' dealt' left' read' := by
  cases e with
  | append bytes =>
    simp only [step, inv.entry, Option.some.injEq] at taken
    subst taken
    refine ⟨g, dealt, left, read, inv.entry, inv.file, inv.same, inv.inode, inv.carried, ?_,
      inv.parts, inv.clean, inv.results⟩
    intro later
    rw [setContent_same, List.append_assoc]
    exact inv.stream (bytes ++ later)
  | rename => exact absurd rfl stays
  | create i => simp [step, inv.entry] at taken
  | readNewLines persist growth =>
    simp only [step] at taken
    split at taken
    · cases taken
    · cases call : readNewLines cfg persist growth w.disk w.tailer with
      | none => simp [call] at taken
      | some out =>
        obtain ⟨r, t', disk'⟩ := out
        simp only [call, Option.some.injEq] at taken
        subst taken
        obtain ⟨g', front, left', read', later, _⟩ := continues_read inv call
        exact ⟨g', _, left', read', later⟩
  | commitOffset =>
    simp only [step, Option.some.injEq] at taken
    subst taken
    refine ⟨g, dealt, left, read, ?_⟩
    unfold commitOffset
    split
    · exact inv
    · exact ⟨inv.entry, inv.file, inv.same, inv.inode, inv.carried, inv.stream, inv.parts,
        inv.clean, inv.results⟩

theorem continues_quiet {k : Nat} (persists : List Bool)
    (inv : Continues cfg f left₀ w g dealt left read)
    (enough : (w.disk.content f.inode).length < k)
    (room : (pending f.toReader (w.disk.content f.inode)).length < k) :
    ∃ w' g' dealt' left' read', run (step cfg) w (persists.map (quietCall k)) = some w' ∧
      upcoming f left₀ w' = upcoming f left₀ w ∧ Continues cfg f left₀ w' g' dealt' left' read' ∧
      dealt <+: dealt' ∧
      (dealt' = upcoming f left₀ w ∨ dealt.length + persists.length ≤ dealt'.length) := by
  induction persists generalizing w g dealt left read with
  | nil => exact ⟨w, g, dealt, left, read, rfl, rfl, inv, List.prefix_rfl, .inr (Nat.le_refl _)⟩
  | cons persist persists ih =>
    have quiet : (List.replicate k ([] : Bytes)).flatten = [] := by simp
    have held : ∀ h, w.tailer.file = some h →
        (pending h.toReader (w.disk.content h.inode)).length < k := by
      intro h open_h
      rw [inv.file, Option.some.injEq] at open_h
      subst open_h
      have size := congrArg List.length (continues_read_on inv)
      rw [List.length_append] at size
      rw [inv.same]
      omega
    have named : ∀ i, w.disk.entry = .file i → (w.disk.content i).length < k := by
      intro i entry
      rw [inv.entry, PathEntry.file.injEq] at entry
      exact entry ▸ enough
    obtain ⟨⟨r, t', disk'⟩, call⟩ := readNewLines_returns cfg persist w.tailer held named
    obtain ⟨content, entry⟩ := readNewLines_quiet quiet call
    obtain ⟨g₁, front, left₁, read₁, inv₁, first⟩ := continues_read inv call
    have same : upcoming f left₀
        { w with disk := disk', tailer := t', returned := w.returned ++ [r] } = upcoming f left₀ w := by
      simp only [upcoming, content]
    rw [same] at first
    obtain ⟨w₂, g₂, dealt₂, left₂, read₂, later, upcoming₂, inv₂, longer, second⟩ :=
      ih inv₁ (by simp only [content]; exact enough) (by simp only [content]; exact room)
    refine ⟨w₂, g₂, dealt₂, left₂, read₂, by simp [run, step, quietCall, call, later],
      upcoming₂.trans same, inv₂, (List.prefix_append _ _).trans longer, ?_⟩
    have upper := continues_dealt inv₂
    rw [upcoming₂, same] at upper
    rw [same] at second
    rcases second with all | more
    · exact .inl all
    · rcases first with some | all
      · right
        have positive := List.length_pos_iff.mpr some
        simp only [List.length_append, List.length_cons] at more ⊢
        omega
      · rw [all] at longer
        exact .inl (upper.eq_of_length_le longer.length_le)

/-- Enough quiet calls deal with all that is ahead. -/
theorem continues_finish {k : Nat} (inv : Continues cfg f left₀ w g dealt left read) (persists : List Bool)
    (calls : (upcoming f left₀ w).length + 1 ≤ persists.length)
    (bytes : (w.disk.content f.inode).length +
      (pending f.toReader (w.disk.content f.inode)).length + 1 ≤ k) :
    ∃ w' g' left' read', run (step cfg) w (persists.map (quietCall k)) = some w' ∧
      Continues cfg f left₀ w' g' (upcoming f left₀ w) left' read' := by
  obtain ⟨w', g', dealt', left', read', taken, same, inv', _, finished⟩ :=
    continues_quiet persists inv (k := k) (by omega) (by omega)
  have upper := (continues_dealt inv').length_le
  rw [same] at upper
  have all : dealt' = upcoming f left₀ w := by
    rcases finished with all | more
    · exact all
    · omega
  exact ⟨w', g', left', read', taken, all ▸ inv'⟩

/-- The lines held back in the buffer and then the given ones are what all later calls return,
    once nothing more is written. -/
def Follows (cfg : TailConfig) (held lines : List Bytes) (w : Following) : Prop :=
  ∃ calls bytes, ∀ persists : List Bool, calls ≤ persists.length → ∀ k, bytes ≤ k →
    ∃ (w' : Following) (outs : List (List PyStr)),
      run (step cfg) w (persists.map (quietCall k)) = some w' ∧ w'.returned = outs.map .ok ∧
      outs.flatten.map some = (held ++ lines).map decode

theorem map_decode_inj {ls ms : List Bytes} (valid : ∀ l ∈ ls, (decode l).isSome)
    (same : ls.map decode = ms.map decode) : ls = ms := by
  induction ls generalizing ms with
  | nil => exact (List.map_eq_nil_iff.mp same.symm).symm
  | cons l ls ih =>
    cases ms with
    | nil => cases same
    | cons m ms =>
      simp only [List.map_cons, List.cons.injEq] at same
      rw [decode_injective (valid l (by simp)) same.1, ih (fun x member => valid x (by simp [member]))
        same.2]

theorem follows_iff {held lines : List Bytes} (inv : Continues cfg f left₀ w g dealt left read) :
    Follows cfg held lines w ↔ (∀ l ∈ held ++ lines, (decode l).isSome) ∧
      usable cfg.maxLineBytes (upcoming f left₀ w) = held ++ lines := by
  constructor
  · rintro ⟨calls, bytes, follows⟩
    obtain ⟨persists, many⟩ : ∃ persists : List Bool,
        persists.length = calls + (upcoming f left₀ w).length + 1 :=
      ⟨List.replicate _ true, List.length_replicate⟩
    obtain ⟨k, large⟩ : ∃ k, k = bytes + ((w.disk.content f.inode).length +
        (pending f.toReader (w.disk.content f.inode)).length + 1) := ⟨_, rfl⟩
    obtain ⟨w', g', left', read', taken, inv'⟩ :=
      continues_finish (k := k) inv persists (by omega) (by omega)
    obtain ⟨w'', outs, again, returned, texts⟩ := follows persists (by omega) k (by omega)
    rw [taken, Option.some.injEq] at again
    subst again
    have valid : ∀ l ∈ held ++ lines, (decode l).isSome := by
      intro l member
      have inside : decode l ∈ (held ++ lines).map decode := List.mem_map_of_mem member
      rw [← texts] at inside
      obtain ⟨text, _, eq⟩ := List.mem_map.mp inside
      simp [← eq]
    refine ⟨valid, ?_⟩
    rcases inv'.results with ⟨outs', returned', texts'⟩ | ⟨⟨e, raised⟩, _⟩
    · have same : outs = outs' := by
        rw [returned] at returned'
        exact List.map_injective_iff.mpr (fun _ _ eq => Except.ok.inj eq) returned'
      rw [← same, texts] at texts'
      exact (map_decode_inj valid texts').symm
    · rw [returned] at raised
      obtain ⟨_, _, eq⟩ := List.mem_map.mp raised
      cases eq
  · rintro ⟨valid, same⟩
    refine ⟨(upcoming f left₀ w).length + 1, (w.disk.content f.inode).length +
      (pending f.toReader (w.disk.content f.inode)).length + 1,
      fun persists calls k bytes => ?_⟩
    obtain ⟨w', g', left', read', taken, inv'⟩ := continues_finish inv persists calls bytes
    rcases inv'.results with ⟨outs, returned, texts⟩ | ⟨_, l, member, bad⟩
    · exact ⟨w', outs, taken, returned, by rw [texts, same]⟩
    · rw [same] at member
      have good := valid l member
      simp [bad] at good

def heldBytes (t : LogTailer) (f : OpenFile) : Bytes := carriedBytes t ++ f.ahead

/-- After the cut the tailer misses the first `m` bytes written. It goes on with whole lines if
    there are none, or if the unfinished line it holds happens to be these bytes. -/
theorem usable_spliced_iff {lines : List Bytes} {m : Nat} (held : Bytes)
    (clean : ∀ l ∈ lines, newline ∉ l) (short : ∀ l ∈ lines, l.length ≤ cfg.maxLineBytes) :
    usable cfg.maxLineBytes (complete newline (held ++ (unlines newline lines).drop m)) =
        usable cfg.maxLineBytes (complete newline held) ++ lines ↔
      lines = [] ∨ rest newline held = (unlines newline lines).take m := by
  have free := sep_not_mem_rest (c := newline) held
  rw [complete_append, usable_append, List.append_cancel_left_eq]
  constructor
  · intro same
    by_cases none : lines = []
    · exact .inl none
    · have sub : (usable cfg.maxLineBytes
          (complete newline (rest newline held ++ (unlines newline lines).drop m))).Sublist
            (complete newline (rest newline held ++ (unlines newline lines).drop m)) :=
        List.filter_sublist
      rw [same] at sub
      have all := (sub.eq_of_length_le (complete_drop_length _ lines m free clean)).symm
      exact .inr (complete_spliced free clean none all)
  · rintro (rfl | eq)
    · rw [unlines_nil, List.drop_nil, List.append_nil, complete_free _ free, usable_nil]
    · rw [eq, List.take_append_drop]
      have whole := complete_unlines lines [] clean
      simp only [List.append_nil, complete_nil] at whole
      rw [whole, usable_all short]

theorem truncation_followed_iff {n : Nat} {lines : List Bytes} (made : Made cfg t)
    (file : t.file = some f) (entry : disk.entry = .file f.inode)
    (inside : n ≤ (disk.content f.inode).length) (smaller : n < f.pos)
    (clean : ∀ l ∈ lines, newline ∉ l) (short : ∀ l ∈ lines, l.length ≤ cfg.maxLineBytes)
    (reached : Reach (step cfg) Stays (truncated disk f n t) w)
    (written : w.disk.content f.inode =
      (disk.content f.inode).take n ++ unlines newline lines) :
    Follows cfg (usable cfg.maxLineBytes (complete newline (heldBytes t f))) lines w ↔
      (∀ l ∈ usable cfg.maxLineBytes (complete newline (heldBytes t f)) ++ lines,
        (decode l).isSome) ∧
        (lines = [] ∨ rest newline (heldBytes t f) =
          (unlines newline lines).take (f.pos + f.ahead.length - n)) := by
  have fit := fit_of_made made
  obtain ⟨g, dealt, left, read, inv⟩ := reach_invariant
    (fun w => ∃ g dealt left read, Continues cfg f (carriedBytes t) w g dealt left read)
    ⟨_, _, _, _, continues_start fit file entry⟩
    (fun _ _ _ => fun ⟨_, _, _, _, inv⟩ stays taken => continues_step inv stays taken) reached
  have beyond : pending f.toReader (w.disk.content f.inode) =
      f.ahead ++ (unlines newline lines).drop (f.pos + f.ahead.length - n) := by
    rw [pending, written, List.drop_append, List.drop_eq_nil_of_le (by simp; omega),
      List.length_take, min_eq_left inside, List.nil_append]
  rw [follows_iff inv, upcoming, beyond, ← List.append_assoc, ← heldBytes,
    usable_spliced_iff _ clean short]

def logFile (content : Bytes) : Disk :=
  { entry := .file 1, content := fun _ => content, stateFile := none }

/-- A tailer that has returned `a` and an empty line and has `b` and `cdef` in memory. -/
def midLine : LogTailer :=
  { file := some ⟨⟨4, [0x63, 0x64, 0x65, 0x66]⟩, 1⟩, inode := some 1, buffer := [0x62],
    pendingState := some ⟨1, 3⟩ }

theorem midLine_made : Made smallConfig midLine := by
  have call : readNewLines smallConfig false [[], []]
      (logFile [0x61, newline, newline, 0x62, 0x63, 0x64, 0x65, 0x66]) {} =
      some (.ok [[0x61], []], midLine, _) := rfl
  exact .read .fresh call

/-- The log is cut after its first two lines and `bcdefg` written: the bytes the tailer misses are
    those it has. -/
theorem truncation_followed_same_bytes :
    ∃ w, Reach (step smallConfig) Stays (truncated
        (logFile [0x61, newline, newline, 0x62, 0x63, 0x64, 0x65, 0x66])
        ⟨⟨4, [0x63, 0x64, 0x65, 0x66]⟩, 1⟩ 3 midLine) w ∧
      w.disk.content 1 =
        [0x61, newline, newline, 0x62, 0x63, 0x64, 0x65, 0x66, 0x67, newline] ∧
      Follows smallConfig [] [[0x62, 0x63, 0x64, 0x65, 0x66, 0x67]] w := by
  have reached : Reach (step smallConfig) Stays (truncated
      (logFile [0x61, newline, newline, 0x62, 0x63, 0x64, 0x65, 0x66])
      ⟨⟨4, [0x63, 0x64, 0x65, 0x66]⟩, 1⟩ 3 midLine) _ :=
    .next .start (e := .append [0x62, 0x63, 0x64, 0x65, 0x66, 0x67, newline]) (by simp [Stays]) rfl
  have clean : ∀ l ∈ [([0x62, 0x63, 0x64, 0x65, 0x66, 0x67] : Bytes)], newline ∉ l := by decide
  exact ⟨_, reached, rfl, Iff.mpr (truncation_followed_iff midLine_made rfl rfl
    (by decide) (by decide) clean (by decide) reached rfl) (by decide)⟩

def halfLine : LogTailer :=
  { file := some ⟨⟨1, []⟩, 1⟩, inode := some 1, buffer := [0x61], atEof := true }

theorem halfLine_made : Made smallConfig halfLine := by
  have call : readNewLines smallConfig false [[], []] (logFile [0x61]) {} =
      some (.ok [], halfLine, _) := rfl
  exact .read .fresh call

/-- The log is emptied and `ba` written: its `b` is never read. -/
theorem truncation_not_followed :
    ¬ ∀ (cfg : TailConfig) (t : LogTailer) (f : OpenFile) (disk : Disk) (n : Nat)
        (lines : List Bytes) (w : Following), Made cfg t → t.file = some f →
      disk.entry = .file f.inode → n ≤ (disk.content f.inode).length → n < f.pos →
      (∀ l ∈ lines, newline ∉ l ∧ l.length ≤ cfg.maxLineBytes ∧ (decode l).isSome) →
      (∀ l ∈ usable cfg.maxLineBytes (complete newline (heldBytes t f)), (decode l).isSome) →
      Reach (step cfg) Stays (truncated disk f n t) w →
      w.disk.content f.inode = (disk.content f.inode).take n ++ unlines newline lines →
      Follows cfg (usable cfg.maxLineBytes (complete newline (heldBytes t f))) lines w := by
  intro all
  have taken : step smallConfig (truncated (logFile [0x61]) ⟨⟨1, []⟩, 1⟩ 0 halfLine)
      (.append [0x62, 0x61, newline]) = some _ := rfl
  have stays : Stays (truncated (logFile [0x61]) ⟨⟨1, []⟩, 1⟩ 0 halfLine)
      (.append [0x62, 0x61, newline]) := by simp [Stays]
  have follows := all smallConfig halfLine ⟨⟨1, []⟩, 1⟩ (logFile [0x61]) 0 [[0x62, 0x61]] _
    halfLine_made rfl rfl (by decide) (by decide) (by decide) (by decide)
    (.next .start stays taken) rfl
  obtain ⟨_, _, _, _, inv⟩ := continues_step
    (continues_start (n := 0) (fit_of_made halfLine_made) rfl rfl) stays taken
  have same := ((follows_iff inv).mp follows).2
  revert same
  decide

end ShipperTailTruncated
