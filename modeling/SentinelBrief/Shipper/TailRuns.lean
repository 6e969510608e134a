import Mathlib.Algebra.Order.BigOperators.Group.List
import Mathlib.Algebra.Order.Group.Nat
import SentinelBrief.Library.Runs
import SentinelBrief.Shipper.TailCalls

/-!
One `LogTailer` in one process. The log is appended to, renamed away and
created anew between calls, and grows during them; a rotated file ends in a
newline and grows no more. `files` lists every file the path has named, in
order. Rotations between opening the path and asking for its inode are not
among the steps: a call sees the path once.
-/
namespace ShipperTailRuns
open ShipperTail SeparatedLines Utf8Text StepRuns

structure Following where
  disk : Disk
  tailer : LogTailer
  files : List Nat
  returned : List (Except Raised (List PyStr))

inductive Event where
  | append (bytes : Bytes)
  | rename
  | create (inode : Nat)
  | readNewLines (persist : Bool) (growth : List Bytes)
  | commitOffset
  deriving DecidableEq, Repr

def Following.start : Following :=
  { disk := { entry := .missing, content := fun _ => [], stateFile := none }, tailer := {},
    files := [], returned := [] }

def Following.rotatedAway (w : Following) : Bool :=
  match w.tailer.file with
  | some f => w.disk.entry ≠ .file f.inode
  | none => false

def step (cfg : TailConfig) (w : Following) : Event → Option Following
  | .append bytes => match w.disk.entry with
    | .file i => some { w with disk := w.disk.setContent i (w.disk.content i ++ bytes) }
    | _ => none
  | .rename => match w.disk.entry with
    | .file i => if rest newline (w.disk.content i) = [] then
        some { w with disk := { w.disk with entry := .missing } } else none
    | _ => none
  | .create i => if w.disk.entry = .missing ∧ i ∉ w.files then
      some { w with disk := { w.disk with entry := .file i }.setContent i [],
                    files := w.files ++ [i] } else none
  | .readNewLines persist growth =>
    if w.rotatedAway ∧ growth.flatten ≠ [] then none
    else match readNewLines cfg persist growth w.disk w.tailer with
      | none => none
      | some (r, t, disk) =>
        some { w with disk := disk, tailer := t, returned := w.returned ++ [r] }
  | .commitOffset =>
    some { w with tailer := (commitOffset w.tailer w.disk).1,
                  disk := (commitOffset w.tailer w.disk).2 }

def fileLines (disk : Disk) (inodes : List Nat) : List Bytes :=
  inodes.flatMap fun i => complete newline (disk.content i)

def Following.lines (w : Following) : List Bytes := fileLines w.disk w.files

def visited (past : List Nat) (t : LogTailer) : List Nat :=
  past ++ (t.file.map (·.inode)).toList

/-- `past` are the files read and closed, `next` the one not opened yet, `dealt` the lines
    returned or dropped. -/
structure Tracks (cfg : TailConfig) (streams : Nat → Bytes) (w : Following) (past next : List Nat)
    (dealt : List Bytes) : Prop where
  files : w.files = visited past w.tailer ++ next
  nodup : w.files.Nodup
  place : w.disk.entry = .missing ∧ next = [] ∨
    (∃ i, w.disk.entry = .file i ∧ next = [i]) ∨
    ∃ f, w.tailer.file = some f ∧ w.disk.entry = .file f.inode ∧ next = []
  closed : w.tailer.file = none → w.tailer.buffer = [] ∧ w.tailer.droppingBytes = none ∧
    dealt = fileLines w.disk past
  opened : ∀ f, w.tailer.file = some f → w.tailer.inode = some f.inode ∧
    ∃ done left, Settled cfg (w.disk.content f.inode) 0 done left f.toReader w.tailer.buffer
      w.tailer.droppingBytes ∧ dealt = fileLines w.disk past ++ done
  ended : ∀ f, w.tailer.file = some f → w.disk.entry ≠ .file f.inode →
    rest newline (w.disk.content f.inode) = []
  saved : w.disk.stateFile = none ∨ ∃ (i off : Nat) (disk : Disk), i ∈ visited past w.tailer ∧
    w.disk.stateFile = (persistState ⟨i, off⟩ disk).stateFile
  pending : ∀ st, w.tailer.pendingState = some st →
    ∃ i off : Nat, i ∈ visited past w.tailer ∧ st = ⟨i, off⟩
  results : ∃ outs : List (List PyStr), w.returned = outs.map .ok ∧
    outs.flatten.map some = (usable cfg.maxLineBytes dealt).map decode ∧
    ∀ out ∈ outs, out.length ≤ cfg.maxBatchLines
  dropped : w.tailer.droppedLines = (overlong cfg.maxLineBytes dealt).length
  bytes : ∀ i ∈ w.files, w.disk.content i <+: streams i

variable {cfg : TailConfig} {streams : Nat → Bytes} {w w' : Following} {past next : List Nat}
  {dealt : List Bytes}

theorem tracks_start : Tracks cfg streams Following.start [] [] [] where
  files := rfl
  nodup := List.nodup_nil
  place := .inl ⟨rfl, rfl⟩
  closed _ := ⟨rfl, rfl, rfl⟩
  opened f eq := by cases eq
  ended f eq := by cases eq
  saved := .inl rfl
  pending st eq := by cases eq
  results := ⟨[], rfl, rfl, by simp⟩
  dropped := rfl
  bytes i member := by cases member

theorem fileLines_setContent (disk : Disk) {inodes : List Nat} {i : Nat} (content : Bytes)
    (other : i ∉ inodes) : fileLines (disk.setContent i content) inodes = fileLines disk inodes := by
  simp only [fileLines]
  apply List.flatMap_congr
  intro j member
  rw [setContent_other]
  rintro rfl
  exact other member

theorem tracks_past {f : OpenFile} (inv : Tracks cfg streams w past next dealt)
    (file : w.tailer.file = some f) : f.inode ∉ past ∧ f.inode ∉ next := by
  have nodup := inv.nodup
  rw [inv.files, visited, file] at nodup
  simp only [Option.map_some, Option.toList_some, List.append_assoc] at nodup
  have outside := (List.nodup_middle.mp nodup)
  simp only [List.nodup_cons, List.mem_append, not_or] at outside
  exact outside.1

theorem tracks_current {f : OpenFile} (inv : Tracks cfg streams w past next dealt)
    (file : w.tailer.file = some f) (held : w.disk.entry = .file f.inode) : next = [] := by
  rcases inv.place with ⟨missing, _⟩ | ⟨j, at_j, rfl⟩ | ⟨g, _, _, none⟩
  · simp [held] at missing
  · have same : j = f.inode := by simpa [held] using at_j.symm
    exact absurd (by simp [same]) (tracks_past inv file).2
  · exact none

theorem tracks_append {i : Nat} {bytes : Bytes} (inv : Tracks cfg streams w past next dealt)
    (entry : w.disk.entry = .file i)
    (le : i ∈ w.files → w.disk.content i ++ bytes <+: streams i) :
    Tracks cfg streams { w with disk := w.disk.setContent i (w.disk.content i ++ bytes) }
      past next dealt := by
  have outside : i ∉ past := by
    rcases inv.place with ⟨missing, _⟩ | ⟨j, at_j, rfl⟩ | ⟨f, file, at_f, _⟩
    · simp [entry] at missing
    · have same : j = i := by simpa [entry] using at_j.symm
      have nodup := inv.nodup
      rw [inv.files, visited] at nodup
      intro member
      have apart := List.disjoint_of_nodup_append nodup
      exact apart (List.mem_append_left _ member) (by simp [same])
    · have same : f.inode = i := by simpa [entry] using at_f.symm
      exact same ▸ (tracks_past inv file).1
  refine ⟨inv.files, inv.nodup, inv.place, ?_, ?_, ?_, inv.saved, inv.pending, inv.results,
    inv.dropped, ?_⟩
  · intro none
    rw [fileLines_setContent _ _ outside]
    exact inv.closed none
  · intro f file
    obtain ⟨inode, done, left, settled, eq⟩ := inv.opened f file
    refine ⟨inode, done, left, ?_, by rw [fileLines_setContent _ _ outside]; exact eq⟩
    by_cases same : f.inode = i
    · subst same
      rw [setContent_same]
      exact settled_grow settled bytes
    · rw [setContent_other _ _ same]
      exact settled
  · intro f file away
    have other : f.inode ≠ i := by
      rintro rfl
      exact away entry
    rw [setContent_other _ _ other]
    exact inv.ended f file away
  · intro j member
    by_cases same : j = i
    · subst same
      rw [setContent_same]
      exact le member
    · rw [setContent_other _ _ same]
      exact inv.bytes j member

theorem tracks_rename {f : OpenFile} (inv : Tracks cfg streams w past next dealt)
    (file : w.tailer.file = some f) (held : w.disk.entry = .file f.inode)
    (whole : rest newline (w.disk.content f.inode) = []) :
    Tracks cfg streams { w with disk := { w.disk with entry := .missing } } past next dealt := by
  have last := tracks_current inv file held
  refine ⟨inv.files, inv.nodup, .inl ⟨rfl, last⟩, inv.closed, inv.opened, ?_, inv.saved,
    inv.pending, inv.results, inv.dropped, inv.bytes⟩
  intro g open_g _
  rw [file, Option.some.injEq] at open_g
  exact open_g ▸ whole

theorem tracks_create {i : Nat} (inv : Tracks cfg streams w past next dealt)
    (missing : w.disk.entry = .missing) (fresh : i ∉ w.files) :
    Tracks cfg streams { w with disk := { w.disk with entry := .file i }.setContent i [],
                                files := w.files ++ [i] } past [i] dealt := by
  have last : next = [] := by
    rcases inv.place with ⟨_, none⟩ | ⟨j, at_j, _⟩ | ⟨f, _, at_f, _⟩
    · exact none
    · simp [missing] at at_j
    · simp [missing] at at_f
  subst last
  have files : w.files = visited past w.tailer := by simpa using inv.files
  have outside : i ∉ past := by
    intro member
    exact fresh (by rw [files]; exact List.mem_append_left _ member)
  have past_same : fileLines ({ w.disk with entry := .file i }.setContent i []) past =
      fileLines w.disk past := fileLines_setContent { w.disk with entry := .file i } _ outside
  have other : ∀ f, w.tailer.file = some f → f.inode ≠ i := by
    rintro f file rfl
    exact fresh (by rw [files, visited, file]; simp)
  refine ⟨by rw [← files], ?_, .inr (.inl ⟨i, rfl, rfl⟩), ?_, ?_, ?_, inv.saved, inv.pending,
    inv.results, inv.dropped, ?_⟩
  · exact List.Nodup.append inv.nodup (List.nodup_singleton i) (by simpa using fresh)
  · intro none
    rw [past_same]
    exact inv.closed none
  · intro f file
    obtain ⟨inode, done, left, settled, eq⟩ := inv.opened f file
    refine ⟨inode, done, left, ?_, by rw [past_same]; exact eq⟩
    rw [setContent_other _ _ (other f file)]
    exact settled
  · intro f file _
    rw [setContent_other _ _ (other f file)]
    exact inv.ended f file (by simp [missing])
  · intro j member
    by_cases same : j = i
    · subst same
      rw [setContent_same]
      exact List.nil_prefix
    · rw [setContent_other _ _ same]
      exact inv.bytes j (by simpa [same] using member)

theorem tracks_errno (inv : Tracks cfg streams w past next dealt) (errno : Option Int) :
    Tracks cfg streams { w with tailer := { w.tailer with lastOpenErrno := errno } }
      past next dealt :=
  ⟨inv.files, inv.nodup, inv.place, inv.closed, inv.opened, inv.ended, inv.saved, inv.pending,
    inv.results, inv.dropped, inv.bytes⟩

theorem tracks_commit (inv : Tracks cfg streams w past next dealt) :
    Tracks cfg streams { w with tailer := (commitOffset w.tailer w.disk).1,
                                disk := (commitOffset w.tailer w.disk).2 } past next dealt := by
  unfold commitOffset
  split
  · exact inv
  · rename_i st pending
    obtain ⟨i, off, known, rfl⟩ := inv.pending st pending
    exact ⟨inv.files, inv.nodup, inv.place, inv.closed, inv.opened, inv.ended,
      .inr ⟨i, off, w.disk, known, rfl⟩, by simp, inv.results, inv.dropped, inv.bytes⟩

theorem tracks_close {f : OpenFile} (inv : Tracks cfg streams w past next dealt)
    (file : w.tailer.file = some f) (away : w.disk.entry ≠ .file f.inode)
    (all : dealt = fileLines w.disk past ++ complete newline (w.disk.content f.inode)) :
    Tracks cfg streams { w with tailer := w.tailer.closeFile } (past ++ [f.inode]) next dealt := by
  have same : visited (past ++ [f.inode]) w.tailer.closeFile = visited past w.tailer := by
    simp [visited, file, LogTailer.closeFile]
  refine ⟨by rw [same]; exact inv.files, inv.nodup, ?_, ?_, ?_, ?_, by rw [same]; exact inv.saved,
    by rw [same]; exact inv.pending, inv.results, inv.dropped, inv.bytes⟩
  · rcases inv.place with missing | fresh | ⟨g, open_g, at_g, _⟩
    · exact .inl missing
    · exact .inr (.inl fresh)
    · rw [file, Option.some.injEq] at open_g
      exact absurd (open_g ▸ at_g) away
  · intro _
    refine ⟨rfl, rfl, ?_⟩
    simpa [fileLines] using all
  · intro g open_g
    cases open_g
  · intro g open_g
    cases open_g

theorem open_fresh {i : Nat} (inv : Tracks cfg streams w past next dealt)
    (none : w.tailer.file = none) (entry : w.disk.entry = .file i) :
    next = [i] ∧ openAtSavedOffset cfg w.disk w.tailer =
      .opened { w.tailer with file := some ⟨⟨0, []⟩, i⟩, inode := some i } := by
  have fresh : next = [i] := by
    rcases inv.place with ⟨missing, _⟩ | ⟨j, at_j, rfl⟩ | ⟨f, file, _⟩
    · simp [entry] at missing
    · rw [show j = i by simpa [entry] using at_j.symm]
    · simp [none] at file
  refine ⟨fresh, ?_⟩
  have loaded : ∃ state, loadState cfg w.disk.stateFile = .ok state ∧
      seekTarget state i (w.disk.content i).length = 0 := by
    rcases inv.saved with absent | ⟨j, off, disk, known, eq⟩
    · exact ⟨Option.none, by rw [absent]; rfl, rfl⟩
    · have other : j ≠ i := by
        rintro rfl
        have nodup := inv.nodup
        rw [inv.files, fresh] at nodup
        exact List.disjoint_of_nodup_append nodup known (by simp)
      rcases loadState_persistState cfg disk j off with back | unread
      · refine ⟨_, by rw [eq]; exact back, ?_⟩
        have differ : ¬ (j : Int) = i := by omega
        simp [seekTarget, differ]
      · exact ⟨Option.none, by rw [eq]; exact unread, rfl⟩
  obtain ⟨state, load, target⟩ := loaded
  simp [openAtSavedOffset, entry, load, target, offTMin]

theorem tracks_open {i : Nat} (inv : Tracks cfg streams w past [i] dealt)
    (none : w.tailer.file = none) (entry : w.disk.entry = .file i) :
    Tracks cfg streams
      { w with tailer := { w.tailer with file := some ⟨⟨0, []⟩, i⟩, inode := some i,
                                         lastOpenErrno := Option.none } } past [] dealt := by
  have files : w.files = past ++ [i] := by simpa [visited, none] using inv.files
  obtain ⟨buffer, steady, eq⟩ := inv.closed none
  have grows : ∀ j ∈ visited past w.tailer, j ∈ past ++ [i] := by
    intro j member
    simp only [visited, none, Option.map_none, Option.toList_none, List.append_nil] at member
    simp [member]
  refine ⟨by simpa [visited] using files, inv.nodup, .inr (.inr ⟨_, rfl, entry, rfl⟩), by simp, ?_,
    ?_, ?_, ?_, inv.results, inv.dropped, inv.bytes⟩
  · intro f file
    simp only [Option.some.injEq] at file
    subst file
    refine ⟨rfl, [], [], ?_, by simpa using eq⟩
    simp only [buffer, steady]
    exact settled_start cfg (Nat.zero_le _)
  · intro f file away
    simp only [Option.some.injEq] at file
    subst file
    exact absurd entry away
  · rcases inv.saved with absent | ⟨j, off, disk, known, eq⟩
    · exact .inl absent
    · exact .inr ⟨j, off, disk, grows j known, eq⟩
  · intro st pending
    obtain ⟨j, off, known, eq⟩ := inv.pending st pending
    exact ⟨j, off, grows j known, eq⟩

theorem results_append {front : List Bytes} {lines : List PyStr}
    (inv : Tracks cfg streams w past next dealt)
    (decoded : (usable cfg.maxLineBytes front).mapM decode = some lines)
    (batch : (usable cfg.maxLineBytes front).length ≤ cfg.maxBatchLines) :
    ∃ outs : List (List PyStr), w.returned ++ [.ok lines] = outs.map .ok ∧
      outs.flatten.map some = (usable cfg.maxLineBytes (dealt ++ front)).map decode ∧
      ∀ out ∈ outs, out.length ≤ cfg.maxBatchLines := by
  obtain ⟨outs, returned, texts, sizes⟩ := inv.results
  have decoded := mapM_eq_some_iff.mp decoded
  refine ⟨outs ++ [lines], by simp [returned], ?_, ?_⟩
  · rw [List.flatten_append, List.map_append, texts, usable_append, List.map_append, decoded]
    simp
  · intro out member
    rcases List.mem_append.mp member with old | new
    · exact sizes out old
    · rw [List.mem_singleton.mp new]
      have size := congrArg List.length decoded
      simp only [List.length_map] at size
      omega

theorem tracks_drain {f : OpenFile} {growth : List Bytes} {t' : LogTailer} {disk' : Disk}
    {r : Except Raised (List PyStr)} (inv : Tracks cfg streams w past next dealt)
    (valid : ∀ i, (decode (streams i)).isSome) (file : w.tailer.file = some f)
    (still : w.disk.entry ≠ .file f.inode → growth.flatten = [])
    (call : drainOpenFile cfg growth f w.disk w.tailer = some (r, t', disk'))
    (bytes : ∀ i ∈ w.files, disk'.content i <+: streams i) :
    ∃ front lines f', r = .ok lines ∧ t'.file = some f' ∧ f'.inode = f.inode ∧
      disk'.entry = w.disk.entry ∧
      Tracks cfg streams { w with disk := disk', tailer := t', returned := w.returned ++ [r] }
        past next (dealt ++ front) ∧
      (t'.atEof = true → dealt ++ front =
        fileLines disk' past ++ complete newline (disk'.content f.inode)) ∧
      (t'.atEof = false → front ≠ []) := by
  obtain ⟨inode, done, left, settled, eq⟩ := inv.opened f file
  obtain ⟨front, left', added, f', out⟩ := drainOpenFile_drained call settled
  have content := drained_content out
  have past_same : fileLines disk' past = fileLines w.disk past := by
    rw [out.after]
    exact fileLines_setContent _ _ (tracks_past inv file).1
  have now := out.settled
  rw [← content] at now
  have front_lines : ∀ l ∈ usable cfg.maxLineBytes front, (decode l).isSome := by
    intro l member
    have inside : l ∈ done ++ front :=
      List.mem_append_right _ (List.mem_of_mem_filter member)
    have whole := (settled_done now).subset inside
    rw [List.drop_zero] at whole
    have known : f.inode ∈ w.files := by
      rw [inv.files, visited, file]
      simp
    exact decode_lines (valid f.inode) (bytes f.inode known) l whole
  obtain ⟨lines, decoded⟩ := mapM_decode_isSome front_lines
  have outcome : r = .ok lines := by rw [out.outcome, decoded]
  have position := settled_length now
  refine ⟨front, lines, f', outcome, out.file, out.inode, by rw [out.after]; rfl, ?_, ?_, out.more⟩
  · have visits : visited past t' = visited past w.tailer := by
      simp [visited, file, out.file, out.inode]
    refine ⟨by rw [visits]; exact inv.files, inv.nodup, ?_, ?_, ?_, ?_, ?_, ?_, ?_, ?_, bytes⟩
    · rw [out.after]
      rcases inv.place with missing | fresh | ⟨g, open_g, at_g, none⟩
      · exact .inl missing
      · exact .inr (.inl fresh)
      · rw [file, Option.some.injEq] at open_g
        subst open_g
        exact .inr (.inr ⟨f', out.file, by rw [out.inode]; exact at_g, none⟩)
    · intro none
      simp [out.file] at none
    · intro g open_g
      rw [out.file, Option.some.injEq] at open_g
      subst open_g
      refine ⟨by rw [out.keeps, inode, out.inode], done ++ front, left', ?_, ?_⟩
      · rw [out.inode]
        exact now
      · rw [past_same, eq, List.append_assoc]
    · intro g open_g away
      rw [out.file, Option.some.injEq] at open_g
      subst open_g
      have away : w.disk.entry ≠ .file f.inode := by
        rw [out.after, out.inode] at away
        exact away
      have none : added = [] := by
        have grown := out.grown
        rw [still away, List.prefix_nil] at grown
        exact grown
      rw [out.inode, content, none, List.append_nil]
      exact inv.ended f file away
    · rw [visits, out.after]
      exact inv.saved
    · rw [visits]
      intro st pending
      rcases out.pending ⟨lines, outcome⟩ with ⟨same, _⟩ | set
      · exact inv.pending st (same ▸ pending)
      · rw [set, Option.some.injEq] at pending
        refine ⟨f.inode, f'.pos - t'.buffer.length, by simp [visited, file], ?_⟩
        rw [← pending, inode]
        simp only [Option.getD_some, TailState.mk.injEq, true_and]
        omega
    · rw [outcome]
      exact results_append inv decoded out.batch
    · rw [out.counted, inv.dropped, overlong_append, List.length_append]
  · intro eof
    obtain ⟨ended, none⟩ := out.eof eof
    rw [← content] at ended
    have all := (settled_eof now ended none).1
    rw [List.drop_zero] at all
    rw [past_same, all, eq, List.append_assoc]

@[simp] theorem commitOffset_file (t : LogTailer) (disk : Disk) :
    (commitOffset t disk).1.file = t.file := by
  unfold commitOffset
  split <;> rfl

def Onward (w w' : Following) (dealt front : List Bytes) : Prop :=
  dealt ++ front = w'.lines ∨ (front ≠ [] ∧ w'.rotatedAway = w.rotatedAway) ∨
  (w.rotatedAway = true ∧ w'.rotatedAway = false)

theorem tracks_settle (persist : Bool) {rotated : Bool} (inv : Tracks cfg streams w past next dealt)
    {f : OpenFile} (file : w.tailer.file = some f)
    (away : rotated = true ↔ w.disk.entry ≠ .file f.inode)
    (all : w.tailer.atEof = true →
      dealt = fileLines w.disk past ++ complete newline (w.disk.content f.inode)) :
    ∃ past', Tracks cfg streams
      { w with tailer := (settleCall persist rotated w.tailer w.disk).1,
               disk := (settleCall persist rotated w.tailer w.disk).2 } past' next dealt ∧
      (settleCall persist rotated w.tailer w.disk).1.file =
        if rotated && w.tailer.atEof then none else w.tailer.file := by
  cases closing : rotated && w.tailer.atEof with
  | false =>
    refine ⟨past, ?_, ?_⟩
    · cases persist with
      | false => simpa [settleCall, closing] using inv
      | true => simpa [settleCall, closing] using tracks_commit inv
    · cases persist <;> simp [settleCall, closing]
  | true =>
    have parts := (Bool.and_eq_true _ _).mp closing
    have inv := tracks_close inv file (away.mp parts.1) (all parts.2)
    refine ⟨past ++ [f.inode], ?_, ?_⟩
    · cases persist with
      | false => simpa [settleCall, closing] using inv
      | true => simpa [settleCall, closing] using tracks_commit inv
    · cases persist <;> simp [settleCall, closing, LogTailer.closeFile]

theorem tracks_drain_settle {f : OpenFile} {growth : List Bytes} {t₁ t' : LogTailer}
    {disk₁ disk' : Disk} {r : Except Raised (List PyStr)} {persist rotated : Bool}
    (inv : Tracks cfg streams w past next dealt) (valid : ∀ i, (decode (streams i)).isSome)
    (file : w.tailer.file = some f)
    (still : w.disk.entry ≠ .file f.inode → growth.flatten = [])
    (away : rotated = true ↔ w.disk.entry ≠ .file f.inode)
    (call : drainOpenFile cfg growth f w.disk w.tailer = some (r, t₁, disk₁))
    (after : (∃ e, r = .error e ∧ t' = t₁ ∧ disk' = disk₁) ∨
      ∃ lines, r = .ok lines ∧ (t', disk') = settleCall persist rotated t₁ disk₁)
    (bytes : ∀ i ∈ w.files, disk'.content i <+: streams i) :
    ∃ past' front lines, r = .ok lines ∧
      Tracks cfg streams { w with disk := disk', tailer := t', returned := w.returned ++ [r] }
        past' next (dealt ++ front) ∧
      Onward w { w with disk := disk', tailer := t', returned := w.returned ++ [r] } dealt front := by
  obtain ⟨contents, still_entry⟩ := ended_disk after
  obtain ⟨front, lines, f', outcome, open_f, inode, entry, tracked, eof, more⟩ :=
    tracks_drain inv valid file still call (by rw [← contents]; exact bytes)
  subst outcome
  obtain ⟨e, wrong, _⟩ | ⟨_, _, eq⟩ := after
  · cases wrong
  have away' : rotated = true ↔ disk₁.entry ≠ .file f'.inode := by
    rw [entry, inode]
    exact away
  obtain ⟨past', settled, left_open⟩ := tracks_settle persist tracked open_f away'
    (by rw [inode]; exact eof)
  simp only [← eq] at settled left_open
  have kept : disk'.entry = w.disk.entry := still_entry.trans entry
  refine ⟨past', front, lines, rfl, settled, ?_⟩
  have was : w.rotatedAway = rotated := by
    rw [Bool.eq_iff_iff, away]
    simp [Following.rotatedAway, file]
  cases ended : t₁.atEof with
  | false =>
    refine .inr (.inl ⟨more ended, ?_⟩)
    simp only [ended, Bool.and_false, Bool.false_eq_true, if_false] at left_open
    simp [Following.rotatedAway, left_open, open_f, inode, file, kept]
  | true =>
    cases gone : rotated with
    | true =>
      refine .inr (.inr ⟨by rw [was, gone], ?_⟩)
      simp only [ended, gone, Bool.and_true, if_true] at left_open
      simp [Following.rotatedAway, left_open]
    | false =>
      have held : w.disk.entry = .file f.inode := by
        by_contra other
        simp [away.mpr other] at gone
      have files := inv.files
      rw [tracks_current inv file held, visited, file] at files
      left
      rw [eof ended, Following.lines, files]
      simp [fileLines, contents]

theorem tracks_read {persist : Bool} {growth : List Bytes} {t' : LogTailer} {disk' : Disk}
    {r : Except Raised (List PyStr)} (inv : Tracks cfg streams w past next dealt)
    (valid : ∀ i, (decode (streams i)).isSome)
    (still : w.rotatedAway = true → growth.flatten = [])
    (call : readNewLines cfg persist growth w.disk w.tailer = some (r, t', disk'))
    (bytes : ∀ i ∈ w.files, disk'.content i <+: streams i) :
    ∃ past' next' front lines, r = .ok lines ∧
      Tracks cfg streams { w with disk := disk', tailer := t', returned := w.returned ++ [r] }
        past' next' (dealt ++ front) ∧
      Onward w { w with disk := disk', tailer := t', returned := w.returned ++ [r] } dealt front := by
  cases file : w.tailer.file with
  | some f =>
    obtain ⟨t₁, disk₁, drained, after⟩ := readNewLines_open file call
    obtain ⟨errno, errno_eq⟩ := statInode_frame w.disk w.tailer
    have inode := (inv.opened f file).1
    rw [errno_eq] at drained
    have still' : w.disk.entry ≠ .file f.inode → growth.flatten = [] := by
      intro other
      exact still (by simp [Following.rotatedAway, file, other])
    obtain ⟨past', front, lines, found⟩ := tracks_drain_settle (tracks_errno inv errno) valid file
      still' (by rw [decide_eq_true_iff]; exact statInode_eq inode) drained after bytes
    exact ⟨past', next, front, lines, found⟩
  | none =>
    rcases inv.place with ⟨missing, last⟩ | ⟨i, entry, rfl⟩ | ⟨f, open_f, _⟩
    · have refused : openAtSavedOffset cfg w.disk w.tailer = .osError enoent := by
        simp [openAtSavedOffset, missing]
      have idle : r = .ok [] ∧ t' = w.tailer ∧ disk' = w.disk := by
        rcases readNewLines_closed file call with ⟨e, raised, _⟩ | ⟨errno, failed, ok, disk, t⟩ |
          ⟨t₀, f, t₁, disk₁, opened, _⟩
        · simp [refused] at raised
        · rw [refused, Opened.osError.injEq] at failed
          exact ⟨ok, by rw [t, ← failed]; rfl, disk⟩
        · simp [refused] at opened
      obtain ⟨rfl, rfl, rfl⟩ := idle
      have results := @results_append cfg streams w past next dealt [] [] inv rfl (Nat.zero_le _)
      rw [List.append_nil] at results
      refine ⟨past, next, [], [], rfl, ?_, ?_⟩
      · rw [List.append_nil]
        exact ⟨inv.files, inv.nodup, inv.place, inv.closed, inv.opened, inv.ended, inv.saved,
          inv.pending, results, inv.dropped, inv.bytes⟩
      · left
        have files := inv.files
        rw [last, visited, file] at files
        rw [List.append_nil, (inv.closed file).2.2, Following.lines, files]
        simp
    · obtain ⟨_, opens⟩ := open_fresh inv file entry
      obtain ⟨e, raised, _⟩ | ⟨errno, failed, _⟩ | ⟨t₀, f, t₁, disk₁, opened, open_f, drained, after⟩ :=
        readNewLines_closed file call
      · simp [opens] at raised
      · simp [opens] at failed
      · rw [opens, Opened.opened.injEq] at opened
        subst opened
        simp only [Option.some.injEq] at open_f
        subst open_f
        have fresh := tracks_open inv file entry
        obtain ⟨past', front, lines, ok, tracked, onward⟩ := tracks_drain_settle fresh valid rfl
          (by simp [entry]) (by simp [entry]) drained after bytes
        refine ⟨past', [], front, lines, ok, tracked, ?_⟩
        have quiet : w.rotatedAway = false := by simp [Following.rotatedAway, file]
        rcases onward with all | ⟨some, same⟩ | ⟨was, _⟩
        · exact .inl all
        · refine .inr (.inl ⟨some, same.trans ?_⟩)
          rw [quiet]
          simp [Following.rotatedAway, entry]
        · simp [Following.rotatedAway, entry] at was
    · simp [file] at open_f

def Following.holdsCurrent (w : Following) : Bool :=
  match w.tailer.file with
  | some f => w.disk.entry = .file f.inode
  | none => false

/-- A rotation happens only while the tailer holds the current file open. -/
def HeldRename (w : Following) (e : Event) : Prop := e = .rename → w.holdsCurrent = true

instance (w : Following) (e : Event) : Decidable (HeldRename w e) :=
  inferInstanceAs (Decidable (e = .rename → w.holdsCurrent = true))

def Within (cfg : TailConfig) (streams : Nat → Bytes) (w : Following) (e : Event) : Prop :=
  ∀ w' ∈ step cfg w e, ∀ i ∈ w'.files, w'.disk.content i <+: streams i

instance (cfg : TailConfig) (streams : Nat → Bytes) (w : Following) (e : Event) :
    Decidable (Within cfg streams w e) :=
  inferInstanceAs (Decidable (∀ w' ∈ step cfg w e, ∀ i ∈ w'.files, w'.disk.content i <+: streams i))

theorem tracks_step {e : Event} (valid : ∀ i, (decode (streams i)).isSome)
    (inv : ∃ past next dealt, Tracks cfg streams w past next dealt)
    (met : HeldRename w e ∧ Within cfg streams w e) (taken : step cfg w e = some w') :
    ∃ past next dealt, Tracks cfg streams w' past next dealt := by
  obtain ⟨past, next, dealt, inv⟩ := inv
  have bytes := met.2 w' taken
  cases e with
  | append more =>
    simp only [step] at taken
    split at taken
    · rename_i i entry
      cases taken
      refine ⟨past, next, dealt, tracks_append inv entry fun known => ?_⟩
      have le := bytes i known
      rw [setContent_same] at le
      exact le
    · cases taken
  | rename =>
    obtain ⟨f, file, held⟩ : ∃ f, w.tailer.file = some f ∧ w.disk.entry = .file f.inode := by
      have holds := met.1 rfl
      unfold Following.holdsCurrent at holds
      split at holds
      · rename_i f file
        exact ⟨f, file, by simpa using holds⟩
      · cases holds
    simp only [step, held] at taken
    split at taken
    · rename_i whole
      cases taken
      exact ⟨past, next, dealt, tracks_rename inv file held whole⟩
    · cases taken
  | create i =>
    simp only [step] at taken
    split at taken
    · rename_i free
      cases taken
      exact ⟨past, [i], dealt, tracks_create inv free.1 free.2⟩
    · cases taken
  | readNewLines persist growth =>
    simp only [step] at taken
    split at taken
    · cases taken
    · rename_i allowed
      cases call : readNewLines cfg persist growth w.disk w.tailer with
      | none => simp [call] at taken
      | some out =>
        obtain ⟨r, t', disk'⟩ := out
        simp only [call, Option.some.injEq] at taken
        subst taken
        have still : w.rotatedAway = true → growth.flatten = [] := by
          intro away
          by_contra some
          exact allowed ⟨away, some⟩
        obtain ⟨past', next', front, _, _, tracked, _⟩ := tracks_read inv valid still call bytes
        exact ⟨past', next', dealt ++ front, tracked⟩
  | commitOffset =>
    simp only [step, Option.some.injEq] at taken
    subst taken
    exact ⟨past, next, dealt, tracks_commit inv⟩

theorem tracks_dealt (inv : Tracks cfg streams w past next dealt) : dealt <+: w.lines := by
  rw [Following.lines, inv.files, visited]
  cases file : w.tailer.file with
  | none =>
    rw [(inv.closed file).2.2]
    simp [fileLines]
  | some f =>
    obtain ⟨_, done, left, settled, eq⟩ := inv.opened f file
    have first := settled_done settled
    rw [List.drop_zero] at first
    obtain ⟨more, split⟩ := first
    rw [eq]
    simp only [fileLines, Option.map_some, Option.toList_some, List.flatMap_append,
      List.flatMap_singleton, ← split, List.append_assoc, List.prefix_append_right_inj]
    exact List.prefix_append _ _

/-- Lines not dealt with, and the close that is still to come. -/
def work (w : Following) (dealt : List Bytes) : Nat :=
  w.lines.length - dealt.length + if w.rotatedAway then 1 else 0

def quietCall (k : Nat) (persist : Bool) : Event := .readNewLines persist (List.replicate k [])

theorem quiet_step {k : Nat} (persist : Bool) (valid : ∀ i, (decode (streams i)).isSome)
    (inv : Tracks cfg streams w past next dealt)
    (enough : ∀ i ∈ w.files, (w.disk.content i).length < k) :
    ∃ w' past' next' dealt', step cfg w (quietCall k persist) = some w' ∧
      w'.disk.content = w.disk.content ∧ w'.files = w.files ∧
      Tracks cfg streams w' past' next' dealt' ∧ dealt.length ≤ dealt'.length ∧
      (dealt' = w'.lines ∨ work w' dealt' + 1 ≤ work w dealt) := by
  have quiet : (List.replicate k ([] : Bytes)).flatten = [] := by simp
  have held : ∀ f, w.tailer.file = some f →
      (BufferedReading.pending f.toReader (w.disk.content f.inode)).length < k := by
    intro f file
    obtain ⟨_, done, left, settled, _⟩ := inv.opened f file
    exact (BufferedReading.pending_length settled.fresh).trans_lt
      (enough f.inode (by rw [inv.files, visited, file]; simp))
  have named : ∀ i, w.disk.entry = .file i → (w.disk.content i).length < k := by
    intro i entry
    apply enough i
    rw [inv.files]
    rcases inv.place with ⟨missing, _⟩ | ⟨j, at_j, rfl⟩ | ⟨f, file, at_f, _⟩
    · simp [entry] at missing
    · simp [show j = i by simpa [entry] using at_j.symm]
    · simp [visited, file, show f.inode = i by simpa [entry] using at_f.symm]
  obtain ⟨⟨r, t', disk'⟩, call⟩ := readNewLines_returns cfg persist w.tailer held named
  obtain ⟨content, entry⟩ := readNewLines_quiet quiet call
  obtain ⟨past', next', front, lines, _, tracked, onward⟩ := tracks_read inv valid
    (fun _ => quiet) call (by rw [content]; exact inv.bytes)
  refine ⟨{ w with disk := disk', tailer := t', returned := w.returned ++ [r] }, past', next',
    dealt ++ front, by simp [step, quietCall, call], content, rfl, tracked, by simp, ?_⟩
  have same : Following.lines { w with disk := disk', tailer := t', returned := w.returned ++ [r] } =
      w.lines := by
    simp [Following.lines, fileLines, content]
  have upper := (tracks_dealt tracked).length_le
  rw [same, List.length_append] at upper
  rcases onward with all | ⟨some, away⟩ | ⟨was, now⟩
  · exact .inl all
  · right
    have := List.length_pos_iff.mpr some
    rw [work, work, same, away, List.length_append]
    omega
  · right
    rw [work, work, same, was, now, List.length_append]
    simp only [Bool.false_eq_true, if_false, if_true]
    omega

theorem quiet_run {k : Nat} (valid : ∀ i, (decode (streams i)).isSome) (persists : List Bool)
    (inv : Tracks cfg streams w past next dealt)
    (enough : ∀ i ∈ w.files, (w.disk.content i).length < k) :
    ∃ w' past' next' dealt', run (step cfg) w (persists.map (quietCall k)) = some w' ∧
      w'.disk.content = w.disk.content ∧ w'.files = w.files ∧
      Tracks cfg streams w' past' next' dealt' ∧ dealt.length ≤ dealt'.length ∧
      (dealt' = w'.lines ∨ work w' dealt' + persists.length ≤ work w dealt) := by
  induction persists generalizing w past next dealt with
  | nil => exact ⟨w, past, next, dealt, rfl, rfl, rfl, inv, Nat.le_refl _, .inr (by simp)⟩
  | cons persist persists ih =>
    obtain ⟨w₁, past₁, next₁, dealt₁, taken, content, files, inv₁, grown, first⟩ :=
      quiet_step persist valid inv enough
    obtain ⟨w₂, past₂, next₂, dealt₂, later, content₂, files₂, inv₂, grown₂, second⟩ :=
      ih inv₁ (by rw [files, content]; exact enough)
    refine ⟨w₂, past₂, next₂, dealt₂, by simp [run, taken, later], content₂.trans content,
      files₂.trans files, inv₂, grown.trans grown₂, ?_⟩
    rcases second with all | less
    · exact .inl all
    · rcases first with all | less₁
      · -- everything was dealt with after the first call already
        have same : w₂.lines = w₁.lines := by
          simp [Following.lines, fileLines, content₂, files₂]
        have le := tracks_dealt inv₂
        refine .inl (le.eq_of_length_le ?_)
        rw [same, ← all]
        exact grown₂
      · right
        simp only [List.length_cons]
        omega

/-- The lines returned are the lines written, in order and without the over-long ones, up to
    some point; when nothing more is written, finitely many calls return all of them. -/
theorem returned_lines_in_order (valid : ∀ i, (decode (streams i)).isSome)
    (reached : Reach (step cfg) (fun w e => HeldRename w e ∧ Within cfg streams w e)
      Following.start w) :
    (∃ (outs : List (List PyStr)) (n : Nat), w.returned = outs.map .ok ∧
      (∀ out ∈ outs, out.length ≤ cfg.maxBatchLines) ∧
      outs.flatten.map some = (usable cfg.maxLineBytes (w.lines.take n)).map decode ∧
      w.tailer.droppedLines = (overlong cfg.maxLineBytes (w.lines.take n)).length) ∧
    ∃ calls bytes, ∀ persists : List Bool, calls ≤ persists.length → ∀ k, bytes ≤ k →
      ∃ (w' : Following) (outs : List (List PyStr)),
        run (step cfg) w (persists.map (quietCall k)) = some w' ∧ w'.lines = w.lines ∧
        w'.returned = outs.map .ok ∧ (∀ out ∈ outs, out.length ≤ cfg.maxBatchLines) ∧
        outs.flatten.map some = (usable cfg.maxLineBytes w.lines).map decode ∧
        w'.tailer.droppedLines = (overlong cfg.maxLineBytes w.lines).length := by
  obtain ⟨past, next, dealt, inv⟩ := reach_invariant
    (fun w => ∃ past next dealt, Tracks cfg streams w past next dealt)
    ⟨[], [], [], tracks_start⟩ (fun _ _ _ => tracks_step valid) reached
  constructor
  · obtain ⟨outs, returned, texts, sizes⟩ := inv.results
    have front : w.lines.take dealt.length = dealt :=
      (List.prefix_iff_eq_take.mp (tracks_dealt inv)).symm
    exact ⟨outs, dealt.length, returned, sizes, by rw [front]; exact texts,
      by rw [front]; exact inv.dropped⟩
  · refine ⟨work w dealt + 1, (w.files.map fun i => (w.disk.content i).length).sum + 1, ?_⟩
    intro persists calls k bytes
    have enough : ∀ i ∈ w.files, (w.disk.content i).length < k := by
      intro i member
      have := List.single_le_sum (l := w.files.map fun i => (w.disk.content i).length) (by simp) _
        (List.mem_map_of_mem member)
      omega
    obtain ⟨w', past', next', dealt', taken, content, files, inv', _, finished⟩ :=
      quiet_run valid persists inv enough
    have same : w'.lines = w.lines := by simp [Following.lines, fileLines, content, files]
    have all : dealt' = w.lines := by
      rcases finished with all | less
      · rw [all, same]
      · omega
    obtain ⟨outs, returned, texts, sizes⟩ := inv'.results
    exact ⟨w', outs, taken, same, returned, sizes, by rw [← all]; exact texts,
      by rw [← all]; exact inv'.dropped⟩

def smallConfig : TailConfig := ⟨4, 2, 8, 1000, Nat.succ_pos _, Nat.succ_pos _, Nat.succ_pos _⟩

def OneRename (w : Following) (e : Event) : Prop := e = .rename → w.rotatedAway = false

instance (w : Following) (e : Event) : Decidable (OneRename w e) :=
  inferInstanceAs (Decidable (e = .rename → w.rotatedAway = false))

def letterStream (i : Nat) : Bytes :=
  [if i = 1 then 0x61 else if i = 2 then 0x62 else 0x63, newline]

theorem letterStream_valid (i : Nat) : (decode (letterStream i)).isSome := by
  unfold letterStream
  repeat' split
  all_goals decide

/-- The log is rotated again after the old file was closed and before the new one was opened. -/
def twoRotations : List Event :=
  [.create 1, .append [0x61, newline], .readNewLines true [[], [], []], .rename, .create 2,
    .append [0x62, newline], .readNewLines true [[]], .rename, .create 3,
    .append [0x63, newline], .readNewLines true [[], []]]

/-- A rotation while the current file is held: its lines, then those of the new one. -/
theorem returned_lines_in_order_rotation :
    ∃ w, Reach (step smallConfig) (fun w e => HeldRename w e ∧ Within smallConfig letterStream w e)
        Following.start w ∧ w.lines = [[0x61], [0x62]] ∧
      ∃ (outs : List (List PyStr)) (n : Nat), w.returned = outs.map .ok ∧
        (∀ out ∈ outs, out.length ≤ smallConfig.maxBatchLines) ∧
        outs.flatten.map some = (usable smallConfig.maxLineBytes (w.lines.take n)).map decode ∧
        w.tailer.droppedLines =
          (overlong smallConfig.maxLineBytes (w.lines.take n)).length := by
  have lines : ((runIf (step smallConfig)
      (fun w e => HeldRename w e ∧ Within smallConfig letterStream w e) Following.start
      (twoRotations.take 7 ++ [.readNewLines true [[], []]])).map Following.lines) =
        some [[0x61], [0x62]] := by decide +kernel
  obtain ⟨w, taken, eq⟩ := Option.map_eq_some_iff.mp lines
  have reached := runIf_reaches Reach.start taken
  exact ⟨w, reached, eq, (returned_lines_in_order letterStream_valid reached).1⟩

/-- With only one rotation at a time allowed, the file in between can still be passed over. -/
theorem second_rotation_skips_file :
    ¬ ∀ (cfg : TailConfig) (streams : Nat → Bytes) (w : Following),
      (∀ i, (decode (streams i)).isSome) →
      Reach (step cfg) (fun w e => OneRename w e ∧ Within cfg streams w e) Following.start w →
      ∃ (outs : List (List PyStr)) (n : Nat), w.returned = outs.map .ok ∧
        outs.flatten.map some = (usable cfg.maxLineBytes (w.lines.take n)).map decode := by
  intro all
  have some : (runIf (step smallConfig)
      (fun w e => OneRename w e ∧ Within smallConfig letterStream w e)
      Following.start twoRotations).isSome = true := by decide +kernel
  obtain ⟨w, taken⟩ := Option.isSome_iff_exists.mp some
  obtain ⟨outs, n, returned, texts⟩ :=
    all smallConfig letterStream w letterStream_valid (runIf_reaches Reach.start taken)
  have seen : (w.returned = [.ok [[0x61]], .ok [], .ok [[0x63]]]) ∧
      w.lines = [[0x61], [0x62], [0x63]] := by
    have both : ((runIf (step smallConfig)
      (fun w e => OneRename w e ∧ Within smallConfig letterStream w e)
      Following.start twoRotations).map fun w => (w.returned, w.lines)) =
        Option.some ([.ok [[0x61]], .ok [], .ok [[0x63]]], [[0x61], [0x62], [0x63]]) := by decide +kernel
    rw [taken] at both
    simpa using both
  have flat : outs = [[[0x61]], [], [[0x63]]] := by
    apply List.map_injective_iff.mpr (fun _ _ => Except.ok.inj)
    rw [← returned, seen.1]
    rfl
  rw [flat, seen.2] at texts
  have differ : ¬ Option.some [0x63] = decode [0x62] := by decide
  rcases n with _ | _ | _ | n
  all_goals simp [usable, smallConfig, TailConfig.maxLineBytes, maxLineBytesFactor, differ] at texts

end ShipperTailRuns