import SentinelBrief.Library.Runs
import SentinelBrief.Shipper.TailCalls

/-!
Restarts over a single append-only file. A restart discards the tailer and
builds a new one, which starts from the committed `tail.json`. Every process
keeps the offset it started from, the offset its last call reached (the
position less the buffer) and what its calls returned. A call whose lines do
not decode is not among the steps.
-/
namespace ShipperTailRestarts
open ShipperTail SeparatedLines Utf8Text StepRuns

structure Process where
  base : Nat
  reach : Nat
  out : List PyStr
  deriving DecidableEq, Repr

def Process.lines (content : Bytes) (p : Process) : List (Nat × Bytes) :=
  placed p.base (complete newline ((content.take p.reach).drop p.base))

structure Restarting where
  disk : Disk
  tailer : LogTailer
  live : Option Process
  earlier : List Process
  committed : Option Int

inductive Event where
  | append (bytes : Bytes)
  | readNewLines (growth : List Bytes)
  | commitOffset
  | restart
  deriving DecidableEq, Repr

def Restarting.start (inode : Nat) : Restarting :=
  { disk := { entry := .file inode, content := fun _ => [], stateFile := none }, tailer := {},
    live := none, earlier := [], committed := none }

def Restarting.processes (w : Restarting) : List Process := w.earlier ++ w.live.toList

def startOffset (cfg : TailConfig) (disk : Disk) (t : LogTailer) : Nat :=
  match openAtSavedOffset cfg disk t with
  | .opened t => (t.file.map (·.pos)).getD 0
  | _ => 0

def Restarting.base (cfg : TailConfig) (w : Restarting) : Nat :=
  match w.live with
  | some p => p.base
  | none => startOffset cfg w.disk w.tailer

def Restarting.out (w : Restarting) : List PyStr := (w.live.map (·.out)).getD []

def reachOf (t : LogTailer) : Nat :=
  match t.file with
  | some f => f.pos - t.buffer.length
  | none => 0

def Restarting.afterCall (cfg : TailConfig) (w : Restarting) (lines : List PyStr) (t : LogTailer)
    (disk : Disk) : Restarting :=
  { w with disk := disk, tailer := t, live := some ⟨w.base cfg, reachOf t, w.out ++ lines⟩ }

def step (cfg : TailConfig) (inode : Nat) (w : Restarting) : Event → Option Restarting
  | .append bytes =>
    some { w with disk := w.disk.setContent inode (w.disk.content inode ++ bytes) }
  | .readNewLines growth => match readNewLines cfg false growth w.disk w.tailer with
    | some (.ok lines, t, disk) => some (w.afterCall cfg lines t disk)
    | _ => none
  | .commitOffset =>
    some { w with tailer := (commitOffset w.tailer w.disk).1,
                  disk := (commitOffset w.tailer w.disk).2,
                  committed := (w.tailer.pendingState.map (·.offset)).or w.committed }
  | .restart => some { w with tailer := {}, live := none, earlier := w.processes }

/-- Every usable line of the file, however it grows, that starts before `o` was returned. -/
def Covered (cfg : TailConfig) (content : Bytes) (ps : List Process) (o : Nat) : Prop :=
  ∀ later, content <+: later → ∀ x ∈ placed 0 (complete newline later), x.1 < o →
    x.2.length ≤ cfg.maxLineBytes → ∃ p ∈ ps, x ∈ p.lines content

structure Described (cfg : TailConfig) (content : Bytes) (p : Process) : Prop where
  ordered : p.base ≤ p.reach
  within : p.reach ≤ content.length
  texts : p.out.map some =
    (usable cfg.maxLineBytes ((p.lines content).map Prod.snd)).map decode

variable {cfg : TailConfig} {inode : Nat} {w w' : Restarting} {content more : Bytes}
  {ps : List Process} {p : Process}

theorem process_lines_grow (within : p.reach ≤ content.length) :
    p.lines (content ++ more) = p.lines content := by
  rw [Process.lines, Process.lines, List.take_append_of_le_length within]

theorem described_grow (inv : Described cfg content p) : Described cfg (content ++ more) p :=
  ⟨inv.ordered, by have := inv.within; rw [List.length_append]; omega,
    by rw [process_lines_grow inv.within]; exact inv.texts⟩

theorem covered_mono {ps' : List Process} {o : Nat} (inv : Covered cfg content ps o)
    (kept : ∀ p ∈ ps, ∃ q ∈ ps', p.lines content ⊆ q.lines (content ++ more)) :
    Covered cfg (content ++ more) ps' o := by
  intro later le x member before short
  obtain ⟨p, known, found⟩ := inv later ((List.prefix_append _ _).trans le) x member before short
  obtain ⟨q, known', sub⟩ := kept p known
  exact ⟨q, known', sub found⟩

theorem covered_grow {o : Nat} (inv : Covered cfg content ps o)
    (within : ∀ p ∈ ps, p.reach ≤ content.length) : Covered cfg (content ++ more) ps o := by
  refine covered_mono inv fun p known => ⟨p, known, ?_⟩
  rw [process_lines_grow (within p known)]
  exact List.Subset.refl _

variable {base : Nat} {done : List Bytes} {left buffer : Bytes} {reader : BufferedReading.Reader UInt8}
  {dropping : Option Nat}

/-- Up to the position less the buffer the file holds the lines dealt with and, while a line is
    dropped, its bytes so far. -/
theorem settled_reach (inv : Settled cfg content base done left reader buffer dropping) :
    base ≤ reader.pos - buffer.length ∧ complete newline ((content.take (reader.pos - buffer.length)).drop base) =
      done ∧ (dropping = none → rest newline ((content.take (reader.pos - buffer.length)).drop base) = []) := by
  obtain ⟨size, shorter⟩ := settled_length inv
  have inside : base ≤ content.length := inv.from_base.trans inv.within
  have front : (content.take base).length = base := by simp [inside]
  have cut_at : content.take (reader.pos - buffer.length) = (content.take reader.pos).take (reader.pos - buffer.length) := by
    rw [List.take_take]
    congr 1
    omega
  refine ⟨by omega, ?_⟩
  rw [cut_at, inv.read]
  cases state : dropping with
  | none =>
    obtain ⟨rfl, _⟩ := inv.whole state
    have upto : reader.pos - left.length = (content.take base ++ unlines newline done).length := by
      rw [List.length_append, front]
      omega
    rw [upto, List.take_left, List.drop_append_of_le_length (by omega), List.drop_eq_nil_of_le
      (by omega), List.nil_append]
    have lines := complete_unlines done [] inv.lines
    have tail := rest_unlines done [] inv.lines
    simp only [List.append_nil, complete_nil, rest_nil] at lines tail
    exact ⟨lines, fun _ => tail⟩
  | some n =>
    obtain ⟨rfl, free, _⟩ := inv.lost n state
    have upto : reader.pos - ([] : Bytes).length =
        (content.take base ++ unlines newline done ++ left).length := by
      rw [List.length_append, List.length_append, front, List.length_nil]
      omega
    rw [upto, List.take_length, List.append_assoc, List.drop_append_of_le_length (by omega),
      List.drop_eq_nil_of_le (by omega), List.nil_append, complete_unlines _ _ inv.lines,
      complete_free _ free, List.append_nil]
    exact ⟨rfl, by simp⟩

/-- No usable line starts inside a line that is being dropped: one that has not been dealt with
    starts at the position less the buffer or later. -/
theorem settled_beyond {x : Nat × Bytes} {ahead : Bytes}
    (inv : Settled cfg content base done left reader buffer dropping)
    (beyond : x ∈ placed (base + (unlines newline done).length) (complete newline (left ++ ahead)))
    (short : x.2.length ≤ cfg.maxLineBytes) : reader.pos - buffer.length ≤ x.1 := by
  have start := placed_start_le beyond
  obtain ⟨size, _⟩ := settled_length inv
  cases state : dropping with
  | none =>
    obtain ⟨rfl, _⟩ := inv.whole state
    omega
  | some n =>
    obtain ⟨rfl, free, len, long⟩ := inv.lost n state
    rw [List.length_nil, Nat.sub_zero]
    cases found : complete newline ahead with
    | nil =>
      rw [(complete_free_nil free found).1] at beyond
      simp at beyond
    | cons l ls =>
      rw [(complete_free_cons free found).1, placed, List.mem_cons] at beyond
      rcases beyond with rfl | after
      · simp only [List.length_append] at short
        omega
      · have := placed_start_le after
        simp only [List.length_append] at this
        omega

theorem settled_covers (inv : Settled cfg content p.base done left reader buffer dropping)
    (reach : p.reach = reader.pos - buffer.length) (known : p ∈ ps)
    (covered : Covered cfg content ps p.base) : Covered cfg content ps p.reach := by
  obtain ⟨_, lines, _⟩ := settled_reach inv
  have mine : p.lines content = placed p.base done := by rw [Process.lines, reach, lines]
  intro later le x member before short
  by_cases early : x.1 < p.base
  · exact covered later le x member early short
  · refine ⟨p, known, ?_⟩
    rw [mine]
    have behind := mem_placed_drop member (show p.base ≤ x.1 by omega)
    obtain ⟨more, rfl⟩ := le
    rw [settled_parts inv, complete_unlines _ _ inv.lines, placed_append newline,
      List.mem_append] at behind
    rcases behind with dealt | beyond
    · exact dealt
    · have := settled_beyond inv beyond short
      omega

structure Reads (cfg : TailConfig) (inode : Nat) (w : Restarting) (p : Process) (f : OpenFile) :
    Prop where
  live : w.live = some p
  inode_file : f.inode = inode
  inode_tailer : w.tailer.inode = some inode
  settled : ∃ done left, Settled cfg (w.disk.content inode) p.base done left f.toReader w.tailer.buffer
    w.tailer.droppingBytes
  reach : p.reach = f.pos - w.tailer.buffer.length
  pending : ∀ st, w.tailer.pendingState = some st → st = ⟨inode, p.reach⟩

structure Stands (cfg : TailConfig) (inode : Nat) (w : Restarting) : Prop where
  entry : w.disk.entry = .file inode
  closed : w.tailer.file = none → w.live = none ∧ w.tailer.buffer = [] ∧
    w.tailer.droppingBytes = none ∧ w.tailer.pendingState = none
  opened : ∀ f, w.tailer.file = some f → ∃ p, Reads cfg inode w p f
  described : ∀ p ∈ w.processes, Described cfg (w.disk.content inode) p
  bases : ∀ p ∈ w.processes, Covered cfg (w.disk.content inode) w.processes p.base
  saved : w.disk.stateFile = none ∨ ∃ (o : Nat) (disk : Disk),
    w.disk.stateFile = (persistState ⟨inode, o⟩ disk).stateFile ∧
    Covered cfg (w.disk.content inode) w.processes o
  committed : ∀ o, w.committed = some o → ∃ n : Nat, o = n ∧
    Covered cfg (w.disk.content inode) w.processes n

theorem stands_start : Stands cfg inode (Restarting.start inode) where
  entry := rfl
  closed _ := ⟨rfl, rfl, rfl, rfl⟩
  opened f eq := by cases eq
  described p member := by cases member
  bases p member := by cases member
  saved := .inl rfl
  committed o eq := by cases eq

theorem covered_zero : Covered cfg content ps 0 := by
  intro later _ x _ before
  omega

theorem stands_append (inv : Stands cfg inode w) (bytes : Bytes) :
    Stands cfg inode
      { w with disk := w.disk.setContent inode (w.disk.content inode ++ bytes) } := by
  have within : ∀ p ∈ w.processes, p.reach ≤ (w.disk.content inode).length :=
    fun p known => (inv.described p known).within
  refine ⟨inv.entry, inv.closed, ?_, ?_, ?_, ?_, ?_⟩
  · intro f file
    obtain ⟨p, reads⟩ := inv.opened f file
    obtain ⟨done, left, settled⟩ := reads.settled
    refine ⟨p, reads.live, reads.inode_file, reads.inode_tailer, ⟨done, left, ?_⟩, reads.reach,
      reads.pending⟩
    rw [setContent_same]
    exact settled_grow settled bytes
  · intro p known
    rw [setContent_same]
    exact described_grow (inv.described p known)
  · intro p known
    rw [setContent_same]
    exact covered_grow (inv.bases p known) within
  · rcases inv.saved with absent | ⟨o, disk, eq, covered⟩
    · exact .inl absent
    · refine .inr ⟨o, disk, eq, ?_⟩
      rw [setContent_same]
      exact covered_grow covered within
  · intro o eq
    obtain ⟨n, eq, covered⟩ := inv.committed o eq
    refine ⟨n, eq, ?_⟩
    rw [setContent_same]
    exact covered_grow covered within

theorem stands_restart (inv : Stands cfg inode w) :
    Stands cfg inode { w with tailer := {}, live := none, earlier := w.processes } := by
  have same : Restarting.processes { w with tailer := {}, live := none, earlier := w.processes } =
      w.processes := by
    rw [Restarting.processes]
    simp
  refine ⟨inv.entry, fun _ => ⟨rfl, rfl, rfl, rfl⟩, ?_, by rw [same]; exact inv.described,
    by rw [same]; exact inv.bases, by rw [same]; exact inv.saved, by rw [same]; exact inv.committed⟩
  intro f file
  cases file

theorem stands_commit (inv : Stands cfg inode w) :
    Stands cfg inode
      { w with tailer := (commitOffset w.tailer w.disk).1,
               disk := (commitOffset w.tailer w.disk).2,
               committed := (w.tailer.pendingState.map (·.offset)).or w.committed } := by
  cases file : w.tailer.file with
  | none =>
    have idle : w.tailer.pendingState = none := (inv.closed file).2.2.2
    simpa [commitOffset, idle] using inv
  | some f =>
    obtain ⟨p, reads⟩ := inv.opened f file
    cases pending : w.tailer.pendingState with
    | none => simpa [commitOffset, pending] using inv
    | some st =>
      obtain ⟨done, left, settled⟩ := reads.settled
      have known : p ∈ w.processes := by simp [Restarting.processes, reads.live]
      have covered : Covered cfg (w.disk.content inode) w.processes p.reach :=
        settled_covers settled reads.reach known (inv.bases p known)
      have eq := reads.pending st pending
      subst eq
      simp only [commitOffset, pending, Option.map_some, Option.some_or]
      refine ⟨inv.entry, fun none => ?_, ?_, inv.described, inv.bases,
        .inr ⟨p.reach, w.disk, rfl, covered⟩, ?_⟩
      · simp [file] at none
      · intro g open_g
        rw [file, Option.some.injEq] at open_g
        subst open_g
        exact ⟨p, reads.live, reads.inode_file, reads.inode_tailer, ⟨done, left, settled⟩,
          reads.reach, by simp⟩
      · intro o eq
        simp only [Option.some.injEq] at eq
        exact ⟨p.reach, eq.symm, covered⟩

theorem open_saved (inv : Stands cfg inode w) (file : w.tailer.file = none) :
    ∃ target : Nat, openAtSavedOffset cfg w.disk w.tailer =
        .opened { w.tailer with file := some ⟨⟨target, []⟩, inode⟩, inode := some inode } ∧
      w.base cfg = target ∧ target ≤ (w.disk.content inode).length ∧
      Covered cfg (w.disk.content inode) w.processes target ∧
      (target = 0 ∨ loadState cfg w.disk.stateFile = .ok (some ⟨inode, target⟩)) := by
  have found : ∃ target : Nat, openAtSavedOffset cfg w.disk w.tailer =
        .opened { w.tailer with file := some ⟨⟨target, []⟩, inode⟩, inode := some inode } ∧
      target ≤ (w.disk.content inode).length ∧
      Covered cfg (w.disk.content inode) w.processes target ∧
      (target = 0 ∨ loadState cfg w.disk.stateFile = .ok (some ⟨inode, target⟩)) := by
    have from_start : ∀ state, loadState cfg w.disk.stateFile = .ok state →
        seekTarget state inode (w.disk.content inode).length = 0 →
        openAtSavedOffset cfg w.disk w.tailer =
          .opened { w.tailer with file := some ⟨⟨0, []⟩, inode⟩, inode := some inode } := by
      intro state loaded target
      simp [openAtSavedOffset, inv.entry, loaded, target, offTMin]
    rcases inv.saved with absent | ⟨o, disk, eq, covered⟩
    · exact ⟨0, from_start none (by rw [absent]; rfl) rfl, Nat.zero_le _, covered_zero, .inl rfl⟩
    · rcases loadState_persistState cfg disk inode o with back | unread
      · by_cases inside : o ≤ (w.disk.content inode).length
        · refine ⟨o, ?_, inside, covered, .inr (by rw [eq]; exact back)⟩
          have low : ¬ ((o : Int) < offTMin) := by simp only [offTMin]; omega
          have nonneg : ¬ ((o : Int) < 0) := by omega
          simp [openAtSavedOffset, inv.entry, eq, back, seekTarget, inside, low, nonneg]
        · refine ⟨0, from_start (some ⟨inode, o⟩) (by rw [eq]; exact back) ?_, Nat.zero_le _,
            covered_zero, .inl rfl⟩
          simp [seekTarget, inside]
      · exact ⟨0, from_start none (by rw [eq]; exact unread) rfl, Nat.zero_le _, covered_zero, .inl rfl⟩
  obtain ⟨target, opens, inside, origin⟩ := found
  refine ⟨target, opens, ?_, inside, origin⟩
  rw [Restarting.base, (inv.closed file).1]
  simp [startOffset, opens]

structure Call (cfg : TailConfig) (inode : Nat) (w : Restarting) (f : OpenFile) (t₀ : LogTailer)
    (done : List Bytes) (left : Bytes) : Prop where
  inode_file : f.inode = inode
  inode_tailer : t₀.inode = some inode
  buffer : t₀.buffer = w.tailer.buffer
  dropping : t₀.droppingBytes = w.tailer.droppingBytes
  pending : t₀.pendingState = w.tailer.pendingState
  settled : Settled cfg (w.disk.content f.inode) (w.base cfg) done left f.toReader t₀.buffer
    t₀.droppingBytes
  texts : w.out.map some = (usable cfg.maxLineBytes done).map decode
  covered : Covered cfg (w.disk.content inode) w.processes (w.base cfg)
  fresh : w.live = none → done = []
  reach : ∀ p, w.live = some p → p.base = w.base cfg ∧ p.reach = f.pos - t₀.buffer.length
  position : ∀ st, w.tailer.pendingState = some st → st = ⟨inode, (f.pos - t₀.buffer.length : Nat)⟩

theorem call_drains {growth : List Bytes} {r : Except Raised (List PyStr)} {t' : LogTailer}
    {disk' : Disk} (inv : Stands cfg inode w)
    (call : readNewLines cfg false growth w.disk w.tailer = some (r, t', disk')) :
    ∃ f t₀ done left, Call cfg inode w f t₀ done left ∧
      drainOpenFile cfg growth f w.disk t₀ = some (r, t', disk') := by
  cases file : w.tailer.file with
  | some f =>
    obtain ⟨p, reads⟩ := inv.opened f file
    obtain ⟨done, left, settled⟩ := reads.settled
    obtain ⟨errno, frame⟩ := statInode_frame w.disk w.tailer
    obtain ⟨t₁, disk₁, drained, after⟩ := readNewLines_open file call
    have known : p ∈ w.processes := by simp [Restarting.processes, reads.live]
    have base : w.base cfg = p.base := by simp [Restarting.base, reads.live]
    have current : decide ((statInode w.disk w.tailer).1 ≠ w.tailer.inode) = false := by
      rw [decide_eq_false_iff_not, statInode_eq (by rw [reads.inode_file]; exact reads.inode_tailer),
        reads.inode_file]
      simp [inv.entry]
    have same : t' = t₁ ∧ disk' = disk₁ := by
      rcases after with ⟨_, _, t, disk⟩ | ⟨_, _, eq⟩
      · exact ⟨t, disk⟩
      · rw [current] at eq
        simpa [settleCall] using eq
    obtain ⟨rfl, rfl⟩ := same
    rw [frame] at drained
    refine ⟨f, { w.tailer with lastOpenErrno := errno }, done, left, ⟨reads.inode_file, reads.inode_tailer, rfl, rfl, rfl, ?_, ?_,
      by rw [base]; exact inv.bases p known, by simp [reads.live], ?_, ?_⟩, drained⟩
    · rw [base, reads.inode_file]
      exact settled
    · have lines := (settled_reach settled).2.1
      have texts := (inv.described p known).texts
      rw [Process.lines, reads.reach, lines, placed_lines] at texts
      simpa [Restarting.out, reads.live] using texts
    · intro q live
      rw [reads.live, Option.some.injEq] at live
      subst live
      exact ⟨base.symm, reads.reach⟩
    · intro st eq
      rw [reads.pending st eq, reads.reach]
  | none =>
    obtain ⟨live, buffer, steady, pending⟩ := inv.closed file
    obtain ⟨target, opens, base, inside, covered, _⟩ := open_saved inv file
    obtain ⟨_, raised, _⟩ | ⟨_, failed, _⟩ | ⟨t₀, f, t₁, disk₁, opened, open_f, drained, after⟩ :=
      readNewLines_closed file call
    · simp [opens] at raised
    · simp [opens] at failed
    · rw [opens, Opened.opened.injEq] at opened
      subst opened
      simp only [Option.some.injEq] at open_f
      subst open_f
      have same : t' = t₁ ∧ disk' = disk₁ := by
        rcases after with ⟨_, _, t, disk⟩ | ⟨_, _, eq⟩
        · exact ⟨t, disk⟩
        · simpa [settleCall] using eq
      obtain ⟨rfl, rfl⟩ := same
      refine ⟨⟨⟨target, []⟩, inode⟩,
        { w.tailer with file := some ⟨⟨target, []⟩, inode⟩, inode := some inode, lastOpenErrno := none },
        [], [], ⟨rfl, rfl, rfl, rfl, rfl, ?_,
        by simp [Restarting.out, live], by rw [base]; exact covered, fun _ => rfl,
        by simp [live], by simp [pending]⟩, drained⟩
      simp only [base, buffer, steady]
      exact settled_start cfg inside

theorem stands_read {growth : List Bytes} {lines : List PyStr} {t' : LogTailer} {disk' : Disk}
    (inv : Stands cfg inode w)
    (call : readNewLines cfg false growth w.disk w.tailer = some (.ok lines, t', disk')) :
    Stands cfg inode (w.afterCall cfg lines t' disk') := by
  unfold Restarting.afterCall
  obtain ⟨f, t₀, done, left, begins, drained⟩ := call_drains inv call
  obtain ⟨front, left', added, f', out⟩ := drainOpenFile_drained drained begins.settled
  have inode_f := begins.inode_file
  subst inode_f
  have content := drained_content out
  have reach : reachOf t' = f'.pos - t'.buffer.length := by simp [reachOf, out.file]
  have now := out.settled
  obtain ⟨ordered, dealt, _⟩ := settled_reach now
  obtain ⟨before, was, _⟩ := settled_reach begins.settled
  have size := settled_length now
  have old_size := settled_length begins.settled
  have decoded := drained_decoded out
  have mine : Process.lines (w.disk.content f.inode ++ added)
      ⟨w.base cfg, reachOf t', w.out ++ lines⟩ = placed (w.base cfg) (done ++ front) := by
    rw [Process.lines, reach, dealt]
  have kept : ∀ p ∈ w.processes, ∃ q ∈ w.earlier ++ [⟨w.base cfg, reachOf t', w.out ++ lines⟩],
      p.lines (w.disk.content f.inode) ⊆ q.lines (w.disk.content f.inode ++ added) := by
    intro p known
    rcases List.mem_append.mp known with old | live
    · refine ⟨p, by simp [old], ?_⟩
      rw [process_lines_grow (inv.described p known).within]
      exact List.Subset.refl _
    · refine ⟨_, List.mem_append_right _ (List.mem_singleton_self _), ?_⟩
      obtain ⟨same, at_reach⟩ := begins.reach p (by simpa using live)
      have yours : p.lines (w.disk.content f.inode) = placed (w.base cfg) done := by
        rw [Process.lines, same, at_reach, was]
      rw [mine, yours]
      exact (placed_mono _ (List.prefix_append _ _)).subset
  have grow : ∀ o, Covered cfg (w.disk.content f.inode) w.processes o →
      Covered cfg (disk'.content f.inode)
        (w.earlier ++ [⟨w.base cfg, reachOf t', w.out ++ lines⟩]) o := by
    intro o covered
    rw [content]
    exact covered_mono covered kept
  refine ⟨by rw [out.after]; exact inv.entry, by simp [out.file], ?_, ?_, ?_, ?_, ?_⟩
  · intro g open_g
    rw [out.file, Option.some.injEq] at open_g
    subst open_g
    refine ⟨_, rfl, out.inode, by rw [out.keeps, begins.inode_tailer],
      ⟨done ++ front, left', by rw [content]; exact now⟩, reach, ?_⟩
    intro st pending
    rw [reach]
    rcases out.pending ⟨lines, rfl⟩ with ⟨same, still, _⟩ | set
    · rw [same, begins.pending] at pending
      rw [begins.position st pending, TailState.mk.injEq]
      simp only [true_and]
      omega
    · rw [set, Option.some.injEq] at pending
      rw [← pending, begins.inode_tailer]
      simp only [Option.getD_some, TailState.mk.injEq, true_and]
      omega
  · intro p known
    rw [content]
    rcases List.mem_append.mp known with old | new
    · exact described_grow (inv.described p (List.mem_append_left _ old))
    · simp only [Option.toList_some, List.mem_singleton] at new
      subst new
      refine ⟨by rw [reach]; exact ordered, ?_, ?_⟩
      · have := now.within
        simp only [reach]
        omega
      · rw [mine, placed_lines, usable_append, List.map_append, List.map_append, begins.texts,
          mapM_eq_some_iff.mp decoded]
  · intro p known
    rcases List.mem_append.mp known with old | new
    · exact grow p.base (inv.bases p (List.mem_append_left _ old))
    · simp only [Option.toList_some, List.mem_singleton] at new
      subst new
      exact grow _ begins.covered
  · rw [out.after]
    rcases inv.saved with absent | ⟨o, disk, eq, covered⟩
    · exact .inl absent
    · refine .inr ⟨o, disk, eq, ?_⟩
      rw [← out.after]
      exact grow o covered
  · intro o eq
    obtain ⟨n, eq, covered⟩ := inv.committed o eq
    exact ⟨n, eq, grow n covered⟩

theorem stands_step {e : Event} (inv : Stands cfg inode w) (taken : step cfg inode w e = some w') :
    Stands cfg inode w' := by
  cases e with
  | append bytes =>
    cases taken
    exact stands_append inv bytes
  | readNewLines growth =>
    simp only [step] at taken
    split at taken
    · rename_i call
      cases taken
      exact stands_read inv call
    · cases taken
  | commitOffset =>
    cases taken
    exact stands_commit inv
  | restart =>
    cases taken
    exact stands_restart inv

theorem reach_stands {ok : Restarting → Event → Prop}
    (reached : Reach (step cfg inode) ok (Restarting.start inode) w) : Stands cfg inode w :=
  reach_invariant (Stands cfg inode) stands_start (fun _ _ _ inv _ taken => stands_step inv taken) reached

def Restarting.dealt (inode : Nat) (w : Restarting) : List Bytes :=
  match w.live with
  | some p => complete newline (((w.disk.content inode).take p.reach).drop p.base)
  | none => []

def Restarting.ahead (cfg : TailConfig) (inode : Nat) (w : Restarting) : List Bytes :=
  complete newline ((w.disk.content inode).drop (w.base cfg))

theorem dealt_ahead (cfg : TailConfig) (inode : Nat) (w : Restarting) :
    w.dealt inode <+: w.ahead cfg inode := by
  rw [Restarting.dealt, Restarting.ahead, Restarting.base]
  cases w.live with
  | none => exact List.nil_prefix
  | some p =>
    apply complete_mono
    exact (List.take_prefix _ _).drop _

def quietCall (k : Nat) : Event := .readNewLines (List.replicate k [])

theorem call_dealt {f : OpenFile} {t₀ : LogTailer} {done : List Bytes} {left : Bytes}
    (begins : Call cfg f.inode w f t₀ done left) : w.dealt f.inode = done := by
  rw [Restarting.dealt]
  cases live : w.live with
  | none => rw [begins.fresh live]
  | some p =>
    obtain ⟨same_base, at_reach⟩ := begins.reach p live
    simp only [same_base, at_reach]
    exact (settled_reach begins.settled).2.1

/-- A call while nothing is written either finishes the file or deals with another line. -/
theorem quiet_step {k : Nat} (inv : Stands cfg inode w)
    (enough : (w.disk.content inode).length < k)
    (valid : ∀ l ∈ usable cfg.maxLineBytes (w.ahead cfg inode), (decode l).isSome) :
    ∃ w', step cfg inode w (quietCall k) = some w' ∧ w'.disk.content = w.disk.content ∧
      w'.base cfg = w.base cfg ∧ Stands cfg inode w' ∧ w'.live ≠ none ∧
      (w.dealt inode).length ≤ (w'.dealt inode).length ∧
      (w'.dealt inode = w'.ahead cfg inode ∨
        (w.dealt inode).length + 1 ≤ (w'.dealt inode).length) := by
  have quiet : (List.replicate k ([] : Bytes)).flatten = [] := by simp
  have held : ∀ f, w.tailer.file = some f →
      (BufferedReading.pending f.toReader (w.disk.content f.inode)).length < k := by
    intro f file
    obtain ⟨p, reads⟩ := inv.opened f file
    obtain ⟨done, left, settled⟩ := reads.settled
    rw [reads.inode_file]
    exact (BufferedReading.pending_length settled.fresh).trans_lt enough
  have named : ∀ i, w.disk.entry = .file i → (w.disk.content i).length < k := by
    intro i entry
    rw [inv.entry, PathEntry.file.injEq] at entry
    exact entry ▸ enough
  obtain ⟨⟨r, t', disk'⟩, call⟩ := readNewLines_returns cfg false w.tailer held named
  obtain ⟨content, _⟩ := readNewLines_quiet quiet call
  obtain ⟨f, t₀, done, left, begins, drained⟩ := call_drains inv call
  obtain ⟨front, left', added, f', out⟩ := drainOpenFile_drained drained begins.settled
  have inode_f := begins.inode_file
  subst inode_f
  have same : w.disk.content f.inode ++ added = w.disk.content f.inode := by
    have grown := congrFun content f.inode
    rwa [out.after, setContent_same] at grown
  have now := out.settled
  rw [same] at now
  have inside : ∀ l ∈ usable cfg.maxLineBytes front, (decode l).isSome := by
    intro l member
    have parts := List.mem_filter.mp member
    apply valid l
    refine List.mem_filter.mpr ⟨(settled_done now).subset ?_, parts.2⟩
    exact List.mem_append_right _ parts.1
  obtain ⟨lines, decoded⟩ := mapM_decode_isSome inside
  have outcome : r = .ok lines := by rw [out.outcome, decoded]
  subst outcome
  have reach : reachOf t' = f'.pos - t'.buffer.length := by simp [reachOf, out.file]
  have after := stands_read inv call
  refine ⟨w.afterCall cfg lines t' disk', by simp only [step, quietCall, call], content, rfl, after,
    by simp [Restarting.afterCall], ?_⟩
  have are : (w.afterCall cfg lines t' disk').dealt f.inode = done ++ front := by
    simp only [Restarting.dealt, Restarting.afterCall, content, reach]
    exact (settled_reach now).2.1
  rw [call_dealt begins, are]
  refine ⟨by simp, ?_⟩
  cases ended : t'.atEof with
  | true =>
    obtain ⟨finish, none⟩ := out.eof ended
    rw [same] at finish
    left
    simp only [Restarting.ahead, Restarting.base, Restarting.afterCall, content]
    exact (settled_eof now finish none).1.symm
  | false =>
    right
    have := List.length_pos_iff.mpr (out.more ended)
    rw [List.length_append]
    omega

theorem quiet_run {k : Nat} (n : Nat) (inv : Stands cfg inode w)
    (enough : (w.disk.content inode).length < k)
    (valid : ∀ l ∈ usable cfg.maxLineBytes (w.ahead cfg inode), (decode l).isSome) :
    ∃ w', run (step cfg inode) w (List.replicate n (quietCall k)) = some w' ∧
      w'.disk.content = w.disk.content ∧ w'.base cfg = w.base cfg ∧ Stands cfg inode w' ∧
      (w.live ≠ none ∨ 0 < n → w'.live ≠ none) ∧
      (w.dealt inode).length ≤ (w'.dealt inode).length ∧
      (w'.dealt inode = w'.ahead cfg inode ∨
        (w.dealt inode).length + n ≤ (w'.dealt inode).length) := by
  induction n generalizing w with
  | zero => exact ⟨w, rfl, rfl, rfl, inv, by simp, Nat.le_refl _, .inr (by simp)⟩
  | succ n ih =>
    obtain ⟨w₁, taken, content, base, inv₁, live, grown, first⟩ := quiet_step inv enough valid
    have ahead : w₁.ahead cfg inode = w.ahead cfg inode := by
      simp [Restarting.ahead, content, base]
    obtain ⟨w₂, later, content₂, base₂, inv₂, live₂, grown₂, second⟩ :=
      ih inv₁ (by rw [content]; exact enough) (by rw [ahead]; exact valid)
    refine ⟨w₂, by simp [List.replicate_succ, run, taken, later], content₂.trans content,
      base₂.trans base, inv₂, fun _ => live₂ (.inl live), grown.trans grown₂, ?_⟩
    rcases second with all | less
    · exact .inl all
    · rcases first with all | more
      · -- the first call already reached the end
        have stays : w₂.ahead cfg inode = w₁.ahead cfg inode := by
          simp [Restarting.ahead, content₂, base₂]
        refine .inl ((dealt_ahead cfg inode w₂).eq_of_length_le ?_)
        rw [stays, ← all]
        exact grown₂
      · right
        omega

/-- What a committed offset covers was returned, and reading on returns the rest. -/
theorem committed_lines_returned
    (reached : Reach (step cfg inode) anyStep (Restarting.start inode) w) :
    (∀ p ∈ w.processes, p.out.map some =
      (usable cfg.maxLineBytes ((p.lines (w.disk.content inode)).map Prod.snd)).map decode) ∧
    (∀ o, w.committed = some o → ∀ x ∈ placed 0 (complete newline (w.disk.content inode)),
      (x.1 : Int) < o → x.2.length ≤ cfg.maxLineBytes →
      ∃ p ∈ w.processes, x ∈ p.lines (w.disk.content inode)) ∧
    (∀ f st, w.tailer.file = some f → w.tailer.pendingState = some st → w.tailer.buffer =
      ((w.disk.content inode).take f.pos).drop st.offset.toNat) ∧
    ∃ calls bytes, ∀ n, calls ≤ n → ∀ k, bytes ≤ k →
      (∀ l ∈ usable cfg.maxLineBytes (w.ahead cfg inode), (decode l).isSome) →
      ∃ w', run (step cfg inode) w (List.replicate n (quietCall k)) = some w' ∧
        w'.disk.content = w.disk.content ∧
        ∀ x ∈ placed 0 (complete newline (w.disk.content inode)),
          x.2.length ≤ cfg.maxLineBytes →
          ∃ p ∈ w'.processes, x ∈ p.lines (w.disk.content inode) := by
  have inv := reach_stands reached
  refine ⟨fun p known => (inv.described p known).texts, ?_, ?_, ?_⟩
  · intro o eq x member before short
    obtain ⟨n, rfl, covered⟩ := inv.committed o eq
    exact covered _ (List.prefix_refl _) x member (by omega) short
  · intro f st file pending
    obtain ⟨p, reads⟩ := inv.opened f file
    obtain ⟨done, left, settled⟩ := reads.settled
    obtain ⟨size, _⟩ := settled_length settled
    have inside : p.base ≤ (w.disk.content inode).length := settled.from_base.trans settled.within
    have front : ((w.disk.content inode).take p.base).length = p.base := by simp [inside]
    rw [reads.pending st pending, reads.reach, settled.read, Int.toNat_natCast]
    symm
    cases state : w.tailer.droppingBytes with
    | none =>
      obtain ⟨rfl, _⟩ := settled.whole state
      have upto : f.pos - w.tailer.buffer.length =
          ((w.disk.content inode).take p.base ++ unlines newline done).length := by
        rw [List.length_append, front]
        omega
      rw [upto, List.drop_left]
    | some n =>
      rw [(settled.lost n state).1]
      apply List.drop_eq_nil_of_le
      rw [List.length_append, List.length_append, front, List.length_nil]
      omega
  · refine ⟨(w.ahead cfg inode).length + 1, (w.disk.content inode).length + 1, ?_⟩
    intro n calls k bytes valid
    obtain ⟨w', taken, content, base, inv', live, _, finished⟩ := quiet_run (k := k) n inv (by omega) valid
    refine ⟨w', taken, content, ?_⟩
    have ahead : w'.ahead cfg inode = w.ahead cfg inode := by
      simp [Restarting.ahead, content, base]
    have all : w'.dealt inode = w'.ahead cfg inode := by
      rcases finished with all | more
      · exact all
      · have := (dealt_ahead cfg inode w').length_le
        rw [ahead] at this
        omega
    obtain ⟨p, eq⟩ := Option.ne_none_iff_exists'.mp (live (.inr (by omega)))
    have known : p ∈ w'.processes := by simp [Restarting.processes, eq]
    intro x member short
    by_cases early : x.1 < p.base
    · have covered := inv'.bases p known
      rw [content] at covered
      exact covered _ (List.prefix_refl _) x member early short
    · refine ⟨p, known, ?_⟩
      simp only [Restarting.dealt, Restarting.ahead, Restarting.base, eq, content] at all
      rw [Process.lines, all]
      exact mem_placed_drop member (by omega)

def CleanCommit (w : Restarting) (e : Event) : Prop :=
  e = .commitOffset → w.tailer.droppingBytes = none

instance (w : Restarting) (e : Event) : Decidable (CleanCommit w e) :=
  inferInstanceAs (Decidable (e = .commitOffset → w.tailer.droppingBytes = none))

/-- Every process started at the start of a line, and so will the next one. -/
structure Aligned (inode : Nat) (w : Restarting) : Prop where
  bases : ∀ p ∈ w.processes, rest newline ((w.disk.content inode).take p.base) = []
  saved : w.disk.stateFile = none ∨ ∃ (o : Nat) (disk : Disk), o ≤ (w.disk.content inode).length ∧
    w.disk.stateFile = (persistState ⟨inode, o⟩ disk).stateFile ∧
    rest newline ((w.disk.content inode).take o) = []

theorem aligned_grow {disk' : Disk} {added : Bytes} (stands : Stands cfg inode w)
    (inv : Aligned inode w) (content : disk'.content inode = w.disk.content inode ++ added)
    (state : disk'.stateFile = w.disk.stateFile) : Aligned inode { w with disk := disk' } := by
  refine ⟨?_, ?_⟩
  · intro p known
    have described := stands.described p known
    rw [content, List.take_append_of_le_length (described.ordered.trans described.within)]
    exact inv.bases p known
  · rw [state]
    rcases inv.saved with absent | ⟨o, disk, within, eq, boundary⟩
    · exact .inl absent
    · refine .inr ⟨o, disk, ?_, eq, ?_⟩
      · rw [content, List.length_append]
        omega
      · rw [content, List.take_append_of_le_length within]
        exact boundary

theorem aligned_base (stands : Stands cfg inode w) (inv : Aligned inode w) :
    rest newline ((w.disk.content inode).take (w.base cfg)) = [] := by
  cases file : w.tailer.file with
  | some f =>
    obtain ⟨p, reads⟩ := stands.opened f file
    have known : p ∈ w.processes := by simp [Restarting.processes, reads.live]
    simpa [Restarting.base, reads.live] using inv.bases p known
  | none =>
    obtain ⟨target, _, base, _, _, origin⟩ := open_saved stands file
    rw [base]
    rcases origin with rfl | loaded
    · simp
    · rcases inv.saved with absent | ⟨o, disk, _, eq, boundary⟩
      · simp [absent, loadState] at loaded
      · have same : o = target := by
          rw [eq] at loaded
          rcases loadState_persistState cfg disk inode o with back | unread
          · rw [back] at loaded
            have eq : (o : Int) = target := by simpa using loaded
            omega
          · rw [unread] at loaded
            simp at loaded
        exact same ▸ boundary

theorem aligned_step {e : Event} (stands : Stands cfg inode w) (inv : Aligned inode w)
    (met : CleanCommit w e) (taken : step cfg inode w e = some w') : Aligned inode w' := by
  cases e with
  | append bytes =>
    cases taken
    exact aligned_grow stands inv (setContent_same _ _ _) rfl
  | readNewLines growth =>
    simp only [step] at taken
    split at taken
    · rename_i lines t' disk' call
      cases taken
      obtain ⟨f, t₀, done, left, begins, drained⟩ := call_drains stands call
      obtain ⟨front, left', added, f', out⟩ := drainOpenFile_drained drained begins.settled
      have inode_f := begins.inode_file
      subst inode_f
      have content := drained_content out
      have grown := aligned_grow stands inv content (by rw [out.after]; rfl)
      refine ⟨?_, grown.saved⟩
      intro p known
      rcases List.mem_append.mp known with old | new
      · exact grown.bases p (List.mem_append_left _ old)
      · simp only [Restarting.afterCall, Option.toList_some, List.mem_singleton] at new
        subst new
        have inside := begins.settled.from_base.trans begins.settled.within
        simp only [Restarting.afterCall]
        rw [content, List.take_append_of_le_length inside]
        exact aligned_base stands inv
    · cases taken
  | commitOffset =>
    cases taken
    have steady : w.tailer.droppingBytes = none := met rfl
    unfold commitOffset
    split
    · exact ⟨inv.bases, inv.saved⟩
    · rename_i st pending
      cases file : w.tailer.file with
      | none => simp [(stands.closed file).2.2.2] at pending
      | some f =>
        obtain ⟨p, reads⟩ := stands.opened f file
        obtain ⟨done, left, settled⟩ := reads.settled
        have known : p ∈ w.processes := by simp [Restarting.processes, reads.live]
        have described := stands.described p known
        obtain ⟨_, _, tail⟩ := settled_reach settled
        refine ⟨inv.bases, .inr ⟨p.reach, w.disk, described.within, ?_, ?_⟩⟩
        · rw [reads.pending st pending]
        · -- the lines up to the offset are whole from a line start on
          have parts : (w.disk.content inode).take p.reach =
              (w.disk.content inode).take p.base ++
                ((w.disk.content inode).take p.reach).drop p.base := by
            conv => lhs; rw [← List.take_append_drop p.base ((w.disk.content inode).take p.reach)]
            rw [List.take_take, Nat.min_eq_left described.ordered]
          rw [persistState, parts, rest_append, inv.bases p known, List.nil_append, reads.reach]
          exact tail steady
  | restart =>
    cases taken
    refine ⟨?_, inv.saved⟩
    intro p known
    refine inv.bases p ?_
    simpa [Restarting.processes] using known

/-- While offsets are committed only between lines, everything returned is a whole line. -/
theorem returned_lines_whole
    (reached : Reach (step cfg inode) CleanCommit (Restarting.start inode) w) :
    ∀ p ∈ w.processes, p.out.map some =
        (usable cfg.maxLineBytes ((p.lines (w.disk.content inode)).map Prod.snd)).map decode ∧
      ∀ x ∈ p.lines (w.disk.content inode),
        x ∈ placed 0 (complete newline (w.disk.content inode)) := by
  obtain ⟨stands, aligned⟩ : Stands cfg inode w ∧ Aligned inode w :=
    reach_invariant (fun w => Stands cfg inode w ∧ Aligned inode w)
      ⟨stands_start, ⟨by simp [Restarting.processes, Restarting.start], .inl rfl⟩⟩
      (fun _ _ _ inv met taken => ⟨stands_step inv.1 taken, aligned_step inv.1 inv.2 met taken⟩)
      reached
  intro p known
  have described := stands.described p known
  refine ⟨described.texts, ?_⟩
  intro x member
  have further : x ∈ placed p.base (complete newline ((w.disk.content inode).drop p.base)) := by
    have le : ((w.disk.content inode).take p.reach).drop p.base <+:
        (w.disk.content inode).drop p.base := (List.take_prefix _ _).drop _
    exact (placed_mono _ (complete_mono le)).subset member
  exact mem_placed_of_drop (described.ordered.trans described.within) (aligned.bases p known)
    further

/-- Chunks of one byte, batches of one line: a line may have four bytes. -/
def byteConfig : TailConfig := ⟨1, 1, 4, 1000, by decide, by decide, by decide⟩

def letters (n : Nat) : Bytes := List.replicate n 0x61

def cleanRun : List Event :=
  [.append (letters 2 ++ [newline]), .readNewLines (List.replicate 4 []), .commitOffset, .restart,
    .append (letters 1 ++ [newline]), .readNewLines (List.replicate 3 [])]

theorem committed_lines_returned_clean :
    ∃ w, Reach (step byteConfig 7) anyStep (Restarting.start 7) w ∧ w.committed = some 3 ∧
      ∃ p ∈ w.processes, ((0, letters 2) : Nat × Bytes) ∈ p.lines (w.disk.content 7) := by
  have some : (run (step byteConfig 7) (Restarting.start 7) cleanRun).map
      (fun w => (w.committed, w.disk.content 7)) =
      some (some 3, letters 2 ++ newline :: letters 1 ++ [newline]) := by decide +kernel
  obtain ⟨w, taken, eq⟩ := Option.map_eq_some_iff.mp some
  simp only [Prod.mk.injEq] at eq
  have reached := run_reaches Reach.start taken
  refine ⟨w, reached, eq.1, ?_⟩
  exact (committed_lines_returned reached).2.1 3 eq.1 (0, letters 2) (by rw [eq.2]; decide)
    (by decide) (by decide)

/-- After the restart an over-long line is dropped, its end seen before the commit. -/
def overlongRun : List Event :=
  [.append (letters 2 ++ [newline]), .readNewLines (List.replicate 4 []), .commitOffset, .restart,
    .append (letters 5 ++ newline :: 0x62 :: [newline]), .readNewLines (List.replicate 9 []), .commitOffset]

theorem returned_lines_whole_clean :
    ∃ w, Reach (step byteConfig 7) CleanCommit (Restarting.start 7) w ∧ w.committed = some 11 ∧
      w.processes.map (·.out) = [[str "aa"], [str "b"]] ∧
      ∀ p ∈ w.processes, ∀ x ∈ p.lines (w.disk.content 7),
        x ∈ placed 0 (complete newline (w.disk.content 7)) := by
  have some : (runIf (step byteConfig 7) CleanCommit (Restarting.start 7) overlongRun).map
      (fun w => (w.committed, w.processes.map (·.out))) =
      some (some 11, [[str "aa"], [str "b"]]) := by decide +kernel
  obtain ⟨w, taken, eq⟩ := Option.map_eq_some_iff.mp some
  simp only [Prod.mk.injEq] at eq
  have reached := runIf_reaches Reach.start taken
  exact ⟨w, reached, eq.1, eq.2, fun p known => (returned_lines_whole reached p known).2⟩

/-- Five bytes of an unfinished line are dropped and committed; after a restart the rest of the
    line is taken for a line of its own. -/
def dirtyRun : List Event :=
  [.append (letters 5), .readNewLines (List.replicate 6 []), .commitOffset, .restart,
    .append [0x62, newline], .readNewLines (List.replicate 3 [])]

theorem dropped_line_suffix_returned :
    ¬ ∀ (cfg : TailConfig) (inode : Nat) (w : Restarting),
      Reach (step cfg inode) anyStep (Restarting.start inode) w →
      ∀ p ∈ w.processes, ∀ text ∈ p.out,
        ∃ l ∈ complete newline (w.disk.content inode), decode l = some text := by
  intro all
  have some : (run (step byteConfig 7) (Restarting.start 7) dirtyRun).map
      (fun w => (w.processes, complete newline (w.disk.content 7))) =
      some ([⟨0, 5, []⟩, ⟨5, 7, [str "b"]⟩], [letters 5 ++ [0x62]]) := by decide +kernel
  obtain ⟨w, taken, eq⟩ := Option.map_eq_some_iff.mp some
  simp only [Prod.mk.injEq] at eq
  have found := all byteConfig 7 w (run_reaches Reach.start taken) ⟨5, 7, [str "b"]⟩
    (by rw [eq.1]; simp) (str "b") (by simp)
  rw [eq.2] at found
  exact absurd found (by decide)

end ShipperTailRestarts
