import SentinelBrief.Shipper.TailRestarts

/-!
What one call adds to the lines its process has dealt with, and where the next
process starts: at the committed offset, as long as the numbers in `tail.json`
are those a file system has.
-/
namespace ShipperTailResume
open ShipperTail ShipperTailRestarts SeparatedLines Utf8Text

def dealtLines (inode : Nat) (w : Restarting) : List (Nat × Bytes) :=
  match w.live with
  | some p => p.lines (w.disk.content inode)
  | none => []

def batch (cfg : TailConfig) (inode : Nat) (w w' : Restarting) : List (Nat × Bytes) :=
  ((dealtLines inode w').drop (dealtLines inode w).length).filter fun x =>
    x.2.length ≤ cfg.maxLineBytes

def savedOffset (w : Restarting) : Nat := (w.committed.getD 0).toNat

def fileLimit : Nat := 2 ^ 63

def inodeLimit : Nat := 2 ^ 64

def Beyond (cfg : TailConfig) (content : Bytes) (p : Process) (offset : Nat) : Prop :=
  ∀ later, content <+: later → ∀ x ∈ (placed p.base (complete newline (later.drop p.base))).drop
    (p.lines content).length, x.2.length ≤ cfg.maxLineBytes → offset ≤ x.1

structure Resumes (cfg : TailConfig) (inode : Nat) (w : Restarting) : Prop where
  saved : (w.committed = none ∧ w.disk.stateFile = none) ∨ ∃ (o : Nat) (disk : Disk),
    w.committed = some o ∧ w.disk.stateFile = (persistState ⟨inode, o⟩ disk).stateFile ∧
    o ≤ (w.disk.content inode).length
  order : ∀ p, w.live = some p → p.base ≤ savedOffset w ∧
    Beyond cfg (w.disk.content inode) p (savedOffset w)

variable {cfg : TailConfig} {inode : Nat} {w w' : Restarting}

theorem resumes_start : Resumes cfg inode (Restarting.start inode) where
  saved := .inl ⟨rfl, rfl⟩
  order p live := by cases live

theorem resumes_base (stands : Stands cfg inode w) (inv : Resumes cfg inode w)
    (small : inode < inodeLimit) (room : (w.disk.content inode).length < fileLimit)
    (closed : w.live = none) : w.base cfg = savedOffset w := by
  rw [Restarting.base, closed]
  rcases inv.saved with ⟨none, absent⟩ | ⟨o, disk, some, eq, inside⟩
  · simp [startOffset, openAtSavedOffset, stands.entry, absent, loadState, seekTarget, savedOffset,
      none, offTMin]
  · have short : o < 2 ^ 64 := by
      simp only [fileLimit] at room
      omega
    have back := loadState_persistState_exact cfg disk small short
    have low : ¬ ((o : Int) < offTMin) := by simp only [offTMin]; omega
    have nonneg : ¬ ((o : Int) < 0) := by omega
    simp [startOffset, openAtSavedOffset, stands.entry, eq, back, seekTarget, inside, low, nonneg,
      savedOffset, some]

theorem beyond_mono {content content' : Bytes} {p p' : Process} {offset : Nat}
    (inv : Beyond cfg content p offset) (base : p'.base = p.base) (grown : content <+: content')
    (further : (p.lines content).length ≤ (p'.lines content').length) :
    Beyond cfg content' p' offset := by
  intro later le x member short
  rw [base] at member
  refine inv later (grown.trans le) x ?_ short
  exact (List.drop_sublist_drop_left _ further).subset member

theorem resumes_append (stands : Stands cfg inode w) (inv : Resumes cfg inode w) (bytes : Bytes) :
    Resumes cfg inode
      { w with disk := w.disk.setContent inode (w.disk.content inode ++ bytes) } where
  saved := by
    rcases inv.saved with absent | ⟨o, disk, some, eq, inside⟩
    · exact .inl absent
    · refine .inr ⟨o, disk, some, eq, ?_⟩
      rw [setContent_same, List.length_append]
      omega
  order p live := by
    have known : p ∈ w.processes := by simp [Restarting.processes, show w.live = some p from live]
    obtain ⟨base, beyond⟩ := inv.order p live
    refine ⟨base, ?_⟩
    rw [setContent_same]
    refine beyond_mono beyond rfl (List.prefix_append _ _) ?_
    rw [process_lines_grow (stands.described p known).within]

theorem resumes_restart (inv : Resumes cfg inode w) :
    Resumes cfg inode { w with tailer := {}, live := none, earlier := w.processes } where
  saved := inv.saved
  order p live := by cases live

theorem resumes_commit (stands : Stands cfg inode w) (inv : Resumes cfg inode w) :
    Resumes cfg inode
      { w with tailer := (commitOffset w.tailer w.disk).1,
               disk := (commitOffset w.tailer w.disk).2,
               committed := (w.tailer.pendingState.map (·.offset)).or w.committed } := by
  cases pending : w.tailer.pendingState with
  | none => simpa [commitOffset, pending] using inv
  | some st =>
    cases file : w.tailer.file with
    | none => simp [(stands.closed file).2.2.2] at pending
    | some f =>
      obtain ⟨p, reads⟩ := stands.opened f file
      obtain ⟨done, left, settled⟩ := reads.settled
      have known : p ∈ w.processes := by simp [Restarting.processes, reads.live]
      have described := stands.described p known
      have eq := reads.pending st pending
      subst eq
      simp only [commitOffset, pending, Option.map_some, Option.some_or]
      refine ⟨.inr ⟨p.reach, w.disk, rfl, rfl, described.within⟩, ?_⟩
      intro q live
      rw [reads.live, Option.some.injEq] at live
      subst live
      refine ⟨by simpa [savedOffset] using described.ordered, ?_⟩
      intro later le x member short
      obtain ⟨more, rfl⟩ := le
      have mine : p.lines (w.disk.content inode) = placed p.base done := by
        rw [Process.lines, reads.reach, (settled_reach settled).2.1]
      simp only [persistState] at member
      rw [mine, settled_parts settled, complete_unlines _ _ settled.lines, placed_append newline,
        List.drop_left] at member
      have start := settled_beyond settled member short
      rw [← reads.reach] at start
      simpa [savedOffset] using start

structure Returned (cfg : TailConfig) (inode : Nat) (w w' : Restarting) : Prop where
  texts : ∃ lines, w'.out = w.out ++ lines ∧
    lines.map some = (batch cfg inode w w').map fun x => decode x.2
  dealt : dealtLines inode w <+: dealtLines inode w'
  beyond : ∀ x ∈ batch cfg inode w w', savedOffset w ≤ x.1
  committed : w'.committed = w.committed
  resumes : Resumes cfg inode w'

theorem read_returned {growth : List Bytes} (stands : Stands cfg inode w)
    (inv : Resumes cfg inode w) (small : inode < inodeLimit)
    (room : (w.disk.content inode).length < fileLimit)
    (taken : step cfg inode w (.readNewLines growth) = some w') : Returned cfg inode w w' := by
  simp only [step] at taken
  split at taken
  case h_2 => cases taken
  rename_i lines t' disk' call
  cases taken
  obtain ⟨f, t₀, done, left, begins, drained⟩ := call_drains stands call
  obtain ⟨front, left', added, f', out⟩ := drainOpenFile_drained drained begins.settled
  have inode_f := begins.inode_file
  subst inode_f
  have content := drained_content out
  have reach : reachOf t' = f'.pos - t'.buffer.length := by simp [reachOf, out.file]
  have decoded := drained_decoded out
  have mine : Process.lines (w.disk.content f.inode ++ added)
      ⟨w.base cfg, reachOf t', w.out ++ lines⟩ = placed (w.base cfg) (done ++ front) := by
    rw [Process.lines, reach, (settled_reach out.settled).2.1]
  have before : dealtLines f.inode w = placed (w.base cfg) done := by
    rw [dealtLines]
    cases live : w.live with
    | none => simp [begins.fresh live]
    | some p =>
      obtain ⟨same, at_reach⟩ := begins.reach p live
      simp only [Process.lines, same, at_reach, (settled_reach begins.settled).2.1]
  have after : dealtLines f.inode (w.afterCall cfg lines t' disk') =
      placed (w.base cfg) (done ++ front) := by
    simp only [dealtLines, Restarting.afterCall, content, mine]
  have fresh : batch cfg f.inode w (w.afterCall cfg lines t' disk') =
      (placed (w.base cfg + (unlines newline done).length) front).filter fun x =>
        x.2.length ≤ cfg.maxLineBytes := by
    rw [batch, before, after, placed_append newline, List.drop_left]
  -- before the first call the process stands at the committed offset itself
  have ordered : w.base cfg ≤ savedOffset w ∧ ∀ later, w.disk.content f.inode <+: later →
      ∀ x ∈ (placed (w.base cfg) (complete newline (later.drop (w.base cfg)))).drop
        (placed (w.base cfg) done).length, x.2.length ≤ cfg.maxLineBytes → savedOffset w ≤ x.1 := by
    cases live : w.live with
    | none =>
      have base := resumes_base stands inv small room live
      refine ⟨base.le, ?_⟩
      intro later _ x member _
      rw [← base]
      exact placed_start_le (List.mem_of_mem_drop member)
    | some p =>
      obtain ⟨same, _⟩ := begins.reach p live
      obtain ⟨base, beyond⟩ := inv.order p live
      have dealt : p.lines (w.disk.content f.inode) = placed (w.base cfg) done := by
        simpa [dealtLines, live] using before
      rw [Beyond, same, dealt] at beyond
      exact ⟨same ▸ base, beyond⟩
  have longer : placed (w.base cfg) done <+: placed (w.base cfg) (done ++ front) :=
    placed_mono _ (List.prefix_append _ _)
  refine ⟨⟨lines, rfl, ?_⟩, ?_, ?_, rfl, ?_, ?_⟩
  · have texts := mapM_eq_some_iff.mp decoded
    have kept : usable cfg.maxLineBytes front = ((placed
        (w.base cfg + (unlines newline done).length) front).filter fun x =>
          x.2.length ≤ cfg.maxLineBytes).map Prod.snd := by
      conv => lhs; rw [← placed_lines (w.base cfg + (unlines newline done).length) front]
      rw [usable, List.filter_map]
      rfl
    rw [fresh, ← texts, kept, List.map_map]
    rfl
  · rw [before, after]
    exact longer
  · intro x member
    rw [batch, before, after, List.mem_filter, decide_eq_true_eq] at member
    have all : placed (w.base cfg) (done ++ front) <+: placed (w.base cfg)
        (complete newline ((w.disk.content f.inode ++ added).drop (w.base cfg))) :=
      placed_mono _ (settled_done out.settled)
    exact ordered.2 _ (List.prefix_append _ _) x ((all.drop _).subset member.1) member.2
  · rcases inv.saved with ⟨none, absent⟩ | ⟨o, disk, some, eq, inside⟩
    · exact .inl ⟨none, by simpa [Restarting.afterCall, out.after] using absent⟩
    · refine .inr ⟨o, disk, some, by simpa [Restarting.afterCall, out.after] using eq, ?_⟩
      simp only [Restarting.afterCall, content, List.length_append]
      omega
  · intro p live
    simp only [Restarting.afterCall, Option.some.injEq] at live
    subst live
    simp only [Restarting.afterCall, content]
    refine ⟨ordered.1, ?_⟩
    intro later le x member short
    rw [mine] at member
    refine ordered.2 later ((List.prefix_append _ _).trans le) x ?_ short
    exact (List.drop_sublist_drop_left _ longer.length_le).subset member

def restarted (w : Restarting) : Restarting :=
  { w with tailer := {}, live := none, earlier := w.processes }

theorem restarted_again {x : Nat × Bytes} (stands : Stands cfg inode w)
    (inv : Resumes cfg inode w) (small : inode < inodeLimit)
    (room : (w.disk.content inode).length < fileLimit) (dealt : x ∈ dealtLines inode w)
    (behind : savedOffset w ≤ x.1) :
    (restarted w).base cfg = savedOffset w ∧
    x ∈ placed (savedOffset w) (complete newline ((w.disk.content inode).drop (savedOffset w))) := by
  refine ⟨resumes_base (stands_restart stands) (resumes_restart inv) small room rfl, ?_⟩
  cases live : w.live with
  | none => simp [dealtLines, live] at dealt
  | some p =>
    obtain ⟨base, _⟩ := inv.order p live
    simp only [dealtLines, live] at dealt
    have whole : p.lines (w.disk.content inode) <+:
        placed p.base (complete newline ((w.disk.content inode).drop p.base)) :=
      placed_mono _ (complete_mono ((List.take_prefix _ _).drop _))
    have later := mem_placed_later (whole.subset dealt) base behind
    rwa [List.drop_drop, Nat.add_sub_cancel' base] at later

theorem restarted_reads {x : Nat × Bytes} (stands : Stands cfg inode w)
    (inv : Resumes cfg inode w) (small : inode < inodeLimit)
    (room : (w.disk.content inode).length < fileLimit) (dealt : x ∈ dealtLines inode w)
    (behind : savedOffset w ≤ x.1)
    (valid : ∀ l ∈ usable cfg.maxLineBytes
      (complete newline ((w.disk.content inode).drop (savedOffset w))), (decode l).isSome) :
    ∃ calls bytes, ∀ n, calls ≤ n → ∀ k, bytes ≤ k →
      ∃ w', StepRuns.run (step cfg inode) (restarted w) (List.replicate n (quietCall k)) = some w' ∧
        x ∈ dealtLines inode w' := by
  obtain ⟨base, ahead⟩ := restarted_again stands inv small room dealt behind
  have front : (restarted w).ahead cfg inode =
      complete newline ((w.disk.content inode).drop (savedOffset w)) := by
    rw [Restarting.ahead, base]
    rfl
  refine ⟨((restarted w).ahead cfg inode).length + 1, (w.disk.content inode).length + 1, ?_⟩
  intro n calls k bytes
  have stands' : Stands cfg inode (restarted w) := stands_restart stands
  have enough : ((restarted w).disk.content inode).length < k := by
    show (w.disk.content inode).length < k
    omega
  obtain ⟨w', taken, content, base', inv', live, _, finished⟩ :=
    quiet_run n stands' enough (by rw [front]; exact valid)
  refine ⟨w', taken, ?_⟩
  have same : w'.ahead cfg inode = (restarted w).ahead cfg inode := by
    simp only [Restarting.ahead, content, base']
  have all : w'.dealt inode = w'.ahead cfg inode := by
    rcases finished with all | more
    · exact all
    · have := (dealt_ahead cfg inode w').length_le
      rw [same] at this
      omega
  obtain ⟨p, eq⟩ := Option.ne_none_iff_exists'.mp (live (.inr (by omega)))
  have begins : p.base = savedOffset w := by
    rw [← base, ← base', Restarting.base, eq]
  simp only [Restarting.dealt, eq] at all
  rw [dealtLines, eq]
  simp only [Process.lines]
  rw [all, same, front, begins]
  exact ahead

end ShipperTailResume
