import SentinelBrief.Shipper.Main

/-!
At-least-once from the log to the api. At a commit every payload of the process
is in the spool, a file leaves the spool only when it was delivered, rejected or
evicted, and a payload that never reached the spool was built from a line the
next process reads again.
-/
namespace ShipperDelivery
open ShipperTail ShipperTailResume ShipperAssemble ShipperSpool ShipperMain
open ShipperTailRestarts hiding Event step
open SeparatedLines Utf8Text StepRuns

inductive Took (cfg : ShipperConfig) (w : Shipper) : Shipper → Prop where
  | appended {tail : Restarting} {bytes : Bytes} (moved : tailStep cfg w (.append bytes) = some tail) :
      Took cfg w { w with tail := tail }
  | stopRequested : Took cfg w { w with stopRequested := true }
  | read {tail : Restarting} {growth : List Bytes} (phase : w.phase = .ready)
      (moved : tailStep cfg w (.readNewLines growth) = some tail) :
      Took cfg w { w with tail := tail, phase := .feeding (returnedLines cfg w.tail tail) [] }
  | fed {line : ReadLine} {lines : List ReadLine} {now : Int} {payloads : List Bytes}
      {a : SessionAssembler} (phase : w.phase = .feeding (line :: lines) [])
      (fed : feed cfg.assembler line.text now w.assembler = .ok (payloads, a)) :
      Took cfg w (w.afterFeed cfg line now lines payloads a)
  | flushed {now : Int} {payloads : List Bytes} {a : SessionAssembler}
      (phase : w.phase = .feeding [] [])
      (flushed : flushIdle cfg.assembler now w.assembler = .ok (payloads, a)) :
      Took cfg w (w.afterFlush cfg (w.assembler.staleIds cfg.assembler now)
        (.flushed (payloads.map (⟨·, none⟩))) payloads a)
  | put {b : Built} {phase : Phase} {now : Nat} (due : w.phase.nextPut = some (b, phase))
      (later : w.clock < now) (small : now < clockLimit) : Took cfg w (w.afterPut cfg b phase now)
  | committed {tail : Restarting} (phase : w.phase = .flushed [])
      (moved : tailStep cfg w .commitOffset = some tail) :
      Took cfg w { w with tail := tail, phase := .draining w.spool.pending }
  | posted {file : SpoolFile} {left : List SpoolFile} {status : Nat}
      (phase : w.phase = .draining (file :: left)) (final : (post (some status)).retry = false) :
      Took cfg w { w with phase := .answered file status left }
  | gaveUp {file : SpoolFile} {left : List SpoolFile}
      (phase : w.phase = .draining (file :: left)) : Took cfg w { w with phase := .draining [] }
  | answered {file : SpoolFile} {status : Nat} {left : List SpoolFile}
      (phase : w.phase = .answered file status left) : Took cfg w (w.afterAnswer file status left)
  | exited (phase : w.phase = .draining [])
      (reason : cfg.once = true ∨ ∃ m, cfg.maxIterations = some m ∧ m ≤ w.iterations + 1) :
      Took cfg w { w with iterations := w.iterations + 1, phase := .exited }
  | stopped {payloads : List Bytes} {a : SessionAssembler} (phase : w.phase = .draining [])
      (flushed : flushAll cfg.assembler w.assembler = .ok (payloads, a)) :
      Took cfg w (Shipper.afterFlush cfg { w with iterations := w.iterations + 1 }
        (w.assembler.sessions.map (·.1)) (.stopping (payloads.map (⟨·, none⟩))) payloads a)
  | again (phase : w.phase = .draining []) :
      Took cfg w { w with iterations := w.iterations + 1, phase := .ready }
  | finished (phase : w.phase = .stopping []) : Took cfg w { w with phase := .exited }
  | restarted {tail : Restarting} (moved : tailStep cfg w .restart = some tail) :
      Took cfg w (w.restarted tail)

variable {cfg : ShipperConfig} {w w' : Shipper} {e : Event}

theorem post_final {answer : Option Nat} {status : Nat} (kept : post answer = ⟨some status, false⟩) :
    (post (some status)).retry = false := by
  cases answer with
  | none => simp [post] at kept
  | some s =>
    have same : s = status := by
      unfold post at kept
      simp only at kept
      split at kept
      · simpa using kept
      · split at kept <;> simp at kept
        exact kept
    rw [← same, kept]

theorem took_read {growth : List Bytes} (taken : step cfg w (.readNewLines growth) = some w') : Took cfg w w' := by
  simp only [step] at taken
  split at taken
  · rename_i phase
    obtain ⟨tail, moved, rfl⟩ := Option.map_eq_some_iff.mp taken
    exact .read phase moved
  · cases taken

theorem took_fed {now : Int} (taken : step cfg w (.feed now) = some w') : Took cfg w w' := by
  simp only [step] at taken
  split at taken
  · rename_i phase
    split at taken
    · cases taken
    · rename_i fed
      cases taken
      exact .fed phase fed
  · cases taken

theorem took_flushed {now : Int} (taken : step cfg w (.flushIdle now) = some w') : Took cfg w w' := by
  simp only [step] at taken
  split at taken
  · rename_i phase
    split at taken
    · cases taken
    · rename_i flushed
      cases taken
      exact .flushed phase flushed
  · cases taken

theorem took_put {now : Nat} (taken : step cfg w (.put now) = some w') : Took cfg w w' := by
  simp only [step] at taken
  split at taken
  · rename_i due
    split at taken
    · rename_i clock
      cases taken
      exact .put due clock.1 clock.2
    · cases taken
  · cases taken

theorem took_committed (taken : step cfg w .commitOffset = some w') : Took cfg w w' := by
  simp only [step] at taken
  split at taken
  · rename_i phase
    obtain ⟨tail, moved, rfl⟩ := Option.map_eq_some_iff.mp taken
    exact .committed phase moved
  · cases taken

theorem took_posted {answer : Option Nat} (taken : step cfg w (.post answer) = some w') : Took cfg w w' := by
  simp only [step] at taken
  split at taken
  · rename_i phase
    split at taken
    · rename_i kept
      cases taken
      exact .posted phase (post_final kept)
    · cases taken
      exact .gaveUp phase
  · cases taken

theorem took_settled (taken : step cfg w .settle = some w') : Took cfg w w' := by
  simp only [step] at taken
  split at taken
  · rename_i phase
    cases taken
    exact .answered phase
  · cases taken

theorem took_next (taken : step cfg w .next = some w') : Took cfg w w' := by
  simp only [step] at taken
  split at taken
  · rename_i phase
    simp only [endIteration] at taken
    split at taken
    · rename_i once
      cases taken
      exact .exited phase (.inl once)
    · split at taken
      · rename_i last
        cases taken
        obtain ⟨m, eq, le⟩ := (Option.any_eq_true _ _).mp last
        exact .exited phase (.inr ⟨m, eq, by simpa using le⟩)
      · split at taken
        · split at taken
          · cases taken
          · rename_i flushed
            cases taken
            exact .stopped phase flushed
        · cases taken
          exact .again phase
  · rename_i phase
    cases taken
    exact .finished phase
  · cases taken

theorem took_step (taken : step cfg w e = some w') : Took cfg w w' := by
  cases e with
  | append bytes =>
    obtain ⟨tail, moved, rfl⟩ := Option.map_eq_some_iff.mp taken
    exact .appended moved
  | requestStop =>
    cases taken
    exact .stopRequested
  | readNewLines growth => exact took_read taken
  | feed now => exact took_fed taken
  | flushIdle now => exact took_flushed taken
  | put now => exact took_put taken
  | commitOffset => exact took_committed taken
  | post answer => exact took_posted taken
  | settle => exact took_settled taken
  | next => exact took_next taken
  | restart =>
    obtain ⟨tail, moved, rfl⟩ := Option.map_eq_some_iff.mp taken
    exact .restarted moved

structure Follows (cfg : ShipperConfig) (tail : Restarting) : Prop where
  stands : Stands cfg.tail cfg.inode tail
  resumes : Resumes cfg.tail cfg.inode tail
  room : (tail.disk.content cfg.inode).length < fileLimit

theorem tailStep_some {tail : Restarting} {e : ShipperTailRestarts.Event}
    (moved : tailStep cfg w e = some tail) :
    ShipperTailRestarts.step cfg.tail cfg.inode w.tail e = some tail ∧
      (tail.disk.content cfg.inode).length < fileLimit := by
  obtain ⟨taken, room⟩ := Option.filter_eq_some_iff.mp moved
  exact ⟨taken, by simpa using room⟩

theorem follows_tail {tail : Restarting} {e : ShipperTailRestarts.Event}
    (inv : Follows cfg w.tail) (moved : tailStep cfg w e = some tail) : Follows cfg tail := by
  obtain ⟨taken, room⟩ := tailStep_some moved
  refine ⟨stands_step inv.stands taken, ?_, room⟩
  cases e with
  | append bytes =>
    cases taken
    exact resumes_append inv.stands inv.resumes bytes
  | readNewLines growth =>
    exact (read_returned inv.stands inv.resumes cfg.inode_small inv.room taken).resumes
  | commitOffset =>
    cases taken
    exact resumes_commit inv.stands inv.resumes
  | restart =>
    cases taken
    exact resumes_restart inv.resumes

theorem follows_took (inv : Follows cfg w.tail) (took : Took cfg w w') : Follows cfg w'.tail := by
  cases took with
  | appended moved => exact follows_tail inv moved
  | read _ moved => exact follows_tail inv moved
  | committed _ moved => exact follows_tail inv moved
  | restarted moved => exact follows_tail inv moved
  | @answered file status left _ =>
    have same : (w.afterAnswer file status left).tail = w.tail := by
      unfold Shipper.afterAnswer
      split <;> rfl
    rw [same]
    exact inv
  | _ => exact inv

def Delivered (w : Shipper) (f : SpoolFile) : Prop :=
  ∃ status, (f, status) ∈ w.delivered ∧ 200 ≤ status ∧ status < 300

def Rejected (w : Shipper) (f : SpoolFile) : Prop :=
  ∃ status, (f, status) ∈ w.rejected ∧ (post (some status)).retry = false ∧
    ¬ (200 ≤ status ∧ status < 300) ∧ f ∈ w.spool.deadDir

def Evicted (cfg : ShipperConfig) (w : Shipper) (f : SpoolFile) : Prop :=
  ∃ full, (f, full) ∈ w.evictions ∧ full.head? = some f ∧ cfg.spool.maxFiles ≤ full.length ∧
    full.Sublist w.puts

def Placed (cfg : ShipperConfig) (w : Shipper) (f : SpoolFile) : Prop :=
  f ∈ w.spool.files ∨ Delivered w f ∨ Rejected w f ∨ Evicted cfg w f

structure Kept (cfg : ShipperConfig) (w : Shipper) : Prop where
  names : w.puts.Pairwise fun f g => f.name < g.name
  stamped : ∀ f ∈ w.puts, ∃ t ≤ w.clock, f.name = spoolName cfg.spool t f.payload
  files : w.spool.files.Sublist w.puts
  dead : ∀ f ∈ w.spool.deadDir, f ∈ w.puts
  places : ∀ f ∈ w.puts, Placed cfg w f
  drain : w.phase.files.Sublist w.spool.files
  final : ∀ file status left, w.phase = .answered file status left →
    (post (some status)).retry = false

theorem kept_start : Kept cfg (Shipper.start cfg) where
  names := List.Pairwise.nil
  stamped f member := by cases member
  files := List.Sublist.refl _
  dead f member := by cases member
  places f member := by cases member
  drain := List.Sublist.refl _
  final file status left phase := by cases phase

theorem kept_frame (inv : Kept cfg w) (spool : w'.spool = w.spool) (puts : w'.puts = w.puts)
    (clock : w'.clock = w.clock) (delivered : w'.delivered = w.delivered)
    (rejected : w'.rejected = w.rejected) (evictions : w'.evictions = w.evictions)
    (drain : w'.phase.files.Sublist w.spool.files)
    (final : ∀ file status left, w'.phase = .answered file status left →
      (post (some status)).retry = false) : Kept cfg w' where
  names := by rw [puts]; exact inv.names
  stamped := by rw [puts, clock]; exact inv.stamped
  files := by rw [puts, spool]; exact inv.files
  dead := by rw [puts, spool]; exact inv.dead
  places := by
    simp only [Placed, Delivered, Rejected, Evicted, spool, puts, delivered, rejected, evictions]
    exact inv.places
  drain := by rw [spool]; exact drain
  final := final

theorem kept_ordered (inv : Kept cfg w) : w.spool.Ordered := inv.names.sublist inv.files

theorem name_inj (inv : Kept cfg w) {f g : SpoolFile} (known : f ∈ w.puts) (other : g ∈ w.puts)
    (same : f.name = g.name) : f = g := by
  have distinct : (w.puts.map (·.name)).Nodup :=
    List.pairwise_map.mpr (inv.names.imp fun lt => name_ne lt)
  exact List.inj_on_of_nodup_map distinct known other same

theorem kept_put {b : Built} {phase : Phase} {now : Nat} (inv : Kept cfg w)
    (idle : phase.files = []) (later : w.clock < now) (small : now < clockLimit) :
    Kept cfg (w.afterPut cfg b phase now) := by
  have behind : ∀ f ∈ w.puts, f.name < spoolName cfg.spool now b.payload := by
    intro f known
    obtain ⟨t, le, eq⟩ := inv.stamped f known
    rw [eq]
    exact spoolName_lt cfg.spool (by omega) small _ _
  have ordered := kept_ordered inv
  obtain ⟨files, dead, gone⟩ :=
    put_files b.payload ordered fun f member => behind f (inv.files.subset member)
  have older : w.puts.Sublist (w.puts ++ [⟨spoolName cfg.spool now b.payload, b.payload⟩]) :=
    List.sublist_append_left _ _
  refine ⟨?_, ?_, ?_, ?_, ?_, ?_, ?_⟩
  · simp only [Shipper.afterPut]
    rw [List.pairwise_append]
    refine ⟨inv.names, List.pairwise_singleton _ _, ?_⟩
    intro f known g new
    rw [List.mem_singleton.mp new]
    exact behind f known
  · intro f known
    rcases List.mem_append.mp known with old | new
    · obtain ⟨t, le, eq⟩ := inv.stamped f old
      exact ⟨t, by simp only [Shipper.afterPut]; omega, eq⟩
    · rw [List.mem_singleton.mp new]
      exact ⟨now, Nat.le_refl _, rfl⟩
  · simp only [Shipper.afterPut, files]
    refine List.Sublist.append ?_ (List.Sublist.refl _)
    split
    · exact (List.tail_sublist _).trans inv.files
    · exact inv.files
  · intro f member
    simp only [Shipper.afterPut, dead] at member
    exact older.subset (inv.dead f member)
  · intro f known
    simp only [Shipper.afterPut, Placed, Delivered, Rejected, Evicted, files, dead, gone]
    rcases List.mem_append.mp known with old | new
    · rcases inv.places f old with here | delivered | rejected | ⟨full, event, first, size, sub⟩
      · by_cases crowded : cfg.spool.maxFiles ≤ w.spool.files.length
        · cases held : w.spool.files with
          | nil => simp [held] at here
          | cons g rest =>
            rw [held] at here
            rcases List.mem_cons.mp here with rfl | stays
            · refine .inr (.inr (.inr ⟨w.spool.pending, ?_, ?_, ?_, ?_⟩))
              · rw [if_pos (held ▸ crowded)]
                simp
              · rw [pending_eq ordered, held]
                rfl
              · rw [pending_eq ordered]
                exact crowded
              · rw [pending_eq ordered]
                exact inv.files.trans older
            · left
              rw [if_pos (held ▸ crowded)]
              simp [stays]
        · left
          rw [if_neg crowded]
          exact List.mem_append_left _ here
      · exact .inr (.inl delivered)
      · exact .inr (.inr (.inl rejected))
      · exact .inr (.inr (.inr ⟨full, List.mem_append_left _ event, first, size, sub.trans older⟩))
    · left
      exact List.mem_append_right _ new
  · simp [Shipper.afterPut, idle]
  · intro file status left eq
    simp only [Shipper.afterPut] at eq
    simp [eq, Phase.files] at idle

theorem kept_answered {file : SpoolFile} {status : Nat} {left : List SpoolFile} (inv : Kept cfg w)
    (phase : w.phase = .answered file status left) : Kept cfg (w.afterAnswer file status left) := by
  have drain := inv.drain
  rw [phase] at drain
  have here : file ∈ w.spool.files := drain.subset (List.mem_cons_self ..)
  have known := inv.files.subset here
  have gone : (w.spool.unlink file.name).files.Sublist w.spool.files := List.filter_sublist
  have others : ∀ f ∈ w.spool.files, f = file ∨ f ∈ (w.spool.unlink file.name).files := by
    intro f member
    by_cases same : f.name = file.name
    · exact .inl (name_inj inv (inv.files.subset member) known same)
    · exact .inr (List.mem_filter.mpr ⟨member, by simpa using same⟩)
  have remaining : left.Sublist (w.spool.unlink file.name).files := by
    have apart := (kept_ordered inv).sublist drain
    rw [Phase.files, List.pairwise_cons] at apart
    have kept : left.filter (fun f => f.name ≠ file.name) = left := by
      rw [List.filter_eq_self]
      intro f member
      simpa using (name_ne (apart.1 f member)).symm
    rw [← kept]
    exact ((List.sublist_cons_self _ _).trans drain).filter _
  unfold Shipper.afterAnswer
  split
  · rename_i success
    refine ⟨inv.names, inv.stamped, gone.trans inv.files, inv.dead, ?_, remaining, by simp⟩
    intro f member
    rcases inv.places f member with held | ⟨s, event, ok⟩ | rejected | evicted
    · rcases others f held with rfl | stays
      · exact .inr (.inl ⟨status, by simp, success⟩)
      · exact .inl stays
    · exact .inr (.inl ⟨s, List.mem_append_left _ event, ok⟩)
    · exact .inr (.inr (.inl rejected))
    · exact .inr (.inr (.inr evicted))
  · rename_i failure
    refine ⟨inv.names, inv.stamped, gone.trans inv.files, ?_, ?_, remaining, by simp⟩
    · intro f member
      simp only [Spool.dead, List.mem_append, List.mem_filter, List.mem_singleton] at member
      rcases member with ⟨old, _⟩ | rfl
      · exact inv.dead f old
      · exact known
    · intro f member
      rcases inv.places f member with held | delivered | ⟨s, event, final, ok, dead⟩ | evicted
      · rcases others f held with rfl | stays
        · exact .inr (.inr (.inl ⟨status, by simp, inv.final f status left phase, failure,
            by simp [Spool.dead]⟩))
        · exact .inl stays
      · exact .inr (.inl delivered)
      · refine .inr (.inr (.inl ⟨s, List.mem_append_left _ event, final, ok, ?_⟩))
        simp only [Spool.dead, List.mem_append, List.mem_filter, List.mem_singleton]
        by_cases same : f.name = file.name
        · exact .inr (name_inj inv member known same)
        · exact .inl ⟨dead, by simpa using same⟩
      · exact .inr (.inr (.inr evicted))

theorem nextPut_files {b : Built} {phase phase' : Phase} (due : phase.nextPut = some (b, phase')) :
    phase'.files = [] := by
  unfold Phase.nextPut at due
  split at due <;> simp only [Option.some.injEq, Prod.mk.injEq, reduceCtorEq] at due
  all_goals
    obtain ⟨_, rfl⟩ := due
    rfl

theorem kept_took (inv : Kept cfg w) (took : Took cfg w w') : Kept cfg w' := by
  cases took with
  | appended moved => exact kept_frame inv rfl rfl rfl rfl rfl rfl inv.drain inv.final
  | stopRequested => exact kept_frame inv rfl rfl rfl rfl rfl rfl inv.drain inv.final
  | put due later small => exact kept_put inv (nextPut_files due) later small
  | answered phase => exact kept_answered inv phase
  | committed phase moved =>
    refine kept_frame inv rfl rfl rfl rfl rfl rfl ?_ (by simp)
    simp only [Phase.files, pending_eq (kept_ordered inv)]
    exact List.Sublist.refl _
  | posted phase final =>
    refine kept_frame inv rfl rfl rfl rfl rfl rfl ?_ ?_
    · have drain := inv.drain
      rwa [phase] at drain
    · intro file status left eq
      simp only [Phase.answered.injEq] at eq
      exact eq.2.1 ▸ final
  | _ =>
    refine kept_frame inv rfl rfl rfl rfl rfl rfl (List.nil_sublist _) ?_
    simp [Shipper.afterFeed, Shipper.afterFlush, Shipper.restarted]

def Again (cfg : ShipperConfig) (w : Shipper) (x : Nat × Bytes) : Prop :=
  x ∈ dealtLines cfg.inode w.tail ∧ savedOffset w.tail ≤ x.1

/-- Every payload of the process was put or is due, and what is due or not yet fed comes from
    lines that a restart would read again. -/
structure Tracked (cfg : ShipperConfig) (w : Shipper) : Prop where
  account : w.built = w.stored.map (·.1) ++ w.phase.due
  stored : ∀ x ∈ w.stored, x.2 ∈ w.puts ∧ x.2.payload = x.1.payload
  due : ∀ b ∈ w.phase.due, ∀ x, b.line = some x → Again cfg w x
  lines : ∀ r ∈ w.phase.lines, Again cfg w r.line

theorem tracked_start : Tracked cfg (Shipper.start cfg) where
  account := rfl
  stored x member := by cases member
  due b member := by cases member
  lines r member := by cases member

theorem tracked_idle (inv : Tracked cfg w) (built : w'.built = w.built)
    (stored : w'.stored = w.stored) (puts : w'.puts = w.puts) (none : w.phase.due = [])
    (due : w'.phase.due = []) (lines : ∀ r ∈ w'.phase.lines, Again cfg w' r.line) :
    Tracked cfg w' where
  account := by rw [built, stored, due, inv.account, none]
  stored := by rw [stored, puts]; exact inv.stored
  due b member := by simp [due] at member
  lines := lines

theorem tracked_silent (inv : Tracked cfg w) (none : w.phase.due = []) (built : w'.built = w.built)
    (stored : w'.stored = w.stored) (puts : w'.puts = w.puts) (due : w'.phase.due = [])
    (lines : w'.phase.lines = []) : Tracked cfg w' :=
  tracked_idle inv built stored puts none due (by simp [lines])

theorem tracked_flush {keys : List Key} {phase : Phase} {payloads : List Bytes}
    {a : SessionAssembler} (inv : Tracked cfg w) (idle : w.phase.due = [])
    (due : phase.due = payloads.map (⟨·, none⟩)) (lines : phase.lines = []) :
    Tracked cfg (w.afterFlush cfg keys phase payloads a) := by
  refine ⟨?_, inv.stored, ?_, ?_⟩
  · simp only [Shipper.afterFlush, due]
    rw [inv.account, idle, List.append_nil]
  · intro b member x eq
    simp only [Shipper.afterFlush, due, List.mem_map] at member
    obtain ⟨payload, _, rfl⟩ := member
    cases eq
  · intro r member
    simp [Shipper.afterFlush, lines] at member

theorem again_append {tail : Restarting} {bytes : Bytes} {x : Nat × Bytes}
    (follows : Follows cfg w.tail) (moved : tailStep cfg w (.append bytes) = some tail)
    (again : Again cfg w x) : Again cfg { w with tail := tail } x := by
  obtain ⟨taken, _⟩ := tailStep_some moved
  cases taken
  refine ⟨?_, again.2⟩
  cases live : w.tail.live with
  | none => simp [Again, dealtLines, live] at again
  | some p =>
    have known : p ∈ w.tail.processes := by simp [Restarting.processes, live]
    have dealt := again.1
    simp only [dealtLines, live] at dealt ⊢
    rw [setContent_same, process_lines_grow (follows.stands.described p known).within]
    exact dealt

theorem again_read {tail : Restarting} {growth : List Bytes} {phase : Phase}
    (follows : Follows cfg w.tail) (moved : tailStep cfg w (.readNewLines growth) = some tail) :
    ∀ r ∈ returnedLines cfg w.tail tail, Again cfg { w with tail := tail, phase := phase } r.line := by
  obtain ⟨taken, _⟩ := tailStep_some moved
  have returned :=
    read_returned follows.stands follows.resumes cfg.inode_small follows.room taken
  intro r member
  obtain ⟨i, lt, eq⟩ := List.getElem_of_mem member
  simp only [returnedLines, List.getElem_zipWith] at eq
  have inside : r.line ∈ batch cfg.tail cfg.inode w.tail tail := by
    rw [← eq]
    exact List.getElem_mem _
  refine ⟨?_, ?_⟩
  · simp only [batch, List.mem_filter] at inside
    exact List.mem_of_mem_drop inside.1
  · have offset := returned.beyond r.line inside
    simpa [savedOffset, returned.committed] using offset

theorem nextPut_due {b : Built} {phase phase' : Phase} (due : phase.nextPut = some (b, phase')) :
    phase.due = b :: phase'.due ∧ phase'.lines = phase.lines := by
  unfold Phase.nextPut at due
  split at due <;> simp only [Option.some.injEq, Prod.mk.injEq, reduceCtorEq] at due
  all_goals
    obtain ⟨rfl, rfl⟩ := due
    exact ⟨rfl, rfl⟩

theorem tracked_took (follows : Follows cfg w.tail) (inv : Tracked cfg w) (took : Took cfg w w') :
    Tracked cfg w' := by
  cases took with
  | appended moved =>
    exact ⟨inv.account, inv.stored,
      fun b member x eq => again_append follows moved (inv.due b member x eq),
      fun r member => again_append follows moved (inv.lines r member)⟩
  | stopRequested => exact ⟨inv.account, inv.stored, inv.due, inv.lines⟩
  | read phase moved =>
    exact tracked_idle inv rfl rfl rfl (by rw [phase]; rfl) rfl (again_read follows moved)
  | @fed line lines now payloads a phase fed =>
    have next := inv.lines
    rw [phase] at next
    refine ⟨?_, inv.stored, ?_, fun r member => next r (List.mem_cons_of_mem _ member)⟩
    · simp only [Shipper.afterFeed, Phase.due]
      rw [inv.account, phase]
      simp [Phase.due]
    · intro b member x eq
      simp only [Shipper.afterFeed, Phase.due, List.mem_map] at member
      obtain ⟨payload, _, rfl⟩ := member
      cases eq
      exact next line (List.mem_cons_self ..)
  | flushed phase flushed => exact tracked_flush inv (by rw [phase]; rfl) rfl rfl
  | @stopped payloads a phase flushed =>
    have counted : Tracked cfg { w with iterations := w.iterations + 1 } :=
      ⟨inv.account, inv.stored, inv.due, inv.lines⟩
    exact tracked_flush counted (by rw [show _ = Phase.draining [] from phase]; rfl) rfl rfl
  | @put b phase now due later small =>
    obtain ⟨first, same⟩ := nextPut_due due
    refine ⟨?_, ?_, ?_, ?_⟩
    · simp only [Shipper.afterPut, List.map_append, List.map_cons, List.map_nil]
      rw [inv.account, first]
      simp
    · intro x member
      simp only [Shipper.afterPut, List.mem_append, List.mem_singleton] at member ⊢
      rcases member with old | rfl
      · exact ⟨.inl (inv.stored x old).1, (inv.stored x old).2⟩
      · exact ⟨.inr rfl, rfl⟩
    · intro c member x eq
      exact inv.due c (by rw [first]; exact List.mem_cons_of_mem _ member) x eq
    · intro r member
      refine inv.lines r ?_
      rw [← same]
      exact member
  | committed phase moved => exact tracked_silent inv (by rw [phase]; rfl) rfl rfl rfl rfl rfl
  | posted phase final => exact tracked_silent inv (by rw [phase]; rfl) rfl rfl rfl rfl rfl
  | gaveUp phase => exact tracked_silent inv (by rw [phase]; rfl) rfl rfl rfl rfl rfl
  | answered phase =>
    unfold Shipper.afterAnswer
    split <;> exact tracked_silent inv (by rw [phase]; rfl) rfl rfl rfl rfl rfl
  | exited phase _ => exact tracked_silent inv (by rw [phase]; rfl) rfl rfl rfl rfl rfl
  | again phase => exact tracked_silent inv (by rw [phase]; rfl) rfl rfl rfl rfl rfl
  | finished phase => exact tracked_silent inv (by rw [phase]; rfl) rfl rfl rfl rfl rfl
  | restarted moved =>
    exact ⟨rfl, by simp [Shipper.restarted], by simp [Shipper.restarted, Phase.due],
      by simp [Shipper.restarted, Phase.lines]⟩

structure Sound (cfg : ShipperConfig) (w : Shipper) : Prop where
  follows : Follows cfg w.tail
  kept : Kept cfg w
  tracked : Tracked cfg w

theorem reach_sound {ok : Shipper → Event → Prop}
    (reached : Reach (step cfg) ok (Shipper.start cfg) w) : Sound cfg w := by
  have room : ((Shipper.start cfg).tail.disk.content cfg.inode).length < fileLimit :=
    Nat.two_pow_pos 63
  refine reach_invariant (Sound cfg) ⟨⟨stands_start, resumes_start, room⟩, kept_start,
    tracked_start⟩ ?_ reached
  intro w e w' inv _ taken
  have took := took_step taken
  exact ⟨follows_took inv.follows took, kept_took inv.kept took,
    tracked_took inv.follows inv.tracked took⟩

/-- At a commit every payload of the process has been put; a put file stays until it is delivered,
    rejected or evicted; a payload of `feed` that was not put comes from a line at or behind the
    committed offset, which the next process reads again. -/
theorem payloads_spooled_before_commit
    (reached : Reach (step cfg) anyStep (Shipper.start cfg) w) :
    (∀ w', step cfg w .commitOffset = some w' → ∀ b ∈ w.built,
      ∃ f, (b, f) ∈ w.stored ∧ f ∈ w.puts ∧ f.payload = b.payload) ∧
    (∀ f ∈ w.puts, f ∈ w.spool.pending ∨ Delivered w f ∨ Rejected w f ∨ Evicted cfg w f) ∧
    (∀ b ∈ w.built, (∀ f, (b, f) ∉ w.stored) → ∀ x, b.line = some x →
      (∀ o, w.tail.committed = some o → o ≤ x.1) ∧
      ∃ w', step cfg w .restart = some w' ∧ w'.tail.base cfg.tail ≤ x.1 ∧
        x ∈ placed (w'.tail.base cfg.tail) (w'.tail.ahead cfg.tail cfg.inode) ∧
        ((∀ l ∈ usable cfg.tail.maxLineBytes (w'.tail.ahead cfg.tail cfg.inode),
            (decode l).isSome) →
          ∃ calls bytes, ∀ n, calls ≤ n → ∀ k, bytes ≤ k → ∃ tail,
            run (ShipperTailRestarts.step cfg.tail cfg.inode) w'.tail
              (List.replicate n (quietCall k)) = some tail ∧
            x ∈ dealtLines cfg.inode tail)) := by
  obtain ⟨follows, kept, tracked⟩ := reach_sound reached
  refine ⟨?_, ?_, ?_⟩
  · intro w' taken b member
    have phase : w.phase = .flushed [] := by
      simp only [step] at taken
      split at taken
      · assumption
      · cases taken
    rw [tracked.account, phase, Phase.due, List.append_nil, List.mem_map] at member
    obtain ⟨⟨c, f⟩, inside, rfl⟩ := member
    exact ⟨f, inside, tracked.stored _ inside⟩
  · intro f known
    rw [pending_eq (kept_ordered kept)]
    exact kept.places f known
  · intro b member unput x eq
    have due : b ∈ w.phase.due := by
      rw [tracked.account, List.mem_append, List.mem_map] at member
      rcases member with ⟨⟨c, f⟩, inside, rfl⟩ | due
      · exact absurd inside (unput f)
      · exact due
    obtain ⟨dealt, behind⟩ := tracked.due b due x eq
    obtain ⟨base, ahead⟩ := restarted_again follows.stands follows.resumes cfg.inode_small
      follows.room dealt behind
    have front : (restarted w.tail).ahead cfg.tail cfg.inode =
        complete newline ((w.tail.disk.content cfg.inode).drop (savedOffset w.tail)) := by
      rw [Restarting.ahead, base]
      rfl
    refine ⟨?_, w.restarted (restarted w.tail), ?_, ?_, ?_, ?_⟩
    · intro o committed
      have := behind
      simp only [savedOffset, committed, Option.getD_some] at this
      omega
    · simp [step, tailStep, ShipperTailRestarts.step, restarted, Option.filter, follows.room]
    · show (restarted w.tail).base cfg.tail ≤ x.1
      rw [base]
      exact behind
    · show x ∈ placed ((restarted w.tail).base cfg.tail) ((restarted w.tail).ahead cfg.tail cfg.inode)
      rw [base, front]
      exact ahead
    · intro valid
      refine restarted_reads follows.stands follows.resumes cfg.inode_small follows.room dealt
        behind ?_
      rw [← front]
      exact valid

def sampleConfig (once : Bool) (maxEvents : Nat) (two : 2 ≤ maxEvents) : ShipperConfig :=
  { tail := ⟨512, 10, 8192, 100, Nat.succ_pos _, Nat.succ_pos _, Nat.succ_pos _⟩,
    assembler := ⟨10, maxEvents, 10000, 100, 100, two⟩,
    spool := ⟨10, fun _ => str "00000000", Nat.succ_pos _⟩,
    once := once, maxIterations := none, inode := 7, inode_small := by decide }

def eventLine (eventid : PyStr) : Bytes :=
  ((encode (JsonText.Json.obj [(str "eventid", .str eventid), (str "session", .str (str "s")),
    (str "src_ip", .str (str "")), (str "sensor", .str (str "")),
    (str "timestamp", .str (str ""))]).text).getD []) ++ [newline]

/-- A session is opened and closed; its payload is built and not yet put. -/
def closingRun : List Event :=
  [.append (eventLine connectEvent ++ eventLine closedEvent), .readNewLines [[], []], .feed 0,
    .feed 0]

theorem payloads_spooled_before_commit_crash :
    ∃ w b x, Reach (step (sampleConfig false 5 (by decide))) anyStep
        (Shipper.start (sampleConfig false 5 (by decide))) w ∧
      b ∈ w.built ∧ w.stored = [] ∧ b.line = some x ∧ x.1 = 90 ∧
      ∃ w', step (sampleConfig false 5 (by decide)) w .restart = some w' ∧
        w'.tail.base (sampleConfig false 5 (by decide)).tail ≤ x.1 := by
  have some : (run (step (sampleConfig false 5 (by decide)))
      (Shipper.start (sampleConfig false 5 (by decide))) closingRun).map (fun w =>
        (w.built.map fun b => b.line.map (·.1), w.stored)) = some ([some 90], []) := by
    decide +kernel
  obtain ⟨w, taken, eq⟩ := Option.map_eq_some_iff.mp some
  simp only [Prod.mk.injEq] at eq
  obtain ⟨built, stored⟩ := eq
  obtain ⟨b, rest, cons, line, _⟩ := List.map_eq_cons_iff.mp built
  obtain ⟨x, from_line, start⟩ := Option.map_eq_some_iff.mp line
  have member : b ∈ w.built := by simp [cons]
  have reached := run_reaches Reach.start taken
  obtain ⟨_, w', restarts, base, _⟩ := (payloads_spooled_before_commit reached).2.2 b member
    (by simp [stored]) x from_line
  exact ⟨w, b, x, reached, member, stored, from_line, start, w', restarts, base⟩

/-- A session is opened and committed; an iteration later it is idle, and its payload is built. -/
def idleRun : List Event :=
  [.append (eventLine connectEvent), .readNewLines [[], []], .feed 0, .flushIdle 0, .commitOffset,
    .next, .readNewLines [[]], .flushIdle 20]

theorem idle_payload_not_read_again :
    ¬ ∀ (cfg : ShipperConfig) (w : Shipper), Reach (step cfg) anyStep (Shipper.start cfg) w →
      ∀ b ∈ w.built, (∀ f, (b, f) ∉ w.stored) →
        ∃ x ∈ dealtLines cfg.inode w.tail, ∀ o, w.tail.committed = some o → o ≤ x.1 := by
  intro all
  have some : (run (step (sampleConfig false 5 (by decide)))
      (Shipper.start (sampleConfig false 5 (by decide))) idleRun).map (fun w =>
        (w.built.length, w.stored, w.tail.committed, (dealtLines 7 w.tail).map (·.1))) =
      some (1, [], some 90, [0]) := by decide +kernel
  obtain ⟨w, taken, eq⟩ := Option.map_eq_some_iff.mp some
  simp only [Prod.mk.injEq] at eq
  obtain ⟨built, stored, committed, positions⟩ := eq
  obtain ⟨b, member⟩ := List.exists_mem_of_length_pos (l := w.built) (by omega)
  obtain ⟨x, dealt, behind⟩ :=
    all _ w (run_reaches Reach.start taken) b member (by simp [stored])
  have start : x.1 ∈ (dealtLines 7 w.tail).map (·.1) := List.mem_map_of_mem dealt
  rw [positions, List.mem_singleton] at start
  have := behind 90 committed
  omega

end ShipperDelivery
