import SentinelBrief.Shipper.Delivery

/-!
What is left when `main` returns. The books of a process hold every event it
read and fed; an exit through the stop branch closes them, so that each event
belongs to a payload that was put or to a session dropped without a connect
event.
-/
namespace ShipperExit
open ShipperTail ShipperTailResume ShipperAssemble ShipperSpool ShipperMain ShipperDelivery
open ShipperTailRestarts hiding Event step
open Utf8Text JsonText StepRuns

structure Accounted (cfg : ShipperConfig) (w : Shipper) : Prop where
  books : Books cfg.assembler w.assembler w.ledger
  events : ∃ fed, w.tail.out = fed ++ w.phase.lines.map (·.text) ∧
    w.ledger.events.Perm (fed.filterMap (eventOf cfg.assembler))
  payloads : w.ledger.shipped.map (·.payload) = w.built.map (·.payload)
  stopping : ∀ due, w.phase = .stopping due → w.assembler.sessions = []
  exited : w.phase = .exited → cfg.once = true ∨
    (∃ m, cfg.maxIterations = some m ∧ m ≤ w.iterations) ∨ w.assembler.sessions = []

variable {cfg : ShipperConfig} {w w' : Shipper}

theorem accounted_start : Accounted cfg (Shipper.start cfg) where
  books := books_start
  events := ⟨[], rfl, List.Perm.refl _⟩
  payloads := rfl
  stopping due phase := by cases phase
  exited phase := by cases phase

theorem accounted_frame (inv : Accounted cfg w) (assembler : w'.assembler = w.assembler)
    (ledger : w'.ledger = w.ledger) (built : w'.built = w.built) (out : w'.tail.out = w.tail.out)
    (lines : w'.phase.lines = w.phase.lines)
    (stopping : ∀ due, w'.phase = .stopping due → w.assembler.sessions = [])
    (exited : w'.phase = .exited → cfg.once = true ∨
      (∃ m, cfg.maxIterations = some m ∧ m ≤ w'.iterations) ∨ w.assembler.sessions = []) :
    Accounted cfg w' where
  books := by rw [assembler, ledger]; exact inv.books
  events := by rw [out, lines, ledger]; exact inv.events
  payloads := by rw [ledger, built]; exact inv.payloads
  stopping := by rw [assembler]; exact stopping
  exited := by rw [assembler]; exact exited

theorem accounted_flush {keys : List Key} {phase : Phase} {payloads : List Bytes}
    {a : SessionAssembler} (inv : Accounted cfg w)
    (flushed : flush cfg.assembler keys w.assembler = .ok (payloads, a))
    (none : w.phase.lines = []) (lines : phase.lines = [])
    (stopping : ∀ due, phase = .stopping due → a.sessions = []) (running : phase ≠ .exited) :
    Accounted cfg (w.afterFlush cfg keys phase payloads a) := by
  have entered := entered_flush inv.books flushed
  refine ⟨entered.books, ?_, ?_, stopping, fun eq => absurd eq running⟩
  · obtain ⟨fed, out, events⟩ := inv.events
    rw [none] at out
    refine ⟨fed, by simpa [Shipper.afterFlush, lines] using out, ?_⟩
    have moved := entered.events
    rw [List.append_nil] at moved
    exact moved.trans events
  · simp only [Shipper.afterFlush, List.map_append, List.map_map]
    rw [← inv.payloads]
    simpa [Function.comp_def] using entered.payloads

theorem returnedLines_texts {tail : Restarting}
    (returned : Returned cfg.tail cfg.inode w.tail tail) :
    tail.out = w.tail.out ++ (returnedLines cfg w.tail tail).map (·.text) := by
  obtain ⟨lines, out, texts⟩ := returned.texts
  have size := congrArg List.length texts
  rw [List.length_map, List.length_map] at size
  rw [returnedLines, out, List.drop_left, List.map_zipWith]
  congr 1
  symm
  have firsts : ∀ (xs : List PyStr) (ys : List (Nat × Bytes)), xs.length = ys.length →
      List.zipWith (fun x _ => x) xs ys = xs := by
    intro xs ys same
    induction xs generalizing ys with
    | nil => simp
    | cons x xs ih =>
      cases ys with
      | nil => simp at same
      | cons y ys => simp [ih ys (by simpa using same)]
  exact firsts _ _ size

theorem flushAll_sessions {a a' : SessionAssembler} {payloads : List Bytes}
    (flushed : flushAll cfg.assembler a = .ok (payloads, a')) : a'.sessions = [] := by
  rw [flush_sessions flushed, List.filter_eq_nil_iff]
  intro entry member
  simpa using ⟨entry.2, member⟩

theorem nextPut_phase {b : Built} {phase phase' : Phase} (due : phase.nextPut = some (b, phase')) :
    phase' ≠ .exited ∧ ∀ left, phase' = .stopping left → phase = .stopping (b :: left) := by
  unfold Phase.nextPut at due
  split at due <;> simp only [Option.some.injEq, Prod.mk.injEq, reduceCtorEq] at due
  all_goals
    obtain ⟨rfl, rfl⟩ := due
    simp

theorem accounted_took (follows : Follows cfg w.tail) (inv : Accounted cfg w)
    (took : Took cfg w w') : Accounted cfg w' := by
  cases took with
  | appended moved =>
    obtain ⟨taken, _⟩ := tailStep_some moved
    cases taken
    exact accounted_frame inv rfl rfl rfl rfl rfl inv.stopping inv.exited
  | stopRequested => exact accounted_frame inv rfl rfl rfl rfl rfl inv.stopping inv.exited
  | read phase moved =>
    obtain ⟨taken, _⟩ := tailStep_some moved
    have out := returnedLines_texts
      (read_returned follows.stands follows.resumes cfg.inode_small follows.room taken)
    refine ⟨inv.books, ?_, inv.payloads, by simp, by simp⟩
    obtain ⟨fed, before, events⟩ := inv.events
    have none : Phase.ready.lines = [] := rfl
    rw [phase, none, List.map_nil, List.append_nil] at before
    exact ⟨fed, by simpa [Phase.lines, before] using out, events⟩
  | @fed line lines now payloads a phase fed =>
    have entered := entered_feed inv.books fed
    refine ⟨entered.books, ?_, ?_, by simp [Shipper.afterFeed], by simp [Shipper.afterFeed]⟩
    · obtain ⟨texts, out, events⟩ := inv.events
      rw [phase] at out
      refine ⟨texts ++ [line.text], by simpa [Shipper.afterFeed, Phase.lines] using out, ?_⟩
      have new : [line.text].filterMap (eventOf cfg.assembler) =
          (eventOf cfg.assembler line.text).toList := by
        cases found : eventOf cfg.assembler line.text <;> simp [found]
      rw [List.filterMap_append, new]
      exact entered.events.trans (events.append_right _)
    · simp only [Shipper.afterFeed, List.map_append, List.map_map]
      rw [← inv.payloads]
      simpa [Function.comp_def] using entered.payloads
  | flushed phase flushed =>
    exact accounted_flush inv flushed (by rw [phase]; rfl) rfl (by simp) (by simp)
  | put due later small =>
    obtain ⟨_, same⟩ := nextPut_due due
    obtain ⟨running, stops⟩ := nextPut_phase due
    exact accounted_frame inv rfl rfl rfl rfl same (fun left eq => inv.stopping _ (stops left eq))
      fun eq => absurd eq running
  | committed phase moved =>
    obtain ⟨taken, _⟩ := tailStep_some moved
    cases taken
    exact accounted_frame inv rfl rfl rfl rfl (by rw [phase]; rfl) (by simp) (by simp)
  | posted phase _ =>
    exact accounted_frame inv rfl rfl rfl rfl (by rw [phase]; rfl) (by simp) (by simp)
  | gaveUp phase =>
    exact accounted_frame inv rfl rfl rfl rfl (by rw [phase]; rfl) (by simp) (by simp)
  | answered phase =>
    unfold Shipper.afterAnswer
    split <;> exact accounted_frame inv rfl rfl rfl rfl (by rw [phase]; rfl) (by simp) (by simp)
  | exited phase reason =>
    exact accounted_frame inv rfl rfl rfl rfl (by rw [phase]; rfl) (by simp) fun _ =>
      reason.imp_right .inl
  | stopped phase flushed =>
    have counted : Accounted cfg { w with iterations := w.iterations + 1 } :=
      accounted_frame inv rfl rfl rfl rfl rfl inv.stopping (by simp [phase])
    exact accounted_flush counted flushed (by rw [show _ = Phase.draining [] from phase]; rfl) rfl
      (fun _ _ => flushAll_sessions flushed) (by simp)
  | again phase =>
    exact accounted_frame inv rfl rfl rfl rfl (by rw [phase]; rfl) (by simp) (by simp)
  | finished phase =>
    exact accounted_frame inv rfl rfl rfl rfl (by rw [phase]; rfl) (by simp) fun _ =>
      .inr (.inr (inv.stopping [] phase))
  | restarted moved =>
    obtain ⟨taken, _⟩ := tailStep_some moved
    cases taken
    exact ⟨books_start, ⟨[], rfl, List.Perm.refl _⟩, rfl, by simp [Shipper.restarted],
      by simp [Shipper.restarted]⟩

theorem reach_accounted {ok : Shipper → Event → Prop}
    (reached : Reach (step cfg) ok (Shipper.start cfg) w) : Accounted cfg w := by
  induction reached with
  | start => exact accounted_start
  | next before met taken ih =>
    exact accounted_took (reach_sound before).follows ih (took_step taken)

def StoppedExit (cfg : ShipperConfig) (w : Shipper) : Prop :=
  cfg.once = false ∧ ∀ m, cfg.maxIterations = some m → w.iterations < m

/-- After an exit through the stop branch, or one that leaves no session open, every event the
    process read was fed to a session whose payload is in the spool's history or that was dropped
    and counted for having no connect event. A payload holds some of the events of its session
    and counts the others. -/
theorem exit_accounts_events (reached : Reach (step cfg) anyStep (Shipper.start cfg) w)
    (exited : w.phase = .exited) (closed : StoppedExit cfg w ∨ w.assembler.sessions = []) :
    (w.tail.out.filterMap (eventOf cfg.assembler)).Perm
      (w.ledger.shipped.flatMap (·.fed) ++ w.ledger.dropped.flatMap (·.2)) ∧
    w.ledger.shipped.map (·.payload) = w.stored.map (·.2.payload) ∧
    (∀ x ∈ w.stored, x.2 ∈ w.puts) ∧
    (∀ sh ∈ w.ledger.shipped, sh.Complete cfg.assembler) ∧
    (∀ d ∈ w.ledger.dropped, d.1.hasConnect = false ∧ Holds d.1 d.2) ∧
    w.assembler.droppedNoConnect = w.ledger.dropped.length := by
  have sound := reach_sound reached
  have inv := reach_accounted reached
  have none : w.assembler.sessions = [] := by
    rcases closed with ⟨loop, unbounded⟩ | none
    · rcases inv.exited exited with once | ⟨m, eq, le⟩ | none
      · simp [loop] at once
      · have := unbounded m eq
        omega
      · exact none
    · exact none
  have opened : w.ledger.opened = [] := by
    rw [List.eq_nil_iff_forall_not_mem]
    intro x member
    have known := inv.books.known x member
    simp [SessionAssembler.session?, none] at known
  have account := sound.tracked.account
  rw [exited] at account
  have stored : w.built.map (·.payload) = w.stored.map (·.2.payload) := by
    rw [account]
    simp only [Phase.due, List.append_nil, List.map_map]
    exact List.map_congr_left fun x member => (sound.tracked.stored x member).2.symm
  refine ⟨?_, inv.payloads.trans stored, fun x member => (sound.tracked.stored x member).1,
    inv.books.shipments, inv.books.unconnected, inv.books.dropped⟩
  obtain ⟨fed, out, events⟩ := inv.events
  rw [exited] at out
  simp only [Phase.lines, List.map_nil, List.append_nil] at out
  rw [Ledger.events, opened, List.map_nil, List.nil_append] at events
  rw [out]
  exact events.symm

/-- A stop is requested while a session is open; it is flushed and put before the exit. -/
def stopRun : List Event :=
  [.append (eventLine connectEvent), .readNewLines [[], []], .feed 0, .requestStop, .flushIdle 0,
    .commitOffset, .next, .put 5, .next]

theorem exit_accounts_events_stop :
    ∃ w, Reach (step (sampleConfig false 5 (by decide))) anyStep
        (Shipper.start (sampleConfig false 5 (by decide))) w ∧
      w.phase = .exited ∧ w.tail.out.length = 1 ∧ w.puts.length = 1 ∧
      w.ledger.shipped.map (·.payload) = w.stored.map (·.2.payload) := by
  have some : (run (step (sampleConfig false 5 (by decide)))
      (Shipper.start (sampleConfig false 5 (by decide))) stopRun).map (fun w =>
        (w.phase, w.tail.out.length, w.puts.length)) = some (.exited, 1, 1) := by decide +kernel
  obtain ⟨w, taken, eq⟩ := Option.map_eq_some_iff.mp some
  simp only [Prod.mk.injEq] at eq
  obtain ⟨exited, read, put⟩ := eq
  have reached := run_reaches Reach.start taken
  have closed : StoppedExit (sampleConfig false 5 (by decide)) w :=
    ⟨rfl, fun m eq => by cases eq⟩
  exact ⟨w, reached, exited, read, put, (exit_accounts_events reached exited (.inl closed)).2.1⟩

def onceRun : List Event :=
  [.append (eventLine connectEvent), .readNewLines [[], []], .feed 0, .flushIdle 0, .commitOffset,
    .next]

def inputEvent : PyStr := str "cowrie.command.input"

def cappedRun : List Event :=
  [.append (eventLine connectEvent ++ eventLine inputEvent ++ eventLine closedEvent),
    .readNewLines [[], []], .feed 0, .feed 0, .feed 0, .put 5, .requestStop, .flushIdle 0,
    .commitOffset, .post none, .next, .next]

/-- `--once` returns with an event in memory only, before the committed offset; and past the cap
    an event is counted in its payload, not held. -/
theorem exit_leaves_events :
    (¬ ∀ (cfg : ShipperConfig) (w : Shipper) (o : Int),
      Reach (step cfg) anyStep (Shipper.start cfg) w → w.phase = .exited →
      w.tail.committed = some o → (∀ x ∈ dealtLines cfg.inode w.tail, x.1 < o) →
      w.tail.out.filterMap (eventOf cfg.assembler) ≠ [] →
      w.puts ≠ [] ∨ 0 < w.assembler.droppedNoConnect) ∧
    (¬ ∀ (cfg : ShipperConfig) (w : Shipper),
      Reach (step cfg) anyStep (Shipper.start cfg) w → w.phase = .exited → StoppedExit cfg w →
      ∀ event ∈ w.tail.out.filterMap (eventOf cfg.assembler),
        (∃ sh ∈ w.ledger.shipped, event ∈ sh.session.events) ∨
        ∃ d ∈ w.ledger.dropped, event ∈ d.2) := by
  refine ⟨?_, ?_⟩
  · intro all
    have some : (run (step (sampleConfig true 5 (by decide)))
        (Shipper.start (sampleConfig true 5 (by decide))) onceRun).map (fun w =>
          (w.phase, w.tail.committed, (dealtLines 7 w.tail).map (·.1),
            (w.tail.out.filterMap (eventOf (sampleConfig true 5 (by decide)).assembler)).length,
            w.puts.length + w.assembler.droppedNoConnect)) =
        some (.exited, some 90, [0], 1, 0) := by decide +kernel
    obtain ⟨w, taken, eq⟩ := Option.map_eq_some_iff.mp some
    simp only [Prod.mk.injEq] at eq
    obtain ⟨exited, committed, positions, one, lost⟩ := eq
    have before : ∀ x ∈ dealtLines 7 w.tail, (x.1 : Int) < 90 := by
      intro x member
      have start : x.1 ∈ (dealtLines 7 w.tail).map (·.1) := List.mem_map_of_mem member
      rw [positions, List.mem_singleton] at start
      omega
    rcases all _ w 90 (run_reaches Reach.start taken) exited committed before
      (fun none => by simp [none] at one) with put | dropped
    · have := List.length_pos_iff.mpr put
      omega
    · omega
  · intro all
    have some : (run (step (sampleConfig false 2 (by decide)))
        (Shipper.start (sampleConfig false 2 (by decide))) cappedRun).map (fun w =>
          (w.phase, w.ledger.dropped.length,
            (w.tail.out.filterMap (eventOf (sampleConfig false 2 (by decide)).assembler)).map
              (·.text.length),
            w.ledger.shipped.map fun sh => sh.session.events.map (·.text.length))) =
        some (.exited, 0, [89, 87, 88], [[89, 88]]) := by decide +kernel
    obtain ⟨w, taken, eq⟩ := Option.map_eq_some_iff.mp some
    simp only [Prod.mk.injEq] at eq
    obtain ⟨exited, dropped, read, held⟩ := eq
    have second : 87 ∈ (w.tail.out.filterMap
        (eventOf (sampleConfig false 2 (by decide)).assembler)).map (·.text.length) := by
      simp [read]
    obtain ⟨event, member, size⟩ := List.mem_map.mp second
    rcases all _ w (run_reaches Reach.start taken) exited ⟨rfl, fun m eq => by cases eq⟩ event member
      with ⟨sh, shipped, inside⟩ | ⟨d, gone, _⟩
    · have sizes : sh.session.events.map (·.text.length) ∈ [[89, 88]] := by
        rw [← held]
        exact List.mem_map_of_mem shipped
      have has : event.text.length ∈ sh.session.events.map (·.text.length) :=
        List.mem_map_of_mem inside
      rw [List.mem_singleton.mp sizes, size] at has
      simp at has
    · rw [List.length_eq_zero_iff.mp dropped] at gone
      cases gone

end ShipperExit
