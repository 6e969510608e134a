import SentinelBrief.Worker.Accounting
import SentinelBrief.Worker.AttemptSteps

/-!
The terminal write against a success. `mark_alert_failed` runs after the failed
attempt has given up the row lock, reads the status without a lock and writes
over whatever has been committed by then. `Orderly` names the steps that keep
every verdict clear of a run on its way to that write.
-/
namespace WorkerTerminal
open LockedRow WorkerAccounting WorkerAttempts WorkerSteps StepRuns
open WorkerPipeline hiding run

def Doomed (lastTry : Bool) : Phase → Prop
  | .raised false => lastTry = true
  | .terminal => True
  | .terminalRead s => s ≠ .failed
  | _ => False

/-- No verdict is committed while a run is on its way to write `failed`, no last try is given up
after its own commit or over a triaged row, and no run writes `failed` twice over one read. -/
def Orderly (w : Alert) : Event → Prop
  | .commit _ => ∀ i, ¬ Doomed (w.actors i).lastTry (w.actors i).phase
  | .commitCancelled id => (w.actors id).lastTry = false ∧
      ∀ i, ¬ Doomed (w.actors i).lastTry (w.actors i).phase
  | .abort id _ => (w.actors id).lastTry = true → w.db.row.status ≠ .triaged
  | .commitFailed id => (w.actors id).phase = .terminalWritten →
      ∀ i s, (w.actors i).phase = .terminalRead s → s = .failed
  | _ => True

def Knows (status : AlertStatus) (lastTry : Bool) : Phase → Prop
  | .raised false => lastTry = true → status ≠ .triaged
  | .terminal => status ≠ .triaged
  | .terminalRead s => s = .failed ∨ s = .pending ∧ status = .pending
  | .terminalWritten => status = .pending
  | _ => True

structure Guarded (cfg : PipelineConfig) (prompt : List ChatMessage) (w : Alert) : Prop where
  locks : Locks cfg prompt w
  knows : ∀ i, Knows w.db.row.status (w.actors i).lastTry (w.actors i).phase
  decided : w.decided = true → w.db.row.status = .triaged
  replaced : ∀ s ∈ w.failedOver, s = .pending

variable {cfg : PipelineConfig} {prompt : List ChatMessage} {w w' : Alert} {e : Event}
  {id : Nat} {a : Actor} {p : Phase} {status : AlertStatus} {actors : Nat → Actor}

theorem guarded_start : Guarded cfg prompt Alert.start where
  locks := locks_start
  knows _ := trivial
  decided := by simp [Alert.start]
  replaced := by simp [Alert.start]

theorem knows_update
    (others : ∀ i, i ≠ id → Knows status (actors i).lastTry (actors i).phase)
    (new : Knows status a.lastTry a.phase) (i : Nat) :
    Knows status (Function.update actors id a i).lastTry (Function.update actors id a i).phase := by
  by_cases same : i = id
  · rw [same, Function.update_self]
    exact new
  · rw [Function.update_of_ne same]
    exact others i same

theorem knows_of_phase (inv : Guarded cfg prompt w) (phase : (w.actors id).phase = p) :
    Knows w.db.row.status (w.actors id).lastTry p := by
  rw [← phase]
  exact inv.knows id

theorem not_written (locks : Locks cfg prompt w) (phase : (w.actors id).phase = p)
    (held : Holds p) (i : Nat) (other : i ≠ id) : (w.actors i).phase ≠ .terminalWritten := by
  intro written
  have owned := (locks_owner locks phase held).1
  rw [(locks_owner locks written trivial).1, Option.some.injEq] at owned
  exact other owned

theorem knows_release (inv : Guarded cfg prompt w) (new : Knows w.db.row.status a.lastTry a.phase)
    (i : Nat) : Knows (w.release id).db.row.status (((w.release id).set id a).actors i).lastTry
      (((w.release id).set id a).actors i).phase := by
  rw [release_row]
  exact knows_update (fun i _ => inv.knows i) new i

theorem knows_free {lastTry : Bool} (free : ¬ Doomed lastTry p) (unwritten : p ≠ .terminalWritten) :
    Knows status lastTry p := by
  cases p with
  | raised budget => cases budget with
    | true => trivial
    | false => exact fun last => absurd last free
  | terminal => exact absurd trivial free
  | terminalRead s => exact .inl (not_not.mp free)
  | terminalWritten => exact absurd rfl unwritten
  | _ => trivial

theorem knows_failed {lastTry : Bool} (unwritten : p ≠ .terminalWritten)
    (read : ∀ s, p = .terminalRead s → s = .failed) : Knows .failed lastTry p := by
  cases p with
  | raised budget => cases budget with
    | true => trivial
    | false => exact fun _ => by decide
  | terminal => exact fun eq => by cases eq
  | terminalRead s => exact .inl (read s rfl)
  | terminalWritten => exact absurd rfl unwritten
  | _ => trivial

theorem knows_pending {lastTry : Bool} (knows : Knows status lastTry p) :
    Knows .pending lastTry p := by
  cases p with
  | raised budget => cases budget with
    | true => trivial
    | false => exact fun _ => by decide
  | terminal => exact fun eq => by cases eq
  | terminalRead s => exact knows.imp_right fun read => ⟨read.1, rfl⟩
  | terminalWritten => rfl
  | _ => trivial

theorem verdict_status {vid : Nat} {o : TriageOutcome} (locks : Locks cfg prompt w)
    (phase : (w.actors id).phase = .flushed o vid) : w.db.commit.row.status = .triaged := by
  obtain ⟨-, -, draft, -⟩ := (locks_owner locks phase trivial).2
  rw [Locked.commit, draft]
  rfl

theorem failure_status (locks : Locks cfg prompt w)
    (phase : (w.actors id).phase = .terminalWritten) : w.db.commit.row.status = .failed := by
  have draft : w.db.draft = _ := (locks_owner locks phase trivial).2
  rw [Locked.commit, draft]
  rfl

theorem flip_status (locks : Locks cfg prompt w) (phase : (w.actors id).phase = .flipped) :
    w.db.commit.row.status = .pending := by
  have draft : w.db.draft = _ := (locks_owner locks phase trivial).2.2
  rw [Locked.commit, draft]
  rfl

theorem took_knows (inv : Guarded cfg prompt w) (met : Orderly w e)
    (took : Took cfg prompt w e w') :
    ∀ i, Knows w'.db.row.status (w'.actors i).lastTry (w'.actors i).phase := by
  have same := fun (id i : Nat) (_ : i ≠ id) => inv.knows i
  cases took with
  | started | locked | produced | inserted | traced | published | retried | unchanged | requested
  | relocked | flipped => exact knows_update (same _) trivial
  | skipped | refused | crashed => exact knows_release inv trivial
  | stopped phase =>
    rename_i budget
    apply knows_release inv
    cases budget with
    | true => trivial
    | false =>
      intro last triaged
      have found := (locks_owner inv.locks phase trivial).2.1
      rw [triaged] at found
      cases found
  | aborted => exact knows_release inv met
  | committed phase =>
    refine knows_update (fun i other => ?_) trivial
    exact knows_free (met i) (not_written inv.locks phase trivial i other)
  | cancelled phase =>
    obtain ⟨early, clear⟩ := met
    refine knows_update (fun i other => ?_) (fun last => ?_)
    · exact knows_free (clear i) (not_written inv.locks phase trivial i other)
    · cases early.symm.trans last
  | exhausted phase last => exact knows_update (same _) (knows_of_phase inv phase last)
  | looked phase =>
    have known := knows_of_phase inv phase
    apply knows_update (same _)
    cases read : w.db.row.status with
    | pending => exact .inr ⟨rfl, rfl⟩
    | triaged => exact absurd read known
    | failed => exact .inl rfl
  | wrote phase changed =>
    rcases knows_of_phase inv phase with failed | ⟨-, pending⟩
    · exact absurd failed changed
    · exact knows_update (same _) pending
  | failed phase =>
    have status := failure_status inv.locks phase
    refine knows_update (fun i other => ?_) trivial
    have unwritten := not_written inv.locks phase trivial i other
    have failed : Knows .failed (w.actors i).lastTry (w.actors i).phase :=
      knows_failed unwritten (met phase i)
    rwa [← status] at failed
  | reopened phase =>
    have status := flip_status inv.locks phase
    refine knows_update (fun i other => ?_) trivial
    have pending := knows_pending (inv.knows i)
    rwa [← status] at pending

theorem took_decided (inv : Guarded cfg prompt w) (took : Took cfg prompt w e w') :
    w'.decided = true → w'.db.row.status = .triaged := by
  intro decided
  cases took with
  | started | locked | produced | inserted | traced | published | retried | exhausted | looked
  | wrote | unchanged | requested | relocked | flipped => exact inv.decided decided
  | skipped | stopped | aborted | refused | crashed =>
    simp only [Alert.move, Alert.set, release_row]
    exact inv.decided decided
  | committed phase => exact verdict_status inv.locks phase
  | cancelled phase => exact verdict_status inv.locks phase
  | failed phase =>
    have pending := knows_of_phase inv phase
    cases (inv.decided decided).symm.trans pending
  | reopened => cases decided

theorem took_over (inv : Guarded cfg prompt w) (took : Took cfg prompt w e w') :
    ∀ s ∈ w'.failedOver, s = .pending := by
  cases took with
  | failed phase =>
    intro s mem
    rcases List.mem_append.mp mem with before | now
    · exact inv.replaced s before
    · rw [List.mem_singleton.mp now]
      exact knows_of_phase inv phase
  | _ => exact inv.replaced

theorem guarded_step (inv : Guarded cfg prompt w) (met : Orderly w e)
    (taken : step cfg prompt w e = some w') : Guarded cfg prompt w' := by
  have took := took_step taken
  constructor
  · exact took_locks inv.locks took
  · exact took_knows inv met took
  · exact took_decided inv took
  · exact took_over inv took

/-- In an orderly run `failed` is written over `pending` only, and never stands over a verdict. -/
theorem failure_spares_success (reached : Reach (step cfg prompt) Orderly Alert.start w) :
    (∀ s ∈ w.failedOver, s = .pending) ∧ (w.decided = true → w.db.row.status ≠ .failed) := by
  have inv := reach_invariant (Guarded cfg prompt) guarded_start
    (fun _ _ _ inv met taken => guarded_step inv met taken) reached
  constructor
  · exact inv.replaced
  · intro decided
    rw [inv.decided decided]
    decide

theorem few_clear {w : Alert} (zero : ¬ Doomed (w.actors 0).lastTry (w.actors 0).phase)
    (one : ¬ Doomed (w.actors 1).lastTry (w.actors 1).phase)
    (two : ¬ Doomed (w.actors 2).lastTry (w.actors 2).phase)
    (others : ∀ i, (w.actors (i + 3)).phase = .absent) (i : Nat) :
    ¬ Doomed (w.actors i).lastTry (w.actors i).phase := by
  match i with
  | 0 => exact zero
  | 1 => exact one
  | 2 => exact two
  | i + 3 =>
    rw [others i]
    exact id

/-- A last try fails and marks the alert; after a retriage the run beside it commits a verdict. -/
theorem failure_spares_success_last_try :
    ∃ w, Reach (step sampleConfig []) Orderly Alert.start w ∧ w.db.row.status = .triaged ∧
      w.failedOver = [.pending] ∧ w.decided = true ∧
      (w.decided = true → w.db.row.status ≠ .failed) := by
  have first : Reach (step sampleConfig []) Orderly Alert.start Alert.start := .start
  have opened := first.next (e := Event.start 0 true) trivial rfl
  have waiting := opened.next (e := Event.start 1 false) trivial rfl
  have locked := waiting.next (e := Event.lockRow 0) trivial rfl
  have raised := locked.next (e := Event.abort 0 1) (fun _ => by decide) rfl
  have terminal := raised.next (e := Event.decide 0) trivial rfl
  have read := terminal.next (e := Event.readStatus 0) trivial rfl
  have written := read.next (e := Event.writeFailed 0) trivial rfl
  have failed := written.next (e := Event.commitFailed 0) (fun _ i s phase => by
    match i with
    | 0 => cases phase
    | 1 => cases phase
    | i + 2 => cases phase) rfl
  have asked := failed.next (e := Event.startRetriage 2) trivial rfl
  have relocked := asked.next (e := Event.lockRetriage 2) trivial rfl
  have flipped := relocked.next (e := Event.flip 2) trivial rfl
  have pending := flipped.next (e := Event.commitFlip 2) trivial rfl
  have again := pending.next (e := Event.lockRow 1) trivial rfl
  have produced := again.next (e := Event.runPipeline 1 sampleWorld) trivial rfl
  have inserted := produced.next (e := Event.insertVerdict 1) trivial rfl
  have flushed := inserted.next (e := Event.insertTrace 1) trivial rfl
  have triaged := flushed.next (e := Event.commit 1)
    (few_clear id id id fun _ => rfl) rfl
  exact ⟨_, triaged, rfl, rfl, rfl, (failure_spares_success triaged).2⟩

/-- The COMMIT of a last try takes effect while its await is cancelled. -/
def cancelledRun : List Event :=
  [.start 0 true, .lockRow 0, .runPipeline 0 sampleWorld, .insertVerdict 0, .insertTrace 0,
    .commitCancelled 0, .decide 0, .readStatus 0, .writeFailed 0, .commitFailed 0]

/-- A last try runs into its timeout behind the lock of the run that commits the verdict. -/
def behindRun : List Event :=
  [.start 0 false, .start 1 true, .lockRow 0, .runPipeline 0 sampleWorld, .insertVerdict 0,
    .insertTrace 0, .commit 0, .abort 1 0, .decide 1, .readStatus 1, .writeFailed 1,
    .commitFailed 1]

def Alert.account (w : Alert) : Nat × Bool × List AlertStatus × AlertStatus :=
  (w.flips, w.decided, w.failedOver, w.db.row.status)

theorem reaches_account {es : List Event} {n : Nat} {decided : Bool} {replaced : List AlertStatus}
    (taken : (run (step cfg prompt) Alert.start es).map Alert.account =
      some (n, decided, replaced, status)) :
    ∃ w, Reach (step cfg prompt) anyStep Alert.start w ∧ w.flips = n ∧ w.decided = decided ∧
      w.failedOver = replaced ∧ w.db.row.status = status := by
  obtain ⟨w, taken, eq⟩ := Option.map_eq_some_iff.mp taken
  simp only [Alert.account, Prod.mk.injEq] at eq
  exact ⟨w, run_reaches Reach.start taken, eq⟩

theorem failure_overwrites_success :
    (∃ w, Reach (step sampleConfig []) anyStep Alert.start w ∧ w.flips = 0 ∧ w.decided = true ∧
      w.failedOver = [.triaged] ∧ w.db.row.status = .failed) ∧
    (run (step sampleConfig []) Alert.start cancelledRun).map Alert.account =
      some (0, true, [.triaged], .failed) ∧
    (run (step sampleConfig []) Alert.start behindRun).map Alert.account =
      some (0, true, [.triaged], .failed) := by
  have cancelled : (run (step sampleConfig []) Alert.start cancelledRun).map Alert.account =
      some (0, true, [.triaged], .failed) := by decide +kernel
  have behind : (run (step sampleConfig []) Alert.start behindRun).map Alert.account =
      some (0, true, [.triaged], .failed) := by decide +kernel
  exact ⟨reaches_account cancelled, cancelled, behind⟩

end WorkerTerminal
