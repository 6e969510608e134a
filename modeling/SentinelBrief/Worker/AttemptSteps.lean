import SentinelBrief.Worker.Attempts

/-!
What the steps of an alert do. Only the holder of the row lock writes and
commits, and what it knows of the row and of its draft is in its phase; so the
commits, seen from outside, are a verdict over a pending row, a failure and a
flip.
-/
namespace WorkerSteps
open LockedRow WorkerPipeline WorkerAttempts

def Ran (cfg : PipelineConfig) (prompt : List ChatMessage) (o : TriageOutcome) : Prop :=
  ∃ world s, runFrom cfg world prompt = (.ok o, s)

inductive Took (cfg : PipelineConfig) (prompt : List ChatMessage) (w : Alert) :
    Event → Alert → Prop where
  | started {id : Nat} {lastTry : Bool} (phase : (w.actors id).phase = .absent) :
      Took cfg prompt w (.start id lastTry) (w.set id { phase := .opened, lastTry := lastTry })
  | locked {id : Nat} (phase : (w.actors id).phase = .opened) (free : w.db.lock = none) :
      Took cfg prompt w (.lockRow id) ((w.acquire id).set id
        { w.actors id with phase := .locked w.db.row.status, found := some w.db.row.status })
  | skipped {id : Nat} {s : AlertStatus} (phase : (w.actors id).phase = .locked s)
      (other : s ≠ .pending) : Took cfg prompt w (.skip id) ((w.release id).move id .finished)
  | produced {id n : Nat} {world : World} {o : TriageOutcome}
      (phase : (w.actors id).phase = .locked .pending) (ran : Ran cfg prompt o) :
      Took cfg prompt w (.runPipeline id world) (w.set id
        { w.actors id with phase := .produced o, llmCalls := (w.actors id).llmCalls + n })
  | stopped {id : Nat} {world : World} {n : Nat} {budget : Bool}
      (phase : (w.actors id).phase = .locked .pending) :
      Took cfg prompt w (.runPipeline id world) ((w.release id).set id
        { w.actors id with phase := .raised budget, llmCalls := (w.actors id).llmCalls + n })
  | aborted {id calls n : Nat} (phase : (w.actors id).phase.attempts = true)
      (spent : (w.actors id).phase ≠ .locked .pending → n = 0) :
      Took cfg prompt w (.abort id calls) ((w.release id).set id
        { w.actors id with phase := .raised false, llmCalls := (w.actors id).llmCalls + n })
  | inserted {id : Nat} {o : TriageOutcome} (phase : (w.actors id).phase = .produced o) :
      Took cfg prompt w (.insertVerdict id) ((w.write (w.current.insertVerdict o)).set id
        { w.actors id with phase := .inserted o w.current.verdicts.length,
                           attemptWrites := (w.actors id).attemptWrites + 1 })
  | traced {id vid : Nat} {o : TriageOutcome} (phase : (w.actors id).phase = .inserted o vid) :
      Took cfg prompt w (.insertTrace id) ((w.write (w.current.insertTrace vid o)).set id
        { w.actors id with phase := .flushed o vid, attemptWrites := (w.actors id).attemptWrites + 1 })
  | committed {id vid : Nat} {o : TriageOutcome} (phase : (w.actors id).phase = .flushed o vid) :
      Took cfg prompt w (.commit id) (w.commitVerdict.move id .committed)
  | cancelled {id vid : Nat} {o : TriageOutcome} (phase : (w.actors id).phase = .flushed o vid) :
      Took cfg prompt w (.commitCancelled id)
        (w.commitVerdict.move id (.raised false))
  | published {id : Nat} (phase : (w.actors id).phase = .committed) :
      Took cfg prompt w (.publish id) (w.set id
        { w.actors id with phase := .finished, publishes := (w.actors id).publishes + 1 })
  | retried {id : Nat} {budget : Bool} (phase : (w.actors id).phase = .raised budget) :
      Took cfg prompt w (.decide id) (w.move id .finished)
  | exhausted {id : Nat} (phase : (w.actors id).phase = .raised false)
      (last : (w.actors id).lastTry = true) : Took cfg prompt w (.decide id) (w.move id .terminal)
  | looked {id : Nat} (phase : (w.actors id).phase = .terminal) :
      Took cfg prompt w (.readStatus id) (w.move id (.terminalRead w.db.row.status))
  | wrote {id : Nat} {s : AlertStatus} (phase : (w.actors id).phase = .terminalRead s)
      (changed : s ≠ .failed) (free : w.db.lock = none) :
      Took cfg prompt w (.writeFailed id)
        (((w.acquire id).write (w.db.row.setStatus .failed)).move id .terminalWritten)
  | unchanged {id : Nat} (phase : (w.actors id).phase = .terminalRead .failed) :
      Took cfg prompt w (.commitFailed id) (w.move id .finished)
  | failed {id : Nat} (phase : (w.actors id).phase = .terminalWritten) :
      Took cfg prompt w (.commitFailed id) (w.commitFailure.move id .finished)
  | requested {id : Nat} (phase : (w.actors id).phase = .absent) :
      Took cfg prompt w (.startRetriage id) (w.move id .retriage)
  | relocked {id : Nat} (phase : (w.actors id).phase = .retriage) (free : w.db.lock = none) :
      Took cfg prompt w (.lockRetriage id)
        ((w.acquire id).move id (.retriageLocked w.db.row.status))
  | refused {id : Nat} (phase : (w.actors id).phase = .retriageLocked .pending) :
      Took cfg prompt w (.refuse id) ((w.release id).move id .finished)
  | flipped {id : Nat} {s : AlertStatus} (phase : (w.actors id).phase = .retriageLocked s)
      (eligible : s ≠ .pending) :
      Took cfg prompt w (.flip id) ((w.write (w.db.row.setStatus .pending)).move id .flipped)
  | reopened {id : Nat} (phase : (w.actors id).phase = .flipped) :
      Took cfg prompt w (.commitFlip id) (w.commitFlip.move id .finished)
  | crashed {id : Nat} : Took cfg prompt w (.crash id) ((w.release id).move id .finished)

variable {cfg : PipelineConfig} {prompt : List ChatMessage} {w w' : Alert} {e : Event}

theorem took_pipeline {id : Nat} (world : World) (phase : (w.actors id).phase = .locked .pending) :
    Took cfg prompt w (.runPipeline id world) (w.pipeline cfg prompt id world) := by
  unfold Alert.pipeline
  split
  · rename_i ran
    exact .produced phase ⟨world, _, ran⟩
  · exact .stopped phase
  · exact .stopped phase

theorem took_step (taken : step cfg prompt w e = some w') : Took cfg prompt w e w' := by
  cases e with
  | start id lastTry =>
    simp only [step] at taken
    split at taken
    · rename_i phase
      cases taken
      exact .started phase
    · cases taken
  | lockRow id =>
    simp only [step] at taken
    split at taken
    · rename_i phase free
      cases taken
      exact .locked phase free
    · cases taken
  | skip id =>
    simp only [step] at taken
    split at taken
    · cases taken
    · rename_i s other phase
      cases taken
      exact .skipped phase other
    · cases taken
  | runPipeline id world =>
    simp only [step] at taken
    split at taken
    · rename_i phase
      cases taken
      exact took_pipeline world phase
    · cases taken
  | insertVerdict id =>
    simp only [step] at taken
    split at taken
    · rename_i phase
      cases taken
      exact .inserted phase
    · cases taken
  | insertTrace id =>
    simp only [step] at taken
    split at taken
    · rename_i phase
      cases taken
      exact .traced phase
    · cases taken
  | commit id =>
    simp only [step] at taken
    split at taken
    · rename_i phase
      cases taken
      exact .committed phase
    · cases taken
  | commitCancelled id =>
    simp only [step] at taken
    split at taken
    · rename_i phase
      cases taken
      exact .cancelled phase
    · cases taken
  | publish id =>
    simp only [step] at taken
    split at taken
    · rename_i phase
      cases taken
      exact .published phase
    · cases taken
  | abort id calls =>
    simp only [step] at taken
    split at taken
    · rename_i phase
      cases taken
      refine .aborted phase fun other => if_neg ?_
      intro spends
      apply other
      revert spends
      cases (w.actors id).phase with
      | locked s => cases s <;> simp [Phase.spends]
      | _ => simp [Phase.spends]
    · cases taken
  | decide id =>
    simp only [step] at taken
    split at taken
    · rename_i budget phase
      cases taken
      split
      · exact .retried phase
      · rename_i last
        have := not_or.mp last
        refine .exhausted ?_ ?_
        · rw [phase]
          simpa using this.1
        · simpa using this.2
    · cases taken
  | readStatus id =>
    simp only [step] at taken
    split at taken
    · rename_i phase
      cases taken
      exact .looked phase
    · cases taken
  | writeFailed id =>
    simp only [step] at taken
    split at taken
    · cases taken
    · rename_i s changed phase free
      cases taken
      exact .wrote phase changed free
    · cases taken
  | commitFailed id =>
    simp only [step] at taken
    split at taken
    · rename_i phase
      cases taken
      exact .unchanged phase
    · rename_i phase
      cases taken
      exact .failed phase
    · cases taken
  | startRetriage id =>
    simp only [step] at taken
    split at taken
    · rename_i phase
      cases taken
      exact .requested phase
    · cases taken
  | lockRetriage id =>
    simp only [step] at taken
    split at taken
    · rename_i phase free
      cases taken
      exact .relocked phase free
    · cases taken
  | refuse id =>
    simp only [step] at taken
    split at taken
    · rename_i phase
      cases taken
      exact .refused phase
    · cases taken
  | flip id =>
    simp only [step] at taken
    split at taken
    · cases taken
    · rename_i s eligible phase
      cases taken
      exact .flipped phase eligible
    · cases taken
  | commitFlip id =>
    simp only [step] at taken
    split at taken
    · rename_i phase
      cases taken
      exact .reopened phase
    · cases taken
  | crash id =>
    cases taken
    exact .crashed

def Holds : Phase → Prop
  | .locked _ | .produced _ | .inserted _ _ | .flushed _ _ | .terminalWritten | .retriageLocked _
  | .flipped => True
  | _ => False

def Seen (cfg : PipelineConfig) (prompt : List ChatMessage) (row : Tables) (draft : Option Tables) :
    Phase → Prop
  | .locked s => s = row.status ∧ draft = none
  | .produced o => row.status = .pending ∧ draft = none ∧ Ran cfg prompt o
  | .inserted o id => row.status = .pending ∧ id = row.verdicts.length ∧
      draft = some (row.insertVerdict o) ∧ Ran cfg prompt o
  | .flushed o id => row.status = .pending ∧ id = row.verdicts.length ∧
      draft = some ((row.insertVerdict o).insertTrace id o) ∧ Ran cfg prompt o
  | .terminalWritten => draft = some (row.setStatus .failed)
  | .retriageLocked s => s = row.status ∧ draft = none
  | .flipped => row.status ≠ .pending ∧ draft = some (row.setStatus .pending)
  | _ => True

def Locks (cfg : PipelineConfig) (prompt : List ChatMessage) (w : Alert) : Prop :=
  Exclusive (fun a : Actor => Holds a.phase) (fun row draft a => Seen cfg prompt row draft a.phase)
    w.db w.actors

theorem locks_start : Locks cfg prompt Alert.start :=
  exclusive_start _ (fun _ held => held)

theorem locks_owner {id : Nat} {p : Phase} (locks : Locks cfg prompt w)
    (phase : (w.actors id).phase = p) (held : Holds p) :
    w.db.lock = some id ∧ Seen cfg prompt w.db.row w.db.draft p := by
  subst phase
  have owned := locks.owner id held
  exact ⟨owned, (locks.seen id owned).2⟩

theorem took_locks (locks : Locks cfg prompt w) (took : Took cfg prompt w e w') :
    Locks cfg prompt w' := by
  cases took with
  | started phase => exact exclusive_idle locks (by simp [Holds, phase]) (by simp [Holds])
  | locked phase free => exact exclusive_acquire locks free (by simp [Holds]) (by simp [Seen])
  | skipped phase => exact exclusive_crash locks (by simp [Holds])
  | produced phase ran =>
    obtain ⟨owned, seen⟩ := locks_owner locks phase trivial
    exact exclusive_keep locks owned (by simp [Holds]) ⟨seen.1.symm, seen.2, ran⟩
  | stopped phase => exact exclusive_crash locks (by simp [Holds])
  | aborted phase => exact exclusive_crash locks (by simp [Holds])
  | inserted phase =>
    obtain ⟨owned, seen⟩ := locks_owner locks phase trivial
    obtain ⟨pending, clean, ran⟩ := seen
    refine exclusive_keep locks owned (by simp [Holds]) ?_
    simp [Seen, Alert.current, clean, pending, ran]
  | traced phase =>
    obtain ⟨owned, seen⟩ := locks_owner locks phase trivial
    obtain ⟨pending, vid, draft, ran⟩ := seen
    refine exclusive_keep locks owned (by simp [Holds]) ?_
    simp [Seen, Alert.current, draft, pending, vid, ran]
  | committed phase =>
    exact exclusive_release locks (locks_owner locks phase trivial).1 (by simp [Holds])
  | cancelled phase =>
    exact exclusive_release locks (locks_owner locks phase trivial).1 (by simp [Holds])
  | published phase => exact exclusive_idle locks (by simp [Holds, phase]) (by simp [Holds])
  | retried phase => exact exclusive_idle locks (by simp [Holds, phase]) (by simp [Holds])
  | exhausted phase => exact exclusive_idle locks (by simp [Holds, phase]) (by simp [Holds])
  | looked phase => exact exclusive_idle locks (by simp [Holds, phase]) (by simp [Holds])
  | wrote phase changed free =>
    exact exclusive_take (l := w.db) locks free (by simp [Holds]) (by simp [Seen])
  | unchanged phase => exact exclusive_idle locks (by simp [Holds, phase]) (by simp [Holds])
  | failed phase =>
    exact exclusive_release locks (locks_owner locks phase trivial).1 (by simp [Holds])
  | requested phase => exact exclusive_idle locks (by simp [Holds, phase]) (by simp [Holds])
  | relocked phase free => exact exclusive_acquire locks free (by simp [Holds]) (by simp [Seen])
  | refused phase => exact exclusive_crash locks (by simp [Holds])
  | flipped phase eligible =>
    obtain ⟨owned, seen⟩ := locks_owner locks phase trivial
    refine exclusive_keep locks owned (by simp [Holds]) ?_
    simp [Seen, ← seen.1, eligible]
  | reopened phase =>
    exact exclusive_release locks (locks_owner locks phase trivial).1 (by simp [Holds])
  | crashed => exact exclusive_crash locks (by simp [Holds])

/-- What commits do to the row, seen from outside the transactions. -/
inductive Committed (cfg : PipelineConfig) (prompt : List ChatMessage) (t : Tables) (flips : Nat) :
    Tables → Nat → Prop where
  | same : Committed cfg prompt t flips t flips
  | verdict {o : TriageOutcome} (pending : t.status = .pending) (ran : Ran cfg prompt o) :
      Committed cfg prompt t flips ((t.insertVerdict o).insertTrace t.verdicts.length o) flips
  | failure : Committed cfg prompt t flips (t.setStatus .failed) flips
  | flip (eligible : t.status ≠ .pending) :
      Committed cfg prompt t flips (t.setStatus .pending) (flips + 1)

theorem release_row (id : Nat) : (w.release id).db.row = w.db.row := by
  unfold Alert.release
  split <;> rfl

theorem committed_release (id : Nat) :
    Committed cfg prompt w.db.row w.flips (w.release id).db.row w.flips := by
  rw [release_row]
  exact .same

theorem took_committed (locks : Locks cfg prompt w) (took : Took cfg prompt w e w') :
    Committed cfg prompt w.db.row w.flips w'.db.row w'.flips := by
  have verdict {id vid : Nat} {o : TriageOutcome} (phase : (w.actors id).phase = .flushed o vid) :
      Committed cfg prompt w.db.row w.flips w.db.commit.row w.flips := by
    obtain ⟨pending, rfl, draft, ran⟩ := (locks_owner locks phase trivial).2
    simpa [Locked.commit, draft] using Committed.verdict pending ran
  cases took with
  | started | locked | produced | inserted | traced | published | retried | exhausted | looked
  | wrote | unchanged | requested | relocked | flipped => exact .same
  | skipped | stopped | aborted | refused | crashed => exact committed_release _
  | committed phase => exact verdict phase
  | cancelled phase => exact verdict phase
  | failed phase =>
    have draft := (locks_owner locks phase trivial).2
    simp only [Seen] at draft
    simpa [Alert.commitFailure, Alert.move, Alert.set, Locked.commit, draft] using
      Committed.failure
  | reopened phase =>
    obtain ⟨eligible, draft⟩ := (locks_owner locks phase trivial).2
    simpa [Alert.commitFlip, Alert.move, Alert.set, Locked.commit, draft] using
      Committed.flip eligible

end WorkerSteps
