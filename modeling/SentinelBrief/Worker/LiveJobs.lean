import SentinelBrief.Worker.Jobs

/-!
Every pending alert has a live job. The invariant is about one alert at a time:
once an enqueue has come since the row became pending, its job is queued or runs
and has not passed its last write. `Orderly` names the two places where the
code loses this: an enqueue that ARQ ignores although the row is pending, and a
budget deferral on the last try.
-/
namespace WorkerLiveJobs
open WorkerAttempts (AlertStatus)
open WorkerJobs StepRuns

def Live : Job → Prop
  | .queued _ _ | .running _ _ => True
  | _ => False

def Ready : Job → Prop
  | .queued _ _ | .running _ .entered | .running _ .attempting | .running _ .failing => True
  | _ => False

/-- An enqueue is ignored and the job will not look at the row again. -/
def Spent (now : Nat) : Job → Prop
  | .kept expiry => now < expiry
  | .running _ .returning => True
  | _ => False

/-- No enqueue for a pending row meets a spent job, and no last try is deferred for its budget. -/
def Orderly (cfg : JobConfig) (q : Queue) : Event → Prop
  | .enqueue r => ∀ a answer, q.requests r = .enqueueing a answer →
      (q.entries a).row = some .pending → ¬ Spent q.now (q.entries a).job
  | .job a (.budget _) => ∀ t phase, (q.entries a).job = .running t phase → t < cfg.maxTries
  | _ => True

def Fits (cfg : JobConfig) (row : Option AlertStatus) : Job → Prop
  | .queued tries _ => tries < cfg.maxTries
  | .running _ .attempting => row = some .pending
  | .running _ .skipping => ∃ s, row = some s ∧ s ≠ .pending
  | _ => True

structure Sound (cfg : JobConfig) (x : Entry) : Prop where
  fits : Fits cfg x.row x.job
  ready : x.row = some .pending → x.served = true → Ready x.job

variable {cfg : JobConfig} {x y : Entry} {now t defer : Nat} {q q' : Queue} {e : JobEvent}

theorem failure_fits (row : Option AlertStatus) :
    Fits cfg row (handleAttemptFailure cfg now t defer) := by
  unfold handleAttemptFailure decideRetry
  split
  · rename_i retry
    split at retry
    · cases retry
    · rename_i below
      exact Nat.lt_of_not_le below
  · trivial

theorem failure_ready : Ready (handleAttemptFailure cfg now t defer) := by
  unfold handleAttemptFailure
  split <;> trivial

theorem sound_failure (row : Option AlertStatus) :
    Sound cfg { x with row := row, job := handleAttemptFailure cfg now t defer } :=
  ⟨failure_fits row, fun _ _ => failure_ready⟩

theorem jobStep_sound (sound : Sound cfg x)
    (met : ∀ d, e = .budget d → ∀ t phase, x.job = .running t phase → t < cfg.maxTries)
    (taken : jobStep cfg now x e = some y) : Sound cfg y := by
  have fits := sound.fits
  have ready := sound.ready
  cases e with
  | pickUp =>
    simp only [jobStep] at taken
    split at taken
    · rename_i tries notBefore job
      rw [job] at fits
      split at taken
      · cases taken
      · split at taken
        · rename_i beyond
          exact absurd beyond (Nat.not_lt.mpr fits)
        · cases taken
          exact ⟨trivial, fun _ _ => trivial⟩
    · cases taken
  | readRow =>
    simp only [jobStep] at taken
    split at taken
    · split at taken
      · rename_i row
        cases taken
        exact ⟨row, fun _ _ => trivial⟩
      · rename_i s other row
        cases taken
        have differs : s ≠ .pending := other
        exact ⟨⟨s, row, differs⟩, fun pending => absurd (row.symm.trans pending) (by simpa using differs)⟩
      · rename_i row
        cases taken
        exact ⟨trivial, fun pending => absurd (row.symm.trans pending) (by simp)⟩
    · cases taken
  | succeed =>
    simp only [jobStep] at taken
    split at taken
    · cases taken
      exact ⟨trivial, fun pending => by cases pending⟩
    · cases taken
  | succeedCancelled defer =>
    simp only [jobStep] at taken
    split at taken
    · cases taken
      exact sound_failure _
    · cases taken
  | raise defer =>
    simp only [jobStep] at taken
    split at taken
    iterate 3
      cases taken
      exact sound_failure _
    cases taken
  | budget defer =>
    simp only [jobStep] at taken
    split at taken
    · rename_i t job
      cases taken
      exact ⟨met defer rfl t _ job, fun _ _ => trivial⟩
    · cases taken
  | skip =>
    simp only [jobStep] at taken
    split at taken
    · rename_i job
      cases taken
      rw [job] at fits
      obtain ⟨s, row, differs⟩ := fits
      exact ⟨trivial, fun pending => absurd (row.symm.trans pending) (by simpa using differs)⟩
    · cases taken
  | markFailed =>
    simp only [jobStep] at taken
    split at taken
    · cases taken
      exact ⟨trivial, fun pending => by cases pending⟩
    · cases taken
  | finish =>
    simp only [jobStep] at taken
    split at taken
    · rename_i job
      cases taken
      -- a pending row that has been served does not have a job in its last phase
      refine ⟨trivial, fun pending served => ?_⟩
      have := ready pending served
      rw [job] at this
      exact this.elim
    · cases taken

theorem fits_none {job : Job} (fits : Fits cfg none job) : job.holdsRow = false := by
  unfold Job.holdsRow
  split
  · cases fits
  · obtain ⟨s, row, -⟩ := fits
    cases row
  · rfl

theorem fits_pending {row : Option AlertStatus} {job : Job} (fits : Fits cfg row job)
    (free : job.holdsRow = false) : Fits cfg (some .pending) job := by
  cases job with
  | running t phase => cases phase with
    | skipping => cases free
    | attempting => rfl
    | entered | failing | returning => trivial
  | queued tries notBefore => exact fits
  | absent | kept => trivial

theorem sound_makePending (r : Nat) (sound : Sound cfg x) (free : x.job.holdsRow = false) :
    Sound cfg (x.makePending r) :=
  ⟨fits_pending sound.fits free, fun _ served => by cases served⟩

theorem sound_enqueue (sound : Sound cfg x)
    (met : x.row = some .pending → ¬ Spent now x.job) :
    Sound cfg { x with job := enqueueTriage now x.job, served := true } := by
  have fits := sound.fits
  constructor
  · unfold enqueueTriage
    split
    · exact cfg.tries_pos
    · split
      · exact cfg.tries_pos
      · trivial
    · exact fits
  · intro pending _
    have unspent := met pending
    simp only [enqueueTriage]
    split
    · trivial
    · rename_i expiry job
      rw [job] at unspent
      rw [if_pos (Nat.le_of_not_lt unspent)]
      trivial
    · rename_i absent kept
      cases job : x.job with
      | absent => exact absent job
      | queued => trivial
      | kept expiry => exact kept expiry job
      | running t phase =>
        rw [job] at unspent fits
        cases phase with
        | skipping =>
          obtain ⟨s, row, other⟩ := fits
          rw [pending, Option.some.injEq] at row
          exact other row.symm
        | returning => exact unspent trivial
        | entered | attempting | failing => trivial

/-- The request that made the row pending has still to enqueue, or an enqueue has come. -/
def Owed (q : Queue) (a : Nat) : Prop :=
  (q.entries a).row = some .pending → (q.entries a).served = true ∨
    ∃ answer, q.requests (q.entries a).maker = .enqueueing a answer

structure Covered (cfg : JobConfig) (q : Queue) : Prop where
  sound : ∀ a, Sound cfg (q.entries a)
  owed : ∀ a, Owed q a

theorem covered_start : Covered cfg {} where
  sound _ := ⟨trivial, fun pending => by cases pending⟩
  owed _ pending := by cases pending

variable {r a answer : Nat} {request : Request}

theorem sound_setEntry (inv : Covered cfg q) (sound : Sound cfg y) (b : Nat) :
    Sound cfg ((q.setEntry a y).entries b) := by
  by_cases same : b = a
  · simpa [Queue.setEntry, same] using sound
  · simpa [Queue.setEntry, same] using inv.sound b

theorem covered_setRequest (inv : Covered cfg q) (absent : q.requests r = .absent) :
    Covered cfg (q.setRequest r request) := by
  refine ⟨inv.sound, fun a pending => (inv.owed a pending).imp_right ?_⟩
  rintro ⟨answer, waiting⟩
  have other : (q.entries a).maker ≠ r := by
    intro same
    rw [same, absent] at waiting
    cases waiting
  exact ⟨answer, by simpa [Queue.setRequest, other] using waiting⟩

theorem covered_makePending (inv : Covered cfg q) (absent : q.requests r = .absent)
    (free : (q.entries a).job.holdsRow = false) :
    Covered cfg ((q.setEntry a ((q.entries a).makePending r)).setRequest r
      (.enqueueing a answer)) := by
  constructor
  · exact sound_setEntry inv (sound_makePending r (inv.sound a) free)
  · intro b pending
    by_cases same : b = a
    · right
      exact ⟨answer, by simp [Queue.setRequest, Queue.setEntry, Entry.makePending, same]⟩
    · have kept : Owed (q.setRequest r (.enqueueing a answer)) b :=
        (covered_setRequest inv absent).owed b
      simp only [Owed, Queue.setRequest, Queue.setEntry, Function.update_of_ne same] at kept pending ⊢
      exact kept pending

theorem covered_enqueue (inv : Covered cfg q) (waiting : q.requests r = .enqueueing a answer)
    (met : (q.entries a).row = some .pending → ¬ Spent q.now (q.entries a).job) :
    Covered cfg (q.enqueue r a answer) := by
  constructor
  · exact sound_setEntry inv (sound_enqueue (inv.sound a) met)
  · intro b pending
    by_cases same : b = a
    · left
      simp [Queue.enqueue, Queue.setEntry, Queue.setRequest, same]
    · simp only [Queue.enqueue, Queue.setEntry, Queue.setRequest, Function.update_of_ne same]
        at pending ⊢
      refine (inv.owed b pending).imp_right ?_
      rintro ⟨other, promised⟩
      have differs : (q.entries b).maker ≠ r := by
        intro eq
        rw [eq, waiting, Request.enqueueing.injEq] at promised
        exact same promised.1.symm
      exact ⟨other, by rwa [Function.update_of_ne differs]⟩

theorem covered_ingest (inv : Covered cfg q) (absent : q.requests r = .absent) :
    Covered cfg (q.ingestAlert r a) := by
  unfold Queue.ingestAlert
  split
  · rename_i row
    apply covered_makePending inv absent
    have fits := (inv.sound a).fits
    rw [row] at fits
    exact fits_none fits
  · exact covered_setRequest inv absent
  · exact covered_setRequest inv absent

theorem covered_retriage (capped : Bool) (inv : Covered cfg q) (absent : q.requests r = .absent) :
    Covered cfg (q.retriageAlert r a capped) := by
  unfold Queue.retriageAlert
  split
  · exact covered_setRequest inv absent
  · split
    · exact covered_setRequest inv absent
    · exact covered_setRequest inv absent
    · split
      · exact covered_setRequest inv absent
      · rename_i free
        exact covered_makePending inv absent (Bool.eq_false_iff.mpr free)

theorem jobStep_owes (taken : jobStep cfg now x e = some y) :
    y.maker = x.maker ∧ y.served = x.served ∧
      (y.row = some .pending → x.row = some .pending) := by
  cases e <;> simp only [jobStep] at taken <;> grind

theorem covered_job (inv : Covered cfg q) (sound : Sound cfg y)
    (owes : y.maker = (q.entries a).maker ∧ y.served = (q.entries a).served ∧
      (y.row = some .pending → (q.entries a).row = some .pending)) :
    Covered cfg (q.setEntry a y) := by
  constructor
  · exact sound_setEntry inv sound
  · intro b pending
    by_cases same : b = a
    · obtain ⟨maker, served, row⟩ := owes
      subst same
      simp only [Queue.setEntry, Function.update_self] at pending ⊢
      rw [maker, served]
      exact inv.owed b (row pending)
    · simp only [Queue.setEntry, Function.update_of_ne same] at pending ⊢
      exact inv.owed b pending

theorem covered_step {event : Event} (inv : Covered cfg q) (met : Orderly cfg q event)
    (taken : step cfg q event = some q') : Covered cfg q' := by
  cases event with
  | ingest r a =>
    simp only [step] at taken
    split at taken
    · rename_i absent
      cases taken
      exact covered_ingest inv absent
    · cases taken
  | retriage r a capped =>
    simp only [step] at taken
    split at taken
    · rename_i absent
      cases taken
      exact covered_retriage capped inv absent
    · cases taken
  | enqueue r =>
    simp only [step] at taken
    split at taken
    · rename_i a answer waiting
      cases taken
      exact covered_enqueue inv waiting (met a answer waiting)
    · cases taken
  | job a e =>
    obtain ⟨y, moved, rfl⟩ := Option.map_eq_some_iff.mp taken
    refine covered_job inv (jobStep_sound (inv.sound a) ?_ moved) (jobStep_owes moved)
    rintro d rfl
    exact met
  | tick seconds =>
    cases taken
    exact ⟨inv.sound, inv.owed⟩

theorem ready_live {job : Job} (ready : Ready job) : Live job := by
  unfold Ready at ready
  split at ready
  iterate 4 trivial
  exact ready.elim

/-- An alert is pending, and the request that made it so has answered or another one has enqueued
since: its job is live. -/
theorem pending_has_job (reached : Reach (step cfg) (Orderly cfg) {} q)
    (pending : (q.entries a).row = some .pending)
    (asked : (∃ answer, q.requests (q.entries a).maker = .returned answer) ∨ (q.entries a).served = true) :
    Live (q.entries a).job := by
  have inv := reach_invariant (Covered cfg) covered_start
    (fun _ _ _ inv met taken => covered_step inv met taken) reached
  have served : (q.entries a).served = true := by
    rcases asked with ⟨answer, returned⟩ | served
    · refine (inv.owed a pending).resolve_right ?_
      rintro ⟨other, waiting⟩
      rw [returned] at waiting
      cases waiting
    · exact served
  exact ready_live ((inv.sound a).ready pending served)

def sampleJobs : JobConfig := ⟨3, by decide⟩

/-- An alert is ingested twice, and the second request answers first; then the first attempt
fails. -/
theorem pending_has_job_retry :
    (∃ q, Reach (step sampleJobs) (Orderly sampleJobs) {} q ∧ q.requests 1 = .returned 200 ∧
      q.requests (q.entries 7).maker = .enqueueing 7 202 ∧ Live (q.entries 7).job) ∧
    ∃ q, Reach (step sampleJobs) (Orderly sampleJobs) {} q ∧ (q.entries 7).row = some .pending ∧
      q.requests (q.entries 7).maker = .returned 202 ∧ Live (q.entries 7).job := by
  have first : Reach (step sampleJobs) (Orderly sampleJobs) {} {} := .start
  have ingested := first.next (e := Event.ingest 0 7) trivial rfl
  have repeated := ingested.next (e := Event.ingest 1 7) trivial rfl
  have early := repeated.next (e := Event.enqueue 1)
    (fun a answer waiting _ => by cases waiting; exact id) rfl
  have enqueued := early.next (e := Event.enqueue 0)
    (fun a answer waiting _ => by cases waiting; exact id) rfl
  have running := enqueued.next (e := Event.job 7 .pickUp) trivial rfl
  have attempting := running.next (e := Event.job 7 .readRow) trivial rfl
  have retried := attempting.next (e := Event.job 7 (.raise 2)) trivial rfl
  exact ⟨⟨_, early, rfl, rfl, pending_has_job early rfl (.inr rfl)⟩,
    _, retried, rfl, rfl, pending_has_job retried rfl (.inl ⟨202, rfl⟩)⟩

/-- A triaged alert is sent back within the hour its job's result is kept. -/
def keptRun : List Event :=
  [.ingest 0 7, .enqueue 0, .job 7 .pickUp, .job 7 .readRow, .job 7 .succeed, .job 7 .finish,
    .tick 60, .retriage 1 7 false, .enqueue 1]

def budgetRun : List Event :=
  [.ingest 0 7, .enqueue 0, .job 7 .pickUp, .job 7 .readRow, .job 7 (.budget 600), .tick 600,
    .job 7 .pickUp, .job 7 .readRow, .job 7 (.budget 86400), .tick 86400, .job 7 .pickUp,
    .job 7 .readRow, .job 7 (.budget 86400), .tick 86400, .job 7 .pickUp]

def Queue.account (q : Queue) (a : Nat) : Option AlertStatus × Request × Job :=
  ((q.entries a).row, q.requests (q.entries a).maker, (q.entries a).job)

theorem pending_stranded :
    (run (step sampleJobs) {} keptRun).map (Queue.account · 7) =
      some (some .pending, .returned 202, .kept 3600) ∧
    (run (step sampleJobs) {} budgetRun).map (Queue.account · 7) =
      some (some .pending, .returned 202, .kept 177000) ∧
    ∃ q, Reach (step sampleJobs) anyStep {} q ∧ (q.entries 7).row = some .pending ∧
      q.requests (q.entries 7).maker = .returned 202 ∧ ¬ Live (q.entries 7).job := by
  have kept : (run (step sampleJobs) {} keptRun).map (Queue.account · 7) =
      some (some .pending, .returned 202, .kept 3600) := by decide +kernel
  have budget : (run (step sampleJobs) {} budgetRun).map (Queue.account · 7) =
      some (some .pending, .returned 202, .kept 177000) := by decide +kernel
  obtain ⟨q, taken, eq⟩ := Option.map_eq_some_iff.mp kept
  simp only [Queue.account, Prod.mk.injEq] at eq
  obtain ⟨row, returned, job⟩ := eq
  refine ⟨kept, budget, q, run_reaches Reach.start taken, row, returned, ?_⟩
  rw [job]
  exact id

end WorkerLiveJobs
