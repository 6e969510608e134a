import SentinelBrief.Worker.Attempts

/-!
Alert rows and their triage jobs: `ingest_alert` and `retriage_alert` with their
enqueue, the runs of `triage_alert_job`, and time. There is one job id an
alert, so an alert has one job at a time; ARQ keeps the result of a job that has
ended and ignores an enqueue of its id until the result expires.
-/
namespace WorkerJobs
open WorkerAttempts StepRuns

/-- `keep_result`, which `WorkerSettings` leaves at its default. -/
def keepResult : Nat := 3600

structure JobConfig where
  maxTries : Nat
  tries_pos : 0 < maxTries

inductive RunPhase where
  | entered
  | attempting
  | skipping
  | failing
  /-- Everything is written; only the return is left. -/
  | returning
  deriving DecidableEq

inductive Job where
  | absent
  | queued (tries notBefore : Nat)
  | running (jobTry : Nat) (phase : RunPhase)
  | kept (expiry : Nat)
  deriving DecidableEq

structure Entry where
  row : Option AlertStatus := none
  job : Job := .absent
  /-- The request that last made the row pending. -/
  maker : Nat := 0
  /-- History: an enqueue came since then. -/
  served : Bool := false

inductive Request where
  | absent
  | enqueueing (alert answer : Nat)
  | returned (answer : Nat)
  deriving DecidableEq

structure Queue where
  now : Nat := 0
  entries : Nat → Entry := fun _ => {}
  requests : Nat → Request := fun _ => .absent

inductive JobEvent where
  | pickUp
  | readRow
  | succeed
  | succeedCancelled (defer : Nat)
  | raise (defer : Nat)
  | budget (defer : Nat)
  | skip
  | markFailed
  | finish

inductive Event where
  | ingest (request alert : Nat)
  | retriage (request alert : Nat) (capped : Bool)
  | enqueue (request : Nat)
  | job (alert : Nat) (e : JobEvent)
  | tick (seconds : Nat)

inductive RetryAction where
  | retry
  | fail

def decideRetry (jobTry maxTries : Nat) : RetryAction :=
  if maxTries ≤ jobTry then .fail else .retry

def handleAttemptFailure (cfg : JobConfig) (now jobTry defer : Nat) : Job :=
  match decideRetry jobTry cfg.maxTries with
  | .retry => .queued jobTry (now + defer)
  | .fail => .running jobTry .failing

/-- `enqueue_job` under the alert's one id. -/
def enqueueTriage (now : Nat) : Job → Job
  | .absent => .queued 0 now
  | .kept expiry => if expiry ≤ now then .queued 0 now else .kept expiry
  | job => job

def Job.holdsRow : Job → Bool
  | .running _ .attempting | .running _ .skipping => true
  | _ => false

def jobStep (cfg : JobConfig) (now : Nat) (x : Entry) : JobEvent → Option Entry
  | .pickUp => match x.job with
    | .queued tries notBefore =>
      if now < notBefore then none
      else if cfg.maxTries < tries + 1 then some { x with job := .kept (now + keepResult) }
      else some { x with job := .running (tries + 1) .entered }
    | _ => none
  | .readRow => match x.job with
    | .running t .entered => match x.row with
      | some .pending => some { x with job := .running t .attempting }
      | some _ => some { x with job := .running t .skipping }
      | none => some { x with job := .running t .returning }
    | _ => none
  | .succeed => match x.job with
    | .running t .attempting => some { x with row := some .triaged, job := .running t .returning }
    | _ => none
  | .succeedCancelled defer => match x.job with
    | .running t .attempting =>
      some { x with row := some .triaged, job := handleAttemptFailure cfg now t defer }
    | _ => none
  | .raise defer => match x.job with
    | .running t .entered | .running t .attempting | .running t .skipping =>
      some { x with job := handleAttemptFailure cfg now t defer }
    | _ => none
  | .budget defer => match x.job with
    | .running t .attempting => some { x with job := .queued t (now + defer) }
    | _ => none
  | .skip => match x.job with
    | .running t .skipping => some { x with job := .running t .returning }
    | _ => none
  | .markFailed => match x.job with
    | .running t .failing => some { x with row := some .failed, job := .running t .returning }
    | _ => none
  | .finish => match x.job with
    | .running _ .returning => some { x with job := .kept (now + keepResult) }
    | _ => none

def Queue.setEntry (q : Queue) (a : Nat) (x : Entry) : Queue :=
  { q with entries := Function.update q.entries a x }

def Queue.setRequest (q : Queue) (r : Nat) (request : Request) : Queue :=
  { q with requests := Function.update q.requests r request }

def Entry.makePending (x : Entry) (r : Nat) : Entry :=
  { x with row := some .pending, maker := r, served := false }

/-- `ingest_alert` up to its commit. -/
def Queue.ingestAlert (q : Queue) (r a : Nat) : Queue :=
  match (q.entries a).row with
  | none => (q.setEntry a ((q.entries a).makePending r)).setRequest r (.enqueueing a 202)
  | some .pending => q.setRequest r (.enqueueing a 200)
  | some _ => q.setRequest r (.returned 200)

/-- `retriage_alert` up to its commit. -/
def Queue.retriageAlert (q : Queue) (r a : Nat) (capped : Bool) : Queue :=
  if capped then q.setRequest r (.returned 429)
  else match (q.entries a).row with
    | none => q.setRequest r (.returned 404)
    | some .pending => q.setRequest r (.returned 409)
    | some _ =>
      if (q.entries a).job.holdsRow then q.setRequest r (.returned 409)
      else (q.setEntry a ((q.entries a).makePending r)).setRequest r (.enqueueing a 202)

def Queue.enqueue (q : Queue) (r a answer : Nat) : Queue :=
  let x := q.entries a
  (q.setEntry a { x with job := enqueueTriage q.now x.job, served := true }).setRequest r
    (.returned answer)

def step (cfg : JobConfig) (q : Queue) : Event → Option Queue
  | .ingest r a => match q.requests r with
    | .absent => some (q.ingestAlert r a)
    | _ => none
  | .retriage r a capped => match q.requests r with
    | .absent => some (q.retriageAlert r a capped)
    | _ => none
  | .enqueue r => match q.requests r with
    | .enqueueing a answer => some (q.enqueue r a answer)
    | _ => none
  | .job a e => (jobStep cfg q.now (q.entries a) e).map (q.setEntry a)
  | .tick seconds => some { q with now := q.now + seconds }

end WorkerJobs
