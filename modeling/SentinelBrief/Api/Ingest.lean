import SentinelBrief.Api.SessionAlert
import SentinelBrief.Library.Runs
import SentinelBrief.Library.UniqueIndex
import SentinelBrief.Worker.Attempts

/-!
`ingest_alert` (`api/routes/alerts.py`) and `insert_alert`
(`core/services/alerts.py`) among other requests and the worker. Each statement
of a request is a step; an INSERT waits while an open transaction has inserted
the same fingerprint. A request may fail or its process may die anywhere, also
while its COMMIT takes effect. A row's creator, the requests' `committed` and the
recorded calls are history.
-/
namespace ApiIngest
open Utf8Text UniqueIndex StepRuns ApiSessionAlert WorkerAttempts

structure AlertRow where
  id : Nat
  values : AlertValues
  status : AlertStatus
  creator : Nat

def AlertRow.fingerprint (row : AlertRow) : PyStr := row.values.fingerprint

structure IngestResult where
  alertId : Nat
  created : Bool
  status : AlertStatus

/-- What the client gets: `IngestResponse`, or an error envelope. -/
inductive Answer where
  | ingest (code : Nat) (body : IngestResult)
  | error (code : Nat)

inductive Phase where
  | started
  | conflicted
  | inserted
  | read
  /-- The fallback's `.one()` raised. -/
  | noRow
  | committed
  | enqueued
  | answered (a : Answer)
  | dead

structure Request where
  values : AlertValues
  phase : Phase := .started
  result : Option IngestResult := none
  committed : Bool := false

structure EnqueueCall where
  request : Nat
  alertId : Nat
  /-- The committed rows when it was made. -/
  rows : List AlertRow

structure Ingest where
  table : Table AlertRow := {}
  nextId : Nat := 0
  requests : Nat → Option Request := fun _ => none
  enqueues : List EnqueueCall := []

inductive RequestEvent where
  | insert
  | select
  | commit
  | commitCrash
  | enqueue (available : Bool)
  | respond
  | fail
  | crash

inductive Event where
  | arrive (r : Nat) (values : AlertValues)
  | request (r : Nat) (e : RequestEvent)
  | triage (id : Nat) (ok : Bool)
  | flip (id : Nat)

def Ingest.set (w : Ingest) (r : Nat) (q : Request) : Ingest :=
  { w with requests := Function.update w.requests r (some q) }

def AlertRow.createdBy (r : Nat) (row : AlertRow) : Bool := row.creator = r

def Ingest.commit (w : Ingest) (r : Nat) : Ingest :=
  { w with table := w.table.commit (AlertRow.createdBy r) }

def Ingest.rollback (w : Ingest) (r : Nat) : Ingest :=
  { w with table := w.table.rollback (AlertRow.createdBy r) }

/-- The INSERT of request `r`; the row gets its defaults. -/
def Ingest.insertRow (w : Ingest) (r : Nat) (q : Request) : Option Ingest :=
  match w.table.insert AlertRow.fingerprint ⟨w.nextId, q.values, .pending, r⟩ with
  | .waits => none
  | .conflicts => some (w.set r { q with phase := .conflicted })
  | .inserted t => some (Ingest.set { w with table := t, nextId := w.nextId + 1 } r
      { q with phase := .inserted, result := some ⟨w.nextId, true, .pending⟩ })

def Ingest.selectRow (w : Ingest) (r : Nat) (q : Request) : Ingest :=
  match w.table.find AlertRow.fingerprint q.values.fingerprint with
  | [row] => w.set r { q with phase := .read, result := some ⟨row.id, false, row.status⟩ }
  | _ => w.set r { q with phase := .noRow }

/-- `result.created or result.status == "pending"`. -/
def IngestResult.enqueues (res : IngestResult) : Bool := res.created || res.status == .pending

def Ingest.call (w : Ingest) (r : Nat) (res : IngestResult) : Ingest :=
  { w with enqueues := w.enqueues ++ [⟨r, res.alertId, w.table.rows⟩] }

def IngestResult.answer (res : IngestResult) : Answer :=
  .ingest (if res.created then 202 else 200) res

def Phase.ended : Phase → Bool
  | .answered _ | .dead => true
  | _ => false

def requestStep (w : Ingest) (r : Nat) (q : Request) : RequestEvent → Option Ingest
  | .insert => match q.phase with
    | .started => w.insertRow r q
    | _ => none
  | .select => match q.phase with
    | .conflicted => some (w.selectRow r q)
    | _ => none
  | .commit => match q.phase with
    | .inserted | .read => some ((w.commit r).set r { q with phase := .committed, committed := true })
    | _ => none
  | .commitCrash => match q.phase with
    | .inserted | .read => some ((w.commit r).set r { q with phase := .dead, committed := true })
    | _ => none
  | .enqueue available => match q.phase, q.result with
    | .committed, some res =>
      if res.enqueues then
        some ((w.call r res).set r
          { q with phase := if available then .enqueued else .answered (.error 503) })
      else none
    | _, _ => none
  | .respond => match q.phase, q.result with
    | .committed, some res =>
      if res.enqueues then none else some (w.set r { q with phase := .answered res.answer })
    | .enqueued, some res => some (w.set r { q with phase := .answered res.answer })
    | _, _ => none
  | .fail =>
    if q.phase.ended then none
    else some ((w.rollback r).set r { q with phase := .answered (.error 500) })
  | .crash =>
    if q.phase.ended then none else some ((w.rollback r).set r { q with phase := .dead })

def AlertRow.triaged (id : Nat) (ok : Bool) (row : AlertRow) : AlertRow :=
  if row.id = id then { row with status := if ok then .triaged else .failed } else row

def AlertRow.flipped (id : Nat) (row : AlertRow) : AlertRow :=
  if row.id = id ∧ row.status ≠ .pending then { row with status := .pending } else row

def step (w : Ingest) : Event → Option Ingest
  | .arrive r values => match w.requests r with
    | none => some (w.set r { values := values })
    | some _ => none
  | .request r e => match w.requests r with
    | none => none
    | some q => requestStep w r q e
  | .triage id ok => some { w with table := w.table.update (AlertRow.triaged id ok) }
  | .flip id => some { w with table := w.table.update (AlertRow.flipped id) }

end ApiIngest
