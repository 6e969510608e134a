import SentinelBrief.Library.LockedRow
import SentinelBrief.Library.Runs
import SentinelBrief.Worker.Pipeline

/-!
The runs of one alert: `triage_attempt` and `persist_verdict`, the failure
handling of `triage_alert_job` with `mark_alert_failed`, and the status flip of
`retriage_alert`. Every actor is a process that may die at any step. A COMMIT
may take effect although its caller is cancelled. The counts of an actor and
the fields after `actors` are history.
-/
namespace WorkerAttempts
open LockedRow WorkerPipeline Utf8Text JsonText

inductive AlertStatus where
  | pending
  | triaged
  | failed
  deriving DecidableEq, Repr

structure VerdictRow where
  id : Nat
  verdict : Verdict
  modelPrimary : PyStr
  modelFinal : PyStr
  escalatedModel : Bool
  promptVersion : PyStr
  inputTokens : Nat
  outputTokens : Nat
  costUsd : Rat
  latencyMs : Nat

structure ToolCallRow where
  verdictId : Nat
  seq : Nat
  toolName : PyStr
  arguments : Json
  result : Json
  latencyMs : Nat

structure Tables where
  status : AlertStatus
  verdicts : List VerdictRow := []
  toolCalls : List ToolCallRow := []

def verdictRow (id : Nat) (o : TriageOutcome) : VerdictRow :=
  { id := id, verdict := o.verdict, modelPrimary := o.effectiveModelPrimary, modelFinal := o.model,
    escalatedModel := o.escalatedModel, promptVersion := o.promptVersion,
    inputTokens := o.inputTokens, outputTokens := o.outputTokens, costUsd := o.costUsd,
    latencyMs := o.latencyMs }

def toolCallRows (id : Nat) (o : TriageOutcome) : List ToolCallRow :=
  o.toolCalls.map fun r => ⟨id, r.seq, r.toolName, r.arguments, r.result, r.latencyMs⟩

/-- The first flush of `persist_verdict`; the new row's id is the next one. -/
def Tables.insertVerdict (t : Tables) (o : TriageOutcome) : Tables :=
  { t with verdicts := t.verdicts ++ [verdictRow t.verdicts.length o] }

def Tables.insertTrace (t : Tables) (id : Nat) (o : TriageOutcome) : Tables :=
  { t with toolCalls := t.toolCalls ++ toolCallRows id o, status := .triaged }

def Tables.setStatus (t : Tables) (status : AlertStatus) : Tables := { t with status := status }

inductive Phase where
  | absent
  /-- `triage_alert_job`, before it has the row. -/
  | opened
  | locked (status : AlertStatus)
  | produced (o : TriageOutcome)
  | inserted (o : TriageOutcome) (id : Nat)
  | flushed (o : TriageOutcome) (id : Nat)
  | committed
  /-- The attempt raised; whether it was `BudgetExceededError`. -/
  | raised (budget : Bool)
  /-- `mark_alert_failed`, before and after it has read the row, and with the write flushed. -/
  | terminal
  | terminalRead (status : AlertStatus)
  | terminalWritten
  | retriage
  | retriageLocked (status : AlertStatus)
  | flipped
  | finished

structure Actor where
  phase : Phase := .absent
  lastTry : Bool := false
  /-- What the attempt found under the lock. -/
  found : Option AlertStatus := none
  llmCalls : Nat := 0
  /-- Those of the attempt's transaction; `mark_alert_failed` opens its own. -/
  attemptWrites : Nat := 0
  publishes : Nat := 0

structure Alert where
  db : Locked Nat Tables
  actors : Nat → Actor
  flips : Nat := 0
  /-- The statuses that `failed` was written over. -/
  failedOver : List AlertStatus := []
  /-- A verdict was committed since the alert last became pending. -/
  decided : Bool := false

def Alert.start : Alert := { db := { row := { status := .pending } }, actors := fun _ => {} }

inductive Event where
  | start (id : Nat) (lastTry : Bool)
  | lockRow (id : Nat)
  | skip (id : Nat)
  | runPipeline (id : Nat) (world : World)
  | insertVerdict (id : Nat)
  | insertTrace (id : Nat)
  | commit (id : Nat)
  | commitCancelled (id : Nat)
  | publish (id : Nat)
  | abort (id : Nat) (calls : Nat)
  | decide (id : Nat)
  | readStatus (id : Nat)
  | writeFailed (id : Nat)
  | commitFailed (id : Nat)
  | startRetriage (id : Nat)
  | lockRetriage (id : Nat)
  | refuse (id : Nat)
  | flip (id : Nat)
  | commitFlip (id : Nat)
  | crash (id : Nat)

def Alert.set (w : Alert) (id : Nat) (a : Actor) : Alert :=
  { w with actors := Function.update w.actors id a }

def Alert.move (w : Alert) (id : Nat) (phase : Phase) : Alert :=
  w.set id { w.actors id with phase := phase }

/-- The session of actor `id` is closed: a transaction it holds is rolled back. -/
def Alert.release (w : Alert) (id : Nat) : Alert :=
  { w with db := if w.db.lock = some id then w.db.rollback else w.db }

def Alert.acquire (w : Alert) (id : Nat) : Alert := { w with db := w.db.acquire id }

def Alert.write (w : Alert) (t : Tables) : Alert := { w with db := w.db.write t }

def Alert.current (w : Alert) : Tables := w.db.draft.getD w.db.row

def Alert.commitVerdict (w : Alert) : Alert := { w with db := w.db.commit, decided := true }

def Alert.commitFailure (w : Alert) : Alert :=
  { w with db := w.db.commit, failedOver := w.failedOver ++ [w.db.row.status] }

def Alert.commitFlip (w : Alert) : Alert :=
  { w with db := w.db.commit, flips := w.flips + 1, decided := false }

def Phase.spends : Phase → Bool
  | .locked .pending => true
  | _ => false

def Phase.attempts : Phase → Bool
  | .opened | .locked _ | .produced _ | .inserted _ _ | .flushed _ _ => true
  | _ => false

def Alert.pipeline (cfg : PipelineConfig) (prompt : List ChatMessage) (w : Alert) (id : Nat)
    (world : World) : Alert :=
  let a := w.actors id
  match runFrom cfg world prompt with
  | (.ok o, s) =>
    w.set id { a with phase := .produced o, llmCalls := a.llmCalls + s.exchanges.length }
  | (.error (.budgetExceeded _ _), s) =>
    (w.release id).set id
      { a with phase := .raised true, llmCalls := a.llmCalls + s.exchanges.length }
  | (.error _, s) =>
    (w.release id).set id
      { a with phase := .raised false, llmCalls := a.llmCalls + s.exchanges.length }

def step (cfg : PipelineConfig) (prompt : List ChatMessage) (w : Alert) : Event → Option Alert
  | .start id lastTry => match (w.actors id).phase with
    | .absent => some (w.set id { phase := .opened, lastTry := lastTry })
    | _ => none
  | .lockRow id => match (w.actors id).phase, w.db.lock with
    | .opened, none =>
      some ((w.acquire id).set id
        { w.actors id with phase := .locked w.db.row.status, found := some w.db.row.status })
    | _, _ => none
  | .skip id => match (w.actors id).phase with
    | .locked .pending => none
    | .locked _ => some ((w.release id).move id .finished)
    | _ => none
  | .runPipeline id world => match (w.actors id).phase with
    | .locked .pending => some (w.pipeline cfg prompt id world)
    | _ => none
  | .insertVerdict id => match (w.actors id).phase with
    | .produced o =>
      let a := w.actors id
      some ((w.write (w.current.insertVerdict o)).set id
        { a with phase := .inserted o w.current.verdicts.length, attemptWrites := a.attemptWrites + 1 })
    | _ => none
  | .insertTrace id => match (w.actors id).phase with
    | .inserted o vid =>
      let a := w.actors id
      some ((w.write (w.current.insertTrace vid o)).set id
        { a with phase := .flushed o vid, attemptWrites := a.attemptWrites + 1 })
    | _ => none
  | .commit id => match (w.actors id).phase with
    | .flushed _ _ => some (w.commitVerdict.move id .committed)
    | _ => none
  | .commitCancelled id => match (w.actors id).phase with
    | .flushed _ _ => some (w.commitVerdict.move id (.raised false))
    | _ => none
  | .publish id => match (w.actors id).phase with
    | .committed =>
      let a := w.actors id
      some (w.set id { a with phase := .finished, publishes := a.publishes + 1 })
    | _ => none
  | .abort id calls =>
    let a := w.actors id
    if a.phase.attempts then
      some ((w.release id).set id
        { a with phase := .raised false,
                 llmCalls := a.llmCalls + if a.phase.spends then calls else 0 })
    else none
  | .decide id => match (w.actors id).phase with
    | .raised budget =>
      some (w.move id (if budget ∨ (w.actors id).lastTry = false then .finished else .terminal))
    | _ => none
  | .readStatus id => match (w.actors id).phase with
    | .terminal => some (w.move id (.terminalRead w.db.row.status))
    | _ => none
  | .writeFailed id => match (w.actors id).phase, w.db.lock with
    | .terminalRead .failed, _ => none
    | .terminalRead _, none =>
      some (((w.acquire id).write (w.db.row.setStatus .failed)).move id .terminalWritten)
    | _, _ => none
  | .commitFailed id => match (w.actors id).phase with
    | .terminalRead .failed => some (w.move id .finished)
    | .terminalWritten => some (w.commitFailure.move id .finished)
    | _ => none
  | .startRetriage id => match (w.actors id).phase with
    | .absent => some (w.move id .retriage)
    | _ => none
  | .lockRetriage id => match (w.actors id).phase, w.db.lock with
    | .retriage, none =>
      some ((w.acquire id).move id (.retriageLocked w.db.row.status))
    | _, _ => none
  | .refuse id => match (w.actors id).phase with
    | .retriageLocked .pending => some ((w.release id).move id .finished)
    | _ => none
  | .flip id => match (w.actors id).phase with
    | .retriageLocked .pending => none
    | .retriageLocked _ => some ((w.write (w.db.row.setStatus .pending)).move id .flipped)
    | _ => none
  | .commitFlip id => match (w.actors id).phase with
    | .flipped => some (w.commitFlip.move id .finished)
    | _ => none
  | .crash id => some ((w.release id).move id .finished)

end WorkerAttempts
