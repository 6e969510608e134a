import Mathlib.Data.Prod.Lex
import Mathlib.Data.Rat.Defs
import Mathlib.Order.WithBot
import SentinelBrief.Library.Json
import SentinelBrief.Library.Queries
import SentinelBrief.Worker.Attempts

/-!
`list_alerts` and `get_alert_detail` (`core/services/alerts_read.py`) over a fixed
database. A query is the composition of its clauses. Ids are compared as numbers,
times are microseconds. `Jsonb` is the text that the database gives for a number,
an array or an object.
-/
namespace CoreAlertsRead
open Utf8Text JsonText RelationalQueries WorkerAttempts

inductive VerdictCategory where
  | scanning
  | bruteForce
  | successfulIntrusion
  | malwareDelivery
  | persistenceAttempt
  | reconnaissance
  | other
  deriving DecidableEq

def categoryText : VerdictCategory → PyStr
  | .scanning => str "scanning"
  | .bruteForce => str "brute_force"
  | .successfulIntrusion => str "successful_intrusion"
  | .malwareDelivery => str "malware_delivery"
  | .persistenceAttempt => str "persistence_attempt"
  | .reconnaissance => str "reconnaissance"
  | .other => str "other"

theorem category_text_injective {c d : VerdictCategory} (same : categoryText c = categoryText d) :
    c = d := by
  revert same
  cases c <;> cases d <;> decide

structure Raw where
  srcIp : PyStr
  sensor : PyStr
  others : List (PyStr × Json)

structure AlertRow where
  id : Nat
  source : PyStr
  eventTime : Int
  receivedAt : Int
  raw : Raw
  status : AlertStatus

structure VerdictRow where
  id : Nat
  alertId : Nat
  severity : Nat
  category : VerdictCategory
  confidence : Rat
  reasoning : PyStr
  recommendedAction : PyStr
  escalate : Bool
  modelPrimary : PyStr
  modelFinal : PyStr
  escalatedModel : Bool
  promptVersion : PyStr
  inputTokens : Option Nat
  outputTokens : Option Nat
  costUsd : Option Rat
  latencyMs : Option Nat
  createdAt : Int
  /-- `ck_verdicts_severity`. -/
  severity_range : 1 ≤ severity ∧ severity ≤ 5

structure ToolCallRow where
  verdictId : Nat
  seq : Nat
  toolName : PyStr
  arguments : List (PyStr × Json)
  result : List (PyStr × Json)
  latencyMs : Option Nat

structure Database where
  alerts : List AlertRow
  verdicts : List VerdictRow
  toolCalls : List ToolCallRow
  alert_ids : (alerts.map AlertRow.id).Nodup
  verdict_ids : (verdicts.map VerdictRow.id).Nodup
  verdict_alerts : ∀ v ∈ verdicts, ∃ a ∈ alerts, a.id = v.alertId
  call_seqs : (toolCalls.map fun c => (c.verdictId, c.seq)).Nodup

def capital (c : Nat) : Bool := 0x41 ≤ c && c ≤ 0x5A

def compound : Json → Bool
  | .int _ | .float _ | .arr _ | .obj _ => true
  | _ => false

/-- The text of a number, an array or an object starts with a digit, a sign or a bracket. -/
structure Jsonb where
  text : Json → PyStr
  starts : ∀ j, compound j = true → ∃ c rest, text j = c :: rest ∧ capital c = false

/-- `value ->> 'key'` of the value found. -/
def astext (pg : Jsonb) : Json → Option PyStr
  | .null => none
  | .str s => some s
  | .bool b => some (if b then str "true" else str "false")
  | j => some (pg.text j)

def geoToolName : PyStr := str "get_ip_geo_asn"

def reasoningExcerptChars : Nat := 160

def reasoningExcerpt (reasoning : PyStr) : PyStr := reasoning.take reasoningExcerptChars

def countryCode : PyStr → Bool
  | [a, b] => capital a && capital b
  | _ => false

def normalizeCountry : Option Json → Option PyStr
  | some (.str s) => if countryCode s then some s else none
  | _ => none

/-- `created_at DESC, id DESC`. -/
def newestFirst (v : VerdictRow) : Lex (Intᵒᵈ × Natᵒᵈ) :=
  toLex (OrderDual.toDual v.createdAt, OrderDual.toDual v.id)

def latestVerdicts (db : Database) : List VerdictRow :=
  distinctOn VerdictRow.alertId (orderBy (fun v => toLex (v.alertId, newestFirst v)) db.verdicts)

/-- The first geo call of every verdict with the text under `country`. -/
def geoCountries (pg : Jsonb) (db : Database) : List (Nat × Option PyStr) :=
  (distinctOn ToolCallRow.verdictId (orderBy (fun c => toLex (c.verdictId, c.seq))
    (db.toolCalls.filter fun c => c.toolName = geoToolName))).map fun c =>
      (c.verdictId, ((Json.obj c.result).get? (str "country")).bind (astext pg))

structure ListFilters where
  severityGte : Option Nat := none
  category : Option VerdictCategory := none
  since : Option Int := none
  escalate : Option Bool := none

/-- A condition on a verdict column; NULL does not meet it. -/
def onVerdict (v : Option VerdictRow) (p : VerdictRow → Bool) : Bool := (v.map p).getD false

def ListFilters.admits (f : ListFilters) (a : AlertRow) (v : Option VerdictRow) : Bool :=
  (match f.severityGte with | none => true | some n => onVerdict v fun v => n ≤ v.severity) &&
  (match f.category with | none => true | some c => onVerdict v fun v => v.category = c) &&
  (match f.escalate with | none => true | some e => onVerdict v fun v => v.escalate = e) &&
  (match f.since with | none => true | some t => decide (t ≤ a.receivedAt))

def base (db : Database) : List (AlertRow × Option VerdictRow) :=
  outerJoin (fun a v => v.alertId = a.id) db.alerts (latestVerdicts db)

abbrev ListRow := (AlertRow × Option VerdictRow) × Option (Nat × Option PyStr)

def nullsLast : Option Nat → WithBot Nat
  | some n => WithBot.some n
  | none => ⊥

/-- `severity DESC NULLS LAST, received_at DESC, id DESC`. -/
def listOrder (severity : Option Nat) (receivedAt : Int) (id : Nat) :
    Lex ((WithBot Nat)ᵒᵈ × Lex (Intᵒᵈ × Natᵒᵈ)) :=
  toLex (OrderDual.toDual (nullsLast severity),
    toLex (OrderDual.toDual receivedAt, OrderDual.toDual id))

def ListRow.order (row : ListRow) : Lex ((WithBot Nat)ᵒᵈ × Lex (Intᵒᵈ × Natᵒᵈ)) :=
  listOrder (row.1.2.map VerdictRow.severity) row.1.1.receivedAt row.1.1.id

/-- The join with the countries; a row without a verdict has no partner. -/
def withCountry (pg : Jsonb) (db : Database) : List ListRow :=
  outerJoin (fun row g => match row.2 with | some v => g.1 = v.id | none => false) (base db)
    (geoCountries pg db)

structure VerdictSummary where
  severity : Nat
  category : VerdictCategory
  confidence : Rat
  escalate : Bool
  reasoningExcerpt : PyStr
  createdAt : Int

structure AlertSummary where
  id : Nat
  source : PyStr
  srcIp : PyStr
  sensor : PyStr
  eventTime : Int
  receivedAt : Int
  status : AlertStatus
  country : Option PyStr
  verdict : Option VerdictSummary

def VerdictRow.summary (v : VerdictRow) : VerdictSummary :=
  ⟨v.severity, v.category, v.confidence, v.escalate, CoreAlertsRead.reasoningExcerpt v.reasoning,
    v.createdAt⟩

def ListRow.summary (row : ListRow) : AlertSummary :=
  let a := row.1.1
  { id := a.id, source := a.source, srcIp := a.raw.srcIp, sensor := a.raw.sensor,
    eventTime := a.eventTime, receivedAt := a.receivedAt, status := a.status,
    country := normalizeCountry ((row.2.bind Prod.snd).map Json.str),
    verdict := row.1.2.map VerdictRow.summary }

def listAlerts (pg : Jsonb) (db : Database) (filters : ListFilters) (page pageSize : Nat) :
    List AlertSummary × Nat :=
  let total := ((base db).filter fun row => filters.admits row.1 row.2).length
  let rows := orderBy ListRow.order
    ((withCountry pg db).filter fun row => filters.admits row.1.1 row.1.2)
  ((pageOf pageSize (page - 1) rows).map ListRow.summary, total)

/-- Every `verdicts` column except `alert_id`. -/
structure VerdictOut where
  id : Nat
  severity : Nat
  category : VerdictCategory
  confidence : Rat
  reasoning : PyStr
  recommendedAction : PyStr
  escalate : Bool
  modelPrimary : PyStr
  modelFinal : PyStr
  escalatedModel : Bool
  promptVersion : PyStr
  inputTokens : Option Nat
  outputTokens : Option Nat
  costUsd : Option Rat
  latencyMs : Option Nat
  createdAt : Int

def VerdictRow.out (v : VerdictRow) : VerdictOut :=
  ⟨v.id, v.severity, v.category, v.confidence, v.reasoning, v.recommendedAction, v.escalate,
    v.modelPrimary, v.modelFinal, v.escalatedModel, v.promptVersion, v.inputTokens, v.outputTokens,
    v.costUsd, v.latencyMs, v.createdAt⟩

structure ToolCallOut where
  seq : Nat
  toolName : PyStr
  arguments : List (PyStr × Json)
  result : List (PyStr × Json)
  latencyMs : Option Nat

def ToolCallRow.out (c : ToolCallRow) : ToolCallOut :=
  ⟨c.seq, c.toolName, c.arguments, c.result, c.latencyMs⟩

structure AlertDetail where
  id : Nat
  source : PyStr
  srcIp : PyStr
  sensor : PyStr
  eventTime : Int
  receivedAt : Int
  status : AlertStatus
  country : Option PyStr
  raw : Raw
  verdict : Option VerdictOut
  toolCalls : List ToolCallOut

/-- `ORDER BY created_at DESC, id DESC LIMIT 1` of the alert's verdicts. -/
def latestVerdict (db : Database) (alertId : Nat) : Option VerdictRow :=
  (orderBy newestFirst (db.verdicts.filter fun v => v.alertId = alertId)).head?

def toolCallsOf (db : Database) (verdictId : Nat) : List ToolCallRow :=
  orderBy ToolCallRow.seq (db.toolCalls.filter fun c => c.verdictId = verdictId)

def traceOf (db : Database) : Option VerdictRow → List ToolCallOut
  | some v => (toolCallsOf db v.id).map ToolCallRow.out
  | none => []

/-- `NotFoundError` when there is no such alert. -/
def getAlertDetail (db : Database) (alertId : Nat) : Option AlertDetail := do
  let a ← db.alerts.find? fun a => a.id = alertId
  let latest := latestVerdict db alertId
  let calls := traceOf db latest
  let geo := calls.find? fun c => c.toolName = geoToolName
  return { id := a.id, source := a.source, srcIp := a.raw.srcIp, sensor := a.raw.sensor,
           eventTime := a.eventTime, receivedAt := a.receivedAt, status := a.status,
           country := normalizeCountry
             (geo.bind fun c => (Json.obj c.result).get? (str "country")),
           raw := a.raw, verdict := latest.map VerdictRow.out, toolCalls := calls }

def VerdictOut.summary (v : VerdictOut) : VerdictSummary :=
  ⟨v.severity, v.category, v.confidence, v.escalate, CoreAlertsRead.reasoningExcerpt v.reasoning,
    v.createdAt⟩

end CoreAlertsRead
