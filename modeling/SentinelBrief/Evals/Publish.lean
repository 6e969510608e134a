import SentinelBrief.Library.DecimalText
import SentinelBrief.Library.Dictionary
import SentinelBrief.Library.IsoDate
import SentinelBrief.Library.JsonDumps
import SentinelBrief.Library.PyText

/-!
`evals/publish.py` with the results table of `evals/scoring.py`: the metrics of a
run as JSON and back, the line that a run publishes itself and the line that is
rebuilt from the artifact it wrote (`evals/run.py`). A path is the text that
`str` gives for it; the payloads of the cases are any JSON.
-/
namespace EvalsPublish
open Utf8Text JsonText DoubleText DecimalText IsoDateText OrderedDictionary PyIntText PyText

/-- An `int` that `str` can write. -/
abbrev Count := { i : Int // (digitsText i.natAbs).length ≤ intMaxStrDigits }

/-- A `str` in which no character is split into the halves of a surrogate pair. -/
abbrev Label := { s : PyStr // Apart s }

structure PR where
  precision : Double
  «recall» : Double
  support : Count

structure RunMetrics where
  nCases : Count
  nFailed : Count
  severityExact : Double
  severityWithinOne : Double
  categoryAccuracy : Double
  escalatePrecision : Double
  escalateRecall : Double
  criticalRecall : Double
  escalationRate : Double
  costMeanUsd : Decimal
  costP95Usd : Decimal
  costTotalUsd : Decimal
  latencyP50Ms : Count
  latencyP95Ms : Count
  perSeverity : Dict Count PR
  confusion : List (List Count)
  categoryConfusion : Dict Label (Dict Label Count)
  sevMacroF1 : Double
  judgeMean : Option Double
  judgePctLe2 : Option Double
  injectionPassRate : Option Double
  judgeCostTotalUsd : Decimal

structure ResultRow where
  promptVersion : PyStr
  model : PyStr
  metrics : RunMetrics

def PR.value (pr : PR) : Json :=
  .obj [(str "precision", .float pr.precision), (str "recall", .float pr.«recall»),
    (str "support", .int pr.support.1)]

def optionFloat (f : Option Double) : Json := f.elim .null .float

def rowValue (row : Dict Label Count) : Json := .obj (row.1.map fun e => (e.1.1, .int e.2.1))

def metricsPayload (m : RunMetrics) : Json :=
  .obj [(str "n_cases", .int m.nCases.1), (str "n_failed", .int m.nFailed.1),
    (str "severity_exact", .float m.severityExact),
    (str "severity_within_one", .float m.severityWithinOne),
    (str "category_accuracy", .float m.categoryAccuracy),
    (str "escalate_precision", .float m.escalatePrecision),
    (str "escalate_recall", .float m.escalateRecall),
    (str "critical_recall", .float m.criticalRecall),
    (str "escalation_rate", .float m.escalationRate),
    (str "cost_mean_usd", .str m.costMeanUsd.text), (str "cost_p95_usd", .str m.costP95Usd.text),
    (str "cost_total_usd", .str m.costTotalUsd.text),
    (str "latency_p50_ms", .int m.latencyP50Ms.1), (str "latency_p95_ms", .int m.latencyP95Ms.1),
    (str "per_severity", .obj (m.perSeverity.1.map fun e => (intText e.1.1, e.2.value))),
    (str "confusion", .arr (m.confusion.map fun row => .arr (row.map fun n => .int n.1))),
    (str "category_confusion",
      .obj (m.categoryConfusion.1.map fun e => (e.1.1, rowValue e.2))),
    (str "sev_macro_f1", .float m.sevMacroF1), (str "judge_mean", optionFloat m.judgeMean),
    (str "judge_pct_le2", optionFloat m.judgePctLe2),
    (str "injection_pass_rate", optionFloat m.injectionPassRate),
    (str "judge_cost_total_usd", .str m.judgeCostTotalUsd.text)]

def fieldNames : List PyStr :=
  [str "n_cases", str "n_failed", str "severity_exact", str "severity_within_one",
    str "category_accuracy", str "escalate_precision", str "escalate_recall",
    str "critical_recall", str "escalation_rate", str "cost_mean_usd", str "cost_p95_usd",
    str "cost_total_usd", str "latency_p50_ms", str "latency_p95_ms", str "per_severity",
    str "confusion", str "category_confusion", str "sev_macro_f1", str "judge_mean",
    str "judge_pct_le2", str "injection_pass_rate", str "judge_cost_total_usd"]

def prNames : List PyStr := [str "precision", str "recall", str "support"]

def keywords (names : List PyStr) : Json → Bool
  | .obj fs => fs.all fun f => f.1 ∈ names
  | _ => false

def readFloat : Json → Option Double
  | .float f => some f
  | _ => none

def readOptionFloat : Json → Option (Option Double)
  | .null => some none
  | .float f => some (some f)
  | _ => none

def toCount (i : Int) : Option Count :=
  if h : (digitsText i.natAbs).length ≤ intMaxStrDigits then some ⟨i, h⟩ else none

def readCount : Json → Option Count
  | .int i => toCount i
  | _ => none

def readCost : Json → Option Decimal
  | .str s => readDecimal s
  | _ => none

def readList {α : Type} (item : Json → Option α) : Json → Option (List α)
  | .arr xs => xs.mapM item
  | _ => none

instance (s : PyStr) : Decidable (Apart s) :=
  decidable_of_iff ((∀ c ∈ s, c < 0x110000) ∧ s.IsChain fun c d =>
    0xD800 ≤ c ∧ c ≤ 0xDBFF → ¬ (0xDC00 ≤ d ∧ d ≤ 0xDFFF))
    ⟨fun h => ⟨h.1, h.2⟩, fun h => ⟨h.bound, h.chain⟩⟩

def toLabel (s : PyStr) : Option Label := if h : Apart s then some ⟨s, h⟩ else none

def readEntry {κ ν : Type} (key : PyStr → Option κ) (value : Json → Option ν)
    (f : PyStr × Json) : Option (κ × ν) := do
  let k ← key f.1
  let v ← value f.2
  some (k, v)

/-- `{key(k): value(v) for k, v in data.items()}`. -/
def readDict {κ ν : Type} [DecidableEq κ] (key : PyStr → Option κ) (value : Json → Option ν) :
    Json → Option (Dict κ ν)
  | .obj fs => (fs.mapM (readEntry key value)).map ofPairs
  | _ => none

def readBand (s : PyStr) : Option Count := pyInt s >>= toCount

def readPR (j : Json) : Option PR :=
  if keywords prNames j then do
    let precision ← j.get? (str "precision") >>= readFloat
    let «recall» ← j.get? (str "recall") >>= readFloat
    let support ← j.get? (str "support") >>= readCount
    some ⟨precision, «recall», support⟩
  else none

def orDefault {α : Type} (default : α) (read : Json → Option α) : Option Json → Option α
  | none => some default
  | some j => read j

/-- `metrics_from_payload`. `none` is an exception, or an object with a field of another type
than `RunMetrics` declares. -/
def metricsFromPayload (j : Json) : Option RunMetrics :=
  if keywords fieldNames j then do
    let nCases ← j.get? (str "n_cases") >>= readCount
    let nFailed ← j.get? (str "n_failed") >>= readCount
    let severityExact ← j.get? (str "severity_exact") >>= readFloat
    let severityWithinOne ← j.get? (str "severity_within_one") >>= readFloat
    let categoryAccuracy ← j.get? (str "category_accuracy") >>= readFloat
    let escalatePrecision ← j.get? (str "escalate_precision") >>= readFloat
    let escalateRecall ← j.get? (str "escalate_recall") >>= readFloat
    let criticalRecall ← j.get? (str "critical_recall") >>= readFloat
    let escalationRate ← j.get? (str "escalation_rate") >>= readFloat
    let costMeanUsd ← j.get? (str "cost_mean_usd") >>= readCost
    let costP95Usd ← j.get? (str "cost_p95_usd") >>= readCost
    let costTotalUsd ← j.get? (str "cost_total_usd") >>= readCost
    let latencyP50Ms ← j.get? (str "latency_p50_ms") >>= readCount
    let latencyP95Ms ← j.get? (str "latency_p95_ms") >>= readCount
    let perSeverity ← j.get? (str "per_severity") >>= readDict readBand readPR
    let confusion ← j.get? (str "confusion") >>= readList (readList readCount)
    let categoryConfusion ←
      j.get? (str "category_confusion") >>= readDict toLabel (readDict toLabel readCount)
    let sevMacroF1 ← j.get? (str "sev_macro_f1") >>= readFloat
    let judgeMean ← orDefault none readOptionFloat (j.get? (str "judge_mean"))
    let judgePctLe2 ← orDefault none readOptionFloat (j.get? (str "judge_pct_le2"))
    let injectionPassRate ← orDefault none readOptionFloat (j.get? (str "injection_pass_rate"))
    let judgeCostTotalUsd ← j.get? (str "judge_cost_total_usd") >>= readCost
    some ⟨nCases, nFailed, severityExact, severityWithinOne, categoryAccuracy, escalatePrecision,
      escalateRecall, criticalRecall, escalationRate, costMeanUsd, costP95Usd, costTotalUsd,
      latencyP50Ms, latencyP95Ms, perSeverity, confusion, categoryConfusion, sevMacroF1, judgeMean,
      judgePctLe2, injectionPassRate, judgeCostTotalUsd⟩
  else none

def columns : List PyStr :=
  [str "prompt", str "model", str "n", str "failed", str "sev_exact", str "sev_±1",
    str "category", str "esc_prec", str "esc_rec", str "critical_rec", str "escalation_rate",
    str "cost_mean", str "cost_p95", str "cost_total", str "lat_p50", str "lat_p95",
    str "sev4_rec", str "sev5_rec", str "sev_macro_f1", str "judge_mean", str "judge_pct_le2",
    str "injection_pass_rate", str "judge_cost_total_usd"]

def tableLine (cells : List PyStr) : PyStr := str "| " ++ join (str " | ") cells ++ str " |"

def rateOrDash (value : Option Double) : PyStr := value.elim (str "-") (floatFixed 2)

/-- `m.per_severity[band].recall`; `none` is `KeyError`. -/
def bandRecall (m : RunMetrics) (band : Int) : Option Double :=
  (m.perSeverity.1.find? fun e => e.1.1 = band).map fun e => e.2.«recall»

def bodyCells (row : ResultRow) : Option (List PyStr) := do
  let m := row.metrics
  let sev4 ← bandRecall m 4
  let sev5 ← bandRecall m 5
  some [row.promptVersion, row.model, intText m.nCases.1, intText m.nFailed.1,
    floatFixed 2 m.severityExact, floatFixed 2 m.severityWithinOne, floatFixed 2 m.categoryAccuracy,
    floatFixed 2 m.escalatePrecision, floatFixed 2 m.escalateRecall, floatFixed 2 m.criticalRecall,
    floatFixed 2 m.escalationRate, m.costMeanUsd.fixed 6, m.costP95Usd.fixed 6,
    m.costTotalUsd.fixed 6, intText m.latencyP50Ms.1, intText m.latencyP95Ms.1, floatFixed 2 sev4,
    floatFixed 2 sev5, floatFixed 2 m.sevMacroF1, rateOrDash m.judgeMean, rateOrDash m.judgePctLe2,
    rateOrDash m.injectionPassRate, m.judgeCostTotalUsd.fixed 6]

def formatTable (rows : List ResultRow) : Option PyStr := do
  let separator := str "|" ++ join (str "|") (columns.map fun _ => str "---") ++ str "|"
  let bodies ← rows.mapM bodyCells
  some (join (str "\n") (tableLine columns :: separator :: bodies.map tableLine) ++ str "\n")

def renderRow (row : ResultRow) (date : Date) (gitSha models : PyStr) : Option PyStr := do
  let table ← formatTable [row]
  let bodyLine ← (splitlines table)[2]?
  let cells := ((stripBy (· = 0x7C) (PyText.strip bodyLine)).splitOn 0x7C).map PyText.strip
  some (tableLine ([date.isoformat, gitSha, row.promptVersion, models] ++ cells.drop 2))

def modelsCell (model strongModel : PyStr) : PyStr :=
  if strongModel ≠ [] then model ++ 0x2192 :: strongModel else model

def pathName (text : PyStr) : PyStr :=
  ((text.splitOn 0x2F).filter fun part => part ≠ [] ∧ part ≠ str ".").getLast?.getD []

def isV2Golden (path : PyStr) : Bool := (str "v2").isPrefixOf (pathName path)

structure Run where
  promptVersion : Label
  model : Label
  strongModel : Option Label
  gitSha : Label
  startedAt : DateTime
  golden : Label
  metrics : RunMetrics
  cases : List Json

def Run.strong (r : Run) : PyStr := r.strongModel.elim [] (·.1)

def Run.payload (r : Run) : Json :=
  .obj [(str "prompt_version", .str r.promptVersion.1), (str "model", .str r.model.1),
    (str "git_sha", .str r.gitSha.1), (str "started_at", .str (isoformat r.startedAt)),
    (str "metrics", metricsPayload r.metrics), (str "cases", .arr r.cases),
    (str "golden", .str r.golden.1), (str "strong_model", .str r.strong)]

def Run.artifact (r : Run) : PyStr := r.payload.dumps indentLayout 0

def Run.publishLine (r : Run) : Option PyStr :=
  renderRow ⟨r.promptVersion.1, r.model.1, r.metrics⟩ r.startedAt.date r.gitSha.1
    (modelsCell r.model.1 r.strong)

structure PublishedRun where
  row : ResultRow
  date : Date
  gitSha : PyStr
  models : PyStr

inductive ArtifactError where
  | configError
  | other
  deriving DecidableEq

def readStr : Json → Option PyStr
  | .str s => some s
  | _ => none

def readDateTime (j : Json) : Option DateTime := readStr j >>= fromisoformat

/-- The fields of an artifact that are read once its golden set is one of v2. -/
def publishedRun (payload : Json) : Option PublishedRun := do
  let metrics ← payload.get? (str "metrics") >>= metricsFromPayload
  let promptVersion ← payload.get? (str "prompt_version") >>= readStr
  let model ← payload.get? (str "model") >>= readStr
  let strongModel ← orDefault [] readStr (payload.get? (str "strong_model"))
  let startedAt ← payload.get? (str "started_at") >>= readDateTime
  let gitSha ← payload.get? (str "git_sha") >>= readStr
  some ⟨⟨promptVersion, model, metrics⟩, startedAt.date, gitSha, modelsCell model strongModel⟩

def rowFromArtifact (limit : Nat) (text : PyStr) : Except ArtifactError PublishedRun :=
  match loads limit text with
  | .error _ => .error .other
  | .ok payload => match payload.get? (str "golden") >>= readStr with
    | none => .error .other
    | some golden =>
      if isV2Golden golden then (publishedRun payload).elim (.error .other) .ok
      else .error .configError

def artifactLine (limit : Nat) (text : PyStr) : Except ArtifactError (Option PyStr) :=
  (rowFromArtifact limit text).map fun p => renderRow p.row p.date p.gitSha p.models

theorem digits_visible {ds : PyStr} (digits : ∀ c ∈ ds, isDigit c = true) :
    ∀ c ∈ ds, unicodeSpace c = false := by
  have inked : ∀ c < 0x3A, 0x30 ≤ c → unicodeSpace c = false := by decide
  intro c member
  have digit := digits c member
  simp only [isDigit, Bool.and_eq_true, decide_eq_true_eq] at digit
  exact inked c (by omega) digit.1

theorem pyInt_intText {i : Int} (short : (digitsText i.natAbs).length ≤ intMaxStrDigits) :
    pyInt (intText i) = some i := by
  have digits := digitsText_digits i.natAbs
  have grouped : groups false (digitsText i.natAbs) = _ :=
    groups_ascii digits (.inr (by simp [digitsText, Nat.toDigits_ne_nil]))
  have value : ((digitsText i.natAbs).map fun c => c - 0x30).foldl (fun n d => n * 10 + d) 0 =
      i.natAbs := by
    rw [List.foldl_map]
    exact digitsText_value _
  have fits : ¬ intMaxStrDigits < ((digitsText i.natAbs).map fun c => c - 0x30).length := by
    rw [List.length_map]
    omega
  by_cases negative : i < 0
  · rw [intText_negative negative, pyInt_minus (digits_visible digits), grouped]
    simp only [if_neg fits, value, Option.some.injEq]
    omega
  · have unsigned : ∀ c ∈ digitsText i.natAbs, c ≠ 0x2D ∧ c ≠ 0x2B := by
      intro c member
      have digit := digits c member
      simp only [isDigit, Bool.and_eq_true, decide_eq_true_eq] at digit
      omega
    rw [intText_nonneg (Int.not_lt.mp negative), pyInt_plain (digits_visible digits) unsigned, grouped]
    simp only [if_neg fits, value, Option.some.injEq]
    omega

theorem toCount_val (n : Count) : toCount n.1 = some n := dif_pos n.2

theorem readCount_int (n : Count) : readCount (.int n.1) = some n := toCount_val n

theorem readCost_text (v : Decimal) : readCost (.str v.text) = some v := readDecimal_text v

theorem readOptionFloat_option (f : Option Double) : readOptionFloat (optionFloat f) = some f := by
  cases f <;> rfl

theorem toLabel_val (s : Label) : toLabel s.1 = some s := dif_pos s.2

theorem readPR_value (pr : PR) : readPR pr.value = some pr := by
  have names : keywords prNames pr.value = true := rfl
  have precision : pr.value.get? (str "precision") = some (.float pr.precision) := rfl
  have found : pr.value.get? (str "recall") = some (.float pr.«recall») := rfl
  have support : pr.value.get? (str "support") = some (.int pr.support.1) := rfl
  simp [readPR, names, precision, found, support, readFloat, readCount_int]

theorem readDict_entries {κ ν : Type} [DecidableEq κ] {key : PyStr → Option κ}
    {value : Json → Option ν} {f : κ × ν → PyStr × Json}
    (entry : ∀ e, readEntry key value (f e) = some e) (d : Dict κ ν) :
    readDict key value (.obj (d.1.map f)) = some d := by
  have entries : (d.1.map f).mapM (readEntry key value) = some d.1 := by
    rw [mapM_eq_some_iff, List.map_map]
    exact List.map_congr_left fun e _ => entry e
  rw [readDict, entries, Option.map_some, ofPairs_distinct]

theorem readList_items {α : Type} {item : Json → Option α} {f : α → Json}
    (read : ∀ x, item (f x) = some x) (xs : List α) :
    readList item (.arr (xs.map f)) = some xs := by
  rw [readList, mapM_eq_some_iff, List.map_map]
  exact List.map_congr_left fun x _ => read x

theorem readRow_value (row : Dict Label Count) : readDict toLabel readCount (rowValue row) = some row :=
  readDict_entries (fun e => by simp [readEntry, toLabel_val, readCount_int]) row

theorem readBands (d : Dict Count PR) :
    readDict readBand readPR
      (.obj (d.1.map fun e => (intText e.1.1, e.2.value))) = some d := by
  refine readDict_entries (fun e => ?_) d
  simp [readEntry, readBand, pyInt_intText e.1.2, toCount_val, readPR_value]

theorem readMatrix (d : Dict Label (Dict Label Count)) :
    readDict toLabel (readDict toLabel readCount)
      (.obj (d.1.map fun e => (e.1.1, rowValue e.2))) = some d :=
  readDict_entries (fun e => by simp [readEntry, toLabel_val, readRow_value]) d

theorem metricsFromPayload_payload (m : RunMetrics) :
    metricsFromPayload (metricsPayload m) = some m := by
  have names : keywords fieldNames (metricsPayload m) = true := rfl
  have nCases : ((metricsPayload m).get? (str "n_cases") >>= readCount) = some m.nCases :=
    readCount_int _
  have nFailed : ((metricsPayload m).get? (str "n_failed") >>= readCount) = some m.nFailed :=
    readCount_int _
  have severityExact : ((metricsPayload m).get? (str "severity_exact") >>=
      readFloat) = some m.severityExact :=
    rfl
  have severityWithinOne : ((metricsPayload m).get? (str "severity_within_one") >>=
      readFloat) = some m.severityWithinOne :=
    rfl
  have categoryAccuracy : ((metricsPayload m).get? (str "category_accuracy") >>=
      readFloat) = some m.categoryAccuracy :=
    rfl
  have escalatePrecision : ((metricsPayload m).get? (str "escalate_precision") >>=
      readFloat) = some m.escalatePrecision :=
    rfl
  have escalateRecall : ((metricsPayload m).get? (str "escalate_recall") >>=
      readFloat) = some m.escalateRecall :=
    rfl
  have criticalRecall : ((metricsPayload m).get? (str "critical_recall") >>=
      readFloat) = some m.criticalRecall :=
    rfl
  have escalationRate : ((metricsPayload m).get? (str "escalation_rate") >>=
      readFloat) = some m.escalationRate :=
    rfl
  have costMeanUsd : ((metricsPayload m).get? (str "cost_mean_usd") >>=
      readCost) = some m.costMeanUsd :=
    readCost_text _
  have costP95Usd : ((metricsPayload m).get? (str "cost_p95_usd") >>=
      readCost) = some m.costP95Usd :=
    readCost_text _
  have costTotalUsd : ((metricsPayload m).get? (str "cost_total_usd") >>=
      readCost) = some m.costTotalUsd :=
    readCost_text _
  have latencyP50Ms : ((metricsPayload m).get? (str "latency_p50_ms") >>=
      readCount) = some m.latencyP50Ms :=
    readCount_int _
  have latencyP95Ms : ((metricsPayload m).get? (str "latency_p95_ms") >>=
      readCount) = some m.latencyP95Ms :=
    readCount_int _
  have perSeverity : ((metricsPayload m).get? (str "per_severity") >>=
      readDict readBand readPR) = some m.perSeverity :=
    readBands _
  have confusion : ((metricsPayload m).get? (str "confusion") >>=
      readList (readList readCount)) = some m.confusion :=
    readList_items (readList_items readCount_int) _
  have categoryConfusion : ((metricsPayload m).get? (str "category_confusion") >>=
      readDict toLabel (readDict toLabel readCount)) = some m.categoryConfusion :=
    readMatrix _
  have sevMacroF1 : ((metricsPayload m).get? (str "sev_macro_f1") >>=
      readFloat) = some m.sevMacroF1 :=
    rfl
  have judgeMean : orDefault none readOptionFloat ((metricsPayload m).get? (str "judge_mean")) =
      some m.judgeMean := readOptionFloat_option _
  have judgePctLe2 : orDefault none readOptionFloat ((metricsPayload m).get? (str "judge_pct_le2")) =
      some m.judgePctLe2 := readOptionFloat_option _
  have injectionPassRate : orDefault none readOptionFloat ((metricsPayload m).get? (str "injection_pass_rate")) =
      some m.injectionPassRate := readOptionFloat_option _
  have judgeCostTotalUsd : ((metricsPayload m).get? (str "judge_cost_total_usd") >>= readCost) =
      some m.judgeCostTotalUsd := readCost_text _
  rw [metricsFromPayload, if_pos names]
  simp only [nCases, nFailed, severityExact, severityWithinOne, categoryAccuracy, escalatePrecision,
    escalateRecall, criticalRecall, escalationRate, costMeanUsd, costP95Usd, costTotalUsd,
    latencyP50Ms, latencyP95Ms, perSeverity, confusion, categoryConfusion, sevMacroF1, judgeMean,
    judgePctLe2, injectionPassRate, judgeCostTotalUsd, Option.bind_eq_bind, Option.bind_some]

theorem visible_apart {s : PyStr} (visible : Visible s) : Apart s := by
  refine apart_of_encodes ?_
  intro c member
  have range := visible c member
  exact .inl (by omega)

theorem text_apart (v : Decimal) : Apart v.text := visible_apart (visible_text v)

theorem intText_apart (i : Int) : Apart (intText i) := by
  have digits := visible_digits (digitsText_digits i.natAbs)
  refine visible_apart ?_
  by_cases negative : i < 0
  · rw [intText_negative negative]
    exact visible_append (s := [0x2D]) (by decide) digits
  · rw [intText_nonneg (Int.not_lt.mp negative)]
    exact digits

def RunMetrics.floats (m : RunMetrics) : List Double :=
  [m.severityExact, m.severityWithinOne, m.categoryAccuracy, m.escalatePrecision, m.escalateRecall,
    m.criticalRecall, m.escalationRate, m.sevMacroF1] ++
  (m.perSeverity.1.flatMap fun e => [e.2.precision, e.2.«recall»]) ++
  (m.judgeMean.toList ++ m.judgePctLe2.toList ++ m.injectionPassRate.toList)

section
variable {w : Layout}

theorem readable_optionFloat {f : Option Double} (reads : ∀ x ∈ f, w.FloatReads x) :
    (optionFloat f).Readable w := by
  cases f with
  | none => trivial
  | some x => simpa [optionFloat, Json.Readable] using reads x rfl

theorem readable_entries {α : Type} {xs : List α} {f : α → PyStr × Json}
    (distinct : (xs.map fun x => (f x).1).Nodup) (keys : ∀ x ∈ xs, Apart (f x).1)
    (values : ∀ x ∈ xs, (f x).2.Readable w) : (Json.obj (xs.map f)).Readable w := by
  rw [Json.Readable, membersReadable_iff, List.map_map]
  refine ⟨distinct, ?_⟩
  intro e member
  obtain ⟨x, inside, rfl⟩ := List.mem_map.mp member
  exact ⟨keys x inside, values x inside⟩

theorem readable_list {α : Type} {xs : List α} {f : α → Json} (items : ∀ x ∈ xs, (f x).Readable w) :
    (Json.arr (xs.map f)).Readable w := by
  rw [Json.Readable, itemsReadable_iff]
  intro j member
  obtain ⟨x, inside, rfl⟩ := List.mem_map.mp member
  exact items x inside

theorem readable_count (n : Count) : (Json.int n.1).Readable w := by
  simpa [Json.Readable] using n.2

theorem readable_cost (v : Decimal) : (Json.str v.text).Readable w := by
  simpa [Json.Readable] using text_apart v

theorem readable_float {f : Double} (reads : w.FloatReads f) : (Json.float f).Readable w := by
  simpa [Json.Readable] using reads

theorem readable_pr {pr : PR} (precision : w.FloatReads pr.precision) (caught : w.FloatReads pr.«recall») :
    pr.value.Readable w := by
  have names : ∀ k ∈ prNames, Encodes k := by decide
  refine readable_obj rfl (by decide : prNames.Nodup)
    (fun k member => apart_of_encodes (names k member)) ?_
  simp only [List.map_cons, List.map_nil, List.forall_mem_cons]
  exact ⟨readable_float precision, readable_float caught, readable_count _, by simp⟩

theorem readable_row (row : Dict Label Count) : (rowValue row).Readable w := by
  refine readable_entries ?_ (fun e _ => e.1.2) fun e _ => readable_count e.2
  have distinct := List.Nodup.map Subtype.val_injective row.2
  rwa [keys, List.map_map] at distinct

theorem readable_bands {d : Dict Count PR}
    (reads : ∀ e ∈ d.1, w.FloatReads e.2.precision ∧ w.FloatReads e.2.«recall») :
    (Json.obj (d.1.map fun e => (intText e.1.1, e.2.value))).Readable w := by
  refine readable_entries ?_ (fun e _ => intText_apart _)
    fun e member => readable_pr (reads e member).1 (reads e member).2
  have injective : Function.Injective fun n : Count => intText n.1 := by
    intro m n same
    have value := pyInt_intText m.2
    simp only at same
    rw [same, pyInt_intText n.2] at value
    exact Subtype.ext (Option.some.inj value).symm
  have distinct := List.Nodup.map injective d.2
  rwa [keys, List.map_map] at distinct

theorem readable_matrix (d : Dict Label (Dict Label Count)) :
    (Json.obj (d.1.map fun e => (e.1.1, rowValue e.2))).Readable w := by
  refine readable_entries ?_ (fun e _ => e.1.2) fun e _ => readable_row e.2
  have distinct := List.Nodup.map Subtype.val_injective d.2
  rwa [keys, List.map_map] at distinct

theorem metricsPayload_readable {m : RunMetrics} (reads : ∀ f ∈ m.floats, w.FloatReads f) :
    (metricsPayload m).Readable w := by
  have names : ∀ k ∈ fieldNames, Encodes k := by decide
  have distinct : fieldNames.Nodup := by decide
  simp only [RunMetrics.floats, List.forall_mem_append, List.forall_mem_cons,
    List.forall_mem_flatMap, Option.mem_toList] at reads
  obtain ⟨⟨⟨exact, within, category, precision, caught, critical, escalation, f1, _⟩, bands⟩,
    ⟨mean, low⟩, injection⟩ := reads
  refine readable_obj rfl distinct (fun k member => apart_of_encodes (names k member)) ?_
  simp only [List.map_cons, List.map_nil, List.forall_mem_cons]
  exact ⟨readable_count _, readable_count _, readable_float exact, readable_float within,
    readable_float category, readable_float precision, readable_float caught,
    readable_float critical, readable_float escalation, readable_cost _, readable_cost _,
    readable_cost _, readable_count _, readable_count _,
    readable_bands fun e member => ⟨(bands e member).1, (bands e member).2.1⟩,
    readable_list fun row _ => readable_list fun n _ => readable_count n, readable_matrix _,
    readable_float f1, readable_optionFloat mean, readable_optionFloat low,
    readable_optionFloat injection, readable_cost _, by simp⟩

end

theorem metricsPayload_depth (m : RunMetrics) : (metricsPayload m).depth ≤ 3 := by
  have option : ∀ f, (optionFloat f).depth = 0 := by
    intro f
    cases f <;> rfl
  have bands : (Json.obj (m.perSeverity.1.map fun e => (intText e.1.1, e.2.value))).depth ≤ 2 := by
    refine Nat.succ_le_succ (membersDepth_le fun f member => ?_)
    obtain ⟨e, _, rfl⟩ := List.mem_map.mp member
    exact Nat.le_refl 1
  have row : ∀ row, (rowValue row).depth ≤ 1 := by
    intro row
    refine Nat.succ_le_succ (membersDepth_le fun f member => ?_)
    obtain ⟨e, _, rfl⟩ := List.mem_map.mp member
    exact Nat.le_refl 0
  have matrix : (Json.obj (m.categoryConfusion.1.map fun e => (e.1.1, rowValue e.2))).depth ≤ 2 := by
    refine Nat.succ_le_succ (membersDepth_le fun f member => ?_)
    obtain ⟨e, _, rfl⟩ := List.mem_map.mp member
    exact row e.2
  have counts : (Json.arr (m.confusion.map fun row => .arr (row.map fun n => .int n.1))).depth ≤ 2 := by
    refine Nat.succ_le_succ (itemsDepth_le fun j member => ?_)
    obtain ⟨r, _, rfl⟩ := List.mem_map.mp member
    refine Nat.succ_le_succ (itemsDepth_le fun j member => ?_)
    obtain ⟨n, _, rfl⟩ := List.mem_map.mp member
    exact Nat.le_refl 0
  refine Nat.succ_le_succ (membersDepth_le ?_)
  simp only [List.forall_mem_cons, Json.depth, option]
  simp only [Json.depth] at bands matrix counts
  simp only [bands, matrix, counts, Nat.zero_le, List.not_mem_nil, false_implies, implies_true,
    and_self]

theorem metrics_read_back (w : Layout) {m : RunMetrics} {limit : Nat} (deep : 3 ≤ limit)
    (reads : ∀ f ∈ m.floats, w.FloatReads f) :
    ∃ j, loads limit ((metricsPayload m).dumps w 0) = .ok j ∧ metricsFromPayload j = some m := by
  have read := loads_dumps w (metricsPayload_readable reads)
    ((metricsPayload_depth m).trans deep) (b := []) (by simp)
  rw [List.append_nil] at read
  exact ⟨_, read, metricsFromPayload_payload m⟩

def artifactNames : List PyStr :=
  [str "prompt_version", str "model", str "git_sha", str "started_at", str "metrics", str "cases",
    str "golden", str "strong_model"]

theorem strong_apart (r : Run) : Apart r.strong := by
  unfold Run.strong
  cases r.strongModel with
  | none => exact apart_nil
  | some s => exact s.2

theorem isoformat_apart (d : DateTime) : Apart (isoformat d) :=
  apart_of_encodes fun c member => .inl (by have := isoformat_ascii d c member; omega)

theorem artifact_loads {r : Run} {limit : Nat} (deep : r.payload.depth ≤ limit)
    (floats : ∀ f ∈ r.metrics.floats, f.Canonical)
    (cases : ∀ c ∈ r.cases, c.Readable indentLayout) :
    loads limit r.artifact = .ok r.payload := by
  have names : ∀ k ∈ artifactNames, Encodes k := by decide
  have text : ∀ {s : PyStr}, Apart s → (Json.str s).Readable indentLayout := fun apart => by
    simpa [Json.Readable] using apart
  have readable : r.payload.Readable indentLayout := by
    refine readable_obj rfl (by decide : artifactNames.Nodup)
      (fun k member => apart_of_encodes (names k member)) ?_
    simp only [List.map_cons, List.map_nil, List.forall_mem_cons]
    refine ⟨text r.promptVersion.2, text r.model.2, text r.gitSha.2, text (isoformat_apart _),
      metricsPayload_readable fun f member => repr_reads (floats f member), ?_,
      text r.golden.2, text (strong_apart r), by simp⟩
    rw [Json.Readable, itemsReadable_iff]
    exact cases
  have read := loads_dumps indentLayout readable deep (b := []) (by simp)
  rwa [List.append_nil] at read

theorem publishedRun_payload (r : Run) :
    publishedRun r.payload = some ⟨⟨r.promptVersion.1, r.model.1, r.metrics⟩, r.startedAt.date,
      r.gitSha.1, modelsCell r.model.1 r.strong⟩ := by
  have metrics : (r.payload.get? (str "metrics") >>= metricsFromPayload) = some r.metrics :=
    metricsFromPayload_payload r.metrics
  have promptVersion : (r.payload.get? (str "prompt_version") >>= readStr) =
      some r.promptVersion.1 := rfl
  have model : (r.payload.get? (str "model") >>= readStr) = some r.model.1 := rfl
  have strong : orDefault [] readStr (r.payload.get? (str "strong_model")) = some r.strong := rfl
  have startedAt : (r.payload.get? (str "started_at") >>= readDateTime) =
      some r.startedAt := fromisoformat_isoformat r.startedAt
  have gitSha : (r.payload.get? (str "git_sha") >>= readStr) = some r.gitSha.1 := rfl
  simp only [publishedRun, metrics, promptVersion, model, strong, startedAt, gitSha,
    Option.bind_eq_bind, Option.bind_some]

theorem artifact_publishes_same :
    (∀ (w : Layout) (m : RunMetrics) (limit : Nat), 3 ≤ limit →
      (∀ f ∈ m.floats, w.FloatReads f) →
      ∃ j, loads limit ((metricsPayload m).dumps w 0) = .ok j ∧ metricsFromPayload j = some m) ∧
    (∀ (r : Run) (limit : Nat), isV2Golden r.golden.1 = true → r.payload.depth ≤ limit →
      (∀ f ∈ r.metrics.floats, f.Canonical) → (∀ c ∈ r.cases, c.Readable indentLayout) →
      artifactLine limit r.artifact = .ok r.publishLine) := by
  refine ⟨fun w m limit deep reads => metrics_read_back w deep reads, ?_⟩
  intro r limit v2 deep floats cases
  have golden : (r.payload.get? (str "golden") >>= readStr) = some r.golden.1 := rfl
  simp only [artifactLine, rowFromArtifact, artifact_loads deep floats cases, golden, v2, if_true,
    publishedRun_payload, Option.elim_some]
  rfl

def sampleOne : Double := .fin false (2 ^ 52) (-52)

def sampleHalf : Double := .fin false (2 ^ 52) (-53)

def sampleThird : Double := .fin false 6004799503160661 (-54)

theorem sampleCount_short :
    ∀ n : Fin 10, (digitsText (n.1 : Int).natAbs).length ≤ intMaxStrDigits := by decide

def sampleCount (n : Fin 10) : Count := ⟨n.1, sampleCount_short n⟩

/-- The metrics of four cases, one of which failed. -/
def sampleMetrics : RunMetrics where
  nCases := sampleCount 4
  nFailed := sampleCount 1
  severityExact := sampleHalf
  severityWithinOne := sampleOne
  categoryAccuracy := sampleThird
  escalatePrecision := sampleHalf
  escalateRecall := sampleOne
  criticalRecall := sampleOne
  escalationRate := sampleThird
  costMeanUsd := .finite false 12 (-4)
  costP95Usd := .finite false 200 (-5)
  costTotalUsd := .finite false 48 (-4)
  latencyP50Ms := sampleCount 8
  latencyP95Ms := sampleCount 9
  perSeverity := ofPairs [(sampleCount 4, ⟨sampleHalf, sampleOne, sampleCount 1⟩),
    (sampleCount 5, ⟨sampleOne, sampleHalf, sampleCount 2⟩)]
  confusion := [[sampleCount 1, sampleCount 0], [sampleCount 1, sampleCount 1]]
  categoryConfusion :=
    ofPairs [(⟨str "scan", by decide⟩, ofPairs [(⟨str "scan", by decide⟩, sampleCount 2),
      (⟨str "failed", by decide⟩, sampleCount 1)])]
  sevMacroF1 := sampleThird
  judgeMean := some (.fin false 5066549580791808 (-50))
  judgePctLe2 := some sampleThird
  injectionPassRate := none
  judgeCostTotalUsd := .finite false 31 (-4)

def sampleCase : Json := .obj [(str "case_id", .str (str "c1")), (str "severity", .int 4)]

def sampleRun : Run where
  promptVersion := ⟨str "v4", by decide⟩
  model := ⟨str "m", by decide⟩
  strongModel := some ⟨str "s", by decide⟩
  gitSha := ⟨str "unknown", by decide⟩
  startedAt := ⟨2026, 1, 2, 3, 4, 5, 0, some 0, by decide, by decide, by decide, by decide, by decide,
    by decide, by decide, by decide⟩
  golden := ⟨str "evals/golden/v2.jsonl", by decide⟩
  metrics := sampleMetrics
  cases := [sampleCase]

theorem sampleMetrics_canonical : ∀ f ∈ sampleMetrics.floats, f.Canonical := by decide

theorem artifact_publishes_same_scored :
    (∃ j, loads 3 ((metricsPayload sampleMetrics).dumps compactLayout 0) = .ok j ∧
      metricsFromPayload j = some sampleMetrics) ∧
    artifactLine 4 sampleRun.artifact = .ok sampleRun.publishLine ∧ sampleRun.publishLine.isSome := by
  have finite : ∀ f ∈ sampleMetrics.floats, Double.finite f = true := by decide
  have readable : ∀ c ∈ sampleRun.cases, c.Readable indentLayout := by
    have names : ∀ k ∈ [str "case_id", str "severity"], Encodes k := by decide
    have apart : Apart (str "c1") := by decide
    have short : (digitsText (4 : Int).natAbs).length ≤ intMaxStrDigits := by decide
    rintro c (_ | ⟨_, ⟨⟩⟩)
    refine readable_obj rfl (by decide) (fun k member => apart_of_encodes (names k member)) ?_
    simpa [Json.Readable] using ⟨apart, short⟩
  exact ⟨artifact_publishes_same.1 compactLayout sampleMetrics 3 (by decide)
      fun f member => serdeText_reads (sampleMetrics_canonical f member) (finite f member),
    artifact_publishes_same.2 sampleRun 4 (by decide) (by decide) sampleMetrics_canonical readable,
    by decide +kernel⟩

end EvalsPublish
