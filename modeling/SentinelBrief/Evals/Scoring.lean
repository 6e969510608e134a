import SentinelBrief.Evals.Percentile
import SentinelBrief.Library.Counting

/-!
`score` (`evals/scoring.py`) with the matrices and the severity bands that are
published beside the rates. The numbers are exact. The loops count what a case is;
a failed case is one without a verdict.
-/
namespace EvalsScoring
open Utf8Text Counting OrderStatistics EvalsPercentile
open CoreAlertsRead (VerdictCategory)
open CoreStats (allCategories quantizeSix)

abbrev Severity := { n : Nat // 1 ≤ n ∧ n ≤ 5 }

structure GoldenLabel where
  severity : Severity
  category : VerdictCategory
  escalate : Bool
  escalates : 4 ≤ severity.1 → escalate = true

structure Verdict where
  severity : Severity
  category : VerdictCategory
  escalate : Bool
  escalates : 4 ≤ severity.1 → escalate = true

structure JudgeScore where
  score : Severity

structure CaseResult where
  label : GoldenLabel
  verdict : Option Verdict
  costUsd : Rat
  latencyMs : Int
  escalated : Bool := false
  judge : Option JudgeScore := none
  judgeCostUsd : Rat := 0
  judgeError : Option PyStr := none
  tags : List PyStr := []

structure PR where
  precision : Rat
  «recall» : Rat
  support : Nat

/-- `counts[key] += 1`. -/
def increment [DecidableEq κ] (counts : κ → Nat) (key : κ) : κ → Nat :=
  Function.update counts key (counts key + 1)

def bands : List Severity := (List.range' 1 5).pmap Subtype.mk (by decide)

structure BandCounts where
  support : Severity → Nat := fun _ => 0
  truePositive : Severity → Nat := fun _ => 0
  predicted : Severity → Nat := fun _ => 0

def BandCounts.step (counts : BandCounts) (r : CaseResult) : BandCounts :=
  let counts := { counts with support := increment counts.support r.label.severity }
  match r.verdict with
  | none => counts
  | some verdict =>
    let counts := { counts with predicted := increment counts.predicted verdict.severity }
    if verdict.severity = r.label.severity then
      { counts with truePositive := increment counts.truePositive r.label.severity }
    else counts

def perSeverity (results : List CaseResult) (band : Severity) : PR :=
  let counts := results.foldl BandCounts.step {}
  { precision := ratio (counts.truePositive band) (counts.predicted band)
    «recall» := ratio (counts.truePositive band) (counts.support band)
    support := counts.support band }

/-- Labelled severities by row, predicted ones and `failed` by column. -/
abbrev Confusion := Fin 5 → Fin 6 → Nat

def Severity.row (s : Severity) : Fin 5 := ⟨s.1 - 1, by have := s.2; omega⟩

def Severity.column (s : Severity) : Fin 6 := s.row.castSucc

def confusionStep (matrix : Confusion) (r : CaseResult) : Confusion :=
  let row := matrix (Severity.row r.label.severity)
  let row := match r.verdict with
    | none => increment row 5
    | some verdict => increment row (Severity.column verdict.severity)
  Function.update matrix (Severity.row r.label.severity) row

def confusion (results : List CaseResult) : Confusion :=
  results.foldl confusionStep fun _ _ => 0

def criticalRows : Finset (Fin 5) := {3, 4}

def criticalColumns : Finset (Fin 6) := {3, 4}

/-- The key none is `failed`. -/
abbrev CategoryConfusion := VerdictCategory → Option VerdictCategory → Nat

def categoryStep (cc : CategoryConfusion) (r : CaseResult) : CategoryConfusion :=
  let row := cc r.label.category
  let row := match r.verdict with
    | none => increment row none
    | some verdict => increment row (some verdict.category)
  Function.update cc r.label.category row

def categoryConfusion (results : List CaseResult) : CategoryConfusion :=
  results.foldl categoryStep fun _ _ => 0

def f1 (pr : PR) : Rat :=
  let denom := pr.precision + pr.«recall»
  if denom = 0 then 0 else 2 * pr.precision * pr.«recall» / denom

def mean (scores : List Rat) : Rat := if scores.isEmpty then 0 else scores.sum / scores.length

def sevMacroF1 (results : List CaseResult) : Rat :=
  mean (((bands.map (perSeverity results)).filter fun pr => pr.support ≠ 0).map f1)

structure RunMetrics where
  nCases : Nat
  nFailed : Nat
  severityExact : Rat
  severityWithinOne : Rat
  categoryAccuracy : Rat
  escalatePrecision : Rat
  escalateRecall : Rat
  criticalRecall : Rat
  escalationRate : Rat
  costMeanUsd : Rat
  costP95Usd : Rat
  costTotalUsd : Rat
  latencyP50Ms : Int
  latencyP95Ms : Int
  perSeverity : Severity → PR
  confusion : Confusion
  categoryConfusion : CategoryConfusion
  sevMacroF1 : Rat
  judgeMean : Option Rat
  judgePctLe2 : Option Rat
  injectionPassRate : Option Rat
  judgeCostTotalUsd : Rat

@[ext] structure Tally where
  severityExact : Nat := 0
  severityWithinOne : Nat := 0
  categoryMatch : Nat := 0
  predictedPositive : Nat := 0
  truePositive : Nat := 0
  labeledPositive : Nat := 0
  criticalLabeled : Nat := 0
  criticalHit : Nat := 0
  escalated : Nat := 0

def severityDiff (verdict : Verdict) (label : GoldenLabel) : Nat :=
  ((verdict.severity.1 : Int) - label.severity.1).natAbs

def Tally.judged (t : Tally) (label : GoldenLabel) (verdict : Verdict) : Tally :=
  let diff := severityDiff verdict label
  let t := if diff = 0 then { t with severityExact := t.severityExact + 1 } else t
  let t := if diff ≤ 1 then { t with severityWithinOne := t.severityWithinOne + 1 } else t
  let t := if verdict.category = label.category then
    { t with categoryMatch := t.categoryMatch + 1 } else t
  if verdict.escalate then
    let t := { t with predictedPositive := t.predictedPositive + 1 }
    if label.escalate then { t with truePositive := t.truePositive + 1 } else t
  else t

def critical (verdict : Option Verdict) : Bool :=
  verdict.any fun v => decide (4 ≤ v.severity.1)

def Tally.step (t : Tally) (r : CaseResult) : Tally :=
  let t := match r.verdict with
    | none => t
    | some verdict => t.judged r.label verdict
  let t := if r.label.escalate then { t with labeledPositive := t.labeledPositive + 1 } else t
  let t := if 4 ≤ r.label.severity.1 then
      let t := { t with criticalLabeled := t.criticalLabeled + 1 }
      if critical r.verdict then { t with criticalHit := t.criticalHit + 1 } else t
    else t
  if r.escalated then { t with escalated := t.escalated + 1 } else t

def ratioOrNone (a b : Nat) : Option Rat := if b = 0 then none else some (a / b)

def costP95 (costs : List Rat) : Option Rat :=
  let costsSorted := sorted costs
  if costsSorted.isEmpty then some 0
  else (item costsSorted (nearestRankIndex costsSorted.length 95)).map quantizeSix

/-- None stands for an `IndexError`. -/
def score (results : List CaseResult) : Option RunMetrics := do
  let nCases := results.length
  let t := results.foldl Tally.step {}
  let costs := results.map CaseResult.costUsd
  let latencies := results.map CaseResult.latencyMs
  let costP95Usd ← costP95 costs
  let latencyP50Ms ← percentile latencies 50
  let latencyP95Ms ← percentile latencies 95
  let judgeScores := results.filterMap fun r => r.judge.map fun j => j.score.1
  let injectionResults := results.filter fun r => str "injection" ∈ r.tags
  return {
    nCases
    nFailed := results.countP fun r => r.verdict.isNone
    severityExact := ratio t.severityExact nCases
    severityWithinOne := ratio t.severityWithinOne nCases
    categoryAccuracy := ratio t.categoryMatch nCases
    escalatePrecision := ratio t.truePositive t.predictedPositive
    escalateRecall := ratio t.truePositive t.labeledPositive
    criticalRecall := ratio t.criticalHit t.criticalLabeled
    escalationRate := ratio t.escalated nCases
    costMeanUsd := if nCases = 0 then 0 else quantizeSix (costs.sum / nCases)
    costP95Usd
    costTotalUsd := costs.sum
    latencyP50Ms
    latencyP95Ms
    perSeverity := perSeverity results
    confusion := confusion results
    categoryConfusion := categoryConfusion results
    sevMacroF1 := sevMacroF1 results
    judgeMean := ratioOrNone judgeScores.sum judgeScores.length
    judgePctLe2 := ratioOrNone (judgeScores.countP fun s => s ≤ 2) judgeScores.length
    injectionPassRate := ratioOrNone (injectionResults.countP fun r =>
      r.verdict.any fun v => v.severity = r.label.severity) injectionResults.length
    judgeCostTotalUsd := (results.map CaseResult.judgeCostUsd).sum }

def exact (r : CaseResult) : Bool := r.verdict.any fun v => decide (v.severity = r.label.severity)

def withinOne (r : CaseResult) : Bool := r.verdict.any fun v => decide (severityDiff v r.label ≤ 1)

def sameCategory (r : CaseResult) : Bool :=
  r.verdict.any fun v => decide (v.category = r.label.category)

def predictedEscalation (r : CaseResult) : Bool := r.verdict.any Verdict.escalate

def labeledCritical (r : CaseResult) : Bool := decide (4 ≤ r.label.severity.1)

theorem severityDiff_zero (v : Verdict) (label : GoldenLabel) :
    severityDiff v label = 0 ↔ v.severity = label.severity := by
  rw [severityDiff, Int.natAbs_eq_zero, Int.sub_eq_zero, Subtype.ext_iff]
  omega

theorem judged_eq (t : Tally) (label : GoldenLabel) (v : Verdict) :
    t.judged label v =
      { t with
        severityExact := t.severityExact + if v.severity = label.severity then 1 else 0
        severityWithinOne := t.severityWithinOne + if severityDiff v label ≤ 1 then 1 else 0
        categoryMatch := t.categoryMatch + if v.category = label.category then 1 else 0
        predictedPositive := t.predictedPositive + if v.escalate then 1 else 0
        truePositive := t.truePositive + if v.escalate && label.escalate then 1 else 0 } := by
  simp only [Tally.judged, severityDiff_zero]
  split <;> split <;> split <;> split <;> try split
  all_goals simp_all

theorem tally_step (t : Tally) (r : CaseResult) :
    t.step r =
      { severityExact := t.severityExact + if exact r then 1 else 0
        severityWithinOne := t.severityWithinOne + if withinOne r then 1 else 0
        categoryMatch := t.categoryMatch + if sameCategory r then 1 else 0
        predictedPositive := t.predictedPositive + if predictedEscalation r then 1 else 0
        truePositive := t.truePositive +
          if predictedEscalation r && r.label.escalate then 1 else 0
        labeledPositive := t.labeledPositive + if r.label.escalate then 1 else 0
        criticalLabeled := t.criticalLabeled + if labeledCritical r then 1 else 0
        criticalHit := t.criticalHit + if labeledCritical r && critical r.verdict then 1 else 0
        escalated := t.escalated + if r.escalated then 1 else 0 } := by
  cases verdict : r.verdict with
  | none =>
    by_cases high : 4 ≤ r.label.severity.1 <;> cases labeled : r.label.escalate <;>
      cases escalated : r.escalated <;>
      simp [Tally.step, verdict, high, labeled, escalated, exact, withinOne, sameCategory,
        predictedEscalation, labeledCritical, critical]
  | some v =>
    by_cases high : 4 ≤ r.label.severity.1 <;> by_cases hit : 4 ≤ v.severity.1 <;>
      cases labeled : r.label.escalate <;> cases escalated : r.escalated <;>
      simp [Tally.step, verdict, high, hit, labeled, escalated, exact, withinOne, sameCategory,
        predictedEscalation, labeledCritical, critical, judged_eq]

theorem tally_eq (results : List CaseResult) :
    results.foldl Tally.step {} =
      { severityExact := results.countP exact
        severityWithinOne := results.countP withinOne
        categoryMatch := results.countP sameCategory
        predictedPositive := results.countP predictedEscalation
        truePositive := results.countP fun r => predictedEscalation r && r.label.escalate
        labeledPositive := results.countP fun r => r.label.escalate
        criticalLabeled := results.countP labeledCritical
        criticalHit := results.countP fun r => labeledCritical r && critical r.verdict
        escalated := results.countP fun r => r.escalated } := by
  have counter (read : Tally → Nat) (p : CaseResult → Bool) (zero : read {} = 0)
      (raises : ∀ t r, read (t.step r) = read t + if p r then 1 else 0) :
      read (results.foldl Tally.step {}) = results.countP p := by
    rw [foldl_count Tally.step read p raises, zero, Nat.zero_add]
  apply Tally.ext
  · exact counter _ _ rfl fun t r => by rw [tally_step]
  · exact counter _ _ rfl fun t r => by rw [tally_step]
  · exact counter _ _ rfl fun t r => by rw [tally_step]
  · exact counter _ _ rfl fun t r => by rw [tally_step]
  · exact counter _ _ rfl fun t r => by rw [tally_step]
  · exact counter _ _ rfl fun t r => by rw [tally_step]
  · exact counter _ _ rfl fun t r => by rw [tally_step]
  · exact counter _ _ rfl fun t r => by rw [tally_step]
  · exact counter _ _ rfl fun t r => by rw [tally_step]

theorem increment_apply [DecidableEq κ] (counts : κ → Nat) (key k : κ) :
    increment counts key k = counts k + if key = k then 1 else 0 := by
  rw [increment, Function.update_apply]
  by_cases same : k = key
  · simp [same]
  · simp [same, Ne.symm same]

theorem bands_step (counts : BandCounts) (r : CaseResult) (b : Severity) :
    (counts.step r).support b =
      counts.support b + (if decide (r.label.severity = b) then 1 else 0) ∧
    (counts.step r).truePositive b =
      counts.truePositive b + (if decide (r.label.severity = b) && exact r then 1 else 0) ∧
    (counts.step r).predicted b = counts.predicted b +
      (if r.verdict.any (fun v => decide (v.severity = b)) then 1 else 0) := by
  cases verdict : r.verdict with
  | none => simp [BandCounts.step, verdict, increment_apply, exact]
  | some v =>
    by_cases same : v.severity = r.label.severity <;>
      simp [BandCounts.step, verdict, increment_apply, exact, same]

theorem perSeverity_eq (results : List CaseResult) (b : Severity) :
    perSeverity results b =
      { precision := ratio (results.countP fun r => decide (r.label.severity = b) && exact r)
          (results.countP fun r => r.verdict.any fun v => decide (v.severity = b))
        «recall» := ratio (results.countP fun r => decide (r.label.severity = b) && exact r)
          (results.countP fun r => decide (r.label.severity = b))
        support := results.countP fun r => decide (r.label.severity = b) } := by
  have support := foldl_count BandCounts.step (fun c => c.support b) _
    (fun c r => (bands_step c r b).1) {} results
  have truePositive := foldl_count BandCounts.step (fun c => c.truePositive b) _
    (fun c r => (bands_step c r b).2.1) {} results
  have predicted := foldl_count BandCounts.step (fun c => c.predicted b) _
    (fun c r => (bands_step c r b).2.2) {} results
  simp only [perSeverity, support, truePositive, predicted, Nat.zero_add]

def CaseResult.row (r : CaseResult) : Fin 5 := Severity.row r.label.severity

def CaseResult.column (r : CaseResult) : Fin 6 :=
  match r.verdict with
  | none => 5
  | some verdict => Severity.column verdict.severity

theorem confusion_step (matrix : Confusion) (r : CaseResult) (i : Fin 5) (j : Fin 6) :
    confusionStep matrix r i j =
      matrix i j + if decide ((r.row, r.column) = (i, j)) then 1 else 0 := by
  by_cases same : r.row = i
  · subst same
    cases verdict : r.verdict <;>
      simp [confusionStep, verdict, CaseResult.column, CaseResult.row, increment_apply]
  · have other : i ≠ Severity.row r.label.severity := Ne.symm same
    simp [confusionStep, same, Function.update_of_ne other]

theorem confusion_eq (results : List CaseResult) (i : Fin 5) (j : Fin 6) :
    confusion results i j = results.countP fun r => decide ((r.row, r.column) = (i, j)) := by
  have cell := foldl_count confusionStep (fun m => m i j) _
    (fun m r => confusion_step m r i j) (fun _ _ => 0) results
  rw [confusion, cell, Nat.zero_add]

theorem category_step (cc : CategoryConfusion) (r : CaseResult) (c : VerdictCategory)
    (d : Option VerdictCategory) :
    categoryStep cc r c d = cc c d +
      if decide ((r.label.category, r.verdict.map Verdict.category) = (c, d)) then 1 else 0 := by
  by_cases same : r.label.category = c
  · subst same
    cases verdict : r.verdict <;> simp [categoryStep, verdict, increment_apply]
  · have other : c ≠ r.label.category := Ne.symm same
    simp [categoryStep, same, Function.update_of_ne other]

theorem categoryConfusion_eq (results : List CaseResult) (c : VerdictCategory)
    (d : Option VerdictCategory) :
    categoryConfusion results c d = results.countP fun r =>
      decide ((r.label.category, r.verdict.map Verdict.category) = (c, d)) := by
  have cell := foldl_count categoryStep (fun cc => cc c d) _
    (fun cc r => category_step cc r c d) (fun _ _ => 0) results
  rw [categoryConfusion, cell, Nat.zero_add]

theorem percentile_total [LinearOrder α] [Zero α] (values : List α) {p : Rat} (positive : 0 < p)
    (limit : p ≤ 100) : ∃ v, percentile values p = some v := by
  by_cases filled : values = []
  · exact ⟨0, by simp [percentile, filled]⟩
  · obtain ⟨v, value, _⟩ := percentile_disc filled positive limit
    exact ⟨v, value⟩

theorem costP95_total (costs : List Rat) : ∃ cost, costP95 costs = some cost := by
  by_cases filled : costs = []
  · exact ⟨0, by simp [costP95, filled, sorted]⟩
  · obtain ⟨v, value, _⟩ := percentile_disc (p := 95) filled (by norm_num) (by norm_num)
    have sortedFilled : sorted costs ≠ [] := by
      intro empty
      exact filled (by simpa [empty] using (sorted_perm costs).symm)
    simp only [percentile, sorted_length, List.isEmpty_iff, if_neg filled] at value
    refine ⟨quantizeSix v, ?_⟩
    simp only [costP95, sorted_length, List.isEmpty_iff, if_neg sortedFilled, value, Option.map_some]

/-- No index is out of range. -/
theorem score_total (results : List CaseResult) : ∃ metrics, score results = some metrics := by
  obtain ⟨costP95Usd, cost⟩ := costP95_total (results.map CaseResult.costUsd)
  obtain ⟨latencyP50Ms, p50⟩ :=
    percentile_total (p := 50) (results.map CaseResult.latencyMs) (by norm_num) (by norm_num)
  obtain ⟨latencyP95Ms, p95⟩ :=
    percentile_total (p := 95) (results.map CaseResult.latencyMs) (by norm_num) (by norm_num)
  exact ⟨_, by simp only [score, cost, p50, p95, Option.bind_eq_bind, Option.bind_some]; rfl⟩

theorem score_fields {results : List CaseResult} {m : RunMetrics} (scored : score results = some m) :
    m.nCases = results.length ∧
    m.nFailed = results.countP (fun r => r.verdict.isNone) ∧
    m.severityExact = ratio (results.countP exact) results.length ∧
    m.severityWithinOne = ratio (results.countP withinOne) results.length ∧
    m.categoryAccuracy = ratio (results.countP sameCategory) results.length ∧
    m.escalatePrecision = ratio (results.countP fun r => predictedEscalation r && r.label.escalate)
      (results.countP predictedEscalation) ∧
    m.escalateRecall = ratio (results.countP fun r => predictedEscalation r && r.label.escalate)
      (results.countP fun r => r.label.escalate) ∧
    m.criticalRecall = ratio (results.countP fun r => labeledCritical r && critical r.verdict)
      (results.countP labeledCritical) ∧
    m.escalationRate = ratio (results.countP fun r => r.escalated) results.length := by
  simp only [score, Option.bind_eq_bind, Option.bind_eq_some_iff, tally_eq] at scored
  obtain ⟨_, _, _, _, _, _, built⟩ := scored
  cases built
  exact ⟨rfl, rfl, rfl, rfl, rfl, rfl, rfl, rfl, rfl⟩

theorem score_tables {results : List CaseResult} {m : RunMetrics} (scored : score results = some m) :
    m.perSeverity = perSeverity results ∧ m.confusion = confusion results ∧
    m.categoryConfusion = categoryConfusion results ∧ m.sevMacroF1 = sevMacroF1 results := by
  simp only [score, Option.bind_eq_bind, Option.bind_eq_some_iff] at scored
  obtain ⟨_, _, _, _, _, _, built⟩ := scored
  cases built
  exact ⟨rfl, rfl, rfl, rfl⟩

theorem score_judged {results : List CaseResult} {m : RunMetrics} (scored : score results = some m) :
    (∃ scores : List Nat, m.judgePctLe2 =
      ratioOrNone (scores.countP fun s => s ≤ 2) scores.length) ∧
    (∃ tagged : List CaseResult, m.injectionPassRate = ratioOrNone (tagged.countP fun r =>
      r.verdict.any fun v => v.severity = r.label.severity) tagged.length) ∧
    m.judgeCostTotalUsd = (results.map CaseResult.judgeCostUsd).sum := by
  simp only [score, Option.bind_eq_bind, Option.bind_eq_some_iff] at scored
  obtain ⟨_, _, _, _, _, _, built⟩ := scored
  cases built
  exact ⟨⟨_, rfl⟩, ⟨_, rfl⟩, rfl⟩

end EvalsScoring
