import Mathlib.Data.Fintype.Option
import Mathlib.Data.Fintype.Prod
import SentinelBrief.Evals.Scoring

/-!
The rates of `score` read off the confusion matrices of the same run, their range,
what a failed case does to them, and that the order of the cases does not matter.
-/
namespace EvalsScoring
open Utf8Text Counting OrderStatistics EvalsPercentile
open CoreAlertsRead (VerdictCategory)
open CoreStats (allCategories quantizeSix)

instance : Fintype VerdictCategory := ⟨allCategories.toFinset, by intro c; cases c <;> decide⟩

def nearDiagonal : Finset (Fin 5 × Fin 6) :=
  Finset.univ.filter fun cell =>
    cell.2.1 < 5 ∧ cell.1.1 ≤ cell.2.1 + 1 ∧ cell.2.1 ≤ cell.1.1 + 1

structure Agrees (results : List CaseResult) (m : RunMetrics) : Prop where
  nCases : m.nCases = results.length
  nFailed : m.nFailed = ∑ i, m.confusion i 5
  rows : ∀ s : Severity, ∑ j, m.confusion (Severity.row s) j =
    results.countP fun r => decide (r.label.severity = s)
  categoryRows : ∀ c, ∑ d, m.categoryConfusion c d =
    results.countP fun r => decide (r.label.category = c)
  severityExact : m.severityExact * results.length = (∑ i, m.confusion i i.castSucc : Nat)
  severityWithinOne : m.severityWithinOne * results.length =
    (∑ cell ∈ nearDiagonal, m.confusion cell.1 cell.2 : Nat)
  categoryAccuracy : m.categoryAccuracy * results.length =
    (∑ c, m.categoryConfusion c (some c) : Nat)
  bandRecall : ∀ s : Severity, (m.perSeverity s).«recall» =
    ratio (m.confusion (Severity.row s) (Severity.column s)) (∑ j, m.confusion (Severity.row s) j)
  bandPrecision : ∀ s : Severity, (m.perSeverity s).precision =
    ratio (m.confusion (Severity.row s) (Severity.column s))
      (∑ i, m.confusion i (Severity.column s))
  criticalRecall : m.criticalRecall =
    ratio (∑ cell ∈ criticalRows ×ˢ criticalColumns, m.confusion cell.1 cell.2)
      (∑ cell ∈ criticalRows ×ˢ Finset.univ, m.confusion cell.1 cell.2)

def Fraction (x : Rat) : Prop := 0 ≤ x ∧ x ≤ 1

structure Fractions (m : RunMetrics) : Prop where
  severityExact : Fraction m.severityExact
  severityWithinOne : Fraction m.severityWithinOne
  categoryAccuracy : Fraction m.categoryAccuracy
  escalatePrecision : Fraction m.escalatePrecision
  escalateRecall : Fraction m.escalateRecall
  criticalRecall : Fraction m.criticalRecall
  escalationRate : Fraction m.escalationRate
  bandPrecision : ∀ s, Fraction (m.perSeverity s).precision
  bandRecall : ∀ s, Fraction (m.perSeverity s).«recall»
  sevMacroF1 : Fraction m.sevMacroF1
  judgePctLe2 : ∀ x ∈ m.judgePctLe2, Fraction x
  injectionPassRate : ∀ x ∈ m.injectionPassRate, Fraction x

structure NoBetter (m' m : RunMetrics) : Prop where
  severityExact : m'.severityExact ≤ m.severityExact
  severityWithinOne : m'.severityWithinOne ≤ m.severityWithinOne
  categoryAccuracy : m'.categoryAccuracy ≤ m.categoryAccuracy
  escalateRecall : m'.escalateRecall ≤ m.escalateRecall
  criticalRecall : m'.criticalRecall ≤ m.criticalRecall
  bandRecall : ∀ s, (m'.perSeverity s).«recall» ≤ (m.perSeverity s).«recall»

theorem row_eq (r : CaseResult) (s : Severity) :
    r.row = Severity.row s ↔ r.label.severity = s := by
  have labeled := r.label.severity.2
  have band := s.2
  rw [CaseResult.row, Severity.row, Severity.row, Fin.mk.injEq, Subtype.ext_iff]
  omega

theorem column_eq (r : CaseResult) (s : Severity) :
    r.column = Severity.column s ↔ r.verdict.any (fun v => decide (v.severity = s)) = true := by
  cases verdict : r.verdict with
  | none =>
    have band := s.2
    simp only [CaseResult.column, verdict, Severity.column, Severity.row, Option.any_none, Fin.ext_iff,
      Fin.val_castSucc, Bool.false_eq_true, iff_false]
    change ¬ (5 = s.1 - 1)
    omega
  | some v =>
    have predicted := v.severity.2
    have band := s.2
    simp only [CaseResult.column, verdict, Severity.column, Severity.row, Option.any_some, Fin.ext_iff,
      Fin.val_castSucc, decide_eq_true_eq, Subtype.ext_iff]
    omega

theorem column_failed (r : CaseResult) : r.column = 5 ↔ r.verdict.isNone = true := by
  cases verdict : r.verdict with
  | none => simp [CaseResult.column, verdict]
  | some v =>
    have predicted := v.severity.2
    simp only [CaseResult.column, verdict, Severity.column, Severity.row, Fin.ext_iff,
      Fin.val_castSucc, Option.isNone_some, Bool.false_eq_true, iff_false]
    change ¬ (v.severity.1 - 1 = 5)
    omega

theorem sum_confusion (results : List CaseResult) (S : Finset τ) (cell : τ → Fin 5 × Fin 6)
    (apart : Set.InjOn cell S) (p : CaseResult → Bool)
    (inside : ∀ r, (∃ t ∈ S, (r.row, r.column) = cell t) ↔ p r = true) :
    ∑ t ∈ S, confusion results (cell t).1 (cell t).2 = results.countP p := by
  simp only [confusion_eq]
  rw [sum_countP (fun r : CaseResult => (r.row, r.column)) cell S apart]
  apply List.countP_congr
  intro r _
  simpa using inside r

theorem diagonal_eq (r : CaseResult) (s : Severity) :
    (r.row, r.column) = (Severity.row s, Severity.column s) ↔
      (decide (r.label.severity = s) && exact r) = true := by
  rw [Prod.mk.injEq, row_eq, column_eq, Bool.and_eq_true, decide_eq_true_eq]
  constructor
  · rintro ⟨rfl, hit⟩
    exact ⟨rfl, hit⟩
  · rintro ⟨rfl, hit⟩
    exact ⟨rfl, hit⟩

theorem exact_iff (r : CaseResult) : (∃ i : Fin 5, (r.row, r.column) = (i, i.castSucc)) ↔
    exact r = true := by
  constructor
  · rintro ⟨i, cell⟩
    rw [Prod.mk.injEq] at cell
    obtain ⟨rfl, hit⟩ := cell
    exact (column_eq r r.label.severity).mp hit
  · intro hit
    exact ⟨r.row, Prod.ext rfl ((column_eq r r.label.severity).mpr hit)⟩

theorem withinOne_iff (r : CaseResult) : (r.row, r.column) ∈ nearDiagonal ↔ withinOne r = true := by
  have labeled := r.label.severity.2
  rw [nearDiagonal, Finset.mem_filter]
  cases verdict : r.verdict with
  | none =>
    simp only [CaseResult.column, verdict, withinOne, Option.any_none, Bool.false_eq_true, iff_false]
    rintro ⟨_, inside, _⟩
    exact absurd inside (by decide)
  | some v =>
    have predicted := v.severity.2
    simp only [CaseResult.column, CaseResult.row, verdict, Severity.column, Severity.row,
      Fin.val_castSucc, withinOne, Option.any_some, decide_eq_true_eq, Finset.mem_univ, true_and]
    unfold severityDiff
    omega

theorem criticalRow_iff (r : CaseResult) : r.row ∈ criticalRows ↔ labeledCritical r = true := by
  have labeled := r.label.severity.2
  simp only [criticalRows, Finset.mem_insert, Finset.mem_singleton, CaseResult.row, Severity.row,
    Fin.ext_iff, labeledCritical, decide_eq_true_eq]
  change r.label.severity.1 - 1 = 3 ∨ r.label.severity.1 - 1 = 4 ↔ _
  omega

theorem criticalColumn_iff (r : CaseResult) :
    r.column ∈ criticalColumns ↔ critical r.verdict = true := by
  cases verdict : r.verdict with
  | none =>
    simp only [CaseResult.column, verdict, critical, Option.any_none, Bool.false_eq_true, iff_false]
    decide
  | some v =>
    have predicted := v.severity.2
    simp only [criticalColumns, Finset.mem_insert, Finset.mem_singleton, CaseResult.column, verdict,
      Severity.column, Severity.row, Fin.ext_iff, Fin.val_castSucc, critical, Option.any_some,
      decide_eq_true_eq]
    change v.severity.1 - 1 = 3 ∨ v.severity.1 - 1 = 4 ↔ _
    omega

section Sums
variable (results : List CaseResult)

theorem row_sum (s : Severity) : ∑ j, confusion results (Severity.row s) j =
    results.countP fun r => decide (r.label.severity = s) := by
  apply sum_confusion results Finset.univ fun j => (Severity.row s, j)
  · exact fun i _ j _ same => (Prod.mk.inj same).2
  · intro r
    simpa using row_eq r s

theorem column_sum (s : Severity) : ∑ i, confusion results i (Severity.column s) =
    results.countP fun r => r.verdict.any fun v => decide (v.severity = s) := by
  apply sum_confusion results Finset.univ fun i => (i, Severity.column s)
  · exact fun i _ j _ same => (Prod.mk.inj same).1
  · intro r
    simpa using column_eq r s

theorem failed_sum : ∑ i, confusion results i 5 = results.countP fun r => r.verdict.isNone := by
  apply sum_confusion results Finset.univ fun i => (i, 5)
  · exact fun i _ j _ same => (Prod.mk.inj same).1
  · intro r
    simpa using column_failed r

theorem trace_sum : ∑ i : Fin 5, confusion results i i.castSucc = results.countP exact := by
  apply sum_confusion results Finset.univ fun i => (i, i.castSucc)
  · exact fun i _ j _ same => (Prod.mk.inj same).1
  · intro r
    simpa using exact_iff r

theorem cells_sum (S : Finset (Fin 5 × Fin 6)) (p : CaseResult → Bool)
    (inside : ∀ r, (r.row, r.column) ∈ S ↔ p r = true) :
    ∑ cell ∈ S, confusion results cell.1 cell.2 = results.countP p := by
  apply sum_confusion results S id (fun _ _ _ _ same => same)
  intro r
  simpa using inside r

theorem diagonal_cell (s : Severity) : confusion results (Severity.row s) (Severity.column s) =
    results.countP fun r => decide (r.label.severity = s) && exact r := by
  rw [confusion_eq]
  apply List.countP_congr
  intro r _
  simpa using diagonal_eq r s

theorem category_sum (S : Finset τ) (cell : τ → VerdictCategory × Option VerdictCategory)
    (apart : Set.InjOn cell S) (p : CaseResult → Bool)
    (inside : ∀ r, (∃ t ∈ S, (r.label.category, r.verdict.map Verdict.category) = cell t) ↔
      p r = true) :
    ∑ t ∈ S, categoryConfusion results (cell t).1 (cell t).2 = results.countP p := by
  simp only [categoryConfusion_eq]
  rw [sum_countP (fun r : CaseResult => (r.label.category, r.verdict.map Verdict.category)) cell S
    apart]
  apply List.countP_congr
  intro r _
  simpa using inside r

theorem categoryRow_sum (c : VerdictCategory) : ∑ d, categoryConfusion results c d =
    results.countP fun r => decide (r.label.category = c) := by
  apply category_sum results Finset.univ fun d => (c, d)
  · exact fun i _ j _ same => (Prod.mk.inj same).2
  · intro r
    simp

theorem categoryTrace_sum : ∑ c, categoryConfusion results c (some c) =
    results.countP sameCategory := by
  apply category_sum results Finset.univ fun c => (c, some c)
  · exact fun i _ j _ same => (Prod.mk.inj same).1
  · intro r
    cases verdict : r.verdict <;> simp [sameCategory, verdict, eq_comm]

end Sums

theorem score_agrees {results : List CaseResult} {m : RunMetrics}
    (scored : score results = some m) : Agrees results m := by
  obtain ⟨nCases, nFailed, severityExact, severityWithinOne, categoryAccuracy, _, _,
    criticalRecall, _⟩ := score_fields scored
  obtain ⟨bands, matrix, categories, _⟩ := score_tables scored
  constructor
  · exact nCases
  · rw [nFailed, matrix, failed_sum]
  · rw [matrix]
    exact row_sum results
  · rw [categories]
    exact categoryRow_sum results
  · rw [severityExact, matrix, trace_sum, ratio_mul _ _ List.countP_le_length]
  · rw [severityWithinOne, matrix, cells_sum results nearDiagonal withinOne withinOne_iff,
      ratio_mul _ _ List.countP_le_length]
  · rw [categoryAccuracy, categories, categoryTrace_sum, ratio_mul _ _ List.countP_le_length]
  · intro s
    rw [bands, matrix, perSeverity_eq, diagonal_cell, row_sum]
  · intro s
    rw [bands, matrix, perSeverity_eq, diagonal_cell, column_sum]
  · rw [criticalRecall, matrix, cells_sum results (criticalRows ×ˢ criticalColumns)
      (fun r => labeledCritical r && critical r.verdict),
      cells_sum results (criticalRows ×ˢ Finset.univ) labeledCritical]
    · intro r
      simpa using criticalRow_iff r
    · intro r
      rw [Finset.mem_product, criticalRow_iff, criticalColumn_iff, Bool.and_eq_true]

theorem ratio_fraction {a b : Nat} (le : a ≤ b) : Fraction (ratio a b) :=
  ⟨ratio_nonneg a b, ratio_le_one le⟩

theorem ratioOrNone_fraction {a b : Nat} (le : a ≤ b) : ∀ x ∈ ratioOrNone a b, Fraction x := by
  intro x member
  have value := ratio_fraction le
  unfold ratioOrNone at member
  unfold ratio at value
  split at member
  · cases member
  · rename_i nonzero
    rw [if_neg nonzero] at value
    cases Option.some.inj member
    exact value

theorem countP_and_le (p q : CaseResult → Bool) (results : List CaseResult) :
    results.countP (fun r => p r && q r) ≤ results.countP p := by
  apply List.countP_mono_left
  intro r _ both
  exact (Bool.and_eq_true _ _ ▸ both).1

theorem band_fractions (results : List CaseResult) (s : Severity) :
    Fraction (perSeverity results s).precision ∧ Fraction (perSeverity results s).«recall» := by
  rw [perSeverity_eq]
  refine ⟨ratio_fraction ?_, ratio_fraction (countP_and_le _ _ results)⟩
  apply List.countP_mono_left
  intro r _ hit
  rw [Bool.and_eq_true, decide_eq_true_eq] at hit
  rw [← hit.1]
  exact hit.2

/-- The harmonic mean lies between its arguments' bounds. -/
theorem f1_fraction {pr : PR} (precision : Fraction pr.precision) (hits : Fraction pr.«recall») :
    Fraction (f1 pr) := by
  obtain ⟨low, high⟩ := precision
  obtain ⟨low', high'⟩ := hits
  unfold f1
  by_cases empty : pr.precision + pr.«recall» = 0
  · simp [empty, Fraction]
  · have product : 0 ≤ pr.precision * pr.«recall» := mul_nonneg low low'
    have positive : 0 < pr.precision + pr.«recall» :=
      lt_of_le_of_ne (by linarith) (Ne.symm empty)
    simp only [if_neg empty]
    constructor
    · apply div_nonneg _ positive.le
      linarith
    · rw [div_le_one positive]
      have first : pr.precision * pr.«recall» ≤ pr.precision := mul_le_of_le_one_right low high'
      have second : pr.precision * pr.«recall» ≤ pr.«recall» := mul_le_of_le_one_left low' high
      linarith

theorem mean_fraction {scores : List Rat} (each : ∀ x ∈ scores, Fraction x) :
    Fraction (mean scores) := by
  unfold mean
  by_cases empty : scores.isEmpty
  · simp [empty, Fraction]
  · rw [if_neg empty]
    have sum_nonneg : 0 ≤ scores.sum := List.sum_nonneg fun x member => (each x member).1
    have sum_le : scores.sum ≤ scores.length := by
      have bound := List.sum_le_card_nsmul scores 1 fun x member => (each x member).2
      simpa using bound
    exact ⟨div_nonneg sum_nonneg (Nat.cast_nonneg _), div_le_one_of_le₀ sum_le (Nat.cast_nonneg _)⟩

theorem score_fractions {results : List CaseResult} {m : RunMetrics}
    (scored : score results = some m) : Fractions m := by
  obtain ⟨_, _, severityExact, severityWithinOne, categoryAccuracy, escalatePrecision,
    escalateRecall, criticalRecall, escalationRate⟩ := score_fields scored
  obtain ⟨bands, _, _, macroF1⟩ := score_tables scored
  obtain ⟨⟨scores, judgePctLe2⟩, ⟨tagged, injectionPassRate⟩, _⟩ := score_judged scored
  constructor
  · exact severityExact ▸ ratio_fraction List.countP_le_length
  · exact severityWithinOne ▸ ratio_fraction List.countP_le_length
  · exact categoryAccuracy ▸ ratio_fraction List.countP_le_length
  · exact escalatePrecision ▸ ratio_fraction (countP_and_le _ _ results)
  · rw [escalateRecall]
    apply ratio_fraction
    apply List.countP_mono_left
    intro r _ both
    exact (Bool.and_eq_true _ _ ▸ both).2
  · exact criticalRecall ▸ ratio_fraction (countP_and_le _ _ results)
  · exact escalationRate ▸ ratio_fraction List.countP_le_length
  · exact fun s => bands ▸ (band_fractions results s).1
  · exact fun s => bands ▸ (band_fractions results s).2
  · rw [macroF1, sevMacroF1]
    apply mean_fraction
    intro x member
    obtain ⟨pr, listed, rfl⟩ := List.mem_map.mp member
    obtain ⟨s, _, rfl⟩ := List.mem_map.mp (List.mem_of_mem_filter listed)
    exact f1_fraction (band_fractions results s).1 (band_fractions results s).2
  · rw [judgePctLe2]
    exact ratioOrNone_fraction List.countP_le_length
  · rw [injectionPassRate]
    exact ratioOrNone_fraction List.countP_le_length

theorem failed_counts {r : CaseResult} (failed : r.verdict = none) :
    exact r = false ∧ withinOne r = false ∧ sameCategory r = false ∧
    predictedEscalation r = false ∧ critical r.verdict = false := by
  simp [exact, withinOne, sameCategory, predictedEscalation, critical, failed]

theorem failed_no_better {results results' : List CaseResult} {r : CaseResult} {m m' : RunMetrics}
    (failed : r.verdict = none) (added : results'.Perm (r :: results))
    (scored : score results = some m) (scored' : score results' = some m') : NoBetter m' m := by
  have count (p : CaseResult → Bool) :
      results'.countP p = results.countP p + if p r then 1 else 0 := by
    rw [added.countP_eq, List.countP_cons]
  have size : results.length ≤ results'.length := by
    rw [added.length_eq]
    exact Nat.le_succ _
  obtain ⟨notExact, notNear, notSame, notPredicted, notCritical⟩ := failed_counts failed
  obtain ⟨_, _, severityExact, severityWithinOne, categoryAccuracy, _, escalateRecall,
    criticalRecall, _⟩ := score_fields scored
  obtain ⟨_, _, severityExact', severityWithinOne', categoryAccuracy', _, escalateRecall',
    criticalRecall', _⟩ := score_fields scored'
  constructor
  · rw [severityExact, severityExact', count, notExact]
    exact ratio_anti List.countP_le_length size
  · rw [severityWithinOne, severityWithinOne', count, notNear]
    exact ratio_anti List.countP_le_length size
  · rw [categoryAccuracy, categoryAccuracy', count, notSame]
    exact ratio_anti List.countP_le_length size
  · rw [escalateRecall, escalateRecall', count, count, notPredicted]
    apply ratio_anti _ (Nat.le_add_right _ _)
    apply List.countP_mono_left
    intro r _ both
    exact (Bool.and_eq_true _ _ ▸ both).2
  · rw [criticalRecall, criticalRecall', count, count, notCritical, Bool.and_false]
    exact ratio_anti (countP_and_le _ _ results) (Nat.le_add_right _ _)
  · intro s
    rw [(score_tables scored).1, (score_tables scored').1, perSeverity_eq, perSeverity_eq]
    simp only [count, notExact, Bool.and_false]
    exact ratio_anti (countP_and_le _ _ results) (Nat.le_add_right _ _)

theorem percentile_perm [LinearOrder α] [Zero α] {l m : List α} (perm : l.Perm m) (p : Rat) :
    percentile l p = percentile m p := by
  simp only [percentile, sorted_congr perm, perm.isEmpty_eq]

theorem perSeverity_perm {results results' : List CaseResult} (perm : results.Perm results') :
    perSeverity results = perSeverity results' := by
  funext s
  simp only [perSeverity_eq, perm.countP_eq]

theorem score_perm {results results' : List CaseResult} (perm : results.Perm results') :
    score results = score results' := by
  have bands := perSeverity_perm perm
  have matrix : confusion results = confusion results' := by
    funext i j
    simp only [confusion_eq, perm.countP_eq]
  have categories : categoryConfusion results = categoryConfusion results' := by
    funext c d
    simp only [categoryConfusion_eq, perm.countP_eq]
  have macroF1 : sevMacroF1 results = sevMacroF1 results' := by
    rw [sevMacroF1, sevMacroF1, bands]
  have costs := perm.map CaseResult.costUsd
  have latencies := perm.map CaseResult.latencyMs
  have judges := perm.filterMap fun r => r.judge.map fun j => j.score.1
  have injections := perm.filter fun r => decide (str "injection" ∈ r.tags)
  have p95 : costP95 (results.map CaseResult.costUsd) = costP95 (results'.map CaseResult.costUsd) := by
    simp only [costP95, sorted_congr costs]
  simp only [score, tally_eq, perm.countP_eq, perm.length_eq, p95, costs.sum_eq,
    percentile_perm latencies, bands, matrix, categories, macroF1, judges.sum_eq, judges.countP_eq,
    judges.length_eq, injections.countP_eq, injections.length_eq,
    (perm.map CaseResult.judgeCostUsd).sum_eq]

/-- Every run is scored; its rates are those of its matrices, a failed case makes none
of them better, and the order of the cases does not matter. -/
theorem headline_metrics_agree (results : List CaseResult) :
    ∃ m, score results = some m ∧ Agrees results m ∧ Fractions m ∧
      (∀ r results', r.verdict = none → results'.Perm (r :: results) →
        ∃ m', score results' = some m' ∧ NoBetter m' m) ∧
      ∀ results', results'.Perm results → score results' = some m := by
  obtain ⟨m, scored⟩ := score_total results
  refine ⟨m, scored, score_agrees scored, score_fractions scored, ?_, ?_⟩
  · intro r results' failed added
    obtain ⟨m', scored'⟩ := score_total results'
    exact ⟨m', scored', failed_no_better failed added scored scored'⟩
  · intro results' perm
    rw [score_perm perm, scored]

end EvalsScoring
