import Mathlib.Algebra.Order.Floor.Ring
import Mathlib.Data.List.ReduceOption
import Mathlib.Data.Rat.Floor
import SentinelBrief.Core.ListDetail

/-!
`get_stats` (`core/services/alerts_read.py`) over a fixed database. Costs and means
are exact numbers. The aggregate queries run over the alerts, over the latest
verdicts, over all verdicts and over the alerts joined to their verdicts; what they
count is compared through the groups of the same rows.
-/
namespace CoreStats
open Utf8Text RelationalQueries CoreAlertsRead CoreListDetail
open WorkerAttempts (AlertStatus)

structure DayVolume where
  day : Int
  count : Nat

structure DayCost where
  day : Int
  alerts : Nat
  costUsd : Rat
  meanCostUsd : Rat

structure StatsOut where
  totalAlerts : Nat
  byStatus : List (AlertStatus × Nat)
  /-- The keys are the severities as texts. -/
  bySeverity : List (Nat × Nat)
  byCategory : List (VerdictCategory × Nat)
  escalatedCount : Nat
  volumeByDay : List DayVolume
  costTotalUsd : Rat
  costMeanUsd : Rat
  latencyP50Ms : Nat
  latencyP95Ms : Nat
  lastAlertAt : Option Int
  costByDay : List DayCost
  budgetExhausted : Bool
  tokensToday : Nat
  dailyTokenBudget : Nat

def allStatuses : List AlertStatus := [.pending, .triaged, .failed]

def allCategories : List VerdictCategory :=
  [.scanning, .bruteForce, .successfulIntrusion, .malwareDelivery, .persistenceAttempt,
    .reconnaissance, .other]

def dayMicros : Int := 86400000000

/-- `timezone('UTC', received_at)::date`, in days. -/
def utcDay (a : AlertRow) : Int := a.receivedAt / dayMicros

/-- `coalesce(sum(..), 0)`: NULLs are left out. -/
def sumOf (l : List (Option Rat)) : Rat := l.reduceOption.sum

/-- `coalesce(avg(..), 0)`. -/
def avgOf (l : List (Option Rat)) : Rat :=
  if l.reduceOption = [] then 0 else l.reduceOption.sum / l.reduceOption.length

/-- `quantize` to six places, half up. -/
def quantizeSix (x : Rat) : Rat :=
  if 0 ≤ x then (⌊x * 1000000 + 1 / 2⌋ : Int) / 1000000
  else -((⌊-x * 1000000 + 1 / 2⌋ : Int) / 1000000)

/-- `percentile_disc(p)`: the first value at or above the fraction `p` of the rows. -/
def percentileDisc (p : Rat) (l : List Nat) : Option Nat :=
  (orderBy id l)[(⌈p * l.length⌉ - 1).toNat]?

def spending (db : Database) : List (AlertRow × Option VerdictRow) :=
  outerJoin (fun a v => v.alertId = a.id) db.alerts db.verdicts

def volumeByDay (db : Database) : List DayVolume :=
  (orderBy Prod.fst (countBy utcDay db.alerts)).map fun row => ⟨row.1, row.2⟩

def dayCost (day : Int) (rows : List (AlertRow × Option VerdictRow)) : DayCost :=
  let alerts := (rows.map fun row => row.1.id).dedup.length
  let costUsd := sumOf (rows.map fun row => row.2.bind VerdictRow.costUsd)
  ⟨day, alerts, costUsd, quantizeSix (costUsd / alerts)⟩

def costByDay (db : Database) : List DayCost :=
  (orderBy Prod.fst (groupBy (fun row => utcDay row.1) (spending db))).map fun g => dayCost g.1 g.2

def getStats (db : Database) (tokensToday dailyTokenBudget : Nat) : StatsOut :=
  let latest := latestVerdicts db
  let costs := db.verdicts.map VerdictRow.costUsd
  let latencies := db.verdicts.filterMap VerdictRow.latencyMs
  { totalAlerts := db.alerts.length
    byStatus := filled allStatuses (countBy AlertRow.status db.alerts)
    bySeverity := filled [1, 2, 3, 4, 5] (countBy VerdictRow.severity latest)
    byCategory := filled allCategories (countBy VerdictRow.category latest)
    escalatedCount := latest.countP VerdictRow.escalate
    volumeByDay := volumeByDay db
    costTotalUsd := sumOf costs
    costMeanUsd := quantizeSix (avgOf costs)
    latencyP50Ms := (percentileDisc (1 / 2) latencies).getD 0
    latencyP95Ms := (percentileDisc (95 / 100) latencies).getD 0
    lastAlertAt := (db.alerts.map AlertRow.receivedAt).max?
    costByDay := costByDay db
    budgetExhausted := 0 < dailyTokenBudget ∧ dailyTokenBudget ≤ tokensToday
    tokensToday := tokensToday
    dailyTokenBudget := dailyTokenBudget }

variable {db : Database}

def costOf (v : VerdictRow) : Rat := v.costUsd.getD 0

def judged (db : Database) : List AlertRow :=
  db.alerts.filter fun a => a.id ∈ db.verdicts.map VerdictRow.alertId

def receivedOn (db : Database) (day : Int) : List AlertRow :=
  db.alerts.filter fun a => utcDay a = day

theorem sumOf_eq (l : List (Option Rat)) : sumOf l = (l.map fun cost => cost.getD 0).sum := by
  induction l with
  | nil => rfl
  | cons cost l ih =>
    rw [List.map_cons, List.sum_cons, ← ih]
    cases cost with
    | none => simp [sumOf]
    | some cost => simp [sumOf]

theorem total_eq : sumOf (db.verdicts.map VerdictRow.costUsd) =
    (db.verdicts.map costOf).sum := by
  rw [sumOf_eq, List.map_map]
  rfl

theorem spending_day (day : Int) : (spending db).filter (fun row => utcDay row.1 = day) =
    outerJoin (fun a v => v.alertId = a.id) (receivedOn db day) db.verdicts :=
  outerJoin_filter _ (fun a => utcDay a = day) _ _

theorem receivedOn_ids (db : Database) (day : Int) : ((receivedOn db day).map AlertRow.id).Nodup :=
  db.alert_ids.sublist (List.filter_sublist.map _)

theorem spent_eq (rows : List (AlertRow × Option VerdictRow)) :
    sumOf (rows.map fun row => row.2.bind VerdictRow.costUsd) =
      (rows.map fun row => (row.2.map costOf).getD 0).sum := by
  rw [sumOf_eq, List.map_map]
  congr 2
  funext row
  rcases row with ⟨a, v⟩
  cases v <;> rfl

def verdictsOn (db : Database) (day : Int) : List VerdictRow :=
  db.verdicts.filter fun v => v.alertId ∈ (receivedOn db day).map AlertRow.id

def spendingOn (db : Database) (day : Int) : List (AlertRow × Option VerdictRow) :=
  outerJoin (fun a v => v.alertId = a.id) (receivedOn db day) db.verdicts

theorem dayCost_alerts (day : Int) :
    (dayCost day (spendingOn db day)).alerts = (receivedOn db day).length := by
  have ids := outerJoin_ids (receivedOn_ids db day) (fun a v => v.alertId = a.id) db.verdicts
  exact ids.length_eq.trans (List.length_map _)

theorem dayCost_costUsd (day : Int) :
    (dayCost day (spendingOn db day)).costUsd = ((verdictsOn db day).map costOf).sum := by
  have partners := @partners_perm _ _ _ _ VerdictRow.alertId _ _ db.verdicts (receivedOn_ids db day)
  rw [dayCost, spent_eq, spendingOn, outerJoin_sum]
  exact (partners.map costOf).sum_eq

def activeDays (db : Database) : List Int := (db.alerts.map utcDay).dedup

theorem spending_days (day : Int) :
    day ∈ (spending db).map (fun row => utcDay row.1) ↔ day ∈ db.alerts.map utcDay := by
  rw [List.mem_map, List.mem_map]
  constructor
  · rintro ⟨⟨a, v⟩, mem, eq⟩
    exact ⟨a, mem_outerJoin.mp ⟨v, mem⟩, eq⟩
  · rintro ⟨a, mem, eq⟩
    obtain ⟨v, row⟩ := mem_outerJoin.mpr mem
    exact ⟨(a, v), row, eq⟩

theorem costByDay_perm :
    (costByDay db).Perm ((activeDays db).map fun day => dayCost day (spendingOn db day)) := by
  have days : ((spending db).map fun row => utcDay row.1).dedup.Perm (activeDays db) := by
    rw [activeDays, List.perm_ext_iff_of_nodup (List.nodup_dedup _) (List.nodup_dedup _)]
    intro day
    rw [List.mem_dedup, List.mem_dedup]
    exact spending_days day
  apply ((orderBy_perm _).map _).trans
  rw [groupBy, List.map_map]
  apply List.Perm.trans _ (days.map _)
  apply List.Perm.of_eq
  apply List.map_congr_left
  intro day _
  exact congrArg (dayCost day) (spending_day day)

theorem mem_costByDay {row : DayCost} (mem : row ∈ costByDay db) :
    row.day ∈ db.alerts.map utcDay ∧ row = dayCost row.day (spendingOn db row.day) := by
  obtain ⟨day, active, rfl⟩ := List.mem_map.mp (costByDay_perm.subset mem)
  exact ⟨List.mem_dedup.mp active, rfl⟩

theorem costByDay_alerts : ((costByDay db).map DayCost.alerts).sum = db.alerts.length := by
  have days : ((activeDays db).flatMap (receivedOn db)).Perm db.alerts := by
    apply groups_perm (List.nodup_dedup _)
    intro a mem
    exact List.mem_dedup.mpr (List.mem_map_of_mem mem)
  rw [(costByDay_perm.map _).sum_eq, List.map_map, ← days.length_eq, List.length_flatMap]
  congr 1
  exact List.map_congr_left fun day _ => dayCost_alerts day

theorem costByDay_costUsd : ((costByDay db).map DayCost.costUsd).sum =
    (db.verdicts.map costOf).sum := by
  have everywhere : db.verdicts.filter (fun v => v.alertId ∈ db.alerts.map AlertRow.id) =
      db.verdicts := by
    rw [List.filter_eq_self]
    intro v mem
    obtain ⟨a, there, eq⟩ := db.verdict_alerts v mem
    exact decide_eq_true (eq ▸ List.mem_map_of_mem there)
  have partners := @partners_perm _ _ _ _ VerdictRow.alertId _ _ db.verdicts db.alert_ids
  rw [everywhere] at partners
  have groups := @groupBy_sum _ _ _ (fun row => utcDay row.1) _ _
    (fun row => (row.2.map costOf).getD 0) (spending db)
  rw [← (partners.map costOf).sum_eq, ← outerJoin_sum, ← spending, ← groups, costByDay,
    List.map_map, ((orderBy_perm _).map _).sum_eq]
  congr 1
  exact List.map_congr_left fun g _ => spent_eq g.2

theorem volumeByDay_count : ((volumeByDay db).map DayVolume.count).sum = db.alerts.length := by
  rw [volumeByDay, List.map_map, ((orderBy_perm _).map _).sum_eq]
  exact countBy_sum db.alerts

theorem days_eq : (volumeByDay db).map DayVolume.day = (costByDay db).map DayCost.day := by
  have grouped : ((groupBy (fun row => utcDay row.1) (spending db)).map
      (DayCost.day ∘ fun g => dayCost g.1 g.2)) =
      ((spending db).map fun row => utcDay row.1).dedup := groupBy_keys _
  rw [volumeByDay, costByDay, List.map_map, List.map_map]
  apply orderBy_keys (countBy_nodup _)
  · exact grouped.symm ▸ List.nodup_dedup _
  · intro day
    rw [countBy_keys, grouped, List.mem_dedup, List.mem_dedup]
    exact (spending_days day).symm

theorem days_increasing : ((volumeByDay db).map DayVolume.day).Pairwise (· < ·) := by
  rw [volumeByDay, List.map_map]
  exact List.pairwise_map.mpr (orderBy_strict (countBy_nodup _))

theorem latest_length : (latestVerdicts db).length = (judged db).length := by
  have distinct : ((judged db).map AlertRow.id).Nodup :=
    db.alert_ids.sublist (List.filter_sublist.map _)
  have perm : ((latestVerdicts db).map VerdictRow.alertId).Perm ((judged db).map AlertRow.id) := by
    rw [latestVerdicts, List.perm_ext_iff_of_nodup (distinctOn_nodup _) distinct]
    intro alertId
    rw [distinctOn_keys, ((orderBy_perm _).map _).mem_iff, List.mem_map,
      List.mem_map]
    constructor
    · rintro ⟨v, mem, rfl⟩
      obtain ⟨a, there, eq⟩ := db.verdict_alerts v mem
      have referred : a.id ∈ db.verdicts.map VerdictRow.alertId := eq ▸ List.mem_map_of_mem mem
      exact ⟨a, List.mem_filter.mpr ⟨there, decide_eq_true referred⟩, eq⟩
    · rintro ⟨a, mem, rfl⟩
      exact List.mem_map.mp (of_decide_eq_true (List.mem_filter.mp mem).2)
  simpa using perm.length_eq

structure Consistent (db : Database) (stats : StatsOut) : Prop where
  statuses : (stats.byStatus.map Prod.snd).sum = stats.totalAlerts
  volumes : (stats.volumeByDay.map DayVolume.count).sum = stats.totalAlerts
  alerts : (stats.costByDay.map DayCost.alerts).sum = stats.totalAlerts
  severities : (stats.bySeverity.map Prod.snd).sum = (judged db).length
  categories : (stats.byCategory.map Prod.snd).sum = (judged db).length
  escalated : stats.escalatedCount ≤ (judged db).length
  costs : (stats.costByDay.map DayCost.costUsd).sum = stats.costTotalUsd
  total : stats.costTotalUsd = (db.verdicts.map costOf).sum
  attributed : ∀ row ∈ stats.costByDay, row.costUsd = ((verdictsOn db row.day).map costOf).sum
  days : stats.volumeByDay.map DayVolume.day = stats.costByDay.map DayCost.day
  increasing : (stats.volumeByDay.map DayVolume.day).Pairwise (· < ·)
  means : ∀ row ∈ stats.costByDay, row.alerts ≠ 0 ∧
    row.meanCostUsd = quantizeSix (row.costUsd / row.alerts)

theorem stats_consistent (db : Database) (tokensToday dailyTokenBudget : Nat) :
    Consistent db (getStats db tokensToday dailyTokenBudget) where
  statuses := table_sum _ _ db.alerts
  volumes := volumeByDay_count
  alerts := costByDay_alerts
  severities := (table_sum _ _ _).trans latest_length
  categories := (table_sum _ _ _).trans latest_length
  escalated := List.countP_le_length.trans_eq latest_length
  costs := costByDay_costUsd.trans total_eq.symm
  total := total_eq
  attributed := by
    intro row mem
    rw [(mem_costByDay mem).2]
    exact dayCost_costUsd row.day
  days := days_eq
  increasing := days_increasing
  means := by
    intro row mem
    obtain ⟨active, eq⟩ := mem_costByDay mem
    obtain ⟨a, there, received⟩ := List.mem_map.mp active
    have first : a ∈ receivedOn db row.day :=
      List.mem_filter.mpr ⟨there, decide_eq_true received⟩
    rw [eq]
    refine ⟨?_, rfl⟩
    rw [dayCost_alerts]
    exact (List.length_pos_of_mem first).ne'

end CoreStats
