import SentinelBrief.Core.Stats
import SentinelBrief.Library.Runs

/-!
`escalationRate` (`web/src/lib/stats.ts`) along the history of a database: ingests,
triage successes, triage failures and retriage flips. The numerator counts the
alerts whose latest verdict escalates, the denominator the alerts that are triaged
now. A flip or a failure takes an alert out of the second set and leaves its
verdicts in place.
-/
namespace CoreEscalationRate
open RelationalQueries StepRuns CoreAlertsRead CoreListDetail CoreStats
open WorkerAttempts (AlertStatus)

/-- `stats.by_status.triaged ?? 0`. -/
def triagedCount (stats : StatsOut) : Nat := valueAt .triaged stats.byStatus

def escalationRate (stats : StatsOut) : Rat :=
  let triaged := triagedCount stats
  if triaged = 0 then 0 else stats.escalatedCount / triaged

def statusOf (db : Database) (id : Nat) : Option AlertStatus :=
  (db.alerts.find? fun a => a.id = id).map AlertRow.status

def withStatus (id : Nat) (status : AlertStatus) (a : AlertRow) : AlertRow :=
  if a.id = id then { a with status := status } else a

theorem withStatus_id (id : Nat) (status : AlertStatus) (a : AlertRow) :
    (withStatus id status a).id = a.id := by
  unfold withStatus
  split <;> rfl

theorem withStatus_ids (id : Nat) (status : AlertStatus) (l : List AlertRow) :
    (l.map (withStatus id status)).map AlertRow.id = l.map AlertRow.id := by
  rw [List.map_map]
  exact List.map_congr_left fun a _ => withStatus_id id status a

def setAlertStatus (db : Database) (id : Nat) (status : AlertStatus) : Database :=
  { db with
    alerts := db.alerts.map (withStatus id status)
    alert_ids := withStatus_ids id status db.alerts ▸ db.alert_ids
    verdict_alerts := by
      intro v mem
      obtain ⟨a, there, eq⟩ := db.verdict_alerts v mem
      exact ⟨_, List.mem_map_of_mem there, (withStatus_id id status a).trans eq⟩ }

/-- The insert of `insert_alert`, under a fresh id. -/
def insertAlert (db : Database) (a : AlertRow) (fresh : a.id ∉ db.alerts.map AlertRow.id) :
    Database :=
  { db with
    alerts := { a with status := .pending } :: db.alerts
    alert_ids := List.nodup_cons.mpr ⟨fresh, db.alert_ids⟩
    verdict_alerts := by
      intro v mem
      obtain ⟨b, there, eq⟩ := db.verdict_alerts v mem
      exact ⟨b, List.mem_cons_of_mem _ there, eq⟩ }

def Storable (db : Database) (v : VerdictRow) (calls : List ToolCallRow) : Prop :=
  v.alertId ∈ db.alerts.map AlertRow.id ∧ v.id ∉ db.verdicts.map VerdictRow.id ∧
    ((calls ++ db.toolCalls).map fun c => (c.verdictId, c.seq)).Nodup

instance (db : Database) (v : VerdictRow) (calls : List ToolCallRow) :
    Decidable (Storable db v calls) :=
  inferInstanceAs (Decidable (_ ∧ _ ∧ _))

def insertVerdict (db : Database) (v : VerdictRow) (calls : List ToolCallRow)
    (storable : Storable db v calls) : Database :=
  { db with
    verdicts := v :: db.verdicts
    toolCalls := calls ++ db.toolCalls
    verdict_ids := List.nodup_cons.mpr ⟨storable.2.1, db.verdict_ids⟩
    verdict_alerts := List.forall_mem_cons.mpr ⟨List.mem_map.mp storable.1, db.verdict_alerts⟩
    call_seqs := storable.2.2 }

inductive Event where
  | ingested (a : AlertRow)
  | duplicate
  | triaged (v : VerdictRow) (calls : List ToolCallRow)
  | failed (id : Nat)
  | retriaged (id : Nat)

def step (db : Database) : Event → Option Database
  | .ingested a =>
    if fresh : a.id ∉ db.alerts.map AlertRow.id then some (insertAlert db a fresh) else none
  | .duplicate => some db
  -- The attempt has held the row since it found the alert pending.
  | .triaged v calls =>
    if storable : Storable db v calls then
      match statusOf db v.alertId with
      | some .pending => some (setAlertStatus (insertVerdict db v calls storable) v.alertId .triaged)
      | _ => none
    else none
  -- `mark_alert_failed` checks no status.
  | .failed id => match statusOf db id with
    | some _ => some (setAlertStatus db id .failed)
    | none => none
  | .retriaged id => match statusOf db id with
    | some .triaged | some .failed => some (setAlertStatus db id .pending)
    | _ => none

def empty : Database :=
  { alerts := [], verdicts := [], toolCalls := []
    alert_ids := List.nodup_nil
    verdict_ids := List.nodup_nil
    verdict_alerts := by
      intro v mem
      cases mem
    call_seqs := List.nodup_nil }

def escalates (db : Database) (id : Nat) : Bool := onVerdict (latestVerdict db id) VerdictRow.escalate

def escalated (db : Database) : List AlertRow := db.alerts.filter fun a => escalates db a.id

def triagedAlerts (db : Database) : List AlertRow := db.alerts.filter fun a => a.status = .triaged

variable {db db' : Database}

theorem latestVerdict_mem {id : Nat} {v : VerdictRow} (latest : latestVerdict db id = some v) :
    v ∈ db.verdicts ∧ v.alertId = id := by
  obtain ⟨mem, -⟩ := orderBy_head latest
  exact ⟨(List.mem_filter.mp mem).1, of_decide_eq_true (List.mem_filter.mp mem).2⟩

theorem escalates_iff {id : Nat} :
    escalates db id = true ↔ ∃ v, latestVerdict db id = some v ∧ v.escalate = true := by
  unfold escalates onVerdict
  cases latestVerdict db id with
  | none => simp
  | some v => simp

theorem escalates_stored {id : Nat} (escalating : escalates db id = true) :
    id ∈ db.alerts.map AlertRow.id := by
  obtain ⟨v, latest, -⟩ := escalates_iff.mp escalating
  obtain ⟨mem, rfl⟩ := latestVerdict_mem latest
  exact List.mem_map.mpr (db.verdict_alerts v mem)

theorem escalated_ids :
    (((latestVerdicts db).filter VerdictRow.escalate).map VerdictRow.alertId).Perm
      ((escalated db).map AlertRow.id) := by
  have apart : (((latestVerdicts db).filter VerdictRow.escalate).map VerdictRow.alertId).Nodup :=
    (distinctOn_nodup _).sublist (List.filter_sublist.map _)
  have apart' : ((escalated db).map AlertRow.id).Nodup :=
    db.alert_ids.sublist (List.filter_sublist.map _)
  rw [List.perm_ext_iff_of_nodup apart apart']
  intro id
  have chosen (v : VerdictRow) :
      (v ∈ latestVerdicts db ∧ v.alertId = id) ↔ latestVerdict db id = some v := by
    rw [← Option.mem_toList, ← latest_filter, List.mem_filter, decide_eq_true_eq]
  constructor
  · intro mem
    obtain ⟨v, counted, own⟩ := List.mem_map.mp mem
    have latest := (chosen v).mp ⟨(List.mem_filter.mp counted).1, own⟩
    have escalating := escalates_iff.mpr ⟨v, latest, (List.mem_filter.mp counted).2⟩
    obtain ⟨a, there, rfl⟩ := List.mem_map.mp (escalates_stored escalating)
    exact List.mem_map.mpr ⟨a, List.mem_filter.mpr ⟨there, escalating⟩, rfl⟩
  · intro mem
    obtain ⟨a, counted, rfl⟩ := List.mem_map.mp mem
    obtain ⟨v, latest, escalate⟩ := escalates_iff.mp (List.mem_filter.mp counted).2
    obtain ⟨there, own⟩ := (chosen v).mpr latest
    exact List.mem_map.mpr ⟨v, List.mem_filter.mpr ⟨there, escalate⟩, own⟩

theorem escalatedCount_eq (tokensToday dailyTokenBudget : Nat) :
    (getStats db tokensToday dailyTokenBudget).escalatedCount = (escalated db).length := by
  have lengths := (@escalated_ids db).length_eq
  rw [List.length_map, List.length_map] at lengths
  rw [← lengths]
  exact List.countP_eq_length_filter

theorem triagedCount_eq (tokensToday dailyTokenBudget : Nat) :
    triagedCount (getStats db tokensToday dailyTokenBudget) = (triagedAlerts db).length :=
  table_valueAt _ _ _ _

/-- What the numerator counts, the denominator counts. -/
def Covered (db : Database) : Prop := ∀ a ∈ db.alerts, escalates db a.id = true → a.status = .triaged

theorem covered_subset : Covered db ↔ escalated db ⊆ triagedAlerts db := by
  constructor
  · intro covered a mem
    obtain ⟨there, escalating⟩ := List.mem_filter.mp mem
    exact List.mem_filter.mpr ⟨there, decide_eq_true (covered a there escalating)⟩
  · intro subset a there escalating
    have counted := subset (List.mem_filter.mpr ⟨there, escalating⟩)
    exact of_decide_eq_true (List.mem_filter.mp counted).2

theorem covered_rate (covered : Covered db) (tokensToday dailyTokenBudget : Nat) :
    0 ≤ escalationRate (getStats db tokensToday dailyTokenBudget) ∧
      escalationRate (getStats db tokensToday dailyTokenBudget) ≤ 1 := by
  have fewer : (escalated db).length ≤ (triagedAlerts db).length := by
    apply List.Subperm.length_le
    exact List.subperm_of_subset (db.alert_ids.of_map.filter _) (covered_subset.mp covered)
  rw [escalationRate, escalatedCount_eq, triagedCount_eq]
  split
  · exact ⟨le_refl 0, zero_le_one⟩
  · rename_i some
    have positive : (0 : Rat) < (triagedAlerts db).length := Nat.cast_pos.mpr (Nat.pos_of_ne_zero some)
    constructor
    · exact div_nonneg (Nat.cast_nonneg _) positive.le
    · exact (div_le_one positive).mpr (Nat.cast_le.mpr fewer)

theorem setAlertStatus_covered {id : Nat} {status : AlertStatus}
    (others : ∀ a ∈ db.alerts, a.id ≠ id → escalates db a.id = true → a.status = .triaged)
    (own : escalates db id = true → status = .triaged) :
    Covered (setAlertStatus db id status) := by
  intro b mem escalating
  obtain ⟨a, there, rfl⟩ := List.mem_map.mp mem
  have same : escalates db a.id = true := withStatus_id id status a ▸ escalating
  unfold withStatus
  split
  · rename_i here
    exact own (here ▸ same)
  · rename_i other
    exact others a there other same

theorem insertVerdict_escalates {v : VerdictRow} {calls : List ToolCallRow}
    (storable : Storable db v calls) {id : Nat} (other : id ≠ v.alertId) :
    escalates (insertVerdict db v calls storable) id = escalates db id := by
  have rest : (v :: db.verdicts).filter (fun w => w.alertId = id) =
      db.verdicts.filter fun w => w.alertId = id :=
    List.filter_cons_of_neg (by simpa using Ne.symm other)
  rw [escalates, latestVerdict, insertVerdict, rest]
  rfl

/-- The alert that an event takes out of the triaged ones, or leaves out of them. -/
def Event.demotes : Event → Option Nat
  | .failed id | .retriaged id => some id
  | _ => none

def Event.spares (db : Database) (e : Event) : Prop := ∀ id ∈ e.demotes, escalates db id = false

theorem demotes_taken {e : Event} {id : Nat} (demotes : e.demotes = some id)
    (taken : step db e = some db') :
    ∃ status ≠ AlertStatus.triaged, db' = setAlertStatus db id status := by
  cases e with
  | ingested | duplicate | triaged => cases demotes
  | failed =>
    cases demotes
    simp only [step] at taken
    split at taken
    · exact ⟨.failed, by decide, (Option.some.inj taken).symm⟩
    · cases taken
  | retriaged =>
    cases demotes
    simp only [step] at taken
    split at taken
    · exact ⟨.pending, by decide, (Option.some.inj taken).symm⟩
    · exact ⟨.pending, by decide, (Option.some.inj taken).symm⟩
    · cases taken

theorem step_covered {e : Event} (covered : Covered db) (spares : e.spares db)
    (taken : step db e = some db') : Covered db' := by
  have spared {id : Nat} (demotes : e.demotes = some id) : Covered db' := by
    obtain ⟨status, -, rfl⟩ := demotes_taken demotes taken
    apply setAlertStatus_covered
    · exact fun a there _ escalating => covered a there escalating
    · intro escalating
      rw [spares id demotes] at escalating
      cases escalating
  cases e with
  | ingested a =>
    simp only [step] at taken
    split at taken
    · rename_i fresh
      cases taken
      intro b mem escalating
      have same : escalates db b.id = true := escalating
      rcases List.mem_cons.mp mem with rfl | old
      · exact absurd (escalates_stored same) fresh
      · exact covered b old same
    · cases taken
  | duplicate =>
    cases taken
    exact covered
  | triaged v calls =>
    simp only [step] at taken
    split at taken
    · rename_i storable
      split at taken
      · cases taken
        apply setAlertStatus_covered
        · intro a there other escalating
          rw [insertVerdict_escalates storable other] at escalating
          exact covered a there escalating
        · exact fun _ => rfl
      · cases taken
    · cases taken
  | failed | retriaged => exact spared rfl

/-- Any other step leaves an alert in the numerator that the denominator does not count. -/
theorem step_exposes {e : Event} (exposes : ¬ e.spares db) (taken : step db e = some db') :
    ¬ Covered db' := by
  simp only [Event.spares, not_forall, Bool.not_eq_false] at exposes
  obtain ⟨id, demotes, escalating⟩ := exposes
  obtain ⟨status, other, rfl⟩ := demotes_taken demotes taken
  obtain ⟨a, there, rfl⟩ := List.mem_map.mp (escalates_stored escalating)
  intro covered
  have demoted := covered _ (List.mem_map_of_mem there) ((withStatus_id _ status a).symm ▸ escalating)
  rw [withStatus, if_pos rfl] at demoted
  exact other demoted

/-- The rate is one as long as no alert with an escalating latest verdict is failed or flipped, and
the step that does so first breaks it. -/
theorem escalation_rate_kept {db : Database} (reached : Reach step (fun db e => e.spares db) empty db)
    (tokensToday dailyTokenBudget : Nat) :
    (0 ≤ escalationRate (getStats db tokensToday dailyTokenBudget) ∧
      escalationRate (getStats db tokensToday dailyTokenBudget) ≤ 1) ∧
    (getStats db tokensToday dailyTokenBudget).escalatedCount = (escalated db).length ∧
    triagedCount (getStats db tokensToday dailyTokenBudget) = (triagedAlerts db).length ∧
    escalated db ⊆ triagedAlerts db ∧
    ∀ e db', step db e = some db' → (e.spares db ↔ escalated db' ⊆ triagedAlerts db') := by
  have covered : Covered db := by
    apply reach_invariant Covered _ _ reached
    · intro a mem
      cases mem
    · exact fun db e db' covered spares taken => step_covered covered spares taken
  refine ⟨covered_rate covered _ _, escalatedCount_eq _ _, triagedCount_eq _ _,
    covered_subset.mp covered, ?_⟩
  intro e db' taken
  rw [← covered_subset]
  constructor
  · exact fun spares => step_covered covered spares taken
  · intro after
    by_contra exposes
    exact step_exposes exposes taken after

instance (db : Database) (e : Event) : Decidable (e.spares db) :=
  inferInstanceAs (Decidable (∀ id ∈ e.demotes, escalates db id = false))

theorem severe : 1 ≤ 4 ∧ 4 ≤ 5 := by
  decide

def spared : List Event :=
  [.ingested (sampleAlert 0 .pending), .ingested (sampleAlert 1 .pending),
    .triaged (sampleVerdict 0 0 4 severe) [], .failed 1, .retriaged 1]

theorem escalation_rate_kept_spared :
    ∃ db, runIf step (fun db e => e.spares db) empty spared = some db ∧
      escalationRate (getStats db 0 0) = 1 ∧ escalated db ⊆ triagedAlerts db := by
  have taken : (runIf step (fun db e => e.spares db) empty spared).isSome := by decide +kernel
  obtain ⟨db, run⟩ := Option.isSome_iff_exists.mp taken
  have rate : ((runIf step (fun db e => e.spares db) empty spared).map fun db =>
      escalationRate (getStats db 0 0)) = some 1 := by decide +kernel
  rw [run] at rate
  have reached := runIf_reaches Reach.start run
  exact ⟨db, run, Option.some.inj rate, (escalation_rate_kept reached 0 0).2.2.2.1⟩

def flipped : List Event :=
  [.ingested (sampleAlert 0 .pending), .ingested (sampleAlert 1 .pending),
    .triaged (sampleVerdict 0 0 4 severe) [], .triaged (sampleVerdict 1 1 4 severe) [],
    .retriaged 0]

theorem escalation_rate_above_one :
    ∃ db, Reach step anyStep empty db ∧ escalationRate (getStats db 0 0) = 2 := by
  have rate : ((run step empty flipped).map fun db => escalationRate (getStats db 0 0)) = some 2 := by
    decide +kernel
  obtain ⟨db, taken, rate⟩ := Option.map_eq_some_iff.mp rate
  exact ⟨db, run_reaches Reach.start taken, rate⟩

end CoreEscalationRate
