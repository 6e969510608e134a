import SentinelBrief.Core.AlertsRead

/-!
The list and the detail view agree. The `DISTINCT ON` joins of the list choose, an
alert, the verdict that the detail's own query puts first, and a verdict, the geo
call that the detail's Python code meets first. Both joins have at most one
partner a row, so the pages are a cut of one sorted list of the alerts.
-/
namespace CoreListDetail
open Utf8Text JsonText RelationalQueries CoreAlertsRead

variable {pg : Jsonb} {db : Database} {filters : ListFilters}

theorem newestFirst_tells (a b : VerdictRow) (same : newestFirst a = newestFirst b) :
    a.id = b.id := by
  have pairs : ((a.createdAt, a.id) : Int × Nat) = (b.createdAt, b.id) := same
  exact (Prod.mk.injEq .. ▸ pairs).2

theorem latest_filter (alertId : Nat) :
    (latestVerdicts db).filter (fun v => v.alertId = alertId) =
      (latestVerdict db alertId).toList := by
  have distinct : (db.verdicts.map fun v => toLex (v.alertId, newestFirst v)).Nodup := by
    apply nodup_keys db.verdict_ids
    intro a b same
    have pairs : (a.alertId, newestFirst a) = (b.alertId, newestFirst b) := same
    rw [Prod.mk.injEq] at pairs
    exact newestFirst_tells a b pairs.2
  have own : ((db.verdicts.filter fun v => v.alertId = alertId).map newestFirst).Nodup :=
    (nodup_keys db.verdict_ids newestFirst_tells).sublist (List.filter_sublist.map _)
  rw [latestVerdicts, distinctOn_filter, orderBy_find distinct, latestVerdict]
  congr 2
  apply orderBy_congr own
  intro a mem b mem' le
  have same : a.alertId = b.alertId := by
    rw [of_decide_eq_true (List.mem_filter.mp mem).2, of_decide_eq_true (List.mem_filter.mp mem').2]
  rw [Prod.Lex.toLex_le_toLex, same] at le
  exact le.elim (fun lt => absurd lt (lt_irrefl _)) And.right

theorem base_eq : base db = db.alerts.map fun a => (a, latestVerdict db a.id) := by
  apply outerJoin_eq_map
  intro a _
  exact latest_filter a.id

theorem seqs_distinct (verdictId : Nat) :
    ((db.toolCalls.filter fun c => c.verdictId = verdictId).map ToolCallRow.seq).Nodup := by
  have pairs := db.call_seqs.sublist
    ((List.filter_sublist (p := fun c => decide (c.verdictId = verdictId))).map _)
  apply List.Nodup.map_on _ pairs.of_map
  intro a mem b mem' same
  apply List.inj_on_of_nodup_map pairs mem mem'
  rw [of_decide_eq_true (List.mem_filter.mp mem).2, of_decide_eq_true (List.mem_filter.mp mem').2,
    same]

/-- The first geo call of a verdict by `DISTINCT ON` is the first one in `seq` order. -/
theorem geo_first (verdictId : Nat) :
    (orderBy (fun c => toLex (c.verdictId, c.seq))
        (db.toolCalls.filter fun c => c.toolName = geoToolName)).find?
      (fun c => c.verdictId = verdictId) =
    (toolCallsOf db verdictId).find? fun c => c.toolName = geoToolName := by
  have distinct : ((db.toolCalls.filter fun c => c.toolName = geoToolName).map
      fun c => toLex (c.verdictId, c.seq)).Nodup :=
    db.call_seqs.sublist (List.filter_sublist.map _)
  rw [orderBy_find distinct, toolCallsOf, orderBy_find (seqs_distinct verdictId), List.filter_comm]
  congr 1
  apply orderBy_congr
  · exact (seqs_distinct verdictId).sublist (List.filter_sublist.map _)
  · intro a mem b mem' le
    have own {c : ToolCallRow} (mem : c ∈ (db.toolCalls.filter fun c => c.verdictId = verdictId).filter
        fun c => c.toolName = geoToolName) : c.verdictId = verdictId :=
      of_decide_eq_true (List.mem_filter.mp (List.mem_filter.mp mem).1).2
    rw [Prod.Lex.toLex_le_toLex, own mem, own mem'] at le
    exact le.elim (fun lt => absurd lt (lt_irrefl _)) And.right

theorem geo_filter (verdictId : Nat) :
    (geoCountries pg db).filter (fun g => g.1 = verdictId) =
      (((toolCallsOf db verdictId).find? fun c => c.toolName = geoToolName).map fun c =>
        (c.verdictId, ((Json.obj c.result).get? (str "country")).bind (astext pg))).toList := by
  rw [geoCountries, List.filter_map, ← geo_first]
  rw [show ((fun g : Nat × Option PyStr => decide (g.1 = verdictId)) ∘ fun c : ToolCallRow =>
      (c.verdictId, ((Json.obj c.result).get? (str "country")).bind (astext pg))) =
      fun c => decide (c.verdictId = verdictId) from rfl]
  rw [distinctOn_filter, Option.toList_map]

def countryOf (pg : Jsonb) (db : Database) (v : Option VerdictRow) : Option (Nat × Option PyStr) :=
  v.bind fun v => ((toolCallsOf db v.id).find? fun c => c.toolName = geoToolName).map fun c =>
    (c.verdictId, ((Json.obj c.result).get? (str "country")).bind (astext pg))

theorem withCountry_eq : withCountry pg db =
    db.alerts.map fun a => ((a, latestVerdict db a.id), countryOf pg db (latestVerdict db a.id)) := by
  have joined : withCountry pg db = (base db).map fun row => (row, countryOf pg db row.2) := by
    apply outerJoin_eq_map
    rintro ⟨a, v⟩ _
    cases v with
    | none => exact List.filter_eq_nil_iff.mpr fun g _ => Bool.false_ne_true
    | some v => exact geo_filter v.id
  rw [joined, base_eq, List.map_map]
  rfl

theorem countryCode_first {c : Nat} {rest : PyStr} (small : capital c = false) :
    countryCode (c :: rest) = false := by
  unfold countryCode
  split
  · rename_i a b eq
    rw [(List.cons.inj eq).1] at small
    rw [small, Bool.false_and]
  · rfl

theorem normalizeCountry_astext (pg : Jsonb) (j : Json) :
    normalizeCountry ((astext pg j).map Json.str) = normalizeCountry (some j) := by
  have other (compounded : compound j = true) :
      normalizeCountry (some (.str (pg.text j))) = none := by
    obtain ⟨c, rest, eq, small⟩ := pg.starts j compounded
    rw [normalizeCountry, eq, countryCode_first small]
    rfl
  cases j with
  | null | str => rfl
  | bool b => cases b <;> rfl
  | int | float | arr | obj => exact other rfl

theorem country_agrees (v : Option VerdictRow) :
    normalizeCountry (((countryOf pg db v).bind Prod.snd).map Json.str) =
      normalizeCountry (((traceOf db v).find? fun c => c.toolName = geoToolName).bind
        fun c => (Json.obj c.result).get? (str "country")) := by
  cases v with
  | none => rfl
  | some v =>
    have names : ((fun c : ToolCallOut => decide (c.toolName = geoToolName)) ∘ ToolCallRow.out) =
        fun c => decide (c.toolName = geoToolName) := rfl
    simp only [countryOf, traceOf, Option.bind_some, List.find?_map, names]
    cases (toolCallsOf db v.id).find? fun c => c.toolName = geoToolName with
    | none => rfl
    | some c =>
      simp only [Option.map_some, Option.bind_some, ToolCallRow.out]
      cases (Json.obj c.result).get? (str "country") with
      | none => rfl
      | some j => exact normalizeCountry_astext pg j

def rowOf (pg : Jsonb) (db : Database) (a : AlertRow) : ListRow :=
  ((a, latestVerdict db a.id), countryOf pg db (latestVerdict db a.id))

def matching (db : Database) (filters : ListFilters) : List AlertRow :=
  db.alerts.filter fun a => filters.admits a (latestVerdict db a.id)

theorem rows_eq : (withCountry pg db).filter (fun row => filters.admits row.1.1 row.1.2) =
    (matching db filters).map (rowOf pg db) := by
  rw [withCountry_eq, List.filter_map]
  rfl

theorem total_eq : ((base db).filter fun row => filters.admits row.1 row.2).length =
    (matching db filters).length := by
  rw [base_eq, List.filter_map, List.length_map]
  rfl

def sorted (pg : Jsonb) (db : Database) (filters : ListFilters) : List ListRow :=
  orderBy ListRow.order ((matching db filters).map (rowOf pg db))

theorem listAlerts_eq (page pageSize : Nat) : listAlerts pg db filters page pageSize =
    ((pageOf pageSize (page - 1) (sorted pg db filters)).map ListRow.summary,
      (matching db filters).length) := by
  rw [listAlerts, rows_eq, total_eq]
  rfl

def listing (pg : Jsonb) (db : Database) (filters : ListFilters) (pageSize : Nat) :
    List AlertSummary :=
  let total := (listAlerts pg db filters 1 pageSize).2
  (List.range ((total + pageSize - 1) / pageSize)).flatMap fun i =>
    (listAlerts pg db filters (i + 1) pageSize).1

theorem listing_eq {pageSize : Nat} (positive : 0 < pageSize) :
    listing pg db filters pageSize = (sorted pg db filters).map ListRow.summary := by
  have length : (sorted pg db filters).length = (matching db filters).length := by
    rw [sorted, (orderBy_perm _).length_eq, List.length_map]
  simp only [listing, listAlerts_eq, Nat.add_sub_cancel]
  rw [← List.map_flatMap, ← length, pages_all positive]

theorem getAlertDetail_eq {a : AlertRow} (mem : a ∈ db.alerts) :
    ∃ detail, getAlertDetail db a.id = some detail ∧
      detail.verdict = (latestVerdict db a.id).map VerdictRow.out ∧
      detail.country = normalizeCountry
        (((traceOf db (latestVerdict db a.id)).find? fun c => c.toolName = geoToolName).bind
          fun c => (Json.obj c.result).get? (str "country")) := by
  have found : db.alerts.find? (fun b => b.id = a.id) = some a := find_key db.alert_ids mem
  rw [getAlertDetail, found]
  exact ⟨_, rfl, rfl, rfl⟩

theorem latestVerdict_newest {alertId : Nat} {v : VerdictRow}
    (latest : latestVerdict db alertId = some v) :
    v ∈ db.verdicts ∧ v.alertId = alertId ∧
      ∀ w ∈ db.verdicts, w.alertId = alertId →
        w.createdAt < v.createdAt ∨ w.createdAt = v.createdAt ∧ w.id ≤ v.id := by
  obtain ⟨mem, least⟩ := orderBy_head latest
  obtain ⟨stored, own⟩ := List.mem_filter.mp mem
  refine ⟨stored, of_decide_eq_true own, fun w stored' own' => ?_⟩
  have le := least w (List.mem_filter.mpr ⟨stored', decide_eq_true own'⟩)
  rw [newestFirst, newestFirst, Prod.Lex.toLex_le_toLex, OrderDual.toDual_lt_toDual,
    OrderDual.toDual_le_toDual] at le
  exact le.imp id fun same => ⟨(OrderDual.toDual_inj.mp same.1).symm, same.2⟩

theorem summary_agrees (pg : Jsonb) {a : AlertRow} (mem : a ∈ db.alerts) :
    ∃ detail, getAlertDetail db a.id = some detail ∧
      (rowOf pg db a).summary.verdict = detail.verdict.map VerdictOut.summary ∧
      (rowOf pg db a).summary.country = detail.country ∧
      ∀ v, detail.verdict = some v → ∃ row ∈ db.verdicts, v = row.out ∧ row.alertId = a.id ∧
        ∀ w ∈ db.verdicts, w.alertId = a.id →
          w.createdAt < row.createdAt ∨ w.createdAt = row.createdAt ∧ w.id ≤ row.id := by
  obtain ⟨detail, found, verdict, country⟩ := getAlertDetail_eq mem
  refine ⟨detail, found, ?_, ?_, ?_⟩
  · rw [verdict, Option.map_map]
    rfl
  · rw [country]
    exact country_agrees (latestVerdict db a.id)
  · intro v eq
    rw [verdict, Option.map_eq_some_iff] at eq
    obtain ⟨row, latest, rfl⟩ := eq
    obtain ⟨stored, own, newest⟩ := latestVerdict_newest latest
    exact ⟨row, stored, rfl, own, newest⟩

def Newer (s t : AlertSummary) : Prop :=
  t.receivedAt < s.receivedAt ∨ t.receivedAt = s.receivedAt ∧ t.id < s.id

/-- More severe, a verdict before none; then newer. -/
def Before (s t : AlertSummary) : Prop := match s.verdict, t.verdict with
  | some v, some u => u.severity < v.severity ∨ u.severity = v.severity ∧ Newer s t
  | some _, none => True
  | none, some _ => False
  | none, none => Newer s t

theorem listOrder_lt {x y : Option Nat} {s t : AlertSummary}
    (lt : listOrder x s.receivedAt s.id < listOrder y t.receivedAt t.id) :
    nullsLast y < nullsLast x ∨ nullsLast x = nullsLast y ∧ Newer s t := by
  rw [listOrder, listOrder, Prod.Lex.toLex_lt_toLex, Prod.Lex.toLex_lt_toLex] at lt
  rcases lt with more | ⟨same, later | ⟨equal, larger⟩⟩
  · exact .inl more
  · exact .inr ⟨same, .inl later⟩
  · exact .inr ⟨same, .inr ⟨(OrderDual.toDual_inj.mp equal).symm, larger⟩⟩

theorem before_of_order {a b : ListRow} (lt : a.order < b.order) : Before a.summary b.summary := by
  have lt' := @listOrder_lt _ _ a.summary b.summary lt
  obtain ⟨⟨alert, v⟩, g⟩ := a
  obtain ⟨⟨alert', u⟩, g'⟩ := b
  cases v with
  | none => cases u with
    | none =>
      rcases lt' with more | ⟨-, newer⟩
      · exact absurd more not_lt_bot
      · exact newer
    | some u =>
      rcases lt' with more | ⟨same, -⟩
      · exact absurd more not_lt_bot
      · exact absurd same.symm WithBot.coe_ne_bot
  | some v => cases u with
    | none => trivial
    | some u =>
      rcases lt' with more | ⟨same, newer⟩
      · exact .inl (WithBot.coe_lt_coe.mp more)
      · exact .inr ⟨(WithBot.coe_inj.mp same).symm, newer⟩

theorem sorted_strict : (sorted pg db filters).Pairwise fun a b => a.order < b.order := by
  apply orderBy_strict
  rw [List.map_map]
  have ids : ((matching db filters).map AlertRow.id).Nodup :=
    db.alert_ids.sublist (List.filter_sublist.map _)
  apply nodup_keys ids
  intro a b same
  have parts := toLex.injective same
  rw [Prod.mk.injEq] at parts
  have times := toLex.injective parts.2
  rw [Prod.mk.injEq] at times
  exact OrderDual.toDual_inj.mp times.2

/-- The pages of the list hold every matching alert once and in order, and each of them says what
the detail view says. -/
theorem list_agrees_with_detail (pg : Jsonb) (db : Database) (filters : ListFilters)
    {pageSize : Nat} (positive : 0 < pageSize) :
    (∀ page, (listAlerts pg db filters page pageSize).2 =
      (listing pg db filters pageSize).length) ∧
    ((listing pg db filters pageSize).map AlertSummary.id).Perm
      ((db.alerts.filter fun a => filters.admits a (latestVerdict db a.id)).map AlertRow.id) ∧
    (listing pg db filters pageSize).Pairwise Before ∧
    ∀ s ∈ listing pg db filters pageSize, ∃ detail, getAlertDetail db s.id = some detail ∧
      s.verdict = detail.verdict.map VerdictOut.summary ∧ s.country = detail.country ∧
      ∀ v, detail.verdict = some v → ∃ row ∈ db.verdicts, v = row.out ∧ row.alertId = s.id ∧
        ∀ w ∈ db.verdicts, w.alertId = s.id →
          w.createdAt < row.createdAt ∨ w.createdAt = row.createdAt ∧ w.id ≤ row.id := by
  have perm : (sorted pg db filters).Perm ((matching db filters).map (rowOf pg db)) :=
    orderBy_perm _
  rw [listing_eq positive]
  refine ⟨?_, ?_, ?_, ?_⟩
  · intro page
    rw [listAlerts_eq, List.length_map, perm.length_eq, List.length_map]
  · rw [List.map_map]
    have ids := perm.map (AlertSummary.id ∘ ListRow.summary)
    rwa [List.map_map] at ids
  · rw [List.pairwise_map]
    exact sorted_strict.imp before_of_order
  · intro s mem
    obtain ⟨row, listed, rfl⟩ := List.mem_map.mp mem
    obtain ⟨a, admitted, rfl⟩ := List.mem_map.mp (perm.subset listed)
    have stored : a ∈ db.alerts := (List.mem_filter.mp admitted).1
    exact summary_agrees pg stored

def sampleAlert (id : Nat) (status : WorkerAttempts.AlertStatus) : AlertRow :=
  ⟨id, str "cowrie", 0, id, ⟨str "192.0.2.1", str "s1", []⟩, status⟩

def sampleVerdict (id alertId severity : Nat) (range : 1 ≤ severity ∧ severity ≤ 5) : VerdictRow :=
  ⟨id, alertId, severity, .bruteForce, 1, str "r", str "block", true, str "gpt-4o-mini",
    str "gpt-4o-mini", false, str "v3", none, none, none, none, 0, range⟩

def sampleCall (verdictId seq : Nat) (country : Json) : ToolCallRow :=
  ⟨verdictId, seq, geoToolName, [], [(str "country", country)], none⟩

/-- A pending alert, and one with two verdicts of the same time and two geo calls. -/
def sampleDatabase : Database :=
  { alerts := [sampleAlert 0 .pending, sampleAlert 1 .triaged]
    verdicts := [sampleVerdict 0 1 2 (by decide), sampleVerdict 1 1 4 (by decide)]
    toolCalls := [sampleCall 0 0 (.str (str "FR")), sampleCall 1 1 (.arr []),
      sampleCall 1 0 (.str (str "DE"))]
    alert_ids := by decide
    verdict_ids := by decide
    verdict_alerts := by
      intro v mem
      have own : v.alertId = 1 := by
        rcases List.mem_cons.mp mem with rfl | mem
        · rfl
        · rw [List.mem_singleton.mp mem]
          rfl
      exact ⟨sampleAlert 1 .triaged, by simp, own.symm⟩
    call_seqs := by decide }

def sampleJsonb : Jsonb :=
  { text := fun j => match j with
      | .arr [] => str "[]"
      | _ => str "\x7b\x7d"
    starts := by
      intro j _
      split
      · exact ⟨0x5B, [0x5D], rfl, rfl⟩
      · exact ⟨0x7B, [0x7D], rfl, rfl⟩ }

theorem list_agrees_with_detail_tie :
    (listing sampleJsonb sampleDatabase {} 1).map (fun s => (s.id, s.country)) =
      [(1, some (str "DE")), (0, none)] ∧
    (listing sampleJsonb sampleDatabase {} 1).Pairwise Before := by
  constructor
  · decide +kernel
  · exact (list_agrees_with_detail sampleJsonb sampleDatabase {} Nat.one_pos).2.2.1

end CoreListDetail
