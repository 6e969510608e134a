import SentinelBrief.Core.Stats
import SentinelBrief.Library.Dictionary
import SentinelBrief.Library.RoundRobin

/-!
`sample` (`evals/sample.py`) over a fixed database. The random generator draws and
shuffles as it likes. The alert of a row is what its `raw` validates to: its case id,
its sensor and whether it carries instruction-like text.
-/
namespace EvalsSample
open Utf8Text RelationalQueries OrderedDictionary CoreAlertsRead RoundRobin
open WorkerAttempts (AlertStatus)
open CoreStats (dayMicros)

inductive Stratum where
  | category (c : VerdictCategory)
  | injectionCandidate
  | unverdicted
  deriving DecidableEq

structure Candidate where
  caseId : PyStr
  alertId : Nat
  receivedAt : Int
  stratum : Stratum
  sensor : PyStr

/-- The database with what its alerts validate to. The fingerprints are unique. -/
structure Frame where
  db : Database
  caseId : AlertRow → PyStr
  matchesInjectionHint : AlertRow → Bool
  caseIds : (db.alerts.map caseId).Nodup

/-- `random.Random`: some `k` of the members, and some order of them. -/
structure Rng (σ : Type) where
  sample : σ → List Candidate → Nat → List Candidate × σ
  shuffle : σ → List Candidate → List Candidate × σ
  sampled : ∀ s members k, k ≤ members.length →
    (sample s members k).1.length = k ∧ (sample s members k).1.Subperm members
  shuffled : ∀ s members, (shuffle s members).1.Perm members

structure Query where
  n : Nat
  since : Option Int
  excludeCaseIds : List PyStr

def strataCategories : List VerdictCategory :=
  [.scanning, .bruteForce, .reconnaissance, .successfulIntrusion, .malwareDelivery,
    .persistenceAttempt, .other]

def stratumFor (frame : Frame) (a : AlertRow) (category : Option VerdictCategory) : Stratum :=
  if frame.matchesInjectionHint a then .injectionCandidate
  else match category with
    | some c => .category c
    | none => .unverdicted

def latestCreatedAt (db : Database) : List (Nat × Int) :=
  (groupBy VerdictRow.alertId db.verdicts).map fun g =>
    (g.1, (g.2.map VerdictRow.createdAt).max?.getD 0)

/-- Every alert with every verdict of its latest time. -/
def joined (db : Database) : List ((AlertRow × Option (Nat × Int)) × Option VerdictRow) :=
  outerJoin (fun row v => row.2.any fun latest => v.alertId = latest.1 ∧ v.createdAt = latest.2)
    (outerJoin (fun a latest => latest.1 = a.id) db.alerts (latestCreatedAt db)) db.verdicts

def finished (q : Query) (a : AlertRow) : Bool :=
  a.status ∈ [AlertStatus.triaged, .failed] ∧ q.since.all fun since => since ≤ a.receivedAt

def fetchEligible (frame : Frame) (q : Query) : List (AlertRow × Option VerdictCategory) :=
  (orderBy (fun row => toLex (OrderDual.toDual row.1.1.receivedAt, row.1.1.id))
    ((joined frame.db).filter fun row => finished q row.1.1)).map fun row =>
      (row.1.1, row.2.map VerdictRow.category)

def candidateOf (frame : Frame) (a : AlertRow) (category : Option VerdictCategory) : Candidate :=
  { caseId := frame.caseId a, alertId := a.id, receivedAt := a.receivedAt,
    stratum := stratumFor frame a category, sensor := a.raw.sensor }

def eligible (frame : Frame) (q : Query) : List Candidate :=
  ((fetchEligible frame q).map fun row => candidateOf frame row.1 row.2).filter fun c =>
    c.caseId ∉ q.excludeCaseIds

abbrev Selected := Dictionary PyStr Candidate

def select (selected : Selected) (candidates : List Candidate) : Selected :=
  candidates.foldl (fun selected c => put c.caseId c selected) selected

section
variable {σ : Type} (rng : Rng σ)

def draw (s : σ) (members : List Candidate) (k : Nat) : List Candidate × σ :=
  if members.length ≤ k then (members, s) else rng.sample s members k

def selectStratum (members : List Candidate) (target : Nat) (state : Selected × σ) : Selected × σ :=
  if members.isEmpty then state
  else
    let drawn := draw rng state.2 members (min target members.length)
    (select state.1 drawn.1, drawn.2)

def floors (n : Nat) (candidates : List Candidate) (state : Selected × σ) : Selected × σ :=
  strataCategories.foldl (fun state c =>
    selectStratum rng (candidates.filter fun m => m.stratum = .category c) (max 5 (n / 8)) state) state

def injections (n : Nat) (candidates : List Candidate) (state : Selected × σ) : Selected × σ :=
  selectStratum rng (candidates.filter fun m => m.stratum = .injectionCandidate) (n / 4) state

def trim (n : Nat) (state : Selected × σ) : Selected × σ :=
  if n < state.1.length then
    let trimmed := draw rng state.2 (state.1.map Prod.snd) n
    (select [] trimmed.1, trimmed.2)
  else state

def groupKey (c : Candidate) : Lex (PyStr × Int) := toLex (c.sensor, c.receivedAt / dayMicros)

def shuffleAll (s : σ) : List (List Candidate) → List (List Candidate)
  | [] => []
  | group :: groups => (rng.shuffle s group).1 :: shuffleAll (rng.shuffle s group).2 groups

/-- What is selected before the fill, the shuffled groups, and what is left to select. -/
def beforeFill (frame : Frame) (seed : σ) (q : Query) : Selected × List (List Candidate) × Nat :=
  let candidates := eligible frame q
  let state := trim rng q.n (injections rng q.n candidates (floors rng q.n candidates ([], seed)))
  let pool := candidates.filter fun c => c.caseId ∉ keys state.1
  let groups := orderBy Prod.fst (groupBy groupKey pool)
  (state.1, shuffleAll rng state.2 (groups.map Prod.snd), q.n - state.1.length)

/-- None when the fuel of the loop is used up. -/
def sample (fuel : Nat) (frame : Frame) (seed : σ) (q : Query) : Option (List Candidate) :=
  let start := beforeFill rng frame seed q
  if start.2.2 = 0 ∨ start.2.1.isEmpty then some (start.1.map Prod.snd)
  else (roundRobin fuel start.2.1 0 start.2.2).map fun taken => (select start.1 taken).map Prod.snd

end

structure Within (candidates : List Candidate) (selected : Selected) : Prop where
  distinct : Distinct selected
  named : ∀ e ∈ selected, e.1 = e.2.caseId
  listed : ∀ e ∈ selected, e.2 ∈ candidates

theorem within_nil (candidates : List Candidate) : Within candidates [] := by
  constructor <;> simp [Distinct, keys]

theorem select_within {candidates chosen : List Candidate} {selected : Selected}
    (within : Within candidates selected) (inside : ∀ c ∈ chosen, c ∈ candidates) :
    Within candidates (select selected chosen) := by
  induction chosen generalizing selected with
  | nil => exact within
  | cons c chosen ih =>
    apply ih
    · constructor
      · exact distinct_put within.distinct
      · intro e member
        rcases mem_put.mp member with rfl | ⟨_, old⟩
        · rfl
        · exact within.named e old
      · intro e member
        rcases mem_put.mp member with rfl | ⟨_, old⟩
        · exact inside c List.mem_cons_self
        · exact within.listed e old
    · exact fun d member => inside d (List.mem_cons_of_mem _ member)

theorem mem_put_keys {k k' : PyStr} {c : Candidate} {selected : Selected} :
    k' ∈ keys (put k c selected) ↔ k' = k ∨ k' ∈ keys selected := by
  rw [put_keys]
  split
  · constructor
    · exact Or.inr
    · rintro (rfl | old)
      · assumption
      · exact old
  · simp [or_comm]

theorem mem_select_keys {k : PyStr} {chosen : List Candidate} {selected : Selected} :
    k ∈ keys (select selected chosen) ↔ k ∈ keys selected ∨ k ∈ chosen.map Candidate.caseId := by
  induction chosen generalizing selected with
  | nil => simp [select]
  | cons c chosen ih =>
    rw [select, List.foldl_cons, ← select, ih, mem_put_keys, List.map_cons, List.mem_cons]
    tauto

theorem select_length {candidates chosen : List Candidate} {selected : Selected}
    (within : Within candidates selected) (inside : ∀ c ∈ chosen, c ∈ candidates)
    (fresh : ∀ c ∈ chosen, c.caseId ∉ keys selected) :
    (select selected chosen).length = selected.length + (chosen.map Candidate.caseId).dedup.length := by
  have whole := (select_within within inside).distinct
  have apart : (keys selected ++ (chosen.map Candidate.caseId).dedup).Nodup := by
    refine List.nodup_append.mpr ⟨within.distinct, List.nodup_dedup _, ?_⟩
    rintro k old l new rfl
    obtain ⟨c, member, rfl⟩ := List.mem_map.mp (List.mem_dedup.mp new)
    exact fresh c member old
  have perm : (keys (select selected chosen)).Perm
      (keys selected ++ (chosen.map Candidate.caseId).dedup) := by
    rw [List.perm_ext_iff_of_nodup whole apart]
    intro k
    rw [mem_select_keys, List.mem_append, List.mem_dedup]
  have lengths := perm.length_eq
  simpa [keys] using lengths

theorem values_ids {candidates : List Candidate} {selected : Selected}
    (within : Within candidates selected) :
    (selected.map Prod.snd).map Candidate.caseId = keys selected := by
  rw [List.map_map, keys]
  exact List.map_congr_left fun e member => (within.named e member).symm

section Draws
variable {σ : Type} (rng : Rng σ)

theorem draw_subperm (s : σ) (members : List Candidate) (k : Nat) :
    (draw rng s members k).1.Subperm members := by
  unfold draw
  split
  · exact List.Subperm.refl _
  · exact (rng.sampled s members k (by omega)).2

theorem draw_length (s : σ) {members : List Candidate} {k : Nat} (enough : k ≤ members.length) :
    (draw rng s members k).1.length = k := by
  unfold draw
  split
  · exact Nat.le_antisymm ‹_› enough
  · exact (rng.sampled s members k enough).1

theorem selectStratum_within {candidates members : List Candidate} (target : Nat)
    {state : Selected × σ} (within : Within candidates state.1) (inside : members ⊆ candidates) :
    Within candidates (selectStratum rng members target state).1 := by
  unfold selectStratum
  split
  · exact within
  · exact select_within within fun c member => inside ((draw_subperm rng _ _ _).subset member)

theorem floors_within {candidates : List Candidate} (n : Nat) {state : Selected × σ}
    (within : Within candidates state.1) : Within candidates (floors rng n candidates state).1 := by
  unfold floors
  induction strataCategories generalizing state with
  | nil => exact within
  | cons c cs ih =>
    exact ih (selectStratum_within rng _ within fun m member => List.mem_of_mem_filter member)

theorem trim_within {candidates : List Candidate} (n : Nat) {state : Selected × σ}
    (within : Within candidates state.1) :
    Within candidates (trim rng n state).1 ∧ (trim rng n state).1.length ≤ n := by
  unfold trim
  split
  · rename_i above
    have listed : ∀ c ∈ (draw rng state.2 (state.1.map Prod.snd) n).1, c ∈ candidates := by
      intro c member
      obtain ⟨e, old, rfl⟩ := List.mem_map.mp ((draw_subperm rng _ _ _).subset member)
      exact within.listed e old
    refine ⟨select_within (within_nil candidates) listed, ?_⟩
    rw [select_length (within_nil candidates) listed (by simp [keys])]
    have enough : n ≤ (state.1.map Prod.snd).length := by
      rw [List.length_map]
      exact above.le
    have distinct := (List.dedup_sublist
      ((draw rng state.2 (state.1.map Prod.snd) n).1.map Candidate.caseId)).length_le
    rw [List.length_map, draw_length rng state.2 enough] at distinct
    simpa using distinct
  · rename_i below
    exact ⟨within, Nat.not_lt.mp below⟩

theorem shuffleAll_perm (s : σ) (groups : List (List Candidate)) :
    (shuffleAll rng s groups).flatten.Perm groups.flatten := by
  induction groups generalizing s with
  | nil => exact List.Perm.refl _
  | cons group groups ih => exact (rng.shuffled s group).append (ih _)

end Draws

section Rows
variable (frame : Frame) (q : Query)

def eligibleAlerts : List AlertRow :=
  frame.db.alerts.filter fun a => finished q a && decide (frame.caseId a ∉ q.excludeCaseIds)

variable {frame q}

theorem mem_joined {db : Database} {a : AlertRow} :
    (∃ latest v, ((a, latest), v) ∈ joined db) ↔ a ∈ db.alerts := by
  constructor
  · rintro ⟨latest, v, member⟩
    exact mem_outerJoin.mp ⟨latest, mem_outerJoin.mp ⟨v, member⟩⟩
  · intro member
    obtain ⟨latest, row⟩ := mem_outerJoin.mpr member
    obtain ⟨v, whole⟩ := mem_outerJoin.mpr row
    exact ⟨latest, v, whole⟩

theorem mem_fetchEligible {a : AlertRow} {category : Option VerdictCategory} :
    (a, category) ∈ fetchEligible frame q ↔
      finished q a = true ∧ ∃ latest v, ((a, latest), v) ∈ joined frame.db ∧
        v.map VerdictRow.category = category := by
  rw [fetchEligible, List.mem_map]
  constructor
  · rintro ⟨⟨⟨b, latest⟩, v⟩, member, same⟩
    obtain ⟨rfl, rfl⟩ := Prod.mk.inj same
    rw [(orderBy_perm _).mem_iff, List.mem_filter] at member
    exact ⟨member.2, latest, v, member.1, rfl⟩
  · rintro ⟨done, latest, v, member, rfl⟩
    refine ⟨((a, latest), v), ?_, rfl⟩
    rw [(orderBy_perm _).mem_iff, List.mem_filter]
    exact ⟨member, done⟩

theorem eligible_source {c : Candidate} (member : c ∈ eligible frame q) :
    ∃ a ∈ eligibleAlerts frame q, ∃ category, c = candidateOf frame a category := by
  rw [eligible, List.mem_filter, List.mem_map] at member
  obtain ⟨⟨⟨a, category⟩, row, rfl⟩, free⟩ := member
  obtain ⟨done, latest, v, whole, -⟩ := mem_fetchEligible.mp row
  refine ⟨a, ?_, category, rfl⟩
  rw [eligibleAlerts, List.mem_filter, Bool.and_eq_true]
  exact ⟨mem_joined.mp ⟨latest, v, whole⟩, done, free⟩

theorem eligible_all {a : AlertRow} (member : a ∈ eligibleAlerts frame q) :
    ∃ category, candidateOf frame a category ∈ eligible frame q := by
  rw [eligibleAlerts, List.mem_filter, Bool.and_eq_true] at member
  obtain ⟨there, done, free⟩ := member
  obtain ⟨latest, v, whole⟩ := mem_joined.mpr there
  refine ⟨v.map VerdictRow.category, ?_⟩
  rw [eligible, List.mem_filter]
  exact ⟨List.mem_map.mpr ⟨_, mem_fetchEligible.mpr ⟨done, latest, v, whole, rfl⟩, rfl⟩, free⟩

theorem alerts_ids : ((eligibleAlerts frame q).map frame.caseId).Nodup :=
  frame.caseIds.sublist (List.filter_sublist.map _)

theorem eligible_ids : ((eligible frame q).map Candidate.caseId).dedup.Perm
    ((eligibleAlerts frame q).map frame.caseId) := by
  rw [List.perm_ext_iff_of_nodup (List.nodup_dedup _) alerts_ids]
  intro k
  rw [List.mem_dedup, List.mem_map, List.mem_map]
  constructor
  · rintro ⟨c, member, rfl⟩
    obtain ⟨a, there, category, rfl⟩ := eligible_source member
    exact ⟨a, there, rfl⟩
  · rintro ⟨a, there, rfl⟩
    obtain ⟨category, member⟩ := eligible_all there
    exact ⟨_, member, rfl⟩

end Rows

/-- The fill takes no alert twice, or leaves none out. -/
def FairFill (piles : List (List Candidate)) (budget : Nat) : Prop :=
  (((order piles).take budget).map Candidate.caseId).Nodup ∨
    (order piles).map Candidate.caseId ⊆ ((order piles).take budget).map Candidate.caseId

theorem taken_length (ids : List PyStr) (b : Nat) :
    (ids.take b).dedup.length = min b ids.dedup.length ↔
      (ids.take b).Nodup ∨ ids ⊆ ids.take b := by
  have inside : (ids.take b).dedup ⊆ ids.dedup := by
    intro k member
    exact List.mem_dedup.mpr (List.mem_of_mem_take (List.mem_dedup.mp member))
  have below := (List.subperm_of_subset (List.nodup_dedup (ids.take b)) inside).length_le
  have shorter := (List.dedup_sublist (ids.take b)).length_le
  have whole := (List.dedup_sublist ids).length_le
  have cut : (ids.take b).length = min b ids.length := List.length_take
  constructor
  · intro count
    rcases Nat.le_total b ids.dedup.length with few | many
    · left
      have same := (List.dedup_sublist (ids.take b)).eq_of_length (by omega)
      exact List.dedup_eq_self.mp same
    · right
      rw [Nat.min_eq_right many] at count
      have perm := (List.subperm_of_subset (List.nodup_dedup _) inside).perm_of_length_le count.ge
      intro k member
      exact List.mem_dedup.mp (perm.mem_iff.mpr (List.mem_dedup.mpr member))
  · rintro (distinct | all)
    · rw [distinct.dedup, cut]
      rw [distinct.dedup] at below
      omega
    · have back : ids.dedup ⊆ (ids.take b).dedup := by
        intro k member
        exact List.mem_dedup.mpr (all (List.mem_dedup.mp member))
      have above := (List.subperm_of_subset (List.nodup_dedup ids) back).length_le
      omega

section Fill
variable {σ : Type} (rng : Rng σ) (frame : Frame) (seed : σ) (q : Query)

def fill (start : Selected × List (List Candidate) × Nat) : List Candidate :=
  (select start.1 ((order start.2.1).take start.2.2)).map Prod.snd

theorem sample_eq : ∃ bound, ∀ fuel, bound ≤ fuel →
    sample rng fuel frame seed q = some (fill (beforeFill rng frame seed q)) := by
  obtain ⟨bound, ends⟩ := roundRobin_eq (beforeFill rng frame seed q).2.1 (beforeFill rng frame seed q).2.2
  refine ⟨bound, fun fuel enough => ?_⟩
  simp only [sample, fill]
  split
  · rename_i nothing
    have none : (order (beforeFill rng frame seed q).2.1).take (beforeFill rng frame seed q).2.2 = [] := by
      rcases nothing with spent | empty
      · rw [spent, List.take_zero]
      · rw [List.isEmpty_iff.mp empty]
        exact List.take_nil
    rw [none]
    rfl
  · rw [ends fuel enough]
    rfl

theorem beforeFill_within :
    Within (eligible frame q) (beforeFill rng frame seed q).1 ∧
      (beforeFill rng frame seed q).1.length ≤ q.n := by
  have empty : Within (eligible frame q) (([], seed) : Selected × σ).1 := within_nil _
  have inside : ((eligible frame q).filter fun m => m.stratum = .injectionCandidate) ⊆
      eligible frame q := fun m member => List.mem_of_mem_filter member
  have chosen := selectStratum_within rng (q.n / 4) (floors_within rng q.n empty) inside
  exact trim_within rng q.n chosen

theorem beforeFill_piles :
    (order (beforeFill rng frame seed q).2.1).Perm
      ((eligible frame q).filter fun c => c.caseId ∉ keys (beforeFill rng frame seed q).1) := by
  refine (order_perm _).trans ?_
  refine (shuffleAll_perm rng _ _).trans ?_
  rw [← List.flatMap_def]
  exact ((orderBy_perm _).flatMap_right _).trans (groupBy_perm _)

theorem fill_within :
    Within (eligible frame q) (select (beforeFill rng frame seed q).1
      ((order (beforeFill rng frame seed q).2.1).take (beforeFill rng frame seed q).2.2)) := by
  apply select_within (beforeFill_within rng frame seed q).1
  intro c member
  have listed := (beforeFill_piles rng frame seed q).subset (List.mem_of_mem_take member)
  exact List.mem_of_mem_filter listed

theorem alerts_length :
    (eligibleAlerts frame q).length = (beforeFill rng frame seed q).1.length +
      ((order (beforeFill rng frame seed q).2.1).map Candidate.caseId).dedup.length := by
  have within := (beforeFill_within rng frame seed q).1
  have piles := beforeFill_piles rng frame seed q
  have inside : ∀ c ∈ order (beforeFill rng frame seed q).2.1, c ∈ eligible frame q :=
    fun c member => List.mem_of_mem_filter (piles.subset member)
  have fresh : ∀ c ∈ order (beforeFill rng frame seed q).2.1,
      c.caseId ∉ keys (beforeFill rng frame seed q).1 := by
    intro c member
    simpa using (List.mem_filter.mp (piles.subset member)).2
  rw [← select_length within inside fresh]
  have all : (keys (select (beforeFill rng frame seed q).1
      (order (beforeFill rng frame seed q).2.1))).Perm
      ((eligible frame q).map Candidate.caseId).dedup := by
    rw [List.perm_ext_iff_of_nodup (select_within within inside).distinct (List.nodup_dedup _)]
    intro k
    rw [mem_select_keys, List.mem_dedup]
    constructor
    · rintro (old | new)
      · obtain ⟨e, member, rfl⟩ := List.mem_map.mp old
        rw [within.named e member]
        exact List.mem_map_of_mem (within.listed e member)
      · obtain ⟨c, member, rfl⟩ := List.mem_map.mp new
        exact List.mem_map_of_mem (inside c member)
    · intro member
      by_cases old : k ∈ keys (beforeFill rng frame seed q).1
      · exact Or.inl old
      · obtain ⟨c, listed, rfl⟩ := List.mem_map.mp member
        refine Or.inr (List.mem_map_of_mem (piles.mem_iff.mpr ?_))
        rw [List.mem_filter]
        exact ⟨listed, by simpa using old⟩
  have lengths := (all.trans eligible_ids).length_eq
  rw [keys, List.length_map, List.length_map] at lengths
  exact lengths.symm

theorem fill_length : (fill (beforeFill rng frame seed q)).length =
      min q.n (eligibleAlerts frame q).length ↔
    FairFill (beforeFill rng frame seed q).2.1 (beforeFill rng frame seed q).2.2 := by
  have within := beforeFill_within rng frame seed q
  have piles := beforeFill_piles rng frame seed q
  have inside : ∀ c ∈ (order (beforeFill rng frame seed q).2.1).take (beforeFill rng frame seed q).2.2,
      c ∈ (eligible frame q).filter fun c => c.caseId ∉ keys (beforeFill rng frame seed q).1 :=
    fun c member => piles.subset (List.mem_of_mem_take member)
  have count := select_length within.1 (fun c member => List.mem_of_mem_filter (inside c member))
    (fun c member => by simpa using (List.mem_filter.mp (inside c member)).2)
  have budget : (beforeFill rng frame seed q).2.2 = q.n - (beforeFill rng frame seed q).1.length := rfl
  rw [fill, List.length_map, count, alerts_length rng frame seed q, FairFill, List.map_take,
    ← taken_length]
  have room := within.2
  omega

end Fill

def Latest (db : Database) (v : VerdictRow) : Prop :=
  ∀ w ∈ db.verdicts, w.alertId = v.alertId → w.createdAt ≤ v.createdAt

/-- No alert that may be sampled has two verdicts of its latest time. -/
def Untied (frame : Frame) (q : Query) : Prop :=
  ∀ a ∈ eligibleAlerts frame q, ∀ v ∈ frame.db.verdicts, ∀ w ∈ frame.db.verdicts,
    v.alertId = a.id → w.alertId = a.id → Latest frame.db v → Latest frame.db w → v.id = w.id

theorem filter_single {α : Type} {id : α → Nat} {l : List α} (distinct : (l.map id).Nodup)
    {p : α → Bool} (same : ∀ a ∈ l, ∀ b ∈ l, p a = true → p b = true → id a = id b) :
    l.filter p = (l.filter p).head?.toList := by
  cases kept : l.filter p with
  | nil => rfl
  | cons a rest =>
    cases rest with
    | nil => rfl
    | cons b rest =>
      have left := List.mem_filter.mp (kept ▸ List.mem_cons_self : a ∈ l.filter p)
      have right := List.mem_filter.mp
        (kept ▸ List.mem_cons_of_mem _ List.mem_cons_self : b ∈ l.filter p)
      have apart : ((l.filter p).map id).Nodup := distinct.sublist (List.filter_sublist.map _)
      rw [kept, List.map_cons, List.map_cons, List.nodup_cons] at apart
      rw [same a left.1 b right.1 left.2 right.2] at apart
      exact absurd List.mem_cons_self apart.1

theorem latest_max {db : Database} {latest : Nat × Int} (member : latest ∈ latestCreatedAt db)
    {w : VerdictRow} (there : w ∈ db.verdicts) (own : w.alertId = latest.1) :
    w.createdAt ≤ latest.2 := by
  obtain ⟨g, grouped, rfl⟩ := List.mem_map.mp member
  obtain ⟨k, -, rfl⟩ := List.mem_map.mp grouped
  have mine : w.createdAt ∈
      (db.verdicts.filter fun v => v.alertId = k).map VerdictRow.createdAt := by
    apply List.mem_map_of_mem
    rw [List.mem_filter]
    exact ⟨there, by simpa using own⟩
  dsimp only
  cases most : ((db.verdicts.filter fun v => v.alertId = k).map VerdictRow.createdAt).max? with
  | none =>
    rw [List.max?_eq_none_iff] at most
    rw [most] at mine
    cases mine
  | some m => exact (List.max?_eq_some_iff.mp most).2 _ mine

theorem latest_ids (db : Database) : ((latestCreatedAt db).map Prod.fst).Nodup := by
  rw [latestCreatedAt, List.map_map]
  have names : (groupBy VerdictRow.alertId db.verdicts).map Prod.fst =
      (db.verdicts.map VerdictRow.alertId).dedup := groupBy_keys _
  simp only [Function.comp_def]
  rw [names]
  exact List.nodup_dedup _

section Ties
variable {frame : Frame} {q : Query}

def latestFor (db : Database) (a : AlertRow) : Option (Nat × Int) :=
  ((latestCreatedAt db).filter fun latest => latest.1 = a.id).head?

theorem latestFor_id {db : Database} {a : AlertRow} {latest : Nat × Int}
    (found : latestFor db a = some latest) : latest ∈ latestCreatedAt db ∧ latest.1 = a.id := by
  have member := List.mem_filter.mp (List.mem_of_head? found)
  exact ⟨member.1, of_decide_eq_true member.2⟩

theorem joined_untied (untied : Untied frame q) :
    ∃ partner : AlertRow × Option (Nat × Int) → Option VerdictRow,
      (joined frame.db).filter (fun row =>
          finished q row.1.1 && decide (frame.caseId row.1.1 ∉ q.excludeCaseIds)) =
        ((eligibleAlerts frame q).map fun a => (a, latestFor frame.db a)).map
          fun row => (row, partner row) := by
  have inner : outerJoin (fun a latest => decide (latest.1 = a.id)) (eligibleAlerts frame q)
      (latestCreatedAt frame.db) =
        (eligibleAlerts frame q).map fun a => (a, latestFor frame.db a) := by
    apply outerJoin_eq_map
    intro a _
    apply filter_single (latest_ids frame.db)
    intro g _ h _ left right
    exact (of_decide_eq_true left).trans (of_decide_eq_true right).symm
  refine ⟨fun row => (frame.db.verdicts.filter fun v => row.2.any fun latest =>
    v.alertId = latest.1 ∧ v.createdAt = latest.2).head?, ?_⟩
  rw [joined, outerJoin_filter _ fun row : AlertRow × Option (Nat × Int) =>
      finished q row.1 && decide (frame.caseId row.1 ∉ q.excludeCaseIds),
    outerJoin_filter _ fun a =>
      finished q a && decide (frame.caseId a ∉ q.excludeCaseIds), ← eligibleAlerts, inner]
  apply outerJoin_eq_map
  intro row member
  obtain ⟨a, there, rfl⟩ := List.mem_map.mp member
  apply filter_single frame.db.verdict_ids
  intro v mine w other left right
  cases found : latestFor frame.db a with
  | none =>
    rw [found] at left
    cases left
  | some latest =>
    obtain ⟨listed, own⟩ := latestFor_id found
    simp only [found, Option.any_some, decide_eq_true_eq] at left right
    apply untied a there v mine w other (left.1.trans own) (right.1.trans own)
    · intro x here same
      rw [left.2]
      exact latest_max listed here (same.trans left.1)
    · intro x here same
      rw [right.2]
      exact latest_max listed here (same.trans right.1)

theorem eligible_nodup (untied : Untied frame q) :
    ((eligible frame q).map Candidate.caseId).Nodup := by
  obtain ⟨partner, rows⟩ := joined_untied untied
  have perm : ((eligible frame q).map Candidate.caseId).Perm
      ((eligibleAlerts frame q).map frame.caseId) := by
    have listed : (eligible frame q).map Candidate.caseId =
        ((orderBy (fun row => toLex (OrderDual.toDual row.1.1.receivedAt, row.1.1.id))
          ((joined frame.db).filter fun row => finished q row.1.1)).filter fun row =>
            decide (frame.caseId row.1.1 ∉ q.excludeCaseIds)).map fun row =>
              frame.caseId row.1.1 := by
      rw [eligible, fetchEligible, List.map_map, List.filter_map, List.map_map]
      rfl
    rw [listed]
    refine (((orderBy_perm _).filter _).map _).trans ?_
    rw [List.filter_filter, List.filter_congr (fun row _ => Bool.and_comm _ _), rows, List.map_map,
      List.map_map]
    exact List.Perm.refl _
  exact perm.nodup_iff.mpr alerts_ids

end Ties

/-- The candidates are distinct and come from alerts that may be sampled. They are as many as
    asked for, or as there are, exactly when the fill takes no alert twice or leaves none out. -/
theorem sample_exact_iff {σ : Type} (rng : Rng σ) (frame : Frame) (seed : σ) (q : Query) :
    ∃ bound result, (∀ fuel, bound ≤ fuel → sample rng fuel frame seed q = some result) ∧
      (result.map Candidate.caseId).Nodup ∧
      (∀ c ∈ result, ∃ a ∈ eligibleAlerts frame q, ∃ category, c = candidateOf frame a category) ∧
      (result.length = min q.n (eligibleAlerts frame q).length ↔
        FairFill (beforeFill rng frame seed q).2.1 (beforeFill rng frame seed q).2.2) ∧
      (Untied frame q → result.length = min q.n (eligibleAlerts frame q).length) := by
  obtain ⟨bound, ends⟩ := sample_eq rng frame seed q
  have within := fill_within rng frame seed q
  refine ⟨bound, fill (beforeFill rng frame seed q), ends, ?_, ?_, fill_length rng frame seed q, ?_⟩
  · rw [fill, values_ids within]
    exact within.distinct
  · intro c member
    obtain ⟨e, there, rfl⟩ := List.mem_map.mp member
    exact eligible_source (within.listed e there)
  · intro untied
    rw [fill_length]
    left
    have piles := (beforeFill_piles rng frame seed q).map Candidate.caseId
    rw [List.map_take]
    refine List.Nodup.sublist (List.take_sublist _ _) (piles.nodup_iff.mpr ?_)
    exact (eligible_nodup untied).sublist (List.filter_sublist.map _)

def firstRng : Rng Unit where
  sample _ members k := (members.take k, ())
  shuffle _ members := (members, ())
  sampled _ members k enough :=
    ⟨by rw [List.length_take, Nat.min_eq_left enough], (List.take_sublist k members).subperm⟩
  shuffled _ _ := List.Perm.refl _

def tiedAlert (id : Nat) (receivedAt : Int) : AlertRow :=
  { id := id, source := str "cowrie", eventTime := 0, receivedAt := receivedAt,
    raw := ⟨str "1.2.3.4", str "s", []⟩, status := .triaged }

def tiedVerdict (id : Nat) : VerdictRow :=
  { id := id, alertId := 1, severity := 1, category := .scanning, confidence := 1, reasoning := [],
    recommendedAction := [], escalate := false, modelPrimary := [], modelFinal := [],
    escalatedModel := false, promptVersion := [], inputTokens := none, outputTokens := none,
    costUsd := none, latencyMs := none, createdAt := 5, severity_range := by decide }

/-- Two alerts, the older one with two verdicts of one time. -/
def tiedDatabase : Database where
  alerts := [tiedAlert 1 10, tiedAlert 2 20]
  verdicts := [tiedVerdict 1, tiedVerdict 2]
  toolCalls := []
  alert_ids := by decide
  verdict_ids := by decide
  verdict_alerts := by decide
  call_seqs := by decide

def tiedFrame : Frame where
  db := tiedDatabase
  caseId a := [a.id]
  matchesInjectionHint _ := true
  caseIds := by decide

def askTwo : Query := { n := 2, since := none, excludeCaseIds := [] }

/-- Two alerts may be sampled and two are asked for. One comes back. -/
theorem tied_alert_twice :
    (eligibleAlerts tiedFrame askTwo).length = 2 ∧
      ∃ bound, ∀ fuel, bound ≤ fuel →
        (sample firstRng fuel tiedFrame () askTwo).map List.length = some 1 := by
  obtain ⟨bound, ends⟩ := sample_eq firstRng tiedFrame () askTwo
  have one : (fill (beforeFill firstRng tiedFrame () askTwo)).length = 1 := by decide +kernel
  refine ⟨by decide, bound, fun fuel enough => ?_⟩
  rw [ends fuel enough, Option.map_some, one]

end EvalsSample
