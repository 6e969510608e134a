import SentinelBrief.Worker.Accounting
import SentinelBrief.Worker.AttemptSteps

/-!
Idempotent triage. A verdict is committed only over a pending row, with its
whole tool trace, and makes the row triaged; only a flip makes it pending
again. So verdicts and flips keep step.
-/
namespace WorkerIdempotent
open WorkerPipeline WorkerAccounting WorkerAttempts WorkerSteps StepRuns

variable {cfg : PipelineConfig} {prompt : List ChatMessage} {w w' : Alert} {e : Event}

/-- Every verdict row is there with the whole trace of a run of the pipeline. -/
structure Whole (cfg : PipelineConfig) (prompt : List ChatMessage) (t : Tables) : Prop where
  ids : t.verdicts.map VerdictRow.id = List.range t.verdicts.length
  traces : ∀ v ∈ t.verdicts, ∃ o, Ran cfg prompt o ∧ v = verdictRow v.id o ∧
    t.toolCalls.filter (fun c => c.verdictId == v.id) = toolCallRows v.id o
  owned : ∀ c ∈ t.toolCalls, c.verdictId < t.verdicts.length

structure Counted (t : Tables) (flips : Nat) : Prop where
  verdicts : t.verdicts.length + (if t.status = .pending then 1 else 0) ≤ 1 + flips
  evidence : t.status = .triaged → t.verdicts ≠ []

theorem toolCallRows_owner {id : Nat} {o : TriageOutcome} {c : ToolCallRow}
    (mem : c ∈ toolCallRows id o) : c.verdictId = id := by
  obtain ⟨r, -, rfl⟩ := List.mem_map.mp mem
  rfl

theorem whole_lt {t : Tables} {v : VerdictRow} (whole : Whole cfg prompt t)
    (mem : v ∈ t.verdicts) : v.id < t.verdicts.length := by
  have := List.mem_map_of_mem (f := VerdictRow.id) mem
  rw [whole.ids] at this
  exact List.mem_range.mp this

theorem whole_insert {t : Tables} {o : TriageOutcome} (whole : Whole cfg prompt t)
    (ran : Ran cfg prompt o) :
    Whole cfg prompt ((t.insertVerdict o).insertTrace t.verdicts.length o) := by
  constructor
  · simp [Tables.insertVerdict, Tables.insertTrace, whole.ids, verdictRow, List.range_succ]
  · intro v mem
    simp only [Tables.insertVerdict, Tables.insertTrace, List.mem_append, List.mem_singleton] at mem
    simp only [Tables.insertVerdict, Tables.insertTrace, List.filter_append]
    rcases mem with old | rfl
    · -- the new trace belongs to the new verdict only
      obtain ⟨o', ran', row, trace⟩ := whole.traces v old
      refine ⟨o', ran', row, ?_⟩
      rw [trace, List.append_right_eq_self, List.filter_eq_nil_iff]
      intro c mem
      rw [toolCallRows_owner mem]
      have := whole_lt whole old
      simp only [beq_iff_eq]
      omega
    · refine ⟨o, ran, rfl, ?_⟩
      have before : t.toolCalls.filter (fun c => c.verdictId == t.verdicts.length) = [] := by
        rw [List.filter_eq_nil_iff]
        intro c mem
        have := whole.owned c mem
        simp only [beq_iff_eq]
        omega
      have after : (toolCallRows t.verdicts.length o).filter
          (fun c => c.verdictId == t.verdicts.length) = toolCallRows t.verdicts.length o := by
        rw [List.filter_eq_self]
        intro c mem
        simp [toolCallRows_owner mem]
      simp only [verdictRow, before, after, List.nil_append]
  · intro c mem
    simp only [Tables.insertVerdict, Tables.insertTrace, List.mem_append, List.length_append,
      List.length_singleton] at mem ⊢
    rcases mem with old | new
    · have := whole.owned c old
      omega
    · rw [toolCallRows_owner new]
      omega

theorem whole_committed {t t' : Tables} {n n' : Nat} (whole : Whole cfg prompt t)
    (committed : Committed cfg prompt t n t' n') : Whole cfg prompt t' := by
  cases committed with
  | same => exact whole
  | verdict pending ran => exact whole_insert whole ran
  | failure => exact ⟨whole.ids, whole.traces, whole.owned⟩
  | flip => exact ⟨whole.ids, whole.traces, whole.owned⟩

theorem counted_committed {t t' : Tables} {n n' : Nat} (counted : Counted t n)
    (committed : Committed cfg prompt t n t' n') : Counted t' n' := by
  have bound := counted.verdicts
  cases committed with
  | same => exact counted
  | verdict pending ran =>
    rw [if_pos pending] at bound
    constructor
    · simpa [Tables.insertVerdict, Tables.insertTrace] using bound
    · simp [Tables.insertVerdict, Tables.insertTrace]
  | failure =>
    constructor
    · simp only [Tables.setStatus, reduceCtorEq, if_false]
      split at bound <;> omega
    · simp [Tables.setStatus]
  | flip eligible =>
    rw [if_neg eligible] at bound
    constructor
    · simpa [Tables.setStatus, Nat.add_comm, Nat.add_left_comm] using bound
    · simp [Tables.setStatus]

/-- The run has called no model, written nothing and published nothing. -/
def Quiet (a : Actor) : Prop := a.llmCalls = 0 ∧ a.attemptWrites = 0 ∧ a.publishes = 0

def Found (a : Actor) : Phase → Prop
  | .absent | .opened => Quiet a
  | .locked s => a.found = some s
  | .produced _ | .inserted _ _ | .flushed _ _ | .committed => a.found = some .pending
  | _ => True

structure Fair (a : Actor) : Prop where
  found : Found a a.phase
  quiet : Quiet a ∨ a.found = some .pending

variable {id : Nat} {a : Actor} {p : Phase}

theorem fair_set (fair : ∀ i, Fair (w.actors i)) (new : Fair a) (i : Nat) :
    Fair ((w.set id a).actors i) := by
  by_cases same : i = id
  · simpa [Alert.set, same] using new
  · simpa [Alert.set, same] using fair i

theorem fair_move (fair : ∀ i, Fair (w.actors i)) (found : Found (w.actors id) p) (i : Nat) :
    Fair ((w.move id p).actors i) :=
  fair_set (a := { w.actors id with phase := p }) fair ⟨found, (fair id).quiet⟩ i

theorem found_of_phase (fair : ∀ i, Fair (w.actors i)) (phase : (w.actors id).phase = p) :
    Found (w.actors id) p := by
  rw [← phase]
  exact (fair id).found

theorem took_fair (fair : ∀ i, Fair (w.actors i)) (took : Took cfg prompt w e w') :
    ∀ i, Fair (w'.actors i) := by
  cases took with
  | started => exact fair_set fair ⟨⟨rfl, rfl, rfl⟩, .inl ⟨rfl, rfl, rfl⟩⟩
  | locked phase => exact fair_set fair ⟨rfl, .inl (found_of_phase fair phase)⟩
  | produced phase =>
    have found := found_of_phase fair phase
    exact fair_set fair ⟨found, .inr found⟩
  | stopped phase => exact fair_set fair ⟨trivial, .inr (found_of_phase fair phase)⟩
  | aborted phase spent =>
    rename_i id calls n
    refine fair_set fair ⟨trivial, ?_⟩
    by_cases held : (w.actors id).phase = .locked .pending
    · exact .inr (found_of_phase fair held)
    · simpa [Quiet, spent held] using (fair id).quiet
  | inserted phase =>
    have found := found_of_phase fair phase
    exact fair_set fair ⟨found, .inr found⟩
  | traced phase =>
    have found := found_of_phase fair phase
    exact fair_set fair ⟨found, .inr found⟩
  | committed phase =>
    have found := found_of_phase fair phase
    exact fair_move fair found
  | published phase => exact fair_set fair ⟨trivial, .inr (found_of_phase fair phase)⟩
  | skipped | cancelled | retried | exhausted | looked | wrote | unchanged | failed | requested
  | relocked | refused | flipped | reopened | crashed => exact fair_move fair trivial

structure Idempotent (cfg : PipelineConfig) (prompt : List ChatMessage) (w : Alert) : Prop where
  locks : Locks cfg prompt w
  whole : Whole cfg prompt w.db.row
  counted : Counted w.db.row w.flips
  fair : ∀ i, Fair (w.actors i)

theorem idempotent_start : Idempotent cfg prompt Alert.start where
  locks := locks_start
  whole := ⟨rfl, by simp [Alert.start], by simp [Alert.start]⟩
  counted := ⟨by decide, by simp [Alert.start]⟩
  fair _ := ⟨⟨rfl, rfl, rfl⟩, .inl ⟨rfl, rfl, rfl⟩⟩

theorem idempotent_step (inv : Idempotent cfg prompt w) (taken : step cfg prompt w e = some w') :
    Idempotent cfg prompt w' := by
  have took := took_step taken
  have committed := took_committed inv.locks took
  constructor
  · exact took_locks inv.locks took
  · exact whole_committed inv.whole committed
  · exact counted_committed inv.counted committed
  · exact took_fair inv.fair took

theorem idempotent_reach (reached : Reach (step cfg prompt) anyStep Alert.start w) :
    Idempotent cfg prompt w :=
  reach_invariant (Idempotent cfg prompt) idempotent_start
    (fun _ _ _ inv _ taken => idempotent_step inv taken) reached

def traceSeqs (t : Tables) (id : Nat) : List Nat :=
  (t.toolCalls.filter fun c => c.verdictId == id).map ToolCallRow.seq

theorem seqs_toolCallRows {t : Tables} {o : TriageOutcome} (ran : Ran cfg prompt o)
    (trace : t.toolCalls.filter (fun c => c.verdictId == id) = toolCallRows id o) :
    traceSeqs t id = List.range o.toolCalls.length := by
  obtain ⟨world, s, ran⟩ := ran
  have numbered := runFrom_numbered ran
  rw [traceSeqs, trace, toolCallRows, List.map_map, ← numbered]
  rfl

/-- Overlapping runs, retriage flips, terminal failures and crashes in any order. A run that finds
the row decided spends and announces nothing and its attempt writes nothing; `mark_alert_failed`,
after an attempt that raised, writes in a transaction of its own. -/
theorem triage_idempotent (reached : Reach (step cfg prompt) anyStep Alert.start w) :
    w.db.row.verdicts.length ≤ 1 + w.flips ∧
    (∀ v ∈ w.db.row.verdicts, ∃ o, Ran cfg prompt o ∧ v = verdictRow v.id o ∧
      w.db.row.toolCalls.filter (fun c => c.verdictId == v.id) = toolCallRows v.id o ∧
      traceSeqs w.db.row v.id = List.range o.toolCalls.length) ∧
    (w.db.row.status = .triaged → w.db.row.verdicts ≠ []) ∧
    ∀ i s, (w.actors i).found = some s → s ≠ .pending →
      (w.actors i).llmCalls = 0 ∧ (w.actors i).attemptWrites = 0 ∧ (w.actors i).publishes = 0 := by
  have inv := idempotent_reach reached
  constructor
  · have bound := inv.counted.verdicts
    omega
  constructor
  · intro v mem
    obtain ⟨o, ran, row, trace⟩ := inv.whole.traces v mem
    exact ⟨o, ran, row, trace, seqs_toolCallRows ran trace⟩
  constructor
  · exact inv.counted.evidence
  · intro i s found other
    rcases (inv.fair i).quiet with quiet | pending
    · exact quiet
    · rw [found, Option.some.injEq] at pending
      exact absurd pending other

/-- Two overlapping jobs, the second of which skips, a retriage and a third job. -/
def overlapRun : List Event :=
  [.start 0 false, .start 1 true, .lockRow 0, .runPipeline 0 sampleWorld, .insertVerdict 0,
    .insertTrace 0, .commit 0, .lockRow 1, .publish 0, .skip 1, .startRetriage 2, .lockRetriage 2,
    .flip 2, .commitFlip 2, .start 3 false, .lockRow 3, .runPipeline 3 sampleWorld,
    .insertVerdict 3, .insertTrace 3, .commit 3]

theorem triage_idempotent_overlap :
    ∃ w, Reach (step sampleConfig []) anyStep Alert.start w ∧ w.flips = 1 ∧
      w.db.row.verdicts.length = 2 ∧ w.db.row.toolCalls.length = 4 ∧
      (w.actors 1).found = some .triaged ∧ (w.actors 1).llmCalls = 0 := by
  have taken : (StepRuns.run (step sampleConfig []) Alert.start overlapRun).map (fun w =>
      (w.flips, w.db.row.verdicts.length, w.db.row.toolCalls.length, (w.actors 1).found)) =
      some (1, 2, 4, some .triaged) := by decide +kernel
  obtain ⟨w, taken, eq⟩ := Option.map_eq_some_iff.mp taken
  simp only [Prod.mk.injEq] at eq
  obtain ⟨flips, verdicts, calls, found⟩ := eq
  have reached := run_reaches Reach.start taken
  have quiet := (triage_idempotent reached).2.2.2 1 .triaged found (by decide)
  exact ⟨w, reached, flips, verdicts, calls, found, quiet.1⟩

end WorkerIdempotent
