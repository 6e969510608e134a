import SentinelBrief.Worker.Conversation

/-!
What a run costs. Its trace holds one record a requested tool call, its totals
are those of all its exchanges, and it makes at most two calls beyond its tool
turns in each tier. The daily counter misses the replies that no `_record_usage`
sees: those that failed validation and those that could not be used.
-/
namespace WorkerAccounting
open Utf8Text JsonText WorkerPipeline WorkerConversation

def requested (x : Exchange) : List ToolCallRequest := match x.reply with
  | .turn calls _ => calls
  | _ => []

variable {cfg : PipelineConfig} {world : World} {specs : List PyStr} {turns : Nat}
  {prompt msgs msgs' : List ChatMessage} {recs recs' : List ToolCallRecord} {xs : List Exchange}
  {ending : Ending} {model : PyStr} {err : StructuredOutputError}

theorem turnRecords_append (seq : Nat) (calls calls' : List ToolCallRequest) :
    turnRecords world seq (calls ++ calls') =
      turnRecords world seq calls ++ turnRecords world (seq + calls.length) calls' := by
  induction calls generalizing seq with
  | nil => rfl
  | cons call calls ih => simp [turnRecords, ih, Nat.add_comm, Nat.add_left_comm]

theorem turnRecords_seq (seq : Nat) (calls : List ToolCallRequest) :
    (turnRecords world seq calls).map (·.seq) = List.range' seq calls.length := by
  induction calls generalizing seq with
  | nil => rfl
  | cons call calls ih => simp [turnRecords, ih, List.range'_succ]

theorem turnRecords_numbered (calls : List ToolCallRequest) :
    Numbered (turnRecords world 0 calls) := by
  rw [Numbered, turnRecords_seq, turnRecords_length, List.range_eq_range']

theorem retrying_requests (retry : Retrying msgs err model xs ending) :
    xs.flatMap requested = [] := by
  cases retry <;> rfl

theorem closing_requests (closing : Closing msgs model xs ending) : xs.flatMap requested = [] := by
  cases closing with
  | blocked | answered | failed => rfl
  | retried retry => simp [requested, retrying_requests retry]

theorem looping_records {a : LlmResult × Bool}
    (looping : Looping cfg world specs turns msgs recs xs ending msgs' recs')
    (accepted : ending = .ok a) :
    recs' = recs ++ turnRecords world recs.length (xs.flatMap requested) := by
  induction looping with
  | cap closing => simp [closing_requests closing, turnRecords]
  | blocked | failed | missing => cases accepted
  | answered => simp [requested, turnRecords]
  | retried retry => simp [requested, retrying_requests retry, turnRecords]
  | turn later ih =>
    rw [ih accepted, List.flatMap_cons, turnRecords_append, List.append_assoc, List.length_append,
      turnRecords_length]
    rfl

theorem passing_records {a : LlmResult × Bool}
    (passing : Passing cfg world prompt xs (.ok a) msgs recs) :
    recs = turnRecords world 0 (xs.flatMap requested) := by
  cases passing with
  | loop offered looping => simpa using looping_records looping rfl
  | plain unoffered closing => simp [closing_requests closing, turnRecords]

theorem conversed_records {o : TriageOutcome} (conversed : Conversed cfg world prompt xs (.ok o)) :
    o.toolCalls = turnRecords world 0 (xs.flatMap requested) := by
  cases conversed with
  | cheap passed => exact passing_records passed.passing
  | strong passed configured escalates closing =>
    rw [List.flatMap_append, closing_requests closing, List.append_nil]
    exact passing_records passed.passing

/-- The strong pass adds no tool calls, so the trace of an outcome is that of the cheap pass. -/
theorem runFrom_numbered {o : TriageOutcome} {s : RunState}
    (ran : runFrom cfg world prompt = (.ok o, s)) : Numbered o.toolCalls := by
  rw [conversed_records (runFrom_conversed ran).1]
  exact turnRecords_numbered _

def accepted (x : Exchange) : Bool := match x.reply with
  | .content (.result _) => true
  | .turn _ _ => true
  | _ => false

theorem counted_eq (x : Exchange) :
    Exchange.counted x = if accepted x then x.tokens else 0 := by
  obtain ⟨request, reply⟩ := x
  cases reply with
  | content reply => cases reply <;> rfl
  | turn calls usage => rfl

theorem counted_sum_iff (xs : List Exchange) :
    (xs.map Exchange.counted).sum ≤ (xs.map Exchange.tokens).sum ∧
      ((xs.map Exchange.counted).sum = (xs.map Exchange.tokens).sum ↔
        ∀ x ∈ xs, accepted x = false → x.tokens = 0) := by
  induction xs with
  | nil => simp
  | cons x xs ih =>
    obtain ⟨le, iff⟩ := ih
    simp only [List.map_cons, List.sum_cons, List.forall_mem_cons, counted_eq, ← iff]
    cases accepted x with
    | true =>
      simp only [if_true, Bool.true_eq_false, false_implies, true_and]
      omega
    | false =>
      simp only [Bool.false_eq_true, if_false, true_implies]
      omega

/-- The counter equals the tokens spent exactly when no refused reply was billed for any. -/
theorem budget_counts_tokens_iff {s : RunState} {ending : Except RunError TriageOutcome}
    (healthy : cfg.redis = true) (ran : runFrom cfg world prompt = (ending, s)) :
    s.recorded = (s.exchanges.map Exchange.tokens).sum ↔
      ∀ x ∈ s.exchanges, accepted x = false → x.tokens = 0 := by
  rw [(runFrom_conversed ran).2, if_pos healthy]
  exact (counted_sum_iff s.exchanges).2

def sampleConfig : PipelineConfig :=
  { model := str "gpt-4o-mini", promptVersion := str "v3", tools := some [str "get_alert_history"],
    toolLoopMaxIter := 5, strong := none, redis := true, dailyTokenBudget := 0,
    loop_pos := by decide }

def sampleUsage : Usage := ⟨100, 20, 0, 7⟩

def sampleVerdict : Verdict := ⟨3, str "brute_force", 1, str "r", str "block", false⟩

/-- Two tool calls in the first turn, then a verdict. -/
def sampleWorld : World :=
  { structured := fun _ _ => .failed none
    withTools := fun before _ => if before.isEmpty then
        .turn [⟨str "c1", str "get_alert_history", .null⟩, ⟨str "c2", str "lookup", .null⟩]
          sampleUsage
      else .content (.result ⟨sampleVerdict, [], sampleUsage⟩)
    execute := fun _ _ _ => (.null, 4)
    tokensToday := fun _ => 0
    dumps := fun _ => [] }

theorem budget_counts_tokens_iff_loop :
    (runFrom sampleConfig sampleWorld []).2.recorded = 240 ∧
    (runFrom sampleConfig sampleWorld []).2.recorded =
      ((runFrom sampleConfig sampleWorld []).2.exchanges.map Exchange.tokens).sum := by
  constructor
  · decide +kernel
  · have counts := @budget_counts_tokens_iff sampleConfig sampleWorld [] _ _ rfl Prod.mk.eta.symm
    exact counts.mpr (by decide +kernel)

def invalidWorld : World :=
  { sampleWorld with
    structured := fun _ _ => (.result ⟨sampleVerdict, [], sampleUsage⟩)
    withTools := fun _ _ => .content (.invalid ⟨str "no", str "not JSON", sampleUsage⟩) }

theorem budget_misses_tokens :
    (runFrom sampleConfig invalidWorld []).2.recorded = 120 ∧
    ((runFrom sampleConfig invalidWorld []).2.exchanges.map Exchange.tokens).sum = 240 := by
  decide +kernel

def usageOf (x : Exchange) : Usage := x.reply.billed.getD ⟨0, 0, 0, 0⟩

theorem spent_eq (t : Totals) (xs : List Exchange) :
    spent t xs =
      { inputTokens := t.inputTokens + (xs.map fun x => (usageOf x).inputTokens).sum
        outputTokens := t.outputTokens + (xs.map fun x => (usageOf x).outputTokens).sum
        costUsd := t.costUsd + (xs.map fun x => (usageOf x).costUsd).sum
        latencyMs := t.latencyMs + (xs.map fun x => (usageOf x).latencyMs).sum } := by
  induction xs generalizing t with
  | nil => simp [spent]
  | cons x xs ih =>
    have first : spent t (x :: xs) = spent ((x.reply.billed.map t.add).getD t) xs := rfl
    rw [first, ih]
    cases billed : x.reply.billed with
    | none => simp [usageOf, billed]
    | some u => simp [usageOf, billed, Totals.add, add_assoc]

theorem conversed_totals {o : TriageOutcome} (conversed : Conversed cfg world prompt xs (.ok o)) :
    (⟨o.inputTokens, o.outputTokens, o.costUsd, o.latencyMs⟩ : Totals) = spent {} xs := by
  cases conversed <;> rfl

def EndsWith (xs : List Exchange) (r : LlmResult) : Prop :=
  ∃ before request, xs = before ++ [⟨request, .content (.result r)⟩]

theorem endsWith_cons {x : Exchange} {r : LlmResult} (ends : EndsWith xs r) :
    EndsWith (x :: xs) r := by
  obtain ⟨before, request, rfl⟩ := ends
  exact ⟨x :: before, request, rfl⟩

theorem retrying_ends {a : LlmResult × Bool} (retry : Retrying msgs err model xs (.ok a)) :
    EndsWith xs a.1 := by
  cases retry
  exact ⟨[], _, rfl⟩

theorem closing_ends {a : LlmResult × Bool} (closing : Closing msgs model xs (.ok a)) :
    EndsWith xs a.1 := by
  cases closing with
  | answered => exact ⟨[], _, rfl⟩
  | retried retry => exact endsWith_cons (retrying_ends retry)

theorem looping_ends {a : LlmResult × Bool}
    (looping : Looping cfg world specs turns msgs recs xs ending msgs' recs')
    (accepted : ending = .ok a) : EndsWith xs a.1 := by
  induction looping with
  | cap closing => exact closing_ends (accepted ▸ closing)
  | blocked | failed | missing => cases accepted
  | answered =>
    cases accepted
    exact ⟨[], _, rfl⟩
  | retried retry => exact endsWith_cons (retrying_ends (accepted ▸ retry))
  | turn later ih => exact endsWith_cons (ih accepted)

theorem passing_ends {a : LlmResult × Bool}
    (passing : Passing cfg world prompt xs (.ok a) msgs recs) : EndsWith xs a.1 := by
  cases passing with
  | loop offered looping => exact looping_ends looping rfl
  | plain unoffered closing => exact closing_ends closing

theorem conversed_ends {o : TriageOutcome} (conversed : Conversed cfg world prompt xs (.ok o)) :
    ∃ r, EndsWith xs r ∧ o.verdict = r.parsed := by
  cases conversed with
  | cheap passed => exact ⟨_, passing_ends passed.passing, rfl⟩
  | strong passed configured escalates closing =>
    obtain ⟨before, request, rfl⟩ := closing_ends closing
    exact ⟨_, ⟨_, request, (List.append_assoc _ _ _).symm⟩, rfl⟩

theorem retrying_length (retry : Retrying msgs err model xs ending) : xs.length ≤ 1 := by
  cases retry <;> simp

theorem closing_length (closing : Closing msgs model xs ending) : xs.length ≤ 2 := by
  cases closing with
  | blocked | answered | failed => simp
  | retried retry =>
    have := retrying_length retry
    simpa using this

theorem looping_length (looping : Looping cfg world specs turns msgs recs xs ending msgs' recs') :
    xs.length ≤ turns + 2 := by
  induction looping with
  | cap closing => simpa using closing_length closing
  | blocked | answered | failed | missing => simp
  | retried retry =>
    have := retrying_length retry
    simp only [List.length_cons]
    omega
  | turn later ih =>
    simp only [List.length_cons]
    omega

theorem passing_length (passing : Passing cfg world prompt xs ending msgs recs) :
    xs.length ≤ cfg.toolLoopMaxIter + 2 := by
  cases passing with
  | loop offered looping => exact looping_length looping
  | plain unoffered closing =>
    have := closing_length closing
    omega

theorem conversed_length {ending : Except RunError TriageOutcome}
    (conversed : Conversed cfg world prompt xs ending) :
    xs.length ≤ cfg.toolLoopMaxIter + if cfg.strong.isSome then 4 else 2 := by
  cases conversed with
  | raised passing =>
    have := passing_length passing
    split <;> omega
  | cheap passed =>
    have := passing_length passed.passing
    split <;> omega
  | strongRaised passed configured escalates closing
  | strong passed configured escalates closing =>
    have cheap := passing_length passed.passing
    have strong := closing_length closing
    simp only [List.length_append, configured, Option.isSome_some, if_true]
    omega

theorem conversed_routed {o : TriageOutcome} (conversed : Conversed cfg world prompt xs (.ok o)) :
    ∃ cheap s', (cheapPass cfg world).run.run { messages := prompt } = (.ok cheap, s') ∧
      (o.escalatedModel = true ↔
        ∃ tier, cfg.strong = some tier ∧ shouldEscalate tier cheap.verdict = true) ∧
      ∀ tier, cfg.strong = some tier → o.escalatedModel = true →
        o.model = tier.model ∧ o.modelPrimary = some cfg.model := by
  cases conversed with
  | cheap passed stays =>
    obtain ⟨s', ran, -⟩ := passed.ran
    refine ⟨_, s', ran, ⟨fun eq => (by cases eq), ?_⟩, fun tier configured eq => (by cases eq)⟩
    rintro ⟨tier, configured, escalates⟩
    cases (stays tier configured).symm.trans escalates
  | strong passed configured escalates closing =>
    obtain ⟨s', ran, -⟩ := passed.ran
    refine ⟨_, s', ran, ⟨fun _ => ⟨_, configured, escalates⟩, fun _ => rfl⟩, fun other eq _ => ?_⟩
    rw [configured, Option.some.injEq] at eq
    subst eq
    exact ⟨rfl, rfl⟩

/-- Everything an outcome says of the calls of its run. -/
theorem run_accounted {o : TriageOutcome} {s : RunState}
    (ran : runFrom cfg world prompt = (.ok o, s)) :
    o.inputTokens = (s.exchanges.map fun x => (usageOf x).inputTokens).sum ∧
    o.outputTokens = (s.exchanges.map fun x => (usageOf x).outputTokens).sum ∧
    o.costUsd = (s.exchanges.map fun x => (usageOf x).costUsd).sum ∧
    o.latencyMs = (s.exchanges.map fun x => (usageOf x).latencyMs).sum ∧
    s.exchanges.length ≤ cfg.toolLoopMaxIter + (if cfg.strong.isSome then 4 else 2) ∧
    o.toolCalls = turnRecords world 0 (s.exchanges.flatMap requested) ∧ Numbered o.toolCalls ∧
    (∃ r, EndsWith s.exchanges r ∧ o.verdict = r.parsed) ∧
    ∃ cheap s', (cheapPass cfg world).run.run { messages := prompt } = (.ok cheap, s') ∧
      (o.escalatedModel = true ↔
        ∃ tier, cfg.strong = some tier ∧ shouldEscalate tier cheap.verdict = true) ∧
      ∀ tier, cfg.strong = some tier → o.escalatedModel = true →
        o.model = tier.model ∧ o.modelPrimary = some cfg.model := by
  have conversed := (runFrom_conversed ran).1
  have totals := (conversed_totals conversed).trans (spent_eq {} s.exchanges)
  simp only [Totals.mk.injEq, zero_add] at totals
  obtain ⟨input, output, cost, latency⟩ := totals
  exact ⟨input, output, cost, latency, conversed_length conversed, conversed_records conversed,
    runFrom_numbered ran, conversed_ends conversed, conversed_routed conversed⟩

def strongConfig : PipelineConfig :=
  { sampleConfig with strong := some ⟨str "gpt-4o", 3, 0⟩ }

/-- A tool turn, a reply that fails validation, its retry and the strong verdict. -/
def strongWorld : World :=
  { invalidWorld with
    withTools := fun before request =>
      if before.isEmpty then sampleWorld.withTools before request
      else .content (.invalid ⟨str "no", str "not JSON", sampleUsage⟩) }

theorem run_accounted_escalated :
    ∃ o s, runFrom strongConfig strongWorld [] = (.ok o, s) ∧ o.escalatedModel = true ∧
      s.exchanges.length = 4 ∧ o.inputTokens = 400 ∧ o.toolCalls.length = 2 ∧
      o.inputTokens = (s.exchanges.map fun x => (usageOf x).inputTokens).sum := by
  have facts : (runFrom strongConfig strongWorld []).1.toOption.map (fun o =>
        (o.escalatedModel, o.inputTokens, o.toolCalls.length)) = some (true, 400, 2) ∧
      (runFrom strongConfig strongWorld []).2.exchanges.length = 4 := by decide +kernel
  rcases ran : runFrom strongConfig strongWorld [] with ⟨ending, s⟩
  rw [ran] at facts
  obtain ⟨outcome, calls⟩ := facts
  cases ending with
  | error e => cases outcome
  | ok o =>
    simp only [Except.toOption, Option.map_some, Option.some.injEq, Prod.mk.injEq] at outcome
    obtain ⟨escalated, tokens, records⟩ := outcome
    exact ⟨o, s, rfl, escalated, calls, tokens, records, (run_accounted ran).1⟩

end WorkerAccounting
