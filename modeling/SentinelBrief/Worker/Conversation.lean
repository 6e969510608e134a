import SentinelBrief.Worker.Pipeline

/-!
What a run of the pipeline asks and hears. Each of its parts is described by the
exchanges it adds and by how it ends; the state after it follows from these. The
relations are the only place where the code of the pipeline is executed.
-/
namespace WorkerConversation
open Std.Do Utf8Text JsonText EffectTriples WorkerPipeline
set_option mvcgen.warning false

/-- How a pass ends: the accepted reply and whether it came on the retry. -/
abbrev Ending := Except RunError (LlmResult × Bool)

def retryMessages (msgs : List ChatMessage) (err : StructuredOutputError) : List ChatMessage :=
  msgs ++ [.assistant err.rawText, .user (retryInstruction err.validationError)]

/-- `_retry_once` after the reply `err` to `msgs`. -/
inductive Retrying (msgs : List ChatMessage) (err : StructuredOutputError) (model : PyStr) :
    List Exchange → Ending → Prop where
  | blocked {today budget : Nat} : Retrying msgs err model [] (.error (.budgetExceeded today budget))
  | answered {r : LlmResult} : Retrying msgs err model
      [⟨⟨retryMessages msgs err, [], model⟩, .content (.result r)⟩] (.ok (r, true))
  | invalid {second : StructuredOutputError} : Retrying msgs err model
      [⟨⟨retryMessages msgs err, [], model⟩, .content (.invalid second)⟩]
      (.error (.verdictValidation second.validationError))
  | failed {billed : Option Usage} : Retrying msgs err model
      [⟨⟨retryMessages msgs err, [], model⟩, .content (.failed billed)⟩] (.error .llmCall)

inductive Closing (msgs : List ChatMessage) (model : PyStr) : List Exchange → Ending → Prop where
  | blocked {today budget : Nat} : Closing msgs model [] (.error (.budgetExceeded today budget))
  | answered {r : LlmResult} :
      Closing msgs model [⟨⟨msgs, [], model⟩, .content (.result r)⟩] (.ok (r, false))
  | failed {billed : Option Usage} :
      Closing msgs model [⟨⟨msgs, [], model⟩, .content (.failed billed)⟩] (.error .llmCall)
  | retried {err : StructuredOutputError} {xs : List Exchange} {ending : Ending}
      (retry : Retrying msgs err model xs ending) :
      Closing msgs model (⟨⟨msgs, [], model⟩, .content (.invalid err)⟩ :: xs) ending

section
variable (world : World)

def turnRecords : Nat → List ToolCallRequest → List ToolCallRecord
  | _, [] => []
  | seq, call :: calls =>
    let execution := world.execute seq call.name call.arguments
    ⟨seq, call.name, call.arguments, execution.1, execution.2⟩ :: turnRecords (seq + 1) calls

def turnResults : Nat → List ToolCallRequest → List ChatMessage
  | _, [] => []
  | seq, call :: calls =>
    buildToolResultMessage world call.id (world.execute seq call.name call.arguments).1 ::
      turnResults (seq + 1) calls

end

/-- The tool loop with `turns` turns left, from a conversation and its records to those it
leaves. -/
inductive Looping (cfg : PipelineConfig) (world : World) (specs : List PyStr) :
    Nat → List ChatMessage → List ToolCallRecord → List Exchange → Ending →
      List ChatMessage → List ToolCallRecord → Prop where
  | cap {msgs : List ChatMessage} {recs : List ToolCallRecord} {xs : List Exchange}
      {ending : Ending}
      (closing : Closing (msgs ++ [.user finalVerdictInstruction]) cfg.model xs ending) :
      Looping cfg world specs 0 msgs recs xs ending (msgs ++ [.user finalVerdictInstruction]) recs
  | blocked {turns today budget : Nat} {msgs : List ChatMessage} {recs : List ToolCallRecord} :
      Looping cfg world specs (turns + 1) msgs recs [] (.error (.budgetExceeded today budget))
        msgs recs
  | answered {turns : Nat} {msgs : List ChatMessage} {recs : List ToolCallRecord} {r : LlmResult} :
      Looping cfg world specs (turns + 1) msgs recs
        [⟨⟨msgs, specs, cfg.model⟩, .content (.result r)⟩] (.ok (r, false)) msgs recs
  | failed {turns : Nat} {msgs : List ChatMessage} {recs : List ToolCallRecord}
      {billed : Option Usage} :
      Looping cfg world specs (turns + 1) msgs recs
        [⟨⟨msgs, specs, cfg.model⟩, .content (.failed billed)⟩] (.error .llmCall) msgs recs
  | retried {turns : Nat} {msgs : List ChatMessage} {recs : List ToolCallRecord}
      {err : StructuredOutputError} {xs : List Exchange} {ending : Ending}
      (retry : Retrying msgs err cfg.model xs ending) :
      Looping cfg world specs (turns + 1) msgs recs
        (⟨⟨msgs, specs, cfg.model⟩, .content (.invalid err)⟩ :: xs) ending msgs recs
  | turn {turns : Nat} {msgs msgs' : List ChatMessage} {recs recs' : List ToolCallRecord}
      {calls : List ToolCallRequest} {usage : Usage} {xs : List Exchange} {ending : Ending}
      (later : Looping cfg world specs turns
        (msgs ++ [.toolCalls calls] ++ turnResults world recs.length calls)
        (recs ++ turnRecords world recs.length calls) xs ending msgs' recs') :
      Looping cfg world specs (turns + 1) msgs recs
        (⟨⟨msgs, specs, cfg.model⟩, .turn calls usage⟩ :: xs) ending msgs' recs'
  -- the calls in front of the one without a fixture were executed
  | missing {turns done : Nat} {msgs : List ChatMessage} {recs : List ToolCallRecord}
      {calls : List ToolCallRequest} {usage : Usage} {message : PyStr} :
      Looping cfg world specs (turns + 1) msgs recs
        [⟨⟨msgs, specs, cfg.model⟩, .turn calls usage⟩] (.error (.fixtureMissing message))
        (msgs ++ [.toolCalls calls] ++ turnResults world recs.length (calls.take done))
        (recs ++ turnRecords world recs.length (calls.take done))

def Exchange.counted (x : Exchange) : Nat := match x.reply with
  | .content (.result r) => r.usage.tokens
  | .turn _ usage => usage.tokens
  | _ => 0

def spent (t : Totals) (xs : List Exchange) : Totals :=
  xs.foldl (fun t x => (x.reply.billed.map t.add).getD t) t

structure After (cfg : PipelineConfig) (s : RunState) (msgs : List ChatMessage)
    (recs : List ToolCallRecord) (xs : List Exchange) (s' : RunState) : Prop where
  messages : s'.messages = msgs
  records : s'.records = recs
  seq : s'.seq = recs.length
  exchanges : s'.exchanges = s.exchanges ++ xs
  recorded : s'.recorded = s.recorded + if cfg.redis then (xs.map Exchange.counted).sum else 0

def outcomeOf (cfg : PipelineConfig) (totals : Totals) (recs : List ToolCallRecord) (model : PyStr)
    (accepted : LlmResult × Bool) : TriageOutcome :=
  { verdict := accepted.1.parsed, model := model, promptVersion := cfg.promptVersion,
    inputTokens := totals.inputTokens, outputTokens := totals.outputTokens,
    costUsd := totals.costUsd, latencyMs := totals.latencyMs, retried := accepted.2,
    toolCalls := recs }

variable {cfg : PipelineConfig} {world : World}

theorem checkBudget_spec (s₀ : RunState) :
    ⦃fun s => ⌜s = s₀⌝⦄ checkBudget cfg world
    ⦃post⟨fun _ s => ⌜∃ reads, s = { s₀ with reads := reads }⌝,
      fun e s => ⌜∃ reads today budget, s = { s₀ with reads := reads } ∧
        e = .budgetExceeded today budget⌝⟩⦄ := by
  mvcgen [checkBudget, readTokensToday] <;> subst_vars
  · exact ⟨_, _, _, rfl, rfl⟩
  · exact ⟨_, rfl⟩
  · exact ⟨_, rfl⟩

theorem recordUsage_spec (u : Usage) (s₀ : RunState) :
    ⦃fun s => ⌜s = s₀⌝⦄ recordUsage cfg u
    ⦃post⟨fun _ s => ⌜s = { s₀ with recorded := s₀.recorded + if cfg.redis then u.tokens else 0 }⌝,
      fun _ _ => ⌜False⌝⟩⦄ := by
  mvcgen [recordUsage] <;> subst_vars
  · rename_i on _ _
    rw [if_pos on]
    rfl
  · rename_i off _
    rw [if_neg off]
    rfl

theorem completeStructured_spec (messages : List ChatMessage) (model : PyStr) (s₀ : RunState) :
    ⦃fun s => ⌜s = s₀⌝⦄ completeStructured world messages model
    ⦃post⟨fun reply s => ⌜s = { s₀ with
        exchanges := s₀.exchanges ++ [⟨⟨messages, [], model⟩, .content reply⟩] }⌝,
      fun _ _ => ⌜False⌝⟩⦄ := by
  mvcgen [completeStructured]
  subst_vars
  rfl

theorem completeWithTools_spec (messages : List ChatMessage) (tools : List PyStr) (model : PyStr)
    (s₀ : RunState) :
    ⦃fun s => ⌜s = s₀⌝⦄ completeWithTools world messages tools model
    ⦃post⟨fun reply s => ⌜s = { s₀ with
        exchanges := s₀.exchanges ++ [⟨⟨messages, tools, model⟩, reply⟩] }⌝,
      fun _ _ => ⌜False⌝⟩⦄ := by
  mvcgen [completeWithTools]
  subst_vars
  rfl

theorem outcome_spec (r : LlmResult) (model : PyStr) (retried : Bool) (s₀ : RunState) :
    ⦃fun s => ⌜s = s₀⌝⦄ outcome cfg r model retried
    ⦃post⟨fun o s => ⌜s = s₀ ∧
        o = outcomeOf cfg (s₀.totals.add r.usage) s₀.records model (r, retried)⌝,
      fun _ _ => ⌜False⌝⟩⦄ := by
  mvcgen [outcome]
  subst_vars
  exact ⟨rfl, rfl⟩

theorem after_none {s₀ s : RunState} (counted : s₀.seq = s₀.records.length)
    (same : ∃ reads totals, s = { s₀ with reads := reads, totals := totals }) :
    After cfg s₀ s₀.messages s₀.records [] s := by
  obtain ⟨reads, totals, rfl⟩ := same
  constructor <;> simp [counted]

theorem after_one {s₀ s : RunState} {x : Exchange} (counted : s₀.seq = s₀.records.length)
    (same : ∃ reads totals, s = { s₀ with
      reads := reads, totals := totals, exchanges := s₀.exchanges ++ [x],
      recorded := s₀.recorded + if cfg.redis then Exchange.counted x else 0 }) :
    After cfg s₀ s₀.messages s₀.records [x] s := by
  obtain ⟨reads, totals, rfl⟩ := same
  constructor <;> simp [counted]

theorem after_uncounted {s₀ s : RunState} {x : Exchange} (counted : s₀.seq = s₀.records.length)
    (zero : Exchange.counted x = 0)
    (same : ∃ reads totals, s = { s₀ with
      reads := reads, totals := totals, exchanges := s₀.exchanges ++ [x] }) :
    After cfg s₀ s₀.messages s₀.records [x] s := by
  obtain ⟨reads, totals, rfl⟩ := same
  constructor <;> simp [counted, zero]

theorem after_trans {s₀ s₁ s : RunState} {msgs msgs' : List ChatMessage}
    {recs recs' : List ToolCallRecord} {xs ys : List Exchange} (first : After cfg s₀ msgs recs xs s₁)
    (second : After cfg s₁ msgs' recs' ys s) : After cfg s₀ msgs' recs' (xs ++ ys) s := by
  refine ⟨second.messages, second.records, second.seq, ?_, ?_⟩
  · rw [second.exchanges, first.exchanges, List.append_assoc]
  · rw [second.recorded, first.recorded]
    split
    · simp [Nat.add_assoc]
    · rfl

theorem retryOnce_spec (s₀ : RunState) (counted : s₀.seq = s₀.records.length)
    (msgs : List ChatMessage) (err : StructuredOutputError) (model : PyStr) :
    ⦃fun s => ⌜s = s₀⌝⦄ retryOnce cfg world msgs err model
    ⦃post⟨fun o s => ⌜∃ xs accepted, Retrying msgs err model xs (.ok accepted) ∧
        After cfg s₀ s₀.messages s₀.records xs s ∧
        o = outcomeOf cfg (spent (s₀.totals.add err.usage) xs) s₀.records model accepted⌝,
      fun e s => ⌜∃ xs, Retrying msgs err model xs (.error e) ∧
        After cfg s₀ s₀.messages s₀.records xs s⌝⟩⦄ := by
  mvcgen [retryOnce, checkBudget_spec, completeStructured_spec, recordUsage_spec, outcome_spec]
  · obtain ⟨reads, rfl⟩ := ‹∃ reads, _›
    subst_vars
    exact ⟨_, .invalid, after_uncounted counted rfl ⟨reads, _, rfl⟩⟩
  · obtain ⟨reads, rfl⟩ := ‹∃ reads, _›
    subst_vars
    exact ⟨_, .failed, after_uncounted counted rfl ⟨reads, _, rfl⟩⟩
  · obtain ⟨reads, rfl⟩ := ‹∃ reads, _›
    rintro rfl rfl
    subst_vars
    exact ⟨_, _, .answered, after_one counted ⟨reads, _, rfl⟩, rfl⟩
  · rintro ⟨reads, today, budget, rfl, rfl⟩
    subst_vars
    exact ⟨_, .blocked, after_none counted ⟨reads, _, rfl⟩⟩

theorem final_spec (s₀ : RunState) (counted : s₀.seq = s₀.records.length)
    (msgs : List ChatMessage) (model : PyStr) :
    ⦃fun s => ⌜s = s₀⌝⦄ final cfg world msgs model
    ⦃post⟨fun o s => ⌜∃ xs accepted, Closing msgs model xs (.ok accepted) ∧
        After cfg s₀ s₀.messages s₀.records xs s ∧
        o = outcomeOf cfg (spent s₀.totals xs) s₀.records model accepted⌝,
      fun e s => ⌜∃ xs, Closing msgs model xs (.error e) ∧
        After cfg s₀ s₀.messages s₀.records xs s⌝⟩⦄ := by
  mvcgen [final, checkBudget_spec, completeStructured_spec, recordUsage_spec, outcome_spec,
    retryOnce_spec]
  · rintro ⟨xs, accepted, retry, after, rfl⟩
    obtain ⟨reads, rfl⟩ := ‹∃ reads, _›
    subst_vars
    exact ⟨_, accepted, .retried retry,
      after_trans (after_uncounted counted rfl ⟨reads, _, rfl⟩) after, rfl⟩
  · rintro ⟨xs, retry, after⟩
    obtain ⟨reads, rfl⟩ := ‹∃ reads, _›
    subst_vars
    exact ⟨_, .retried retry, after_trans (after_uncounted counted rfl ⟨reads, _, rfl⟩) after⟩
  · rintro s rfl
    obtain ⟨reads, rfl⟩ := ‹∃ reads, _›
    subst_vars
    exact counted
  · obtain ⟨reads, rfl⟩ := ‹∃ reads, _›
    subst_vars
    exact ⟨_, .failed, after_uncounted counted rfl ⟨reads, _, rfl⟩⟩
  · obtain ⟨reads, rfl⟩ := ‹∃ reads, _›
    rintro rfl rfl
    subst_vars
    exact ⟨_, _, .answered, after_one counted ⟨reads, _, rfl⟩, rfl⟩
  · rintro ⟨reads, today, budget, rfl, rfl⟩
    subst_vars
    exact ⟨_, .blocked, after_none counted ⟨reads, _, rfl⟩⟩

def executed (world : World) (s : RunState) (calls : List ToolCallRequest) : RunState :=
  { s with
    messages := s.messages ++ turnResults world s.records.length calls,
    records := s.records ++ turnRecords world s.records.length calls,
    seq := s.records.length + calls.length }

theorem executeCalls_spec (calls : List ToolCallRequest) (s₀ : RunState)
    (counted : s₀.seq = s₀.records.length) :
    ⦃fun s => ⌜s = s₀⌝⦄ executeCalls world calls
    ⦃post⟨fun _ s => ⌜s = executed world s₀ calls⌝,
      fun e s => ⌜∃ done message, s = executed world s₀ (calls.take done) ∧ e = .fixtureMissing message⌝⟩⦄ := by
  induction calls generalizing s₀ with
  | nil =>
    mvcgen [executeCalls]
    subst_vars
    simp [executed, turnResults, turnRecords, ← counted]
  | cons call calls ih =>
    mvcgen [executeCalls, executeCall, ih] <;> subst_vars
    · refine ⟨0, _, ?_, rfl⟩
      simp [executed, turnResults, turnRecords, ← counted]
    · simp +zetaDelta [counted]
    · rintro rfl
      simp +zetaDelta [executed, turnResults, turnRecords, counted]
      omega
    · rintro ⟨done, message, rfl, rfl⟩
      refine ⟨done + 1, message, ?_, rfl⟩
      simp +zetaDelta [executed, turnResults, turnRecords, counted]
      omega

theorem turnRecords_length (seq : Nat) (calls : List ToolCallRequest) :
    (turnRecords world seq calls).length = calls.length := by
  induction calls generalizing seq with
  | nil => rfl
  | cons call calls ih => simp [turnRecords, ih]

theorem after_turn {s₀ s : RunState} {request : Request} {calls done : List ToolCallRequest}
    {usage : Usage} (same : ∃ reads totals, s = { s₀ with
      reads := reads, totals := totals,
      messages := s₀.messages ++ [.toolCalls calls] ++ turnResults world s₀.records.length done,
      records := s₀.records ++ turnRecords world s₀.records.length done,
      seq := s₀.records.length + done.length,
      exchanges := s₀.exchanges ++ [⟨request, .turn calls usage⟩],
      recorded := s₀.recorded + if cfg.redis then usage.tokens else 0 }) :
    After cfg s₀ (s₀.messages ++ [.toolCalls calls] ++ turnResults world s₀.records.length done)
      (s₀.records ++ turnRecords world s₀.records.length done) [⟨request, .turn calls usage⟩] s := by
  obtain ⟨reads, totals, rfl⟩ := same
  constructor <;> simp [turnRecords_length, Exchange.counted]

theorem toolLoop_spec (specs : List PyStr) (turns : Nat) (s₀ : RunState)
    (counted : s₀.seq = s₀.records.length) :
    ⦃fun s => ⌜s = s₀⌝⦄ toolLoop cfg world specs turns
    ⦃post⟨fun o s => ⌜∃ xs accepted msgs recs,
        Looping cfg world specs turns s₀.messages s₀.records xs (.ok accepted) msgs recs ∧
        After cfg s₀ msgs recs xs s ∧
        o = outcomeOf cfg (spent s₀.totals xs) recs cfg.model accepted⌝,
      fun e s => ⌜∃ xs msgs recs,
        Looping cfg world specs turns s₀.messages s₀.records xs (.error e) msgs recs ∧
        After cfg s₀ msgs recs xs s⌝⟩⦄ := by
  induction turns generalizing s₀ with
  | zero =>
    mvcgen [toolLoop, final_spec] <;> subst_vars
    · exact counted
    · rintro ⟨xs, accepted, closing, after, rfl⟩
      exact ⟨xs, accepted, _, _, .cap closing, ⟨after.1, after.2, after.3, after.4, after.5⟩, rfl⟩
    · rintro ⟨xs, closing, after⟩
      exact ⟨xs, _, _, .cap closing, ⟨after.1, after.2, after.3, after.4, after.5⟩⟩
  | succ turns ih =>
    mvcgen [toolLoop, checkBudget_spec, completeWithTools_spec, recordUsage_spec, outcome_spec,
      retryOnce_spec, executeCalls_spec, ih]
    · rintro ⟨xs, accepted, retry, after, rfl⟩
      obtain ⟨reads, rfl⟩ := ‹∃ reads, _›
      subst_vars
      exact ⟨_, accepted, _, _, .retried retry,
        after_trans (after_uncounted counted rfl ⟨reads, _, rfl⟩) after, rfl⟩
    · rintro ⟨xs, retry, after⟩
      obtain ⟨reads, rfl⟩ := ‹∃ reads, _›
      subst_vars
      exact ⟨_, _, _, .retried retry,
        after_trans (after_uncounted counted rfl ⟨reads, _, rfl⟩) after⟩
    · rintro s rfl
      obtain ⟨reads, rfl⟩ := ‹∃ reads, _›
      subst_vars
      exact counted
    · obtain ⟨reads, rfl⟩ := ‹∃ reads, _›
      subst_vars
      exact ⟨_, _, _, .failed, after_uncounted counted rfl ⟨reads, _, rfl⟩⟩
    · obtain ⟨reads, rfl⟩ := ‹∃ reads, _›
      rintro rfl rfl
      subst_vars
      exact ⟨_, _, _, _, .answered, after_one counted ⟨reads, _, rfl⟩, rfl⟩
    · obtain ⟨reads, rfl⟩ := ‹∃ reads, _›
      subst_vars
      exact counted
    · rintro ⟨xs, accepted, msgs, recs, looping, after, rfl⟩
      obtain ⟨reads, rfl⟩ := ‹∃ reads, _›
      subst_vars
      exact ⟨_, accepted, _, _, .turn looping, after_trans (after_turn ⟨reads, _, rfl⟩) after, rfl⟩
    · rintro ⟨xs, msgs, recs, looping, after⟩
      obtain ⟨reads, rfl⟩ := ‹∃ reads, _›
      subst_vars
      exact ⟨_, _, _, .turn looping, after_trans (after_turn ⟨reads, _, rfl⟩) after⟩
    · rintro s rfl
      obtain ⟨reads, rfl⟩ := ‹∃ reads, _›
      subst_vars
      simp +zetaDelta [executed, turnRecords_length]
    · rintro ⟨done, message, rfl, rfl⟩
      obtain ⟨reads, rfl⟩ := ‹∃ reads, _›
      subst_vars
      exact ⟨_, _, _, .missing, after_turn ⟨reads, _, rfl⟩⟩
    · rintro ⟨reads, today, budget, rfl, rfl⟩
      subst_vars
      exact ⟨_, _, _, .blocked, after_none counted ⟨reads, _, rfl⟩⟩

inductive Passing (cfg : PipelineConfig) (world : World) (prompt : List ChatMessage) :
    List Exchange → Ending → List ChatMessage → List ToolCallRecord → Prop where
  | loop {xs : List Exchange} {ending : Ending} {msgs : List ChatMessage}
      {recs : List ToolCallRecord} (offered : cfg.tools.getD [] ≠ [])
      (looping : Looping cfg world (cfg.tools.getD []) cfg.toolLoopMaxIter prompt [] xs ending
        msgs recs) : Passing cfg world prompt xs ending msgs recs
  | plain {xs : List Exchange} {ending : Ending} (unoffered : cfg.tools.getD [] = [])
      (closing : Closing prompt cfg.model xs ending) : Passing cfg world prompt xs ending prompt []

theorem cheapPass_spec (prompt : List ChatMessage) :
    ⦃fun s => ⌜s = { messages := prompt }⌝⦄ cheapPass cfg world
    ⦃post⟨fun o s => ⌜∃ xs accepted msgs recs,
        Passing cfg world prompt xs (.ok accepted) msgs recs ∧
        After cfg { messages := prompt } msgs recs xs s ∧
        o = outcomeOf cfg (spent {} xs) recs cfg.model accepted⌝,
      fun e s => ⌜∃ xs msgs recs, Passing cfg world prompt xs (.error e) msgs recs ∧
        After cfg { messages := prompt } msgs recs xs s⌝⟩⦄ := by
  mvcgen [cheapPass, toolLoop_spec, final_spec]
  · rename_i offered _ _ _ _
    rintro ⟨xs, accepted, msgs, recs, looping, after, rfl⟩
    subst_vars
    exact ⟨xs, accepted, msgs, recs, .loop offered looping, after, rfl⟩
  · rename_i offered _ _ _ _
    rintro ⟨xs, msgs, recs, looping, after⟩
    subst_vars
    exact ⟨xs, msgs, recs, .loop offered looping, after⟩
  · rintro s rfl
    rfl
  · subst_vars
    rfl
  · rename_i unoffered _ _ _ _
    rintro ⟨xs, accepted, closing, after, rfl⟩
    subst_vars
    exact ⟨xs, accepted, _, _, .plain (not_not.mp unoffered) closing, after, rfl⟩
  · rename_i unoffered _ _ _ _
    rintro ⟨xs, closing, after⟩
    subst_vars
    exact ⟨xs, _, _, .plain (not_not.mp unoffered) closing, after⟩

structure Passed (cfg : PipelineConfig) (world : World) (prompt : List ChatMessage)
    (xs : List Exchange) (accepted : LlmResult × Bool) (msgs : List ChatMessage)
    (recs : List ToolCallRecord) : Prop where
  passing : Passing cfg world prompt xs (.ok accepted) msgs recs
  ran : ∃ s, (cheapPass cfg world).run.run { messages := prompt } =
    (.ok (outcomeOf cfg (spent {} xs) recs cfg.model accepted), s) ∧ s.exchanges = xs

inductive Conversed (cfg : PipelineConfig) (world : World) (prompt : List ChatMessage) :
    List Exchange → Except RunError TriageOutcome → Prop where
  | raised {xs : List Exchange} {e : RunError} {msgs : List ChatMessage}
      {recs : List ToolCallRecord} {s : RunState}
      (passing : Passing cfg world prompt xs (.error e) msgs recs)
      (ran : (cheapPass cfg world).run.run { messages := prompt } = (.error e, s)) :
      Conversed cfg world prompt xs (.error e)
  | cheap {xs : List Exchange} {accepted : LlmResult × Bool} {msgs : List ChatMessage}
      {recs : List ToolCallRecord} (passed : Passed cfg world prompt xs accepted msgs recs)
      (stays : ∀ tier, cfg.strong = some tier → shouldEscalate tier accepted.1.parsed = false) :
      Conversed cfg world prompt xs (.ok (outcomeOf cfg (spent {} xs) recs cfg.model accepted))
  | strongRaised {xs ys : List Exchange} {accepted : LlmResult × Bool} {e : RunError}
      {msgs : List ChatMessage} {recs : List ToolCallRecord} {tier : StrongTier}
      (passed : Passed cfg world prompt xs accepted msgs recs)
      (configured : cfg.strong = some tier)
      (escalates : shouldEscalate tier accepted.1.parsed = true)
      (closing : Closing msgs tier.model ys (.error e)) :
      Conversed cfg world prompt (xs ++ ys) (.error e)
  | strong {xs ys : List Exchange} {accepted final : LlmResult × Bool}
      {msgs : List ChatMessage} {recs : List ToolCallRecord} {tier : StrongTier}
      (passed : Passed cfg world prompt xs accepted msgs recs)
      (configured : cfg.strong = some tier)
      (escalates : shouldEscalate tier accepted.1.parsed = true)
      (closing : Closing msgs tier.model ys (.ok final)) :
      Conversed cfg world prompt (xs ++ ys)
        (.ok { outcomeOf cfg (spent {} (xs ++ ys)) recs tier.model final with
          modelPrimary := some cfg.model, escalatedModel := true,
          retried := accepted.2 || final.2 })

theorem spent_append (t : Totals) (xs ys : List Exchange) :
    spent t (xs ++ ys) = spent (spent t xs) ys := List.foldl_append

theorem after_totals {s₀ s : RunState} {msgs : List ChatMessage} {recs : List ToolCallRecord}
    {xs : List Exchange} (after : After cfg s₀ msgs recs xs s) (totals : Totals) :
    After cfg s₀ msgs recs xs { s with totals := totals } :=
  ⟨after.messages, after.records, after.seq, after.exchanges, after.recorded⟩

theorem passed_of_run {prompt : List ChatMessage} {cheap : TriageOutcome} {s : RunState}
    (ran : (cheapPass cfg world).run.run { messages := prompt } = (.ok cheap, s)) :
    ∃ xs accepted msgs recs, Passed cfg world prompt xs accepted msgs recs ∧
      After cfg { messages := prompt } msgs recs xs s ∧
      cheap = outcomeOf cfg (spent {} xs) recs cfg.model accepted := by
  have ends := run_of_triple (@cheapPass_spec cfg world prompt) rfl
  rw [ran] at ends
  obtain ⟨xs, accepted, msgs, recs, passing, after, rfl⟩ := ends
  exact ⟨xs, accepted, msgs, recs, ⟨passing, s, ran, after.exchanges⟩, after, rfl⟩

theorem run_spec (prompt : List ChatMessage) :
    ⦃fun s => ⌜s = { messages := prompt }⌝⦄ run cfg world
    ⦃post⟨fun o s => ⌜∃ xs msgs recs, Conversed cfg world prompt xs (.ok o) ∧
        After cfg { messages := prompt } msgs recs xs s⌝,
      fun e s => ⌜∃ xs msgs recs, Conversed cfg world prompt xs (.error e) ∧
        After cfg { messages := prompt } msgs recs xs s⌝⟩⦄ := by
  have ran := triple_of_run (cheapPass cfg world)
  mvcgen [run, ran, final_spec] <;> subst_vars
  · rename_i single _ ended
    obtain ⟨xs, accepted, msgs, recs, passed, after, rfl⟩ := passed_of_run ended
    refine ⟨xs, msgs, recs, .cheap passed ?_, after⟩
    intro tier configured
    rw [single] at configured
    cases configured
  · obtain ⟨xs, accepted, msgs, recs, passed, after, rfl⟩ :=
      passed_of_run ‹StateT.run (ExceptT.run (cheapPass cfg world)) _ = _›
    exact after.seq.trans (congrArg List.length after.records).symm
  · obtain ⟨xs, accepted, msgs, recs, passed, after, rfl⟩ :=
      passed_of_run ‹StateT.run (ExceptT.run (cheapPass cfg world)) _ = _›
    obtain ⟨ys, final, closing, later, rfl⟩ := ‹∃ xs accepted, _›
    refine ⟨xs ++ ys, _, _, ?_, after_trans (after_totals after _) later⟩
    have told := Conversed.strong passed ‹cfg.strong = some _› ‹shouldEscalate _ _ = true›
      (after.messages ▸ closing)
    rw [spent_append] at told
    exact told
  · rintro ⟨ys, closing, later⟩
    obtain ⟨xs, accepted, msgs, recs, passed, after, rfl⟩ :=
      passed_of_run ‹StateT.run (ExceptT.run (cheapPass cfg world)) _ = _›
    exact ⟨xs ++ ys, _, _, .strongRaised passed ‹cfg.strong = some _›
      ‹shouldEscalate _ _ = true› (after.messages ▸ closing),
      after_trans (after_totals after _) later⟩
  · rename_i tier configured stays _ ended
    obtain ⟨xs, accepted, msgs, recs, passed, after, rfl⟩ := passed_of_run ended
    refine ⟨xs, msgs, recs, .cheap passed ?_, after⟩
    intro other eq
    rw [configured, Option.some.injEq] at eq
    subst eq
    exact Bool.eq_false_iff.mpr stays
  · intro ended
    have ends := run_of_triple (@cheapPass_spec cfg world prompt) rfl
    rw [ended] at ends
    obtain ⟨xs, msgs, recs, passing, after⟩ := ends
    exact ⟨xs, msgs, recs, .raised passing ended, after⟩

theorem runFrom_conversed {prompt : List ChatMessage} {ending : Except RunError TriageOutcome}
    {s : RunState} (ran : runFrom cfg world prompt = (ending, s)) :
    Conversed cfg world prompt s.exchanges ending ∧
      s.recorded = if cfg.redis then (s.exchanges.map Exchange.counted).sum else 0 := by
  have ends := run_of_triple (@run_spec cfg world prompt) rfl
  unfold runFrom at ran
  rw [ran] at ends
  cases ending with
  | ok o =>
    obtain ⟨xs, msgs, recs, conversed, after⟩ := ends
    have exchanges : s.exchanges = xs := after.exchanges
    have recorded := after.recorded
    rw [← exchanges] at conversed recorded
    exact ⟨conversed, by simpa using recorded⟩
  | error e =>
    obtain ⟨xs, msgs, recs, conversed, after⟩ := ends
    have exchanges : s.exchanges = xs := after.exchanges
    have recorded := after.recorded
    rw [← exchanges] at conversed recorded
    exact ⟨conversed, by simpa using recorded⟩

end WorkerConversation
