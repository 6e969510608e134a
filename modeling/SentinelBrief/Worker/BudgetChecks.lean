import SentinelBrief.Worker.Accounting

/-!
The budget check in front of every call: in a run with a budget the calls and the readings of
the daily counter alternate, and each call follows a reading that found tokens left.
-/
namespace WorkerBudgetChecks
open Std.Do Utf8Text JsonText EffectTriples WorkerPipeline
set_option mvcgen.warning false

/-- Every call so far followed a reading of its own, which was below the budget. -/
structure Checked (cfg : PipelineConfig) (world : World) (s : RunState) : Prop where
  reads : s.reads = s.exchanges.length
  under : ∀ i < s.exchanges.length, world.tokensToday i < cfg.dailyTokenBudget

structure Ready (cfg : PipelineConfig) (world : World) (s : RunState) : Prop where
  reads : s.reads = s.exchanges.length + 1
  under : ∀ i < s.exchanges.length + 1, world.tokensToday i < cfg.dailyTokenBudget

/-- No call came after the reading that found the budget spent. -/
inductive Halted (cfg : PipelineConfig) (world : World) (s : RunState) : RunError → Prop where
  | budget (under : ∀ i < s.exchanges.length, world.tokensToday i < cfg.dailyTokenBudget)
      (spent : cfg.dailyTokenBudget ≤ world.tokensToday s.exchanges.length)
      (reads : s.reads = s.exchanges.length + 2) :
      Halted cfg world s (.budgetExceeded (world.tokensToday (s.exchanges.length + 1))
        cfg.dailyTokenBudget)
  | validation {message : PyStr} (checked : Checked cfg world s) :
      Halted cfg world s (.verdictValidation message)
  | call (checked : Checked cfg world s) : Halted cfg world s .llmCall
  | fixture {message : PyStr} (checked : Checked cfg world s) :
      Halted cfg world s (.fixtureMissing message)

variable {cfg : PipelineConfig} {world : World} {s s' : RunState}

theorem checked_of_same (checked : Checked cfg world s) (reads : s'.reads = s.reads)
    (exchanges : s'.exchanges = s.exchanges) : Checked cfg world s' := by
  obtain ⟨counts, under⟩ := checked
  exact ⟨by rw [reads, exchanges, counts], by rwa [exchanges]⟩

theorem checked_of_call {x : Exchange} (ready : Ready cfg world s) (reads : s'.reads = s.reads)
    (exchanges : s'.exchanges = s.exchanges ++ [x]) : Checked cfg world s' := by
  obtain ⟨counts, under⟩ := ready
  constructor
  · rw [reads, exchanges, counts, List.length_append, List.length_singleton]
  · rwa [exchanges, List.length_append, List.length_singleton]

theorem completeStructured_checked (messages : List ChatMessage) (model : PyStr) :
    ⦃fun s => ⌜Ready cfg world s⌝⦄ completeStructured world messages model
    ⦃post⟨fun _ s => ⌜Checked cfg world s⌝, fun _ _ => ⌜False⌝⟩⦄ := by
  mvcgen [completeStructured]
  have ready := ‹Ready cfg world _›
  exact checked_of_call ready rfl rfl

theorem completeWithTools_checked (messages : List ChatMessage) (tools : List PyStr)
    (model : PyStr) :
    ⦃fun s => ⌜Ready cfg world s⌝⦄ completeWithTools world messages tools model
    ⦃post⟨fun _ s => ⌜Checked cfg world s⌝, fun _ _ => ⌜False⌝⟩⦄ := by
  mvcgen [completeWithTools]
  have ready := ‹Ready cfg world _›
  exact checked_of_call ready rfl rfl

theorem recordUsage_checked (u : Usage) :
    ⦃fun s => ⌜Checked cfg world s⌝⦄ recordUsage cfg u
    ⦃post⟨fun _ s => ⌜Checked cfg world s⌝, fun _ _ => ⌜False⌝⟩⦄ := by
  mvcgen [recordUsage]
  have checked := ‹Checked cfg world _›
  exact checked_of_same checked rfl rfl

theorem outcome_checked (r : LlmResult) (model : PyStr) (retried : Bool) :
    ⦃fun s => ⌜Checked cfg world s⌝⦄ outcome cfg r model retried
    ⦃post⟨fun _ s => ⌜Checked cfg world s⌝, fun _ _ => ⌜False⌝⟩⦄ := by
  mvcgen [outcome]

theorem executeCalls_checked (calls : List ToolCallRequest) :
    ⦃fun s => ⌜Checked cfg world s⌝⦄ executeCalls world calls
    ⦃post⟨fun _ s => ⌜Checked cfg world s⌝, fun e s => ⌜Halted cfg world s e⌝⟩⦄ := by
  induction calls with
  | nil => mvcgen [executeCalls]
  | cons call calls ih =>
    mvcgen [executeCalls, executeCall, ih]
    · exact .fixture ‹Checked cfg world _›
    · have checked := ‹Checked cfg world _›
      exact checked_of_same checked rfl rfl

section
variable (wired : cfg.redis = true) (limited : cfg.dailyTokenBudget ≠ 0)
include wired limited

theorem checkBudget_checked :
    ⦃fun s => ⌜Checked cfg world s⌝⦄ checkBudget cfg world
    ⦃post⟨fun _ s => ⌜Ready cfg world s⌝, fun e s => ⌜Halted cfg world s e⌝⟩⦄ := by
  mvcgen [checkBudget, readTokensToday]
  · rename_i s checked spent
    rw [checked.reads] at spent ⊢
    exact .budget checked.under spent rfl
  · rename_i s checked left
    rw [checked.reads] at left
    refine ⟨congrArg Nat.succ checked.reads, fun i lt => ?_⟩
    rcases Nat.lt_succ_iff_lt_or_eq.mp lt with before | rfl
    · exact checked.under i before
    · exact not_le.mp left
  · rename_i idle _ _
    exact absurd ⟨wired, limited⟩ idle

theorem retryOnce_checked (messages : List ChatMessage) (err : StructuredOutputError)
    (model : PyStr) :
    ⦃fun s => ⌜Checked cfg world s⌝⦄ retryOnce cfg world messages err model
    ⦃post⟨fun _ s => ⌜Checked cfg world s⌝, fun e s => ⌜Halted cfg world s e⌝⟩⦄ := by
  mvcgen [retryOnce, checkBudget_checked, completeStructured_checked, recordUsage_checked,
    outcome_checked]
  · have checked := ‹Checked cfg world _›
    exact checked_of_same checked rfl rfl
  · exact .validation ‹Checked cfg world _›
  · exact .call ‹Checked cfg world _›
  · exact id

theorem final_checked (messages : List ChatMessage) (model : PyStr) :
    ⦃fun s => ⌜Checked cfg world s⌝⦄ final cfg world messages model
    ⦃post⟨fun _ s => ⌜Checked cfg world s⌝, fun e s => ⌜Halted cfg world s e⌝⟩⦄ := by
  have retry := @retryOnce_checked cfg world wired limited
  mvcgen [final, checkBudget_checked, completeStructured_checked, recordUsage_checked,
    outcome_checked, retry]
  · exact .call ‹Checked cfg world _›
  · exact id

theorem toolLoop_checked (specs : List PyStr) (turns : Nat) :
    ⦃fun s => ⌜Checked cfg world s⌝⦄ toolLoop cfg world specs turns
    ⦃post⟨fun _ s => ⌜Checked cfg world s⌝, fun e s => ⌜Halted cfg world s e⌝⟩⦄ := by
  have last := @final_checked cfg world wired limited
  have retry := @retryOnce_checked cfg world wired limited
  induction turns with
  | zero =>
    mvcgen [toolLoop, last]
    have checked := ‹Checked cfg world _›
    exact checked_of_same checked rfl rfl
  | succ turns ih =>
    mvcgen [toolLoop, checkBudget_checked, completeWithTools_checked, recordUsage_checked,
      outcome_checked, retry, executeCalls_checked, ih]
    · exact .call ‹Checked cfg world _›
    · exact id
    · have checked := ‹Checked cfg world _›
      exact checked_of_same checked rfl rfl

theorem cheapPass_checked :
    ⦃fun s => ⌜Checked cfg world s⌝⦄ cheapPass cfg world
    ⦃post⟨fun _ s => ⌜Checked cfg world s⌝, fun e s => ⌜Halted cfg world s e⌝⟩⦄ := by
  have last := @final_checked cfg world wired limited
  have loop := @toolLoop_checked cfg world wired limited
  mvcgen [cheapPass, last, loop]

theorem run_checked :
    ⦃fun s => ⌜Checked cfg world s⌝⦄ run cfg world
    ⦃post⟨fun _ s => ⌜Checked cfg world s⌝, fun e s => ⌜Halted cfg world s e⌝⟩⦄ := by
  have last := @final_checked cfg world wired limited
  have cheap := @cheapPass_checked cfg world wired limited
  mvcgen [run, cheap, last]
  have checked := ‹Checked cfg world _›
  exact checked_of_same checked rfl rfl

end

/-- In a run with a budget each call follows a reading of its own that was below the budget, and a
reading at the budget ends the run before any other call. -/
theorem calls_checked (cfg : PipelineConfig) (world : World) (prompt : List ChatMessage)
    (wired : cfg.redis = true) (limited : cfg.dailyTokenBudget ≠ 0) :
    (∀ o, (runFrom cfg world prompt).1 = .ok o →
      Checked cfg world (runFrom cfg world prompt).2) ∧
    ∀ e, (runFrom cfg world prompt).1 = .error e →
      Halted cfg world (runFrom cfg world prompt).2 e := by
  have start : Checked cfg world { messages := prompt } :=
    ⟨rfl, fun i lt => absurd lt (Nat.not_lt_zero i)⟩
  have ends := run_of_triple (@run_checked cfg world wired limited) start
  unfold runFrom
  generalize StateT.run (ExceptT.run (run cfg world)) { messages := prompt } = r at ends ⊢
  obtain ⟨ending, s⟩ := r
  cases ending with
  | ok o => exact ⟨fun _ _ => ends, nofun⟩
  | error e =>
    refine ⟨nofun, fun e' raised => ?_⟩
    cases raised
    exact ends

def sampleConfig : PipelineConfig :=
  { WorkerAccounting.sampleConfig with dailyTokenBudget := 100 }

def sampleWorld : World :=
  { WorkerAccounting.sampleWorld with tokensToday := fun i => 120 * i }

theorem sampleRun_halted :
    (runFrom sampleConfig sampleWorld []).2.exchanges.length = 1 ∧
      (runFrom sampleConfig sampleWorld []).2.reads = 3 := by
  decide +kernel

theorem calls_checked_halted :
    (runFrom sampleConfig sampleWorld []).2.reads = 3 ∧
      ∀ e, (runFrom sampleConfig sampleWorld []).1 = .error e →
        Halted sampleConfig sampleWorld (runFrom sampleConfig sampleWorld []).2 e :=
  ⟨sampleRun_halted.2, (calls_checked sampleConfig sampleWorld [] rfl (by decide)).2⟩

end WorkerBudgetChecks
