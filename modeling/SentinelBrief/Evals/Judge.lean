import SentinelBrief.Evals.Scoring
import SentinelBrief.Worker.Pipeline

/-!
The judging of the cases of a run (`evals/judge.py`, `evals/run.py`). The judge
answers each call as it likes; the messages that `build_judge_messages` makes and
the triage of a case are given.
-/
namespace EvalsJudge
open Utf8Text EvalsScoring
open WorkerPipeline (Usage StructuredOutputError ChatMessage retryInstruction)

inductive JudgeReply where
  | result (parsed : JudgeScore) (usage : Usage)
  | invalid (err : StructuredOutputError)
  /-- `LLMCallError`; a reply without content was answered and priced. -/
  | failed (billed : Option Usage)

abbrev Judge := List ChatMessage → JudgeReply

structure JudgeOutcome where
  score : JudgeScore
  model : PyStr
  promptVersion : PyStr
  inputTokens : Nat
  outputTokens : Nat
  costUsd : Rat
  latencyMs : Nat

inductive JudgeError where
  | verdictValidation (lastError : PyStr) (cause : StructuredOutputError)
  | llmCall

structure JudgeConfig where
  model : PyStr
  promptVersion : PyStr

def retryMessages (messages : List ChatMessage) (err : StructuredOutputError) : List ChatMessage :=
  messages ++ [.assistant err.rawText, .user (retryInstruction err.validationError)]

def judgeCase (cfg : JudgeConfig) (llm : Judge) (messages : List ChatMessage) :
    Except JudgeError JudgeOutcome × List JudgeReply :=
  match llm messages with
  | .failed billed => (.error .llmCall, [.failed billed])
  | .result parsed usage =>
    (.ok { score := parsed, model := cfg.model, promptVersion := cfg.promptVersion,
           inputTokens := usage.inputTokens, outputTokens := usage.outputTokens,
           costUsd := usage.costUsd, latencyMs := usage.latencyMs }, [.result parsed usage])
  | .invalid first =>
    match llm (retryMessages messages first) with
    | .failed billed => (.error .llmCall, [.invalid first, .failed billed])
    | .invalid second =>
      (.error (.verdictValidation second.validationError second), [.invalid first, .invalid second])
    | .result parsed usage =>
      (.ok { score := parsed, model := cfg.model, promptVersion := cfg.promptVersion,
             inputTokens := first.usage.inputTokens + usage.inputTokens,
             outputTokens := first.usage.outputTokens + usage.outputTokens,
             costUsd := first.usage.costUsd + usage.costUsd,
             latencyMs := first.usage.latencyMs + usage.latencyMs },
        [.invalid first, .result parsed usage])

def JudgeError.name : JudgeError → PyStr
  | .verdictValidation _ _ => str "VerdictValidationError"
  | .llmCall => str "LLMCallError"

/-- The cost of the structured output error that the failure was raised from. -/
def JudgeError.failedCost : JudgeError → Rat
  | .verdictValidation _ cause => cause.usage.costUsd
  | .llmCall => 0

structure Triaged where
  verdict : Verdict
  costUsd : Rat
  latencyMs : Nat
  escalatedModel : Bool

/-- A golden case with its triage, none when that failed, and the judge's answers. -/
structure Case where
  label : GoldenLabel
  tags : List PyStr
  outcome : Option Triaged
  messages : List ChatMessage
  llm : Judge

/-- `_judge`; none for the configuration is a run without a judge. -/
def judge (cfg : Option JudgeConfig) (case : Case) : Option JudgeScore × Rat × Option PyStr :=
  match cfg with
  | none => (none, 0, none)
  | some cfg =>
    match (judgeCase cfg case.llm case.messages).1 with
    | .ok outcome => (some outcome.score, outcome.costUsd, none)
    | .error e => (none, e.failedCost, some e.name)

def runOne (cfg : Option JudgeConfig) (case : Case) : CaseResult :=
  match case.outcome with
  | none =>
    { label := case.label, verdict := none, costUsd := 0, latencyMs := 0, tags := case.tags }
  | some outcome =>
    let judged := judge cfg case
    { label := case.label, verdict := some outcome.verdict, costUsd := outcome.costUsd,
      latencyMs := outcome.latencyMs, escalated := outcome.escalatedModel, judge := judged.1,
      judgeCostUsd := judged.2.1, judgeError := judged.2.2, tags := case.tags }

def runGolden (cfg : Option JudgeConfig) (cases : List Case) : List CaseResult :=
  cases.map (runOne cfg)

def replies (cfg : Option JudgeConfig) (case : Case) : List JudgeReply :=
  match cfg, case.outcome with
  | some cfg, some _ => (judgeCase cfg case.llm case.messages).2
  | _, _ => []

def JudgeReply.costUsd : JudgeReply → Rat
  | .result _ usage => usage.costUsd
  | .invalid err => err.usage.costUsd
  | .failed billed => (billed.map Usage.costUsd).getD 0

def spend (cfg : Option JudgeConfig) (case : Case) : Rat :=
  ((replies cfg case).map JudgeReply.costUsd).sum

/-- Nothing that was answered before the last reply, or with the failure itself, had a price. -/
def Unpriced : List JudgeReply → Prop
  | [.invalid first, .invalid _] => first.usage.costUsd = 0
  | [.invalid first, .failed billed] =>
    first.usage.costUsd + (billed.map Usage.costUsd).getD 0 = 0
  | [.failed billed] => (billed.map Usage.costUsd).getD 0 = 0
  | _ => True

theorem judge_cost_iff (cfg : Option JudgeConfig) (case : Case) :
    (runOne cfg case).judgeCostUsd = spend cfg case ↔ Unpriced (replies cfg case) := by
  cases outcome : case.outcome with
  | none => cases cfg <;> simp [runOne, outcome, spend, replies, Unpriced]
  | some triaged =>
    cases cfg with
    | none => simp [runOne, outcome, spend, replies, judge, Unpriced]
    | some cfg =>
      cases reply : case.llm case.messages with
      | result parsed usage =>
        simp [runOne, outcome, spend, replies, judge, judgeCase, reply, Unpriced, JudgeReply.costUsd]
      | failed billed =>
        simp [runOne, outcome, spend, replies, judge, judgeCase, reply, Unpriced,
          JudgeReply.costUsd, JudgeError.failedCost, eq_comm]
      | invalid first =>
        -- the retry's own cost is kept where its reply is, the first one's with a valid retry
        cases retry : case.llm (retryMessages case.messages first) with
        | result parsed usage =>
          simp [runOne, outcome, spend, replies, judge, judgeCase, reply, retry, Unpriced,
            JudgeReply.costUsd]
        | failed billed =>
          simp [runOne, outcome, spend, replies, judge, judgeCase, reply, retry, Unpriced,
            JudgeReply.costUsd, JudgeError.failedCost, eq_comm]
        | invalid second =>
          simp [runOne, outcome, spend, replies, judge, judgeCase, reply, retry, Unpriced,
            JudgeReply.costUsd, JudgeError.failedCost]

theorem judgeCost_total {results : List CaseResult} {m : RunMetrics}
    (scored : score results = some m) :
    m.judgeCostTotalUsd = (results.map CaseResult.judgeCostUsd).sum := (score_judged scored).2.2

/-- A run's judge spend is complete, case by case and in total, exactly when no case had a
priced reply that its error handling drops. -/
theorem judge_spend_complete_iff (cfg : Option JudgeConfig) (cases : List Case) :
    ((∀ case ∈ cases, (runOne cfg case).judgeCostUsd = spend cfg case) ∧
      ∃ m, score (runGolden cfg cases) = some m ∧
        m.judgeCostTotalUsd = (cases.map (spend cfg)).sum) ↔
    ∀ case ∈ cases, Unpriced (replies cfg case) := by
  constructor
  · rintro ⟨complete, _⟩ case member
    exact (judge_cost_iff cfg case).mp (complete case member)
  · intro unpriced
    have complete : ∀ case ∈ cases, (runOne cfg case).judgeCostUsd = spend cfg case :=
      fun case member => (judge_cost_iff cfg case).mpr (unpriced case member)
    obtain ⟨m, scored⟩ := score_total (runGolden cfg cases)
    refine ⟨complete, m, scored, ?_⟩
    rw [judgeCost_total scored, runGolden, List.map_map]
    congr 1
    exact List.map_congr_left complete

/-- Two replies that fail validation, at 0.4 and 0.6 cents. -/
theorem invalid_twice_cost :
    let err (cost : Rat) : StructuredOutputError :=
      ⟨str "{}", str "Field required", ⟨100, 10, cost, 5⟩⟩
    let severe : Severity := ⟨1, by omega⟩
    let case : Case :=
      { label := ⟨severe, .scanning, false, by decide⟩, tags := [],
        outcome := some ⟨⟨severe, .scanning, false, by decide⟩, 1 / 100, 7, false⟩,
        messages := [.user (str "Score the verdict's reasoning now.")],
        llm := fun messages => .invalid (err (if messages.length = 1 then 4 / 1000 else 6 / 1000)) }
    let cfg : JudgeConfig := ⟨str "judge", str "judge-v1"⟩
    (runOne (some cfg) case).judgeCostUsd = 6 / 1000 ∧ spend (some cfg) case = 10 / 1000 ∧
    ¬ (runOne (some cfg) case).judgeCostUsd = spend (some cfg) case := by
  decide +kernel

end EvalsJudge
