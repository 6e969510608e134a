import Mathlib.Algebra.GroupWithZero.Nat
import Mathlib.Algebra.Ring.Rat
import Mathlib.Tactic.Common
import SentinelBrief.Library.Effects
import SentinelBrief.Library.Json

/-!
`TriagePipeline.run` (`worker/triage.py`) with the messages of
`worker/prompts/__init__.py`. The model, the tools and the token counter answer
as the environment says, from everything asked and answered so far. Costs and
confidences are exact numbers. Log records are left out.
-/
namespace WorkerPipeline
open Std.Do Utf8Text JsonText EffectTriples
set_option mvcgen.warning false

structure Usage where
  inputTokens : Nat
  outputTokens : Nat
  costUsd : Rat
  latencyMs : Nat

structure Totals where
  inputTokens : Nat := 0
  outputTokens : Nat := 0
  costUsd : Rat := 0
  latencyMs : Nat := 0

/-- `Totals.add` and `Totals.add_error`, which fold the same four numbers. -/
def Totals.add (t : Totals) (u : Usage) : Totals :=
  { inputTokens := t.inputTokens + u.inputTokens, outputTokens := t.outputTokens + u.outputTokens,
    costUsd := t.costUsd + u.costUsd, latencyMs := t.latencyMs + u.latencyMs }

structure Verdict where
  severity : Nat
  category : PyStr
  confidence : Rat
  reasoning : PyStr
  recommendedAction : PyStr
  escalate : Bool

structure ToolCallRequest where
  id : PyStr
  name : PyStr
  arguments : Json

inductive ChatMessage where
  | system (content : PyStr)
  | user (content : PyStr)
  | assistant (content : PyStr)
  | toolCalls (calls : List ToolCallRequest)
  | tool (toolCallId : PyStr) (content : PyStr)

structure LlmResult where
  parsed : Verdict
  rawText : PyStr
  usage : Usage

structure StructuredOutputError where
  rawText : PyStr
  validationError : PyStr
  usage : Usage

/-- What `complete_structured` does. A call that fails may have been answered and billed: a
reply without content, or with tool arguments that are no object. -/
inductive StructuredReply where
  | result (r : LlmResult)
  | invalid (err : StructuredOutputError)
  | failed (billed : Option Usage)

inductive Reply where
  | content (reply : StructuredReply)
  | turn (calls : List ToolCallRequest) (usage : Usage)

structure ToolCallRecord where
  seq : Nat
  toolName : PyStr
  arguments : Json
  result : Json
  latencyMs : Nat

structure TriageOutcome where
  verdict : Verdict
  model : PyStr
  promptVersion : PyStr
  inputTokens : Nat
  outputTokens : Nat
  costUsd : Rat
  latencyMs : Nat
  retried : Bool
  toolCalls : List ToolCallRecord
  modelPrimary : Option PyStr := none
  escalatedModel : Bool := false

def TriageOutcome.effectiveModelPrimary (o : TriageOutcome) : PyStr := o.modelPrimary.getD o.model

inductive RunError where
  | verdictValidation (lastError : PyStr)
  | llmCall
  | budgetExceeded (tokensToday budget : Nat)
  | fixtureMissing (message : PyStr)

structure Request where
  messages : List ChatMessage
  tools : List PyStr
  model : PyStr

structure Exchange where
  request : Request
  reply : Reply

structure StrongTier where
  model : PyStr
  severityGte : Nat
  confidenceLt : Rat

structure PipelineConfig where
  model : PyStr
  promptVersion : PyStr
  /-- The registered tools' names, when there is a registry. -/
  tools : Option (List PyStr)
  toolLoopMaxIter : Nat
  strong : Option StrongTier
  redis : Bool
  dailyTokenBudget : Nat
  loop_pos : 0 < toolLoopMaxIter

/-- Everything outside the pipeline. The replies see all exchanges before them. -/
structure World where
  structured : List Exchange → Request → StructuredReply
  withTools : List Exchange → Request → Reply
  execute : Nat → PyStr → Json → Json × Nat
  /-- The `FixtureMissingError` of a strict replay, which `ToolRegistry.execute` lets through. -/
  missing : Nat → PyStr → Json → Option PyStr := fun _ _ _ => none
  tokensToday : Nat → Nat
  /-- `json.dumps` of a tool result. -/
  dumps : Json → PyStr

structure RunState where
  messages : List ChatMessage
  records : List ToolCallRecord := []
  seq : Nat := 0
  totals : Totals := {}
  exchanges : List Exchange := []
  reads : Nat := 0
  recorded : Nat := 0

abbrev Run := ExceptT RunError (StateM RunState)

def retryInstruction (error : PyStr) : PyStr :=
  str "Your previous reply failed validation: " ++ error ++ str "\n" ++
    str "Reply with ONLY a JSON object that matches the schema in the system message."

def finalVerdictInstruction : PyStr :=
  str "The tool budget is exhausted. Using only the evidence already gathered, reply with ONLY a " ++
    str "JSON object that matches the schema in the system message."

def alertDataBegin : PyStr := str "<<<ALERT_DATA>>>"

def alertDataEnd : PyStr := str "<<<END_ALERT_DATA>>>"

/-- `text.replace('<<<', '‹‹‹')`. -/
def neutralize : PyStr → PyStr
  | 0x3C :: 0x3C :: 0x3C :: s => 0x2039 :: 0x2039 :: 0x2039 :: neutralize s
  | c :: s => c :: neutralize s
  | [] => []

def delimitAttackerData (text : PyStr) : PyStr :=
  alertDataBegin ++ str "\n" ++ neutralize text ++ str "\n" ++ alertDataEnd

/-- `build_messages`, of the template with the schema put in and the summary as JSON text. -/
def buildMessages (system summaryJson : PyStr) : List ChatMessage :=
  [.system system,
    .user (delimitAttackerData summaryJson ++ str "\nReturn the verdict JSON object now.")]

variable (cfg : PipelineConfig) (world : World)

def buildToolResultMessage (toolCallId : PyStr) (result : Json) : ChatMessage :=
  .tool toolCallId (delimitAttackerData (world.dumps result))

def readTokensToday : Run Nat := do
  let s ← get
  set { s with reads := s.reads + 1 }
  return world.tokensToday s.reads

def checkBudget : Run Unit := do
  if cfg.redis ∧ cfg.dailyTokenBudget ≠ 0 then
    let today ← readTokensToday world
    if cfg.dailyTokenBudget ≤ today then
      throw (.budgetExceeded (← readTokensToday world) cfg.dailyTokenBudget)

def recordUsage (u : Usage) : Run Unit := do
  if cfg.redis then
    modify fun s => { s with recorded := s.recorded + (u.inputTokens + u.outputTokens) }

def completeStructured (messages : List ChatMessage) (model : PyStr) : Run StructuredReply := do
  let s ← get
  let request : Request := { messages := messages, tools := [], model := model }
  let reply := world.structured s.exchanges request
  let exchange : Exchange := { request := request, reply := .content reply }
  set { s with exchanges := s.exchanges ++ [exchange] }
  return reply

def completeWithTools (messages : List ChatMessage) (tools : List PyStr) (model : PyStr) :
    Run Reply := do
  let s ← get
  let request : Request := { messages := messages, tools := tools, model := model }
  let reply := world.withTools s.exchanges request
  let exchange : Exchange := { request := request, reply := reply }
  set { s with exchanges := s.exchanges ++ [exchange] }
  return reply

def outcome (r : LlmResult) (model : PyStr) (retried : Bool) : Run TriageOutcome := do
  let s ← get
  let merged := s.totals.add r.usage
  return { verdict := r.parsed, model := model, promptVersion := cfg.promptVersion,
           inputTokens := merged.inputTokens, outputTokens := merged.outputTokens,
           costUsd := merged.costUsd, latencyMs := merged.latencyMs, retried := retried,
           toolCalls := s.records }

def retryOnce (messages : List ChatMessage) (err : StructuredOutputError) (model : PyStr) :
    Run TriageOutcome := do
  modify fun s => { s with totals := s.totals.add err.usage }
  checkBudget cfg world
  match ← completeStructured world (messages ++ [.assistant err.rawText,
      .user (retryInstruction err.validationError)]) model with
  | .invalid second => throw (.verdictValidation second.validationError)
  | .failed _ => throw .llmCall
  | .result r => do
    recordUsage cfg r.usage
    outcome cfg r model true

def final (messages : List ChatMessage) (model : PyStr) : Run TriageOutcome := do
  checkBudget cfg world
  match ← completeStructured world messages model with
  | .invalid err => retryOnce cfg world messages err model
  | .failed _ => throw .llmCall
  | .result r => do
    recordUsage cfg r.usage
    outcome cfg r model false

def executeCall (call : ToolCallRequest) : Run Unit := do
  let s ← get
  match world.missing s.seq call.name call.arguments with
  | some message => throw (.fixtureMissing message)
  | none =>
    let execution := world.execute s.seq call.name call.arguments
    let record : ToolCallRecord :=
      ⟨s.seq, call.name, call.arguments, execution.1, execution.2⟩
    set { s with
      records := s.records ++ [record],
      seq := s.seq + 1,
      messages := s.messages ++ [buildToolResultMessage world call.id execution.1] }

def executeCalls : List ToolCallRequest → Run Unit
  | [] => return
  | call :: calls => do
    executeCall world call
    executeCalls calls

/-- The turns of the tool loop that are left; then the forced verdict. -/
def toolLoop (specs : List PyStr) : Nat → Run TriageOutcome
  | 0 => do
    modify fun s => { s with messages := s.messages ++ [.user finalVerdictInstruction] }
    final cfg world (← get).messages cfg.model
  | turns + 1 => do
    checkBudget cfg world
    let messages := (← get).messages
    match ← completeWithTools world messages specs cfg.model with
    | .content (.invalid err) => retryOnce cfg world messages err cfg.model
    | .content (.failed _) => throw .llmCall
    | .content (.result r) => do
      recordUsage cfg r.usage
      outcome cfg r cfg.model false
    | .turn calls usage => do
      recordUsage cfg usage
      modify fun s => { s with totals := s.totals.add usage,
                               messages := s.messages ++ [.toolCalls calls] }
      executeCalls world calls
      toolLoop specs turns

def cheapPass : Run TriageOutcome := do
  let specs := cfg.tools.getD []
  if specs ≠ [] then toolLoop cfg world specs cfg.toolLoopMaxIter
  else final cfg world (← get).messages cfg.model

def shouldEscalate (tier : StrongTier) (v : Verdict) : Bool :=
  tier.severityGte ≤ v.severity || v.confidence < tier.confidenceLt

def escalated (tier : StrongTier) (cheap strong : TriageOutcome) : TriageOutcome :=
  { strong with model := tier.model, modelPrimary := some cfg.model, escalatedModel := true,
                retried := cheap.retried || strong.retried, toolCalls := cheap.toolCalls }

def run : Run TriageOutcome := do
  let cheap ← cheapPass cfg world
  match cfg.strong with
  | none => return cheap
  | some tier =>
    if shouldEscalate tier cheap.verdict then
      modify fun s => { s with totals := ⟨cheap.inputTokens, cheap.outputTokens, cheap.costUsd,
        cheap.latencyMs⟩ }
      let strong ← final cfg world (← get).messages tier.model
      return escalated cfg tier cheap strong
    else return cheap

def runFrom (prompt : List ChatMessage) : Except RunError TriageOutcome × RunState :=
  (run cfg world).run.run { messages := prompt }

def Reply.billed : Reply → Option Usage
  | .content (.result r) => some r.usage
  | .content (.invalid err) => some err.usage
  | .content (.failed billed) => billed
  | .turn _ usage => some usage

def Usage.tokens (u : Usage) : Nat := u.inputTokens + u.outputTokens

def Exchange.tokens (x : Exchange) : Nat := (x.reply.billed.map Usage.tokens).getD 0

def Numbered (records : List ToolCallRecord) : Prop :=
  records.map (·.seq) = List.range records.length

end WorkerPipeline
