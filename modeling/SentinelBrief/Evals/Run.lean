import SentinelBrief.Evals.AppendRow
import SentinelBrief.Evals.Gate
import SentinelBrief.Evals.Golden
import SentinelBrief.Library.EventLog
import SentinelBrief.Library.Runs

/-!
Invocations of `evals.run` (`_run_all`, `evals/run.py`) on the files that they read and write
and on the table `eval_runs`. A path is the text that `str` gives for it; golden files,
artifacts, baselines and the results file are different files. What the triage and the
judging of a case come to, `score`, the clock and the answers of the disk and the database
are given. The results file and a baseline can be read and written whenever they are there;
the table of results and the matrices are not printed.
-/
namespace EvalsRun
open Utf8Text JsonText IsoDateText FixedDecimal PyText EvalsPublish EvalsAppendRow EvalsGate EventLog
open EvalsGolden (GoldenCase GoldenError loadGolden)

inductive CaseError where
  | fixtureMissing (tool key : PyStr)
  | failed (text : PyStr)

structure CaseRun (nesting : Nat) where
  error : Option CaseError
  payload : Json
  readable : payload.Readable indentLayout
  shallow : payload.depth + 2 ≤ nesting

structure Scored where
  metrics : RunMetrics
  canonical : ∀ f ∈ metrics.floats, f.Canonical

structure Host where
  golden : EvalsGolden.Host
  deep : 4 ≤ golden.nesting
  score : List (CaseRun golden.nesting) → Scored
  prompt : PyStr → Bool
  judgePrompt : PyStr → Bool

structure Args where
  golden : Label
  model : Option Label
  strongModel : Option Label
  replayStrict : Option Bool
  judge : Option Bool
  judgeModel : Option Label
  outputDir : PyStr
  database : Bool
  gate : Bool
  baseline : PyStr
  writeBaseline : Bool
  forceBaseline : Bool
  publish : Bool
  fromArtifact : Option PyStr

structure Settings where
  cheapModel : Label
  strongModel : Label
  /-- The keys of `model_prices_json`. -/
  priced : List PyStr
  judgePromptVersion : PyStr
  gate : GateSettings

inductive Write where
  | whole
  /-- `OSError`, with what is left at the path if that was touched. -/
  | failed (left : Option PyStr)

inductive Insert where
  | done
  /-- An error; a commit whose answer was lost keeps the row. -/
  | failed (kept : Bool)

structure EvalRun where
  gitSha : PyStr
  promptVersion : PyStr
  modelConfig : ModelConfig
  startedAt : DateTime
  metrics : Json

structure Disk where
  goldens : PyStr → Option Bytes
  artifacts : PyStr → Option PyStr
  baselines : PyStr → Option PyStr
  /-- `docs/results.md`. -/
  results : Bytes
  evalRuns : List EvalRun

inductive Refusal where
  | noBaseline
  | manyPrompts
  | unpriced (model : PyStr)
  | noJudgeModel
  | judgePrompt
  /-- `load_golden` raises, or there is no such file. -/
  | golden (error : Option GoldenError)
  | unlabeled (row : Nat)
  | baselineNotV2
  | publishNotV2
  | baselineExists
  | client
  | sameModels
  | prompt (version : PyStr)

inductive Exit where
  | ok
  | refused (refusal : Refusal)
  | badArtifact
  | outputError
  | databaseError
  | resultsRefused
  | missingFixtures (pairs : List (PyStr × PyStr))
  | allCasesFailed
  | gateFailed
  /-- An exception that `main` does not catch. -/
  | raised

structure Prompted (host : Host) where
  version : Label
  startedAt : DateTime
  triage : GoldenCase → CaseRun host.golden.nesting
  artifact : Write
  row : Insert

structure Invocation (host : Host) where
  args : Args
  settings : Settings
  /-- Whether a client is handed in, which has no prices. -/
  llmGiven : Bool
  prompts : List (Prompted host)
  gitSha : Label
  recordedAt : DateTime

inductive Effect (host : Host) where
  | ran (i : Invocation host) (p : Prompted host) (r : Run) (cases : List GoldenCase)
  | wrote (path : PyStr) (r : Run)
  | inserted (row : EvalRun) (r : Run)
  | called (line : PyStr)
  | recorded (path : PyStr) (b : Recorded) (i : Invocation host)

/-- The files and the table, with what has been done to them. -/
structure World (host : Host) where
  disk : Disk
  log : List (Effect host) := []
  /-- The runs whose artifacts are in place. -/
  whole : PyStr → Option Run := fun _ => none

section
variable {host : Host}

def Invocation.model (i : Invocation host) : Label := i.args.model.getD i.settings.cheapModel

def Invocation.strongModel (i : Invocation host) : Option Label :=
  let strong := i.args.strongModel.getD i.settings.strongModel
  if strong.1 = [] then none else some strong

def Invocation.judgeModel (i : Invocation host) : Label :=
  i.args.judgeModel.getD i.settings.strongModel

def Invocation.v2 (i : Invocation host) : Bool := isV2Golden i.args.golden.1

def Invocation.judgeEnabled (i : Invocation host) : Bool :=
  i.args.judge.getD (i.v2 && i.judgeModel.1 ≠ [])

def Invocation.replayStrict (i : Invocation host) : Bool := i.args.replayStrict.getD i.v2

def Invocation.unpriced (i : Invocation host) (model : PyStr) : Bool :=
  !i.llmGiven && !i.settings.priced.contains model

/-- `run_model_config`. -/
def Invocation.config (i : Invocation host) (version : Label) : ModelConfig where
  model := i.model
  judgeModel := i.judgeModel
  replayStrict := i.replayStrict
  judge := i.judgeEnabled
  strongModel := i.strongModel.getD ⟨[], apart_nil⟩
  promptVersion := version

def Invocation.run (i : Invocation host) (cases : List GoldenCase) (p : Prompted host) : Run where
  promptVersion := p.version
  model := i.model
  strongModel := i.strongModel
  gitSha := i.gitSha
  startedAt := p.startedAt
  golden := i.args.golden
  metrics := (host.score (cases.map p.triage)).metrics
  cases := (cases.map p.triage).map CaseRun.payload

/-- `strftime("%Y%m%dT%H%M%SZ")`. -/
def stamp (d : DateTime) : PyStr :=
  padded 4 d.year ++ padded 2 d.month ++ padded 2 d.day ++ str "T" ++ padded 2 d.hour ++
    padded 2 d.minute ++ padded 2 d.second ++ str "Z"

def artifactPath (outputDir : PyStr) (p : Prompted host) : PyStr :=
  outputDir ++ str "/" ++ stamp p.startedAt ++ str "-" ++ p.version.1 ++ str ".json"

def evalRunRow (r : Run) (config : ModelConfig) : EvalRun :=
  ⟨r.gitSha.1, r.promptVersion.1, config, r.startedAt, metricsPayload r.metrics⟩

def CaseRun.missing {n : Nat} (c : CaseRun n) : Option (PyStr × PyStr) :=
  match c.error with
  | some (.fixtureMissing tool key) => some (tool, key)
  | _ => none

def check : Option Refusal → Except Refusal Unit
  | none => .ok ()
  | some refusal => .error refusal

def readBaseline (i : Invocation host) (disk : Disk) : Except Refusal (Option Baseline) :=
  if i.args.gate then
    match disk.baselines i.args.baseline >>= loadBaseline host.golden.nesting with
    | some baseline => .ok (some baseline)
    | none => .error .noBaseline
  else .ok none

def checkModels (i : Invocation host) : Option Refusal :=
  if i.args.writeBaseline && 1 < i.prompts.length then some .manyPrompts
  else if i.unpriced i.model.1 then some (.unpriced i.model.1)
  else if i.strongModel.any fun strong => i.unpriced strong.1 then
    some (.unpriced (i.strongModel.elim [] (·.1)))
  else if i.judgeEnabled && i.judgeModel.1 = [] then some .noJudgeModel
  else if i.judgeEnabled && i.unpriced i.judgeModel.1 then some (.unpriced i.judgeModel.1)
  else if i.judgeEnabled && !host.judgePrompt i.settings.judgePromptVersion then some .judgePrompt
  else none

def readCases (i : Invocation host) (disk : Disk) : Except Refusal (List GoldenCase) :=
  match disk.goldens i.args.golden.1 with
  | none => .error (.golden none)
  | some file => match loadGolden host.golden false file with
    | .error e => .error (.golden (some e))
    | .ok cases => .ok cases

def checkCases (i : Invocation host) (cases : List GoldenCase) : Option Refusal :=
  if i.v2 then (cases.findIdx? fun c => c.labeledBy = none).map fun row => .unlabeled (row + 1)
  else if i.args.writeBaseline then some .baselineNotV2
  else if i.args.publish then some .publishNotV2
  else none

def checkFile (i : Invocation host) (disk : Disk) : Option Refusal :=
  if i.args.writeBaseline && (disk.baselines i.args.baseline).isSome && !i.args.forceBaseline then
    some .baselineExists
  else none

/-- `OpenAICompatibleLLMClient.from_settings`. -/
def checkClient (i : Invocation host) : Option Refusal :=
  let models := [i.settings.cheapModel.1, i.settings.strongModel.1].filter (· ≠ [])
  if !i.llmGiven && (i.settings.cheapModel.1 = [] || !models.all i.settings.priced.contains) then
    some .client
  else none

/-- Everything up to the loop over the prompt versions. -/
def prepare (i : Invocation host) (disk : Disk) : Except Refusal (Option Baseline × List GoldenCase) := do
  let baseline ← readBaseline i disk
  check (checkModels i)
  let cases ← readCases i disk
  check (checkCases i cases)
  check (checkFile i disk)
  check (checkClient i)
  return (baseline, cases)

def World.note (w : World host) (e : Effect host) : World host := { w with log := w.log ++ [e] }

def World.write (w : World host) (path : PyStr) (r : Run) : World host :=
  { disk := { w.disk with artifacts := Function.update w.disk.artifacts path (some r.artifact) }
    log := w.log ++ [.wrote path r]
    whole := Function.update w.whole path (some r) }

def World.tear (w : World host) (path : PyStr) : Option PyStr → World host
  | none => w
  | some left =>
    { w with disk := { w.disk with artifacts := Function.update w.disk.artifacts path (some left) }
             whole := Function.update w.whole path none }

def World.insert (w : World host) (row : EvalRun) (r : Run) : World host :=
  { w with disk := { w.disk with evalRuns := w.disk.evalRuns ++ [row] }
           log := w.log ++ [.inserted row r] }

def World.append (w : World host) (line : PyStr) : World host :=
  { w with disk := { w.disk with results := (appendResultRow line w.disk.results).file }
           log := w.log ++ [.called line] }

def World.record (w : World host) (path : PyStr) (b : Recorded) (i : Invocation host) : World host :=
  { w with disk := { w.disk with
             baselines := Function.update w.disk.baselines path (some (writeBaseline b.baseline)) }
           log := w.log ++ [.recorded path b i] }

/-- A part of an invocation; `none` goes on. -/
abbrev Stage (host : Host) := World host × Option Exit

def Stage.andThen (s : Stage host) (next : World host → Stage host) : Stage host :=
  if s.2.isSome then s else next s.1

def writeArtifact (path : PyStr) (r : Run) (outcome : Write) (w : World host) : Stage host :=
  match outcome with
  | .whole => (w.write path r, none)
  | .failed left => (w.tear path left, some .outputError)

def insertRow (i : Invocation host) (r : Run) (config : ModelConfig) (outcome : Insert) (w : World host) :
    Stage host :=
  if i.args.database then
    match outcome with
    | .done => (w.insert (evalRunRow r config) r, none)
    | .failed kept => (if kept then w.insert (evalRunRow r config) r else w, some .databaseError)
  else (w, none)

def appendLine (line : Option PyStr) (w : World host) : Stage host :=
  match line with
  | none => (w, some .raised)
  | some line =>
    (w.append line, if (appendResultRow line w.disk.results).raised then some .resultsRefused else none)

def publishRow (i : Invocation host) (r : Run) (w : World host) : Stage host :=
  if i.args.publish then appendLine r.publishLine w else (w, none)

def runPrompt (i : Invocation host) (cases : List GoldenCase) (p : Prompted host) (w : World host) :
    Stage host :=
  if i.strongModel = some i.model then (w, some (.refused .sameModels))
  else if !host.prompt p.version.1 then (w, some (.refused (.prompt p.version.1)))
  else
    let r := i.run cases p
    let written := writeArtifact (artifactPath i.args.outputDir p) r p.artifact (w.note (.ran i p r cases))
    (written.andThen (insertRow i r (i.config p.version) p.row)).andThen (publishRow i r)

def runPrompts (i : Invocation host) (cases : List GoldenCase) : List (Prompted host) → World host → Stage host
  | [], w => (w, none)
  | p :: ps, w => (runPrompt i cases p w).andThen (runPrompts i cases ps)

def recordBaseline (i : Invocation host) (cases : List GoldenCase) (w : World host) : World host :=
  if i.args.writeBaseline then
    match i.prompts.head? with
    | none => w
    | some p =>
      let scored := host.score (cases.map p.triage)
      w.record i.args.baseline
        ⟨i.recordedAt, i.gitSha, p.version, i.config p.version, scored.metrics, scored.canonical⟩ i
  else w

def gateRows (i : Invocation host) (baseline : Baseline) (cases : List GoldenCase) : Exit :=
  let found := i.prompts.mapM fun p =>
    evaluateGate i.settings.gate (i.run cases p).metrics baseline (i.config p.version)
  match found with
  | none => .raised
  | some tripped => if tripped.all List.isEmpty then .ok else .gateFailed

def finish (i : Invocation host) (baseline : Option Baseline) (cases : List GoldenCase) (w : World host) :
    World host × Exit :=
  let results := i.prompts.flatMap fun p => cases.map p.triage
  let missing := (results.filterMap CaseRun.missing).dedup
  if missing ≠ [] then (w, .missingFixtures missing)
  else if !results.any fun c => c.error.isNone then (w, .allCasesFailed)
  else
    (recordBaseline i cases w, baseline.elim .ok fun baseline => gateRows i baseline cases)

def publishArtifact (path : PyStr) (w : World host) : World host × Exit :=
  match w.disk.artifacts path with
  | none => (w, .badArtifact)
  | some text => match artifactLine host.golden.nesting text with
    | .error _ => (w, .badArtifact)
    | .ok line =>
      let appended := appendLine line w
      (appended.1, appended.2.getD .ok)

def runAll (i : Invocation host) (w : World host) : World host × Exit :=
  match i.args.fromArtifact with
  | some path => publishArtifact path w
  | none => match prepare i w.disk with
    | .error refusal => (w, .refused refusal)
    | .ok found =>
      let ran := runPrompts i found.2 i.prompts w
      match ran.2 with
      | some exit => (ran.1, exit)
      | none => finish i found.1 found.2 ran.1

end

end EvalsRun
