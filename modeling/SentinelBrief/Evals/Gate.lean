import SentinelBrief.Evals.Publish
import SentinelBrief.Library.SignificantDigits

/-!
The baseline of the evaluations and the gate against it (`evals/gate.py`). `none` is an
exception, or a value of another type than is declared. Decimal arithmetic has the 28 digits
of Python's default context and unbounded exponents.
-/
namespace EvalsGate
open Utf8Text JsonText DoubleText DecimalText IsoDateText SignificantDigits EvalsPublish

structure ModelConfig where
  model : Label
  judgeModel : Label
  replayStrict : Bool
  judge : Bool
  /-- Empty when routing is off. -/
  strongModel : Label
  promptVersion : Label
  deriving DecidableEq

def ModelConfig.value (c : ModelConfig) : Json :=
  .obj [(str "model", .str c.model.1), (str "judge_model", .str c.judgeModel.1),
    (str "replay_strict", .bool c.replayStrict), (str "judge", .bool c.judge),
    (str "strong_model", .str c.strongModel.1), (str "prompt_version", .str c.promptVersion.1)]

structure Baseline where
  recordedAt : DateTime
  gitSha : PyStr
  promptVersion : PyStr
  modelConfig : Json
  metrics : RunMetrics

def Baseline.payload (b : Baseline) : Json :=
  .obj [(str "recorded_at", .str (isoformat b.recordedAt)), (str "git_sha", .str b.gitSha),
    (str "prompt_version", .str b.promptVersion), (str "model_config", b.modelConfig),
    (str "metrics", metricsPayload b.metrics)]

def writeBaseline (b : Baseline) : PyStr := b.payload.dumps indentLayout 0

/-- `load_baseline`, of a file that can be read. -/
def loadBaseline (limit : Nat) (text : PyStr) : Option Baseline :=
  match loads limit text with
  | .error _ => none
  | .ok payload => do
    let recordedAt ← payload.get? (str "recorded_at") >>= readDateTime
    let gitSha ← payload.get? (str "git_sha") >>= readStr
    let promptVersion ← payload.get? (str "prompt_version") >>= readStr
    let modelConfig ← payload.get? (str "model_config")
    let metrics ← payload.get? (str "metrics") >>= metricsFromPayload
    some ⟨recordedAt, gitSha, promptVersion, modelConfig, metrics⟩

def equalsStr (s : PyStr) : Json → Bool
  | .str t => t = s
  | _ => false

/-- `True == 1 == 1.0`. -/
def equalsBool (b : Bool) : Json → Bool
  | .bool c => c = b
  | .int i => i = b.toNat
  | .float f => integral f = some (b.toNat : Int)
  | _ => false

def ModelConfig.equals (c : ModelConfig) : Json → Bool
  | .obj fs =>
    let field := fun name equal => ((Json.obj fs).get? (str name)).any equal
    fs.length = 6 && field "model" (equalsStr c.model.1) && field "judge_model" (equalsStr c.judgeModel.1) &&
      field "replay_strict" (equalsBool c.replayStrict) && field "judge" (equalsBool c.judge) &&
      field "strong_model" (equalsStr c.strongModel.1) &&
      field "prompt_version" (equalsStr c.promptVersion.1)
  | _ => false

/-- `Decimal(str(f))`; `none` is a NaN. -/
def floatDecimal : Double → Option Extended
  | .fin negative m e => some (finite (if m = 0 then 0 else shortestValue negative m e))
  | .inf negative => some (infinite negative)
  | .nan => none

/-- `none` is a NaN. -/
def floatValue : Double → Option Extended
  | .fin negative m e => some (finite (if negative then -magnitude m e else magnitude m e))
  | .inf negative => some (infinite negative)
  | .nan => none

/-- `none` is a NaN. -/
def decimalValue : Decimal → Option Extended
  | .finite negative coefficient exponent =>
    some (finite (if negative then -(coefficient * 10 ^ exponent : ℚ) else coefficient * 10 ^ exponent))
  | .infinite negative => some (infinite negative)
  | .nan _ _ _ => none

def signals : Decimal → Bool
  | .nan _ signaling _ => signaling
  | _ => false

/-- The thresholds, of which `Field` lets the fraction not be negative. -/
structure GateSettings where
  severityDropPoints : Nat
  criticalRecallMin : Double
  costRiseFraction : Double
  rise : ∀ fraction ∈ floatDecimal costRiseFraction, finite 0 ≤ fraction

inductive Condition where
  | severityExactDrop
  | criticalRecall
  | costRise
  deriving DecidableEq

def rounded : ℚ → ℚ := significant 28

def severityLimit (settings : GateSettings) (recorded : Extended) : Extended :=
  recorded.map fun rate => rounded (rate - rounded (settings.severityDropPoints / 100))

/-- `x < y` of floats; a NaN is not less. -/
def floatLess (x y : Double) : Bool := (floatValue x).any fun x => (floatValue y).any fun y => x < y

def costFactor (fraction : Extended) : Extended := fraction.map fun f => rounded (1 + f)

/-- The limit of the cost, which may be a NaN; `none` raises. -/
def costLimit (fraction : Double) (recorded : Decimal) : Option (Option Extended) :=
  if signals recorded then none
  else match decimalValue recorded, floatDecimal fraction with
    | some cost, some fraction => (product 28 cost (costFactor fraction)).map some
    | _, _ => some none

/-- `cost > limit` of decimals; a NaN raises. -/
def exceeds (cost : Decimal) (limit : Option Extended) : Option Bool := do
  let cost ← decimalValue cost
  let limit ← limit
  some (limit < cost)

def costRise (config : ModelConfig) (recorded : Json) (cost : Decimal) (limit : Option Extended) : Option Bool :=
  if config.equals recorded then exceeds cost limit else some false

def evaluateGate (settings : GateSettings) (metrics : RunMetrics) (baseline : Baseline)
    (config : ModelConfig) : Option (List Condition) := do
  let recordedSeverity ← floatDecimal baseline.metrics.severityExact
  let severity ← floatDecimal metrics.severityExact
  let limit ← costLimit settings.costRiseFraction baseline.metrics.costMeanUsd
  let dear ← costRise config baseline.modelConfig metrics.costMeanUsd limit
  some ((if severity < severityLimit settings recordedSeverity then [.severityExactDrop] else []) ++
    (if floatLess metrics.criticalRecall settings.criticalRecallMin then [.criticalRecall] else []) ++
    (if dear then [.costRise] else []))

theorem equals_value (c d : ModelConfig) : c.equals d.value = true ↔ c = d := by
  have parts : c.equals d.value = (decide (d.model.1 = c.model.1) && decide (d.judgeModel.1 = c.judgeModel.1) &&
      decide (d.replayStrict = c.replayStrict) && decide (d.judge = c.judge) &&
      decide (d.strongModel.1 = c.strongModel.1) && decide (d.promptVersion.1 = c.promptVersion.1)) := rfl
  rw [parts]
  simp only [Bool.and_eq_true, decide_eq_true_eq]
  constructor
  · rintro ⟨⟨⟨⟨⟨model, judgeModel⟩, strict⟩, judge⟩, strong⟩, prompt⟩
    cases c
    cases d
    simp only [ModelConfig.mk.injEq]
    exact ⟨Subtype.ext model.symm, Subtype.ext judgeModel.symm, strict.symm, judge.symm,
      Subtype.ext strong.symm, Subtype.ext prompt.symm⟩
  · rintro rfl
    simp

structure Recorded where
  recordedAt : DateTime
  gitSha : Label
  promptVersion : Label
  modelConfig : ModelConfig
  metrics : RunMetrics
  canonical : ∀ f ∈ metrics.floats, f.Canonical

def Recorded.baseline (r : Recorded) : Baseline :=
  ⟨r.recordedAt, r.gitSha.1, r.promptVersion.1, r.modelConfig.value, r.metrics⟩

def baselineNames : List PyStr :=
  [str "recorded_at", str "git_sha", str "prompt_version", str "model_config", str "metrics"]

def configNames : List PyStr :=
  [str "model", str "judge_model", str "replay_strict", str "judge", str "strong_model",
    str "prompt_version"]

theorem readable_text {w : Layout} {s : PyStr} (apart : Apart s) : (Json.str s).Readable w := by
  simpa [Json.Readable] using apart

theorem config_readable {w : Layout} (c : ModelConfig) : c.value.Readable w := by
  have names : ∀ k ∈ configNames, Encodes k := by decide
  refine readable_obj rfl (by decide : configNames.Nodup)
    (fun k member => apart_of_encodes (names k member)) ?_
  simp only [List.map_cons, List.map_nil, List.forall_mem_cons]
  exact ⟨readable_text c.model.2, readable_text c.judgeModel.2, by simp [Json.Readable],
    by simp [Json.Readable], readable_text c.strongModel.2, readable_text c.promptVersion.2, by simp⟩

theorem recorded_readable (r : Recorded) : r.baseline.payload.Readable indentLayout := by
  have names : ∀ k ∈ baselineNames, Encodes k := by decide
  refine readable_obj rfl (by decide : baselineNames.Nodup)
    (fun k member => apart_of_encodes (names k member)) ?_
  simp only [List.map_cons, List.map_nil, List.forall_mem_cons]
  exact ⟨readable_text (isoformat_apart _), readable_text r.gitSha.2, readable_text r.promptVersion.2,
    config_readable r.modelConfig, metricsPayload_readable fun f member => repr_reads (r.canonical f member),
    by simp⟩

theorem recorded_depth (r : Recorded) : r.baseline.payload.depth ≤ 4 := by
  have metrics := metricsPayload_depth r.metrics
  simp only [Recorded.baseline, Baseline.payload, ModelConfig.value, Json.depth, membersDepth]
  omega

/-- What `--write-baseline` wrote is what `--gate` loads. -/
theorem loadBaseline_recorded {limit : Nat} (deep : 4 ≤ limit) (r : Recorded) :
    loadBaseline limit (writeBaseline r.baseline) = some r.baseline := by
  have read := loads_dumps indentLayout (recorded_readable r) ((recorded_depth r).trans deep) (b := []) (by simp)
  rw [List.append_nil] at read
  have recordedAt : (r.baseline.payload.get? (str "recorded_at") >>= readDateTime) = some r.recordedAt :=
    fromisoformat_isoformat r.recordedAt
  have gitSha : (r.baseline.payload.get? (str "git_sha") >>= readStr) = some r.gitSha.1 := rfl
  have promptVersion : (r.baseline.payload.get? (str "prompt_version") >>= readStr) =
      some r.promptVersion.1 := rfl
  have config : r.baseline.payload.get? (str "model_config") = some r.modelConfig.value := rfl
  have metrics : (r.baseline.payload.get? (str "metrics") >>= metricsFromPayload) = some r.metrics :=
    metricsFromPayload_payload r.metrics
  simp only [loadBaseline, writeBaseline, read, recordedAt, gitSha, promptVersion, config, metrics,
    Option.bind_eq_bind, Option.bind_some]
  rfl

/-- What the gate against a recorded run says of another run: the conditions in exact numbers where
no limit needs more than 28 digits, and none of them beside the floor for a run that is no worse. -/
structure Agrees (settings : GateSettings) (r : Recorded) (metrics : RunMetrics) (config : ModelConfig)
    (tripped : List Condition) : Prop where
  held : ∀ s₀ ∈ floatDecimal r.metrics.severityExact, ∀ s ∈ floatDecimal metrics.severityExact,
    s₀ ≤ s → .severityExactDrop ∉ tripped
  dropped : ∀ s₀ ∈ floatDecimal r.metrics.severityExact, ∀ s ∈ floatDecimal metrics.severityExact,
    Written 28 (settings.severityDropPoints / 100) →
    (∀ x, s₀ = finite x → Written 28 (x - settings.severityDropPoints / 100)) →
    (.severityExactDrop ∈ tripped ↔ s < s₀.map fun x => x - settings.severityDropPoints / 100)
  missed : .criticalRecall ∈ tripped ↔ ∃ a ∈ floatValue metrics.criticalRecall,
    ∃ least ∈ floatValue settings.criticalRecallMin, a < least
  configured : .costRise ∈ tripped → config = r.modelConfig
  cheap : ∀ c₀ ∈ decimalValue r.metrics.costMeanUsd, ∀ c ∈ decimalValue metrics.costMeanUsd,
    (∀ x, c₀ = finite x → Written 28 x) → finite 0 ≤ c₀ → c ≤ c₀ → .costRise ∉ tripped
  dear : ∀ c₀ f, decimalValue r.metrics.costMeanUsd = some (finite c₀) →
    floatDecimal settings.costRiseFraction = some (finite f) → ∀ c ∈ decimalValue metrics.costMeanUsd,
    Written 28 (1 + f) → Written 28 (c₀ * (1 + f)) →
    (.costRise ∈ tripped ↔ config = r.modelConfig ∧ finite (c₀ * (1 + f)) < c)

theorem floatDecimal_written {f : Double} (canonical : f.Canonical) {x : ℚ}
    (found : floatDecimal f = some (finite x)) : Written 28 x := by
  cases f with
  | nan => cases found
  | inf negative => cases negative <;> cases found
  | fin negative m e =>
    rw [← finite_inj.mp (Option.some.inj found)]
    split
    · exact written_natural (n := 0) (by norm_num)
    · exact shortestValue_written negative (by omega) canonical.2.1 (by norm_num)

theorem severityLimit_le {settings : GateSettings} {s : Extended} (written : ∀ x, s = finite x → Written 28 x) :
    severityLimit settings s ≤ s := by
  have zero : Written 28 (0 : ℚ) := written_natural (n := 0) (by norm_num)
  have drop : 0 ≤ rounded (settings.severityDropPoints / 100) :=
    le_significant (by positivity) zero (by norm_num)
  exact map_le fun x here => significant_le (by linarith) (written x here) (by norm_num)

theorem le_costFactor {fraction : Extended} (rise : finite 0 ≤ fraction) : finite 1 ≤ costFactor fraction := by
  have one : Written 28 (1 : ℚ) := written_natural (n := 1) (by norm_num)
  rcases extended_cases fraction with rfl | rfl | ⟨f, rfl⟩
  · exact absurd rise (not_le.mpr (bot_lt_finite 0))
  · exact le_top
  · have growth : 0 ≤ f := finite_le.mp rise
    exact finite_le.mpr (le_significant (by linarith) one (by norm_num))

theorem costLimit_some {fraction : Double} {recorded : Decimal} {limit : Extended}
    (found : costLimit fraction recorded = some (some limit)) :
    ∃ c₀ f, decimalValue recorded = some c₀ ∧ floatDecimal fraction = some f ∧
      product 28 c₀ (costFactor f) = some limit := by
  unfold costLimit at found
  split at found
  · cases found
  split at found
  · rename_i c₀ f cost growth
    obtain ⟨_, made, same⟩ := Option.map_eq_some_iff.mp found
    cases same
    exact ⟨c₀, f, cost, growth, made⟩
  · cases found

theorem costLimit_finite {fraction : Double} {recorded : Decimal} {c₀ f : ℚ}
    (cost : decimalValue recorded = some (finite c₀)) (growth : floatDecimal fraction = some (finite f)) :
    costLimit fraction recorded = some (some (finite (rounded (c₀ * rounded (1 + f))))) := by
  have quiet : signals recorded = false := by
    cases recorded with
    | nan => cases cost
    | _ => rfl
  rw [costLimit, quiet, cost, growth]
  rfl

structure Trips (severity «recall» cost : Prop) (tripped : List Condition) : Prop where
  severity : .severityExactDrop ∈ tripped ↔ severity
  «recall» : .criticalRecall ∈ tripped ↔ «recall»
  cost : .costRise ∈ tripped ↔ cost

theorem trips_listed (severity «recall» cost : Prop) [Decidable severity] [Decidable «recall»] [Decidable cost] :
    Trips severity «recall» cost ((if severity then [.severityExactDrop] else []) ++
      (if «recall» then [.criticalRecall] else []) ++ if cost then [.costRise] else []) := by
  constructor <;> split_ifs <;> simp_all

theorem floatLess_iff (x y : Double) :
    floatLess x y = true ↔ ∃ a ∈ floatValue x, ∃ least ∈ floatValue y, a < least := by
  simp [floatLess, Option.any_eq_true]

theorem costRise_some {config d : ModelConfig} {cost : Decimal} {limit : Option Extended} {dear : Bool}
    (compared : costRise config d.value cost limit = some dear) :
    dear = true ↔ config = d ∧ ∃ most c, limit = some most ∧ decimalValue cost = some c ∧ most < c := by
  unfold costRise at compared
  split at compared
  · rename_i same
    obtain ⟨c, found, compared⟩ := Option.bind_eq_some_iff.mp compared
    obtain ⟨most, limited, compared⟩ := Option.bind_eq_some_iff.mp compared
    cases compared
    simp [(equals_value config d).mp same, found, limited]
  · rename_i other
    cases compared
    simp [mt (equals_value config d).mpr other]

theorem evaluateGate_agrees {settings : GateSettings} {r : Recorded} {metrics : RunMetrics}
    {config : ModelConfig} {tripped : List Condition}
    (evaluated : evaluateGate settings metrics r.baseline config = some tripped) :
    Agrees settings r metrics config tripped := by
  simp only [evaluateGate, Option.bind_eq_bind, Option.bind_eq_some_iff, Option.some.injEq] at evaluated
  obtain ⟨s₀, recordedSeverity, s, severity, limit, limited, dear, compared, listed⟩ := evaluated
  have trips := listed ▸ trips_listed (s < severityLimit settings s₀)
    (floatLess metrics.criticalRecall settings.criticalRecallMin) dear
  have risen := costRise_some compared
  constructor
  · intro x found y read le dropped
    cases Option.some.inj (recordedSeverity.symm.trans found)
    cases Option.some.inj (severity.symm.trans read)
    have written (q : ℚ) (same : s₀ = finite q) : Written 28 q :=
      floatDecimal_written (r.canonical r.metrics.severityExact (by simp [RunMetrics.floats]))
        (same ▸ recordedSeverity)
    have below := trips.severity.mp dropped
    exact absurd (below.trans_le (severityLimit_le written)) (not_lt.mpr le)
  · intro x found y read points exact
    cases Option.some.inj (recordedSeverity.symm.trans found)
    cases Option.some.inj (severity.symm.trans read)
    have unrounded : severityLimit settings s₀ = s₀.map fun x => x - settings.severityDropPoints / 100 :=
      map_congr fun q same => by
        rw [rounded, significant_eq points (by norm_num), significant_eq (exact q same) (by norm_num)]
    rw [trips.severity, unrounded]
  · rw [trips.«recall», floatLess_iff]
  · intro rise
    exact (risen.mp (trips.cost.mp rise)).1
  · intro x found y read written positive le rise
    obtain ⟨_, most, c, here, cost, above⟩ := risen.mp (trips.cost.mp rise)
    cases here
    obtain ⟨c₀, f, recordedCost, fraction, made⟩ := costLimit_some limited
    cases Option.some.inj (recordedCost.symm.trans found)
    cases Option.some.inj (cost.symm.trans read)
    have least := le_product (by norm_num) written positive (le_costFactor (settings.rise f fraction)) made
    exact absurd (least.trans_lt above) (not_lt.mpr le)
  · intro c₀ f recordedCost fraction c read factor exact
    have here := limited.symm.trans (costLimit_finite recordedCost fraction)
    rw [rounded, significant_eq factor (by norm_num), significant_eq exact (by norm_num)] at here
    cases here
    rw [trips.cost, risen]
    simp [Option.mem_def.mp read]

def sampleConfig : ModelConfig :=
  ⟨sampleRun.model, ⟨[], apart_nil⟩, true, false, ⟨[], apart_nil⟩, sampleRun.promptVersion⟩

theorem sampleHalf_rise : ∀ fraction ∈ floatDecimal sampleHalf, finite 0 ≤ fraction := by decide +kernel

/-- The defaults of `core/config.py`: three points, a recall of 0.9, a rise by half. -/
def sampleSettings : GateSettings :=
  ⟨3, .fin false 8106479329266893 (-53), sampleHalf, sampleHalf_rise⟩

end EvalsGate
