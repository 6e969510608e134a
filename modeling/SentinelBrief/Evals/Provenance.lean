import SentinelBrief.Evals.Labeling
import SentinelBrief.Evals.Run

/-!
What stands behind the rows of `docs/results.md`, the rows of `eval_runs` and the
baseline after any invocations of `evals.run`. Golden files change between
invocations as they like; an artifact that is published from is one that a run wrote.
-/
namespace EvalsProvenance
open Utf8Text JsonText EvalsPublish EvalsAppendRow EvalsGate EventLog StepRuns EvalsRun SeparatedLines
open EvalsGolden (GoldenCase loadGolden)
variable {host : Host}

inductive Event (host : Host) where
  | invoke (i : Invocation host)
  | edit (goldens : PyStr → Option Bytes)

def step (w : World host) : Event host → Option (World host)
  | .invoke i => some (runAll i w).1
  | .edit goldens => some { w with disk := { w.disk with goldens := goldens } }

/-- `--from-artifact` names an artifact that is in place. -/
def Recognised (w : World host) : Event host → Prop
  | .invoke i => ∀ path, i.args.fromArtifact = some path → (w.whole path).isSome
  | .edit _ => True

def Labeled (cases : List GoldenCase) : Prop := ∀ c ∈ cases, c.labeledBy ≠ none

/-- What has been checked, on the disk as it was then, before the cases of a prompt version run. -/
structure Checked (i : Invocation host) (p : Prompted host) (disk : Disk) (cases : List GoldenCase) : Prop where
  listed : p ∈ i.prompts
  prompt : host.prompt p.version.1 = true
  model : i.unpriced i.model.1 = false
  strong : ∀ strong ∈ i.strongModel, i.unpriced strong.1 = false ∧ strong ≠ i.model
  judge : i.judgeEnabled = true → i.judgeModel.1 ≠ [] ∧ i.unpriced i.judgeModel.1 = false ∧
    host.judgePrompt i.settings.judgePromptVersion = true
  client : i.llmGiven = false → i.settings.cheapModel.1 ≠ [] ∧
    ∀ model ∈ [i.settings.cheapModel.1, i.settings.strongModel.1], model ≠ [] → model ∈ i.settings.priced
  golden : ∃ file, disk.goldens i.args.golden.1 = some file ∧ loadGolden host.golden false file = .ok cases
  labeled : i.v2 = true → Labeled cases
  published : (i.args.publish || i.args.writeBaseline) = true → i.v2 = true
  single : i.args.writeBaseline = true → i.prompts.length ≤ 1
  gated : i.args.gate = true → ∃ text, disk.baselines i.args.baseline = some text ∧
    (loadBaseline host.golden.nesting text).isSome
  fresh : i.args.writeBaseline = true → disk.baselines i.args.baseline = none ∨ i.args.forceBaseline = true

/-- The disk of a state that was reached with the log, or with a first part of it. -/
def Began (start : Disk) (log : List (Effect host)) (disk : Disk) : Prop :=
  ∃ v, Reach step Recognised { disk := start } v ∧ v.disk = disk ∧ v.log <+: log

def Follows (start : Disk) (before : List (Effect host)) : Effect host → Prop
  | .ran i p r cases => r = i.run cases p ∧ ∃ disk, Began start before disk ∧ Checked i p disk cases
  | .wrote path r => ∃ i p cases, .ran i p r cases ∈ before ∧ path = artifactPath i.args.outputDir p
  | .inserted row r =>
    ∃ path i p cases, .wrote path r ∈ before ∧ .ran i p r cases ∈ before ∧
      row = evalRunRow r (i.config p.version)
  | .called line =>
    ∃ path i p r cases, .wrote path r ∈ before ∧ .ran i p r cases ∈ before ∧ i.v2 = true ∧
      Labeled cases ∧ r.publishLine = some line
  | .recorded path b i =>
    ∃ p r cases, .ran i p r cases ∈ before ∧ i.v2 = true ∧ Labeled cases ∧ i.prompts = [p] ∧
      path = i.args.baseline ∧ b.gitSha = r.gitSha ∧ b.promptVersion = r.promptVersion ∧
      b.metrics = r.metrics ∧ b.modelConfig = i.config p.version

def Effect.line : Effect host → Option PyStr
  | .called line => some line
  | _ => none

def Effect.row : Effect host → Option EvalRun
  | .inserted row _ => some row
  | _ => none

def calls (log : List (Effect host)) : List PyStr := log.filterMap Effect.line

structure Sound (start : Disk) (w : World host) : Prop where
  ordered : Preceded (Follows start) w.log
  results : w.disk.results = runCalls (calls w.log) start.results
  rows : w.disk.evalRuns = start.evalRuns ++ w.log.filterMap Effect.row
  artifacts : ∀ path r, w.whole path = some r →
    w.disk.artifacts path = some r.artifact ∧ .wrote path r ∈ w.log
  baselines : ∀ path text, w.disk.baselines path = some text →
    ∃ b i, .recorded path b i ∈ w.log ∧ text = writeBaseline b.baseline

theorem runCalls_concat (ls : List PyStr) (l : PyStr) (file : Bytes) :
    runCalls (ls ++ [l]) file = (appendResultRow l (runCalls ls file)).file := by
  induction ls generalizing file with
  | nil => rfl
  | cons first ls ih => exact ih _

section Primitives
variable {start : Disk} {w w' : World host}

/-- An effect that follows keeps the files and the table accounted for. -/
theorem sound_effect (sound : Sound start w) {e : Effect host} (logged : w'.log = w.log ++ [e])
    (follows : Follows start w.log e)
    (results : w'.disk.results =
      (Effect.line e).elim w.disk.results fun line => (appendResultRow line w.disk.results).file)
    (rows : w'.disk.evalRuns = w.disk.evalRuns ++ (Effect.row e).toList)
    (artifacts : ∀ path r, w'.whole path = some r →
      (e = .wrote path r ∧ w'.disk.artifacts path = some r.artifact) ∨
        (w.whole path = some r ∧ w'.disk.artifacts path = w.disk.artifacts path))
    (baselines : ∀ path text, w'.disk.baselines path = some text →
      (∃ b i, e = .recorded path b i ∧ text = writeBaseline b.baseline) ∨
        w.disk.baselines path = some text) : Sound start w' where
  ordered := logged ▸ preceded_concat sound.ordered follows
  results := by
    rw [results, logged, calls, List.filterMap_append]
    cases line : Effect.line e with
    | none => simpa [line, calls] using sound.results
    | some l =>
      rw [List.filterMap_cons_some line, List.filterMap_nil, runCalls_concat, Option.elim_some, sound.results]
      rfl
  rows := by
    rw [rows, logged, List.filterMap_append, sound.rows, List.append_assoc]
    cases row : Effect.row e <;> simp [row]
  artifacts := fun path r found => by
    rw [logged]
    rcases artifacts path r found with ⟨rfl, placed⟩ | ⟨earlier, same⟩
    · exact ⟨placed, List.mem_append_right _ List.mem_cons_self⟩
    · obtain ⟨placed, written⟩ := sound.artifacts path r earlier
      exact ⟨same.trans placed, List.mem_append_left _ written⟩
  baselines := fun path text found => by
    rw [logged]
    rcases baselines path text found with ⟨b, i, rfl, written⟩ | earlier
    · exact ⟨b, i, List.mem_append_right _ List.mem_cons_self, written⟩
    · obtain ⟨b, i, recorded, written⟩ := sound.baselines path text earlier
      exact ⟨b, i, List.mem_append_left _ recorded, written⟩

theorem sound_ran (sound : Sound start w) {i : Invocation host} {p : Prompted host} {r : Run}
    {cases : List GoldenCase} (follows : Follows start w.log (.ran i p r cases)) :
    Sound start (w.note (.ran i p r cases)) :=
  sound_effect sound rfl follows rfl (List.append_nil _).symm (fun _ _ found => .inr ⟨found, rfl⟩)
    fun _ _ found => .inr found

theorem sound_write (sound : Sound start w) {path : PyStr} {r : Run}
    (follows : Follows start w.log (.wrote path r)) : Sound start (w.write path r) := by
  refine sound_effect sound rfl follows rfl (List.append_nil _).symm (fun q s found => ?_)
    fun _ _ found => .inr found
  by_cases same : q = path
  · subst same
    have this : r = s := by simpa [World.write] using found
    subst this
    exact .inl ⟨rfl, by simp [World.write]⟩
  · exact .inr ⟨by simpa [World.write, same] using found, by simp [World.write, same]⟩

theorem sound_tear (sound : Sound start w) (path : PyStr) (left : Option PyStr) :
    Sound start (w.tear path left) := by
  cases left with
  | none => exact sound
  | some left =>
    refine ⟨sound.ordered, sound.results, sound.rows, ?_, sound.baselines⟩
    intro q s found
    by_cases same : q = path
    · simp [World.tear, same] at found
    · have earlier : w.whole q = some s := by simpa [World.tear, same] using found
      obtain ⟨placed, written⟩ := sound.artifacts q s earlier
      exact ⟨by simpa [World.tear, same] using placed, written⟩

theorem sound_insert (sound : Sound start w) {row : EvalRun} {r : Run}
    (follows : Follows start w.log (.inserted row r)) : Sound start (w.insert row r) :=
  sound_effect sound rfl follows rfl rfl (fun _ _ found => .inr ⟨found, rfl⟩)
    fun _ _ found => .inr found

theorem sound_append (sound : Sound start w) {line : PyStr} (follows : Follows start w.log (.called line)) :
    Sound start (w.append line) :=
  sound_effect sound rfl follows rfl (List.append_nil _).symm (fun _ _ found => .inr ⟨found, rfl⟩)
    fun _ _ found => .inr found

theorem sound_record (sound : Sound start w) {path : PyStr} {b : Recorded} {i : Invocation host}
    (follows : Follows start w.log (.recorded path b i)) : Sound start (w.record path b i) := by
  refine sound_effect sound rfl follows rfl (List.append_nil _).symm (fun _ _ found => .inr ⟨found, rfl⟩)
    fun q text found => ?_
  by_cases same : q = path
  · subst same
    have this : writeBaseline b.baseline = text := by simpa [World.record] using found
    exact .inl ⟨b, i, rfl, this.symm⟩
  · exact .inr (by simpa [World.record, same] using found)

end Primitives

structure Grown (start : Disk) (w w' : World host) : Prop where
  sound : Sound start w'
  kept : w.log <+: w'.log

section Stages
variable {start disk : Disk} {w : World host} {i : Invocation host} {cases : List GoldenCase}

theorem began_later {log later : List (Effect host)} (began : Began start log disk) (further : log <+: later) :
    Began start later disk := by
  obtain ⟨v, reached, here, first⟩ := began
  exact ⟨v, reached, here, first.trans further⟩

theorem grown_refl (sound : Sound start w) : Grown start w w := ⟨sound, List.prefix_rfl⟩

theorem grown_trans {w' w'' : World host} (first : Grown start w w') (second : Grown start w' w'') :
    Grown start w w'' := ⟨second.sound, first.kept.trans second.kept⟩

theorem grown_andThen {s : Stage host} {next : World host → Stage host} (first : Grown start w s.1)
    (later : s.2 = none → Grown start s.1 (next s.1).1) : Grown start w (s.andThen next).1 := by
  unfold Stage.andThen
  split
  · exact first
  · rename_i going
    exact grown_trans first (later (by simpa using going))

theorem insertRow_grown (sound : Sound start w) {path : PyStr} {p : Prompted host} {r : Run}
    (written : .wrote path r ∈ w.log) (ran : .ran i p r cases ∈ w.log) :
    Grown start w (insertRow i r (i.config p.version) p.row w).1 := by
  have follows : Follows start w.log (.inserted (evalRunRow r (i.config p.version)) r) :=
    ⟨path, i, p, cases, written, ran, rfl⟩
  have inserted : Grown start w (w.insert (evalRunRow r (i.config p.version)) r) :=
    ⟨sound_insert sound follows, List.prefix_append _ _⟩
  unfold insertRow
  split
  · cases p.row with
    | done => exact inserted
    | failed kept =>
      cases kept with
      | true => exact inserted
      | false => exact grown_refl sound
  · exact grown_refl sound

theorem appendLine_grown (sound : Sound start w) {line : Option PyStr}
    (follows : ∀ l ∈ line, Follows start w.log (.called l)) : Grown start w (appendLine line w).1 := by
  cases line with
  | none => exact grown_refl sound
  | some line => exact ⟨sound_append sound (follows line rfl), List.prefix_append _ _⟩

theorem publishRow_grown (sound : Sound start w) {path : PyStr} {p : Prompted host} {r : Run}
    (written : .wrote path r ∈ w.log) (ran : .ran i p r cases ∈ w.log) (checked : Checked i p disk cases) :
    Grown start w (publishRow i r w).1 := by
  unfold publishRow
  split
  · rename_i publish
    have v2 := checked.published (by simp [publish])
    exact appendLine_grown sound fun line shown =>
      ⟨path, i, p, r, cases, written, ran, v2, checked.labeled v2, shown⟩
  · exact grown_refl sound

theorem runPrompt_grown (sound : Sound start w) (began : Began start w.log disk) {p : Prompted host}
    (checked : i.strongModel ≠ some i.model → host.prompt p.version.1 = true → Checked i p disk cases) :
    Grown start w (runPrompt i cases p w).1 ∧
      ((runPrompt i cases p w).2 = none → .ran i p (i.run cases p) cases ∈ (runPrompt i cases p w).1.log) := by
  unfold runPrompt
  split
  · exact ⟨grown_refl sound, fun going => by cases going⟩
  split
  · exact ⟨grown_refl sound, fun going => by cases going⟩
  rename_i different known
  have checks := checked different (by simpa using known)
  dsimp only
  generalize named : artifactPath i.args.outputDir p = path
  generalize run : i.run cases p = r
  have ran : Grown start w (w.note (.ran i p r cases)) :=
    ⟨sound_ran sound ⟨run.symm, disk, began, checks⟩, List.prefix_append _ _⟩
  have here : Effect.ran i p r cases ∈ (w.note (.ran i p r cases)).log := by simp [World.note]
  generalize w.note (.ran i p r cases) = w₁ at ran here
  cases outcome : p.artifact with
  | failed left =>
    have torn : Grown start w₁ (w₁.tear path left) :=
      ⟨sound_tear ran.sound path left, by cases left <;> exact List.prefix_rfl⟩
    exact ⟨grown_trans ran torn, fun going => by cases going⟩
  | whole =>
    have wrote : Grown start w₁ (w₁.write path r) :=
      ⟨sound_write ran.sound ⟨i, p, cases, here, named.symm⟩, List.prefix_append _ _⟩
    have placed : Effect.wrote path r ∈ (w₁.write path r).log := by simp [World.write]
    have still := wrote.kept.subset here
    have inserted := insertRow_grown wrote.sound placed still
    have published (w₂ : World host) (grown : Grown start (w₁.write path r) w₂) :=
      publishRow_grown grown.sound (grown.kept.subset placed) (grown.kept.subset still) checks
    have all : Grown start (w₁.write path r)
        (Stage.andThen (insertRow i r (i.config p.version) p.row (w₁.write path r)) (publishRow i r)).1 :=
      grown_andThen inserted fun _ => published _ inserted
    exact ⟨grown_trans ran (grown_trans wrote all), fun _ => all.kept.subset still⟩

theorem runPrompts_grown (sound : Sound start w) (began : Began start w.log disk) {ps : List (Prompted host)}
    (checked : ∀ p ∈ ps, i.strongModel ≠ some i.model → host.prompt p.version.1 = true →
      Checked i p disk cases) :
    Grown start w (runPrompts i cases ps w).1 ∧
      ((runPrompts i cases ps w).2 = none →
        ∀ p ∈ ps, .ran i p (i.run cases p) cases ∈ (runPrompts i cases ps w).1.log) := by
  induction ps generalizing w with
  | nil => exact ⟨grown_refl sound, by simp⟩
  | cons p ps ih =>
    obtain ⟨first, ran⟩ := runPrompt_grown sound began (checked p List.mem_cons_self)
    have others : ∀ q ∈ ps, i.strongModel ≠ some i.model → host.prompt q.version.1 = true →
        Checked i q disk cases := fun q member => checked q (List.mem_cons_of_mem _ member)
    have rest := ih first.sound (began_later began first.kept) others
    rw [runPrompts]
    refine ⟨grown_andThen first fun _ => rest.1, ?_⟩
    unfold Stage.andThen
    split
    · rename_i stopped
      intro going
      simp [going] at stopped
    · rename_i went
      obtain ⟨later, rest⟩ := rest
      intro going q member
      rcases List.mem_cons.mp member with rfl | member
      · exact later.kept.subset (ran (by simpa using went))
      · exact rest going q member

end Stages

section Preparation
variable {i : Invocation host} {disk : Disk} {found : Option Baseline × List GoldenCase}

theorem check_ok {refusal : Option Refusal} {u : Unit} (passed : check refusal = .ok u) :
    refusal = none := by
  cases refusal with
  | none => rfl
  | some refusal => cases passed

structure Passed (i : Invocation host) (disk : Disk) (found : Option Baseline × List GoldenCase) : Prop where
  baseline : readBaseline i disk = .ok found.1
  models : checkModels i = none
  cases : readCases i disk = .ok found.2
  labels : checkCases i found.2 = none
  file : checkFile i disk = none
  client : checkClient i = none

theorem prepare_passed (prepared : prepare i disk = .ok found) : Passed i disk found := by
  obtain ⟨baseline, first, prepared⟩ := bind_ok prepared
  obtain ⟨u, models, prepared⟩ := bind_ok prepared
  obtain ⟨cases, second, prepared⟩ := bind_ok prepared
  obtain ⟨u, labels, prepared⟩ := bind_ok prepared
  obtain ⟨u, file, prepared⟩ := bind_ok prepared
  obtain ⟨u, client, prepared⟩ := bind_ok prepared
  cases prepared
  exact ⟨first, check_ok models, second, check_ok labels, check_ok file, check_ok client⟩

theorem checkCases_labeled {cases : List GoldenCase} (passed : checkCases i cases = none)
    (v2 : i.v2 = true) : Labeled cases := by
  rw [checkCases, if_pos v2, Option.map_eq_none_iff, List.findIdx?_eq_none_iff] at passed
  intro c member unlabeled
  simpa [unlabeled] using passed c member

theorem passed_v2 (passed : Passed i disk found)
    (publishes : (i.args.publish || i.args.writeBaseline) = true) : i.v2 = true := by
  by_contra v1
  have labels := passed.labels
  rw [checkCases, if_neg v1] at labels
  split_ifs at labels with writes publish
  rcases Bool.or_eq_true_iff.mp publishes with yes | yes
  · exact publish yes
  · exact writes yes

theorem passed_single (passed : Passed i disk found) (writes : i.args.writeBaseline = true) :
    i.prompts.length ≤ 1 := by
  have models := passed.models
  unfold checkModels at models
  split_ifs at models with many
  simpa [writes] using many

theorem readCases_ok {cases : List GoldenCase} (read : readCases i disk = .ok cases) :
    ∃ file, disk.goldens i.args.golden.1 = some file ∧ loadGolden host.golden false file = .ok cases := by
  unfold readCases at read
  cases found : disk.goldens i.args.golden.1 with
  | none =>
    rw [found] at read
    cases read
  | some file =>
    rw [found] at read
    dsimp only at read
    cases loaded : loadGolden host.golden false file with
    | error e =>
      rw [loaded] at read
      cases read
    | ok golden =>
      rw [loaded] at read
      cases read
      exact ⟨file, rfl, loaded⟩

theorem readBaseline_gate {found : Option Baseline} (gates : i.args.gate = true)
    (read : readBaseline i disk = .ok found) : ∃ text baseline, disk.baselines i.args.baseline = some text ∧
      loadBaseline host.golden.nesting text = some baseline ∧ found = some baseline := by
  rw [readBaseline, if_pos gates] at read
  split at read
  · rename_i baseline loaded
    obtain ⟨text, stored, loaded⟩ := Option.bind_eq_some_iff.mp loaded
    exact ⟨text, baseline, stored, loaded, (Except.ok.inj read).symm⟩
  · cases read

theorem passed_fresh (passed : Passed i disk found) (writes : i.args.writeBaseline = true) :
    disk.baselines i.args.baseline = none ∨ i.args.forceBaseline = true := by
  have file := passed.file
  unfold checkFile at file
  split_ifs at file with present
  cases stored : disk.baselines i.args.baseline with
  | none => exact .inl rfl
  | some text => simpa [writes, stored] using present

theorem passed_client (passed : Passed i disk found) (own : i.llmGiven = false) :
    i.settings.cheapModel.1 ≠ [] ∧
      ∀ model ∈ [i.settings.cheapModel.1, i.settings.strongModel.1], model ≠ [] → model ∈ i.settings.priced := by
  have client := passed.client
  unfold checkClient at client
  dsimp only at client
  split_ifs at client with refused
  simp only [own, Bool.not_false, Bool.true_and, Bool.or_eq_true, decide_eq_true_eq, not_or,
    Bool.not_eq_true', Bool.not_eq_false, List.all_eq_true, List.mem_filter] at refused
  refine ⟨refused.1, fun model member named => ?_⟩
  simpa using refused.2 model ⟨member, by simpa using named⟩

theorem checked_passed (passed : Passed i disk found) {p : Prompted host} (listed : p ∈ i.prompts)
    (different : i.strongModel ≠ some i.model) (known : host.prompt p.version.1 = true) :
    Checked i p disk found.2 := by
  have gated (gates : i.args.gate = true) : ∃ text, disk.baselines i.args.baseline = some text ∧
      (loadBaseline host.golden.nesting text).isSome := by
    obtain ⟨text, baseline, stored, loaded, _⟩ := readBaseline_gate gates passed.baseline
    exact ⟨text, stored, by rw [loaded]; rfl⟩
  have models := passed.models
  unfold checkModels at models
  split_ifs at models with _ cheap strong unset unpriced unknown
  simp only [Bool.and_eq_true, decide_eq_true_eq, Bool.not_eq_true', not_and, Bool.not_eq_false] at *
  refine ⟨listed, known, by simpa using cheap, fun s set => ⟨?_, ?_⟩, fun judge => ⟨unset judge, ?_, ?_⟩,
    passed_client passed, readCases_ok passed.cases, checkCases_labeled passed.labels, passed_v2 passed,
    passed_single passed, gated, passed_fresh passed⟩
  · rw [Option.mem_def] at set
    simpa [set] using strong
  · rintro rfl
    exact different set
  · simpa using unpriced judge
  · simpa using unknown judge

end Preparation

section Invocations
variable {start : Disk} {w : World host} {i : Invocation host} {cases : List GoldenCase}

theorem run_depth (i : Invocation host) (cases : List GoldenCase) (p : Prompted host) :
    (i.run cases p).payload.depth ≤ host.golden.nesting := by
  have metrics := metricsPayload_depth (i.run cases p).metrics
  have deep := host.deep
  have payloads : itemsDepth (i.run cases p).cases + 2 ≤ host.golden.nesting := by
    have each : itemsDepth (i.run cases p).cases ≤ host.golden.nesting - 2 := by
      refine itemsDepth_le fun j member => ?_
      obtain ⟨c, _, rfl⟩ := List.mem_map.mp member
      have := c.shallow
      omega
    omega
  simp only [Run.payload, Json.depth, membersDepth]
  omega

theorem artifactLine_run (i : Invocation host) (cases : List GoldenCase) (p : Prompted host) :
    artifactLine host.golden.nesting (i.run cases p).artifact =
      if i.v2 then .ok (i.run cases p).publishLine else .error .configError := by
  have loaded : JsonText.loads host.golden.nesting (i.run cases p).artifact = .ok (i.run cases p).payload := by
    refine artifact_loads (run_depth i cases p) (host.score _).canonical fun c member => ?_
    obtain ⟨result, _, rfl⟩ := List.mem_map.mp member
    exact result.readable
  have golden : ((i.run cases p).payload.get? (str "golden") >>= readStr) = some i.args.golden.1 := rfl
  simp only [artifactLine, rowFromArtifact, loaded, golden, publishedRun_payload, Option.elim_some]
  unfold Invocation.v2
  split <;> rfl

/-- What is published from an artifact is what its run would have published itself. -/
theorem publishArtifact_grown (sound : Sound start w) {path : PyStr} (whole : (w.whole path).isSome) :
    Grown start w (publishArtifact path w).1 := by
  obtain ⟨r, found⟩ := Option.isSome_iff_exists.mp whole
  obtain ⟨placed, written⟩ := sound.artifacts path r found
  obtain ⟨before, after, split, ⟨i, p, cases, ran, _⟩⟩ := preceded_mem sound.ordered written
  have here : Effect.ran i p r cases ∈ w.log := split ▸ List.mem_append_left _ ran
  obtain ⟨_, _, _, rfl, disk, _, checked⟩ := preceded_mem sound.ordered here
  rw [publishArtifact, placed]
  dsimp only
  rw [artifactLine_run]
  cases v2 : i.v2 with
  | false => exact grown_refl sound
  | true =>
    exact appendLine_grown sound fun line shown =>
      ⟨path, i, p, i.run cases p, cases, written, here, v2, checked.labeled v2, shown⟩

theorem recordBaseline_grown (sound : Sound start w)
    (ran : ∀ p ∈ i.prompts, .ran i p (i.run cases p) cases ∈ w.log)
    (checked : i.args.writeBaseline = true → i.v2 = true ∧ Labeled cases ∧ i.prompts.length ≤ 1) :
    Grown start w (recordBaseline i cases w) := by
  unfold recordBaseline
  split
  · rename_i writes
    obtain ⟨v2, labeled, single⟩ := checked writes
    cases listed : i.prompts with
    | nil => exact grown_refl sound
    | cons p ps =>
      rw [listed, List.length_cons] at single
      have alone : ps = [] := List.eq_nil_of_length_eq_zero (by omega)
      subst alone
      refine ⟨sound_record sound ?_, List.prefix_append _ _⟩
      exact ⟨p, i.run cases p, cases, ran p (by simp [listed]), v2, labeled, listed, rfl, rfl, rfl, rfl, rfl⟩
  · exact grown_refl sound

theorem finish_grown (sound : Sound start w) (baseline : Option Baseline)
    (ran : ∀ p ∈ i.prompts, .ran i p (i.run cases p) cases ∈ w.log)
    (checked : i.args.writeBaseline = true → i.v2 = true ∧ Labeled cases ∧ i.prompts.length ≤ 1) :
    Grown start w (finish i baseline cases w).1 := by
  unfold finish
  dsimp only
  split
  · exact grown_refl sound
  split
  · exact grown_refl sound
  · exact recordBaseline_grown sound ran checked

theorem runAll_grown (reached : Reach step Recognised { disk := start } w) (sound : Sound start w)
    (recognised : ∀ path, i.args.fromArtifact = some path → (w.whole path).isSome) :
    Grown start w (runAll i w).1 := by
  unfold runAll
  cases source : i.args.fromArtifact with
  | some path => exact publishArtifact_grown sound (recognised path source)
  | none =>
    dsimp only
    cases prepared : prepare i w.disk with
    | error refusal => exact grown_refl sound
    | ok found =>
      have passed := prepare_passed prepared
      have began : Began start w.log w.disk := ⟨w, reached, rfl, List.prefix_rfl⟩
      obtain ⟨grown, ran⟩ := runPrompts_grown sound began fun p member => checked_passed passed member
      dsimp only
      cases ended : (runPrompts i found.2 i.prompts w).2 with
      | some exit => exact grown
      | none =>
        refine grown_trans grown (finish_grown grown.sound found.1 (ran ended) fun writes => ?_)
        have v2 := passed_v2 passed (by simp [writes])
        exact ⟨v2, checkCases_labeled passed.labels v2, passed_single passed writes⟩

def OfRow : Exit → Prop
  | .outputError | .databaseError | .resultsRefused | .raised => True
  | _ => False

theorem appendLine_exit (line : Option PyStr) {exit : Exit} (other : ¬ OfRow exit) :
    (appendLine line w).2 ≠ some exit := by
  unfold appendLine
  split
  · rintro ⟨⟩
    exact other trivial
  · dsimp only
    split
    · rintro ⟨⟩
      exact other trivial
    · simp

theorem andThen_exit {s : Stage host} {next : World host → Stage host} {exit : Exit} (first : s.2 ≠ some exit)
    (later : ∀ w, (next w).2 ≠ some exit) : (s.andThen next).2 ≠ some exit := by
  unfold Stage.andThen
  split
  · exact first
  · exact later s.1

theorem runPrompt_exit {p : Prompted host} {exit : Exit} (other : ¬ OfRow exit)
    (ended : (runPrompt i cases p w).2 = some exit) :
    (i.strongModel = some i.model ∧ exit = .refused .sameModels) ∨ exit = .refused (.prompt p.version.1) := by
  unfold runPrompt at ended
  split at ended
  · rename_i same
    exact .inl ⟨same, (Option.some.inj ended).symm⟩
  split at ended
  · exact .inr (Option.some.inj ended).symm
  · refine absurd ended (andThen_exit (andThen_exit ?_ fun w => ?_) fun w => ?_)
    · cases p.artifact with
      | whole => simp [writeArtifact]
      | failed left =>
        rintro ⟨⟩
        exact other trivial
    · unfold insertRow
      split
      · split
        · simp
        · rintro ⟨⟩
          exact other trivial
      · simp
    · unfold publishRow
      split
      · exact appendLine_exit _ other
      · simp

theorem runPrompts_exit {ps : List (Prompted host)} {exit : Exit} (other : ¬ OfRow exit)
    (ended : (runPrompts i cases ps w).2 = some exit) :
    (i.strongModel = some i.model ∧ exit = .refused .sameModels) ∨
      ∃ p ∈ ps, exit = .refused (.prompt p.version.1) := by
  induction ps generalizing w with
  | nil => cases ended
  | cons p ps ih =>
    rw [runPrompts, Stage.andThen] at ended
    split at ended
    · rcases runPrompt_exit other ended with same | named
      · exact .inl same
      · exact .inr ⟨p, List.mem_cons_self, named⟩
    · rcases ih ended with same | ⟨q, member, named⟩
      · exact .inl same
      · exact .inr ⟨q, List.mem_cons_of_mem _ member, named⟩

theorem finish_exit (baseline : Option Baseline) (refusal : Refusal) :
    (finish i baseline cases w).2 ≠ .refused refusal := by
  unfold finish
  dsimp only
  split
  · simp
  split
  · simp
  · cases baseline with
    | none => simp
    | some baseline =>
      simp only [Option.elim_some, gateRows]
      split
      · simp
      · split <;> simp

/-- Only a prompt version that cannot be loaded is refused after others have run. -/
theorem refused_unchanged {refusal : Refusal} (refused : (runAll i w).2 = .refused refusal)
    (early : ∀ p ∈ i.prompts, refusal ≠ .prompt p.version.1) : (runAll i w).1 = w := by
  unfold runAll at refused ⊢
  cases source : i.args.fromArtifact with
  | some path =>
    rw [source] at refused
    dsimp only [publishArtifact] at refused
    split at refused
    · cases refused
    split at refused
    · cases refused
    · rename_i line _
      dsimp only at refused
      cases ended : (appendLine line w).2 with
      | none =>
        rw [ended] at refused
        cases refused
      | some exit =>
        rw [ended, Option.getD_some] at refused
        exact absurd (refused ▸ ended) (appendLine_exit line id)
  | none =>
    rw [source] at refused
    dsimp only at refused ⊢
    cases prepared : prepare i w.disk with
    | error refusal => rfl
    | ok found =>
      rw [prepared] at refused
      dsimp only at refused ⊢
      by_cases same : i.strongModel = some i.model
      · cases listed : i.prompts with
        | nil =>
          rw [listed] at refused
          exact absurd refused (finish_exit _ _)
        | cons p ps =>
          have stopped : runPrompts i found.2 (p :: ps) w = (w, some (.refused .sameModels)) := by
            rw [runPrompts, runPrompt, if_pos same]
            rfl
          rw [stopped]
      · cases ended : (runPrompts i found.2 i.prompts w).2 with
        | none =>
          rw [ended] at refused
          exact absurd refused (finish_exit _ _)
        | some exit =>
          rw [ended] at refused
          dsimp only at refused
          rcases runPrompts_exit id (refused ▸ ended) with ⟨equal, _⟩ | ⟨p, member, named⟩
          · exact absurd equal same
          · exact absurd (Exit.refused.inj named) (early p member)

end Invocations

section Gate
variable {start : Disk} {w : World host} {i : Invocation host}

theorem step_sound {w' : World host} {e : Event host} (reached : Reach step Recognised { disk := start } w)
    (sound : Sound start w) (recognised : Recognised w e) (taken : step w e = some w') : Sound start w' := by
  cases e with
  | invoke i =>
    cases taken
    exact (runAll_grown reached sound recognised).sound
  | edit goldens =>
    cases taken
    exact ⟨sound.ordered, sound.results, sound.rows, sound.artifacts, sound.baselines⟩

theorem reach_sound (clean : start.baselines = fun _ => none)
    (reached : Reach step Recognised { disk := start } w) : Sound start w := by
  induction reached with
  | start =>
    refine ⟨preceded_nil, rfl, (List.append_nil _).symm, ?_, ?_⟩
    · intro path r found
      cases found
    · intro path text found
      rw [clean] at found
      cases found
  | next before recognised taken ih => exact step_sound before ih recognised taken

theorem gateRows_ok {baseline : Baseline} {cases : List GoldenCase} (passed : gateRows i baseline cases = .ok) :
    ∀ p ∈ i.prompts, evaluateGate i.settings.gate (i.run cases p).metrics baseline (i.config p.version) =
      some [] := by
  unfold gateRows at passed
  dsimp only at passed
  split at passed
  · cases passed
  · rename_i tripped evaluated
    split at passed
    · rename_i none
      intro p member
      have there := List.mem_map_of_mem (f := fun p =>
        evaluateGate i.settings.gate (i.run cases p).metrics baseline (i.config p.version)) member
      rw [mapM_eq_some_iff.mp evaluated] at there
      obtain ⟨found, listed, same⟩ := List.mem_map.mp there
      rw [← same, List.isEmpty_iff.mp (List.all_eq_true.mp none found listed)]
    · cases passed

structure Gated (start : Disk) (w : World host) (i : Invocation host) : Prop where
  /-- The baseline is a run over a labeled golden file of v2. -/
  recorded : ∃ b j p r cases disk, .recorded i.args.baseline b j ∈ w.log ∧ .ran j p r cases ∈ w.log ∧
    Began start w.log disk ∧ Checked j p disk cases ∧ j.v2 = true ∧ Labeled cases ∧
    b.metrics = r.metrics ∧ b.modelConfig = j.config p.version ∧
    ∀ p ∈ i.prompts, ∀ cases, readCases i w.disk = .ok cases →
      evaluateGate i.settings.gate (i.run cases p).metrics b.baseline (i.config p.version) = some [] ∧
      Agrees i.settings.gate b (i.run cases p).metrics (i.config p.version) []
  fixtures : ∀ cases, readCases i w.disk = .ok cases →
    ∀ p ∈ i.prompts, ∀ c ∈ cases, (p.triage c).missing = none
  answered : ∃ cases, readCases i w.disk = .ok cases ∧ ∃ p ∈ i.prompts, ∃ c ∈ cases, (p.triage c).error = none

theorem finish_ok {baseline : Option Baseline} {cases : List GoldenCase} (ended : (finish i baseline cases w).2 = .ok) :
    (∀ p ∈ i.prompts, ∀ c ∈ cases, (p.triage c).missing = none) ∧
      (∃ p ∈ i.prompts, ∃ c ∈ cases, (p.triage c).error = none) ∧
      ∀ b ∈ baseline, gateRows i b cases = .ok := by
  unfold finish at ended
  dsimp only at ended
  split at ended
  · cases ended
  rename_i complete
  split at ended
  · cases ended
  rename_i some
  refine ⟨fun p listed c member => ?_, ?_, fun b found => ?_⟩
  · by_contra present
    obtain ⟨pair, found⟩ := Option.ne_none_iff_exists'.mp present
    refine complete fun nothing => ?_
    have inside : pair ∈ ((i.prompts.flatMap fun p => cases.map p.triage).filterMap CaseRun.missing).dedup :=
      List.mem_dedup.mpr (List.mem_filterMap.mpr ⟨p.triage c,
        List.mem_flatMap.mpr ⟨p, listed, List.mem_map_of_mem member⟩, found⟩)
    rw [nothing] at inside
    cases inside
  · simp only [Bool.not_eq_true', Bool.not_eq_false, List.any_eq_true, List.mem_flatMap, List.mem_map] at some
    obtain ⟨_, ⟨p, listed, c, member, rfl⟩, answered⟩ := some
    exact ⟨p, listed, c, member, Option.isNone_iff_eq_none.mp answered⟩
  · cases found
    exact ended

def after (w : World host) (i : Invocation host) : World host := (runAll i w).1

theorem reach_after {i : Invocation host} (live : i.args.fromArtifact = none) :
    Reach step Recognised w (after w i) :=
  .next (e := .invoke i) .start (fun _ named => by cases live.symm.trans named) rfl

def endedOk : Exit → Bool
  | .ok => true
  | _ => false

theorem exit_ok {exit : Exit} (ended : endedOk exit = true) : exit = .ok := by
  cases exit with
  | ok => rfl
  | _ => cases ended

end Gate

section Samples
open ApiPoison (connectBody)
open EvalsLabeling (sampleHost)

theorem sampleHost_deep : 4 ≤ sampleHost.nesting := by decide

theorem noPayload_shallow : Json.null.depth + 2 ≤ sampleHost.nesting := by decide

theorem goldenPath_apart : Apart (str "evals/golden/v2.jsonl") := by decide

def sampleEvals : Host where
  golden := sampleHost
  deep := sampleHost_deep
  score := fun _ => ⟨sampleMetrics, sampleMetrics_canonical⟩
  prompt := fun version => version.length = 2
  judgePrompt := fun _ => true

def answeredCase : CaseRun sampleHost.nesting where
  error := none
  payload := .null
  readable := trivial
  shallow := noPayload_shallow

def samplePrompted : Prompted sampleEvals :=
  ⟨sampleRun.promptVersion, sampleRun.startedAt, fun _ => answeredCase, .whole, .done⟩

/-- With `--gate`, or with `--write-baseline --publish`. -/
def sampleInvocation (gate : Bool) : Invocation sampleEvals where
  args :=
    { golden := ⟨str "evals/golden/v2.jsonl", goldenPath_apart⟩
      model := none
      strongModel := none
      replayStrict := none
      judge := some false
      judgeModel := none
      outputDir := str "evals/results"
      database := true
      gate := gate
      baseline := str "evals/baseline.json"
      writeBaseline := !gate
      forceBaseline := false
      publish := !gate
      fromArtifact := none }
  settings := ⟨sampleRun.model, ⟨[], apart_nil⟩, [], [], sampleSettings⟩
  llmGiven := true
  prompts := [samplePrompted]
  gitSha := sampleRun.gitSha
  recordedAt := sampleRun.startedAt

def labeledRow : Bytes :=
  (str "\x7b\"alert\":").flatMap encodePoint ++ connectBody ++
    (str (",\"label\":\x7b\"severity\":1,\"category\":\"other\",\"escalate\":false\x7d," ++
      "\"labeler_note\":\"a single scan\",\"labeled_by\":\"human\"\x7d\n")).flatMap encodePoint

def sampleDisk (golden : Bytes) : Disk where
  goldens := fun _ => some golden
  artifacts := fun _ => none
  baselines := fun _ => none
  results := (unlines 0x0A [str "## Runs", str "", renderHeader, str "|---|"]).flatMap encodePoint
  evalRuns := []

def sampleWorld (golden : Bytes) : World sampleEvals :=
  after { disk := sampleDisk golden } (sampleInvocation false)

theorem sampleWorld_reached (golden : Bytes) :
    Reach step Recognised { disk := sampleDisk golden } (sampleWorld golden) := reach_after rfl

end Samples

section Results
variable {start : Disk} {w : World host} {i : Invocation host}

/-- Every row and the baseline come from runs whose checks were passed and whose artifacts were
written first; what could not begin has changed nothing. -/
theorem evals_provenance (clean : start.baselines = fun _ => none)
    (reached : Reach step Recognised { disk := start } w) :
    Sound start w ∧
    (∀ t, Holds start.results t → (∀ line ∈ calls w.log, SingleRow line ∧ Encodes line) →
      AppendOnly (calls w.log) start.results ∧
      decode w.disk.results = some (unlines 0x0A (t.front ++ calls w.log ++ t.after))) ∧
    ∀ (i : Invocation host) (refusal : Refusal), (runAll i w).2 = .refused refusal →
      (∀ p ∈ i.prompts, refusal ≠ .prompt p.version.1) → (runAll i w).1 = w := by
  have sound := reach_sound clean reached
  refine ⟨sound, fun t holds rows => ?_, fun i refusal refused early => refused_unchanged refused early⟩
  rw [sound.results]
  exact published_table holds (fun l member => (rows l member).1) fun l member => (rows l member).2

theorem evals_provenance_published :
    ((calls (sampleWorld labeledRow).log).length = 1 ∧ (sampleWorld labeledRow).disk.evalRuns.length = 1 ∧
      ((sampleWorld labeledRow).disk.baselines (str "evals/baseline.json")).isSome) ∧
      Sound (sampleDisk labeledRow) (sampleWorld labeledRow) :=
  ⟨by decide +kernel, (evals_provenance rfl (sampleWorld_reached labeledRow)).1⟩

theorem gate_passed (clean : start.baselines = fun _ => none)
    (reached : Reach step Recognised { disk := start } w) (gates : i.args.gate = true)
    (live : i.args.fromArtifact = none) (ended : (runAll i w).2 = .ok) : Gated start w i := by
  have sound := reach_sound clean reached
  unfold runAll at ended
  rw [live] at ended
  dsimp only at ended
  cases prepared : prepare i w.disk with
  | error refusal =>
    rw [prepared] at ended
    cases ended
  | ok found =>
    have passed := prepare_passed prepared
    rw [prepared] at ended
    dsimp only at ended
    cases stopped : (runPrompts i found.2 i.prompts w).2 with
    | some exit =>
      rw [stopped] at ended
      dsimp only at ended
      rcases runPrompts_exit id (ended ▸ stopped) with ⟨_, refused⟩ | ⟨_, _, refused⟩ <;> cases refused
    | none =>
      rw [stopped] at ended
      obtain ⟨complete, answered, rows⟩ := finish_ok ended
      obtain ⟨text, baseline, stored, loaded, same⟩ := readBaseline_gate gates passed.baseline
      obtain ⟨b, j, recorded, rfl⟩ := sound.baselines _ _ stored
      rw [loadBaseline_recorded host.deep b] at loaded
      cases loaded
      obtain ⟨before, after, split, ⟨p, r, cases, ran, v2, labeled, _, _, _, _, metrics, config⟩⟩ :=
        preceded_mem sound.ordered recorded
      have there : Effect.ran j p r cases ∈ w.log := split ▸ List.mem_append_left _ ran
      obtain ⟨earlier, later, whole, _, disk, began, checked⟩ := preceded_mem sound.ordered there
      have started : Began start w.log disk := began_later began (whole ▸ List.prefix_append _ _)
      have only (cases : List GoldenCase) (read : readCases i w.disk = .ok cases) : cases = found.2 :=
        Except.ok.inj (read.symm.trans passed.cases)
      refine ⟨⟨b, j, p, r, cases, disk, recorded, there, started, checked, v2, labeled, metrics, config,
        fun q listed golden read => ?_⟩, fun golden read => ?_, found.2, passed.cases, answered⟩
      · rw [only golden read]
        have evaluated := gateRows_ok (rows b.baseline same) q listed
        exact ⟨evaluated, evaluateGate_agrees evaluated⟩
      · rw [only golden read]
        exact complete

theorem gate_passed_baseline :
    Gated (sampleDisk labeledRow) (sampleWorld labeledRow) (sampleInvocation true) := by
  have passed : endedOk (runAll (sampleInvocation true) (sampleWorld labeledRow)).2 = true := by
    decide +kernel
  exact gate_passed rfl (sampleWorld_reached labeledRow) rfl rfl (exit_ok passed)

end Results

end EvalsProvenance
