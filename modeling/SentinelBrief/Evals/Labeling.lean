import SentinelBrief.Evals.Golden
import SentinelBrief.Evals.Sample
import SentinelBrief.Library.JsonSorted

/-!
The labeling tools (`evals/label_tool.py`, `evals/label_render.py`, `evals/ai_label.py`), any
number of sessions over one golden file. What a tool prints is left out; the console is the
list of the lines that are typed.
-/
namespace EvalsLabeling
open Utf8Text JsonText PyIntText PyText SeparatedLines ApiSessionAlert ApiPoison ApiFingerprint EvalsGolden
open EvalsScoring (Severity Verdict)
open EvalsSample (strataCategories)
open CoreAlertsRead (VerdictCategory)

structure Tools where
  host : Host
  isprintable : Nat → Bool
  fromisoformat : PyStr → Bool
  /-- `INJECTION_HINT.search`. -/
  injectionHint : PyStr → Bool

structure Candidate where
  caseId : Json
  alert : SessionAlert

/-- A time that `datetime.now(UTC)` gives, which pydantic reads from some text. -/
structure Now (lib : Libraries) where
  time : DateTime
  utc : time.offset = some 0
  known : ∃ j, lib.datetime j = some time

/-- How a prompt ends without an answer: `Quit`, or another exception, the end of the input among them. -/
inductive Stop where
  | quit
  | raised
  deriving DecidableEq

/-- What `pipeline.run` gives: a verdict, one of the two caught exceptions, or another one. -/
inductive PipelineOutcome where
  | verdict (v : Verdict)
  | failed
  | raised

structure Write where
  before : Bytes
  case : GoldenCase

structure Progress where
  file : Bytes
  writes : List Write := []

/-- What a session leaves; without a file it stays absent. -/
structure Outcome where
  file : Option Bytes
  writes : List Write := []
  raised : Bool := false

/-- `.lower()`: no other letter becomes an "s" or a "q", and `int` takes no letter. -/
def asciiLower (s : PyStr) : PyStr := s.map fun c => if 0x41 ≤ c ∧ c ≤ 0x5A then c + 0x20 else c

def promptSeverity : List PyStr → Except Stop (Option Severity × List PyStr)
  | [] => .error .raised
  | line :: console =>
    let answer := asciiLower (PyText.strip line)
    if answer = str "s" then .ok (none, console)
    else if answer = str "q" then .error .quit
    else match pyInt answer with
      | none => promptSeverity console
      | some n =>
        if range : 1 ≤ n ∧ n ≤ 5 then .ok (some ⟨n.toNat, by omega⟩, console) else promptSeverity console

def promptCategory : List PyStr → Except Stop (VerdictCategory × List PyStr)
  | [] => .error .raised
  | line :: console => match pyInt (PyText.strip line) with
    | none => promptCategory console
    | some n =>
      if n < 1 then promptCategory console
      else match strataCategories[(n - 1).toNat]? with
        | some category => .ok (category, console)
        | none => promptCategory console

def promptNote : List PyStr → Except Stop (PyStr × List PyStr)
  | [] => .error .raised
  | line :: console =>
    let note := PyText.strip line
    if str "6.6" <:+: note then .ok (note, console) else promptNote console

def promptTags : List PyStr → Except Stop (List PyStr × List PyStr)
  | [] => .error .raised
  | line :: console =>
    .ok (((SeparatedLines.fields 0x2C (PyText.strip line)).map PyText.strip).filter (· ≠ []), console)

/-- `stratum_id_value` is looked up in a dictionary, `case_id` in a set. -/
def hashable : Json → Bool
  | .arr _ => false
  | .obj _ => false
  | _ => true

/-- `case_id in already_labeled`, of what can be hashed. -/
def known (already : List PyStr) : Json → Bool
  | .str s => s ∈ already
  | _ => false

/-- `xs[start:]`. -/
def sliceFrom {α : Type} (start : Int) (xs : List α) : List α :=
  if 0 ≤ start then xs.drop start.toNat else xs.drop (xs.length - start.natAbs)

def note (model promptVersion today : PyStr) : PyStr :=
  str "AI-labeled by " ++ model ++ str " via the triage pipeline (prompt " ++ promptVersion ++
    str ") on " ++ today ++
    str " — machine ground truth for a model-tier agreement metric, not a person's judgment (R54)."

section
variable (tools : Tools)

def matchesInjectionHint (alert : SessionAlert) : Bool :=
  alert.events.any fun e => e.username.any tools.injectionHint || e.input.any tools.injectionHint

/-- `GoldenCase(...)`; none is a `ValidationError`. -/
def goldenCase (alert : SessionAlert) (label : EvalsScoring.GoldenLabel) (labelerNote : PyStr)
    (tags : List PyStr) (labeledBy : Provenance) (now : Now tools.host.lib) : Option GoldenCase :=
  if valid : 10 ≤ labelerNote.length then
    if tools.host.lib.text labelerNote && tags.all tools.host.lib.text then
      some ⟨alert, label, labelerNote, tags, some labeledBy, some now.time, valid⟩
    else none
  else none

/-- `prompt_label`; no case when it is skipped. -/
def promptLabel (alert : SessionAlert) (now : Now tools.host.lib) (console : List PyStr) :
    Except Stop (Option GoldenCase × List PyStr) := do
  match ← promptSeverity console with
  | (none, console) => return (none, console)
  | (some severity, console) =>
    let (category, console) ← promptCategory console
    let (labelerNote, console) ← promptNote console
    let (tags, console) ← promptTags console
    let label := ⟨severity, category, decide (4 ≤ severity.1), by simp⟩
    match goldenCase tools alert label labelerNote tags .human now with
    | some c => return (some c, console)
    | none => throw .raised

def loadCandidate (row : Json) : Option Candidate := do
  let caseId ← row.get? (str "case_id")
  let alertData ← row.get? (str "alert")
  let sampled ← row.get? (str "sampled")
  let seed ← sampled.get? (str "seed")
  let stratumId ← sampled.get? (str "stratum_id")
  let _ ← sampled.get? (str "alert_id")
  let receivedAt ← sampled.get? (str "received_at")
  -- `stratum_id` encodes the seed's text
  let _ ← encode (seed.pyStr tools.isprintable)
  match receivedAt, ApiSessionAlert.validate tools.host.lib alertData with
  | .str s, .valid alert =>
    if hashable stratumId && tools.fromisoformat s then some ⟨caseId, alert⟩ else none
  | _, _ => none

def loadCandidateAlert (row : Json) : Option (PyStr × SessionAlert) := do
  let caseId ← row.get? (str "case_id")
  let alertData ← row.get? (str "alert")
  match ApiSessionAlert.validate tools.host.lib alertData with
  | .valid alert => some (caseId.pyStr tools.isprintable, alert)
  | _ => none

def loadLines {α : Type} (read : Json → Option α) (file : Bytes) : Option (List α) := do
  let text ← decode file
  (filledLines (universalNewlines text)).mapM fun line => match loads tools.host.nesting line with
    | .ok row => read row
    | .error _ => none

def loadCandidates (file : Bytes) : Option (List Candidate) := loadLines tools (loadCandidate tools) file

def loadCandidateAlerts (file : Bytes) : Option (List (PyStr × SessionAlert)) :=
  loadLines tools (loadCandidateAlert tools) file

/-- The case ids of a file that is there and not blank. -/
def alreadyLabeled : Option Bytes → Option (List PyStr)
  | none => some []
  | some file => do
    let text ← decode file
    if PyText.strip (universalNewlines text) = [] then some []
    else match loadGolden tools.host false file with
      | .ok cases => cases.mapM (GoldenCase.caseId tools.host)
      | .error _ => none

/-- The file that is opened for appending, a last line without its newline ended first. -/
def endLine : Option Bytes → Option Bytes
  | none => some []
  | some file => (decode file).map fun text =>
    let existing := universalNewlines text
    if existing ≠ [] ∧ existing.getLast? ≠ some 0x0A then file ++ [0x0A] else file

/-- `f.write(case.model_dump_json() + "\n")`; none when it raises. -/
def Progress.write (p : Progress) (c : GoldenCase) : Option Progress := do
  let row ← tools.host.dumpJson (c.modelDump tools.host)
  let bytes ← encode (row ++ [0x0A])
  return ⟨p.file ++ bytes, p.writes ++ [⟨p.file, c⟩]⟩

/-- The loop of `label`; false when an exception leaves it. -/
def labelLoop (already : List PyStr) (clock : Nat → Now tools.host.lib) :
    List Candidate → List PyStr → Progress → Progress × Bool
  | [], _, p => (p, true)
  | candidate :: later, console, p =>
    if !hashable candidate.caseId then (p, false)
    else if known already candidate.caseId then
      labelLoop already clock later console p
    else match promptLabel tools candidate.alert (clock p.writes.length) console with
      | .error .quit => (p, true)
      | .error .raised => (p, false)
      | .ok (none, console) => labelLoop already clock later console p
      | .ok (some c, console) => match p.write tools c with
        | none => (p, false)
        | some p => labelLoop already clock later console p

def label (candidates : Bytes) (startAt : Int) (console : List PyStr) (clock : Nat → Now tools.host.lib)
    (file : Option Bytes) : Outcome :=
  match loadCandidates tools candidates, alreadyLabeled tools file, endLine file with
  | some all, some already, some start =>
    let (p, returned) := labelLoop tools already clock (sliceFrom startAt all) console ⟨start, []⟩
    ⟨some p.file, p.writes, !returned⟩
  | _, _, _ => { file := file, raised := true }

/-- `_label_one`; none is an exception that leaves it. -/
def labelOne (labelerNote : PyStr) (alert : SessionAlert) (now : Now tools.host.lib) :
    PipelineOutcome → Option (Option GoldenCase)
  | .raised => none
  | .failed => some none
  | .verdict v =>
    let label := ⟨v.severity, v.category, v.escalate, v.escalates⟩
    let tags := if matchesInjectionHint tools alert then [str "injection"] else []
    (goldenCase tools alert label labelerNote tags .ai now).map some

def writeRows : List GoldenCase → Progress → Progress × Bool
  | [], p => (p, true)
  | c :: cs, p => match p.write tools c with
    | none => (p, false)
    | some p => writeRows cs p

/-- `label_candidates`. The results are gathered in the order of the candidates. -/
def labelCandidates (alerts : List (PyStr × SessionAlert)) (labelerNote : PyStr)
    (outcomes : Nat → PipelineOutcome) (clock : Nat → Now tools.host.lib) (already : List PyStr)
    (file : Option Bytes) : Outcome :=
  let pending := (alerts.filter fun a => a.1 ∉ already).zipIdx
  let results := pending.mapM fun (a, i) => labelOne tools labelerNote a.2 (clock i) (outcomes i)
  match results, endLine file with
  | some results, some start =>
    let (p, returned) := writeRows tools (results.filterMap id) ⟨start, []⟩
    ⟨some p.file, p.writes, !returned⟩
  | _, _ => { file := file, raised := true }

/-- `main` of `ai_label`, with a labeler model. -/
def aiLabel (candidates : Bytes) (model promptVersion today : PyStr) (outcomes : Nat → PipelineOutcome)
    (clock : Nat → Now tools.host.lib) (file : Option Bytes) : Outcome :=
  match loadCandidateAlerts tools candidates, alreadyLabeled tools file with
  | some alerts, some already =>
    labelCandidates tools alerts (note model promptVersion today) outcomes clock already file
  | _, _ => { file := file, raised := true }

inductive Session where
  | label (candidates : Bytes) (startAt : Int) (console : List PyStr) (clock : Nat → Now tools.host.lib)
  | aiLabel (candidates : Bytes) (model promptVersion today : PyStr) (outcomes : Nat → PipelineOutcome)
      (clock : Nat → Now tools.host.lib)

def Session.run (file : Option Bytes) : Session tools → Outcome
  | .label candidates startAt console clock => EvalsLabeling.label tools candidates startAt console clock file
  | .aiLabel candidates model promptVersion today outcomes clock =>
    EvalsLabeling.aiLabel tools candidates model promptVersion today outcomes clock file

def runSessions : List (Session tools) → Option Bytes → Option Bytes × List Write
  | [], file => (file, [])
  | session :: sessions, file =>
    let outcome := session.run tools file
    let rest := runSessions sessions outcome.file
    (rest.1, outcome.writes ++ rest.2)

end

def stored (host : Host) : Option Bytes → Except GoldenError (List GoldenCase)
  | none => .ok []
  | some file => loadGolden host false file

section Candidates
variable {tools : Tools}

theorem loadLines_read {α : Type} {read : Json → Option α} {file : Bytes} {xs : List α}
    (loaded : loadLines tools read file = some xs) {x : α} (member : x ∈ xs) :
    ∃ line row, InRange line ∧ loads tools.host.nesting line = .ok row ∧ read row = some x := by
  obtain ⟨text, decoded, lines⟩ := Option.bind_eq_some_iff.mp loaded
  obtain ⟨line, listed, found⟩ := mapM_mem lines member
  have range : InRange line := by
    intro c inside
    rcases mem_universalNewlines (mem_filledLines listed inside) with there | rfl
    · exact (apart_of_encodes (decode_encodes decoded)).bound c there
    · decide
  split at found
  · rename_i row here
    exact ⟨line, row, range, here, found⟩
  · cases found

theorem candidate_carried (doc : Documented tools.host) {file : Bytes} {all : List Candidate}
    (loaded : loadCandidates tools file = some all) : ∀ c ∈ all, Carried tools.host c.alert := by
  intro c member
  obtain ⟨line, row, range, read, found⟩ := loadLines_read loaded member
  rw [loadCandidate] at found
  obtain ⟨caseId, -, found⟩ := Option.bind_eq_some_iff.mp found
  obtain ⟨alertData, present, found⟩ := Option.bind_eq_some_iff.mp found
  iterate 5 obtain ⟨_, -, found⟩ := Option.bind_eq_some_iff.mp found
  obtain ⟨_, -, checked⟩ := Option.bind_eq_some_iff.mp found
  cases valid : ApiSessionAlert.validate tools.host.lib alertData with
  | valid alert =>
    rw [valid] at checked
    split at checked
    · rename_i same
      cases same
      split at checked
      · cases checked
        exact carried_loaded doc range read present valid
      · cases checked
    · cases checked
  | _ =>
    rw [valid] at checked
    split at checked
    · rename_i other
      cases other
    · cases checked

theorem candidateAlert_carried (doc : Documented tools.host) {file : Bytes} {all : List (PyStr × SessionAlert)}
    (loaded : loadCandidateAlerts tools file = some all) : ∀ a ∈ all, Carried tools.host a.2 := by
  intro a member
  obtain ⟨line, row, range, read, found⟩ := loadLines_read loaded member
  rw [loadCandidateAlert] at found
  obtain ⟨caseId, -, found⟩ := Option.bind_eq_some_iff.mp found
  obtain ⟨alertData, present, found⟩ := Option.bind_eq_some_iff.mp found
  split at found
  · rename_i valid
    cases found
    exact carried_loaded doc range read present valid
  · cases found

theorem goldenCase_labeled {alert : SessionAlert} (carried : Carried tools.host alert)
    {label : EvalsScoring.GoldenLabel} {labelerNote : PyStr} {tags : List PyStr} {labeledBy : Provenance}
    {now : Now tools.host.lib} {c : GoldenCase}
    (made : goldenCase tools alert label labelerNote tags labeledBy now = some c) : Labeled tools.host c := by
  unfold goldenCase at made
  split at made
  · split at made
    · rename_i texts
      rw [Bool.and_eq_true, List.all_eq_true] at texts
      cases made
      refine ⟨carried, texts.1, texts.2, fun d same => ?_⟩
      cases same
      exact now.known
    · cases made
  · cases made

theorem promptLabel_labeled {alert : SessionAlert} (carried : Carried tools.host alert)
    {now : Now tools.host.lib} {console rest : List PyStr} {c : GoldenCase}
    (typed : promptLabel tools alert now console = .ok (some c, rest)) : Labeled tools.host c := by
  obtain ⟨⟨severity, console⟩, -, typed⟩ := bind_ok typed
  cases severity with
  | none => cases typed
  | some severity =>
    obtain ⟨⟨category, console⟩, -, typed⟩ := bind_ok typed
    obtain ⟨⟨labelerNote, console⟩, -, typed⟩ := bind_ok typed
    obtain ⟨⟨tags, console⟩, -, typed⟩ := bind_ok typed
    dsimp only at typed
    split at typed
    · rename_i made
      cases typed
      exact goldenCase_labeled carried made
    · cases typed

end Candidates

inductive Appends (host : Host) (first : Bytes) : List Write → Bytes → Prop where
  | start : Appends host first [] first
  | row {file bytes : Bytes} {writes : List Write} {c : GoldenCase} {row : PyStr}
      (before : Appends host first writes file) (labeled : Labeled host c)
      (dumped : host.dumpJson (c.modelDump host) = some row) (encoded : encode (row ++ [0x0A]) = some bytes) :
      Appends host first (writes ++ [⟨file, c⟩]) (file ++ bytes)

section Loops
variable {tools : Tools}

theorem write_appends {first : Bytes} {p q : Progress} (before : Appends tools.host first p.writes p.file)
    {c : GoldenCase} (labeled : Labeled tools.host c) (written : p.write tools c = some q) :
    Appends tools.host first q.writes q.file := by
  obtain ⟨row, dumped, rest⟩ := Option.bind_eq_some_iff.mp written
  obtain ⟨bytes, encoded, same⟩ := Option.bind_eq_some_iff.mp rest
  cases same
  exact before.row labeled dumped encoded

theorem labelLoop_appends {first : Bytes} {already : List PyStr} {clock : Nat → Now tools.host.lib}
    {candidates : List Candidate} (carried : ∀ c ∈ candidates, Carried tools.host c.alert)
    (console : List PyStr) {p : Progress} (before : Appends tools.host first p.writes p.file) :
    Appends tools.host first (labelLoop tools already clock candidates console p).1.writes
      (labelLoop tools already clock candidates console p).1.file := by
  induction candidates generalizing console p with
  | nil => exact before
  | cons candidate later ih =>
    rw [List.forall_mem_cons] at carried
    rw [labelLoop]
    split
    · exact before
    · split
      · exact ih carried.2 console before
      · split
        · exact before
        · exact before
        · exact ih carried.2 _ before
        · rename_i typed
          split
          · exact before
          · rename_i written
            exact ih carried.2 _ (write_appends before (promptLabel_labeled carried.1 typed) written)

theorem writeRows_appends {first : Bytes} {cases : List GoldenCase}
    (labeled : ∀ c ∈ cases, Labeled tools.host c) {p : Progress}
    (before : Appends tools.host first p.writes p.file) :
    Appends tools.host first (writeRows tools cases p).1.writes (writeRows tools cases p).1.file := by
  induction cases generalizing p with
  | nil => exact before
  | cons c cs ih =>
    rw [List.forall_mem_cons] at labeled
    rw [writeRows]
    split
    · exact before
    · rename_i written
      exact ih labeled.2 (write_appends before labeled.1 written)

theorem labelOne_labeled {alert : SessionAlert} (carried : Carried tools.host alert) {labelerNote : PyStr}
    {now : Now tools.host.lib} {outcome : PipelineOutcome} {c : GoldenCase}
    (made : labelOne tools labelerNote alert now outcome = some (some c)) : Labeled tools.host c := by
  cases outcome with
  | verdict v =>
    obtain ⟨d, made, same⟩ := Option.map_eq_some_iff.mp made
    cases same
    exact goldenCase_labeled carried made
  | failed => cases made
  | raised => cases made

theorem session_appends (doc : Documented tools.host) (session : Session tools) (file : Option Bytes) :
    ((session.run tools file).file = file ∧ (session.run tools file).writes = []) ∨
      ∃ start last, endLine file = some start ∧ (session.run tools file).file = some last ∧
        Appends tools.host start (session.run tools file).writes last := by
  cases session with
  | label candidates startAt console clock =>
    rw [Session.run, label]
    split
    · rename_i all already start loaded _ opened
      have carried : ∀ c ∈ sliceFrom startAt all, Carried tools.host c.alert := by
        intro c member
        refine candidate_carried doc loaded c ?_
        unfold sliceFrom at member
        split at member
        · exact List.mem_of_mem_drop member
        · exact List.mem_of_mem_drop member
      exact .inr ⟨start, _, opened, rfl, labelLoop_appends carried console .start⟩
    · exact .inl ⟨rfl, rfl⟩
  | aiLabel candidates model promptVersion today outcomes clock =>
    rw [Session.run, aiLabel]
    split
    · rename_i alerts already loaded _
      rw [labelCandidates]
      dsimp only
      split
      · rename_i results start gathered opened
        have labeled : ∀ c ∈ results.filterMap id, Labeled tools.host c := by
          intro c member
          obtain ⟨o, there, same⟩ := List.mem_filterMap.mp member
          obtain ⟨⟨a, i⟩, pending, made⟩ := mapM_mem gathered there
          have known : a ∈ alerts := List.mem_of_mem_filter (List.fst_mem_of_mem_zipIdx pending)
          have whole : o = some c := same
          exact labelOne_labeled (candidateAlert_carried doc loaded a known) (whole ▸ made)
        exact .inr ⟨start, _, opened, rfl, writeRows_appends labeled .start⟩
      · exact .inl ⟨rfl, rfl⟩
    · exact .inl ⟨rfl, rfl⟩

end Loops

section Runs
variable {host : Host}

theorem endLine_holds {file : Option Bytes} {cases : List GoldenCase} (accepted : stored host file = .ok cases)
    {start : Bytes} (opened : endLine file = some start) :
    Holds host start cases ∧ file.getD [] <+: start := by
  cases file with
  | none =>
    cases accepted
    cases opened
    exact ⟨⟨rfl, [], rfl, .inl rfl⟩, List.prefix_rfl⟩
  | some bytes =>
    obtain ⟨text, decoded, same⟩ := Option.map_eq_some_iff.mp opened
    dsimp only at same
    split at same
    · rename_i unended
      subst same
      have longer : decode (bytes ++ [0x0A]) = some (text ++ [0x0A]) := decode_append decoded rfl
      have lines := universalNewlines_newline unended.2
      refine ⟨⟨?_, _, longer, ?_⟩, List.prefix_append _ _⟩
      · rw [loadGolden_rows longer, lines, filledLines_newline (universalNewlines_clean text),
          ← loadGolden_rows decoded]
        exact accepted
      · rw [lines]
        exact .inr (List.getLast?_concat ..)
    · rename_i ended
      subst same
      refine ⟨⟨accepted, text, decoded, ?_⟩, List.prefix_rfl⟩
      by_contra open_end
      exact ended (not_or.mp open_end)

def AllFit (host : Host) (writes : List Write) : Prop :=
  ∀ w ∈ writes, ∀ before, loadGolden host false w.before = .ok before → Fits host before w.case

theorem appends_holds (doc : Documented host) {first last : Bytes} {writes : List Write}
    (appends : Appends host first writes last) {cases : List GoldenCase} (holds : Holds host first cases)
    (fits : AllFit host writes) :
    ∃ added, List.Forall₂ SameCase (writes.map Write.case) added ∧ Holds host last (cases ++ added) ∧
      first <+: last := by
  induction appends with
  | start => exact ⟨[], .nil, by rwa [List.append_nil], List.prefix_rfl⟩
  | @row file bytes writes c row before labeled dumped encoded ih =>
    obtain ⟨earlier, only⟩ := List.forall_mem_append.mp fits
    obtain ⟨added, same, middle, longer⟩ := ih earlier
    have fit := only ⟨file, c⟩ (List.mem_singleton_self _) _ middle.accepted
    obtain ⟨c', again, final⟩ := holds_written doc middle labeled fit dumped encoded
    refine ⟨added ++ [c'], ?_, ?_, longer.trans (List.prefix_append _ _)⟩
    · rw [List.map_append]
      exact List.rel_append same (.cons again .nil)
    · rwa [← List.append_assoc]

end Runs

/-- `load_golden` gives the cases of before and then the labeled ones, and the old rows stand as they were. -/
structure Survives (host : Host) (file file' : Option Bytes) (cases : List GoldenCase) (writes : List Write) :
    Prop where
  read : ∃ added, List.Forall₂ SameCase (writes.map Write.case) added ∧
    stored host file' = .ok (cases ++ added) ∧ ((cases ++ added).map (GoldenCase.caseId host)).Nodup
  kept : file.getD [] <+: file'.getD []

theorem stored_nodup {host : Host} {file : Option Bytes} {cases : List GoldenCase}
    (accepted : stored host file = .ok cases) : (cases.map (GoldenCase.caseId host)).Nodup := by
  cases file with
  | none =>
    cases accepted
    exact List.nodup_nil
  | some bytes => exact loadGolden_nodup accepted

theorem session_survives {tools : Tools} (doc : Documented tools.host) (session : Session tools)
    {file : Option Bytes} {cases : List GoldenCase} (accepted : stored tools.host file = .ok cases)
    (fits : AllFit tools.host (session.run tools file).writes) :
    Survives tools.host file (session.run tools file).file cases (session.run tools file).writes := by
  rcases session_appends doc session file with ⟨same, none⟩ | ⟨start, last, opened, left, appends⟩
  · rw [same, none]
    refine ⟨⟨[], .nil, by rwa [List.append_nil], ?_⟩, List.prefix_rfl⟩
    rw [List.append_nil]
    exact stored_nodup accepted
  · obtain ⟨holds, longer⟩ := endLine_holds accepted opened
    obtain ⟨added, same, final, more⟩ := appends_holds doc appends holds fits
    rw [left]
    exact ⟨⟨added, same, final.accepted, loadGolden_nodup final.accepted⟩, longer.trans more⟩

/-- Any sessions over a golden file, or over none, each write meeting its condition. -/
theorem labeling_survives {tools : Tools} (doc : Documented tools.host) (sessions : List (Session tools))
    {file : Option Bytes} {cases : List GoldenCase} (accepted : stored tools.host file = .ok cases)
    (fits : AllFit tools.host (runSessions tools sessions file).2) :
    Survives tools.host file (runSessions tools sessions file).1 cases (runSessions tools sessions file).2 := by
  induction sessions generalizing file cases with
  | nil =>
    refine ⟨⟨[], .nil, by rwa [List.append_nil], ?_⟩, List.prefix_rfl⟩
    rw [List.append_nil]
    exact stored_nodup accepted
  | cons session sessions ih =>
    rw [runSessions] at fits ⊢
    dsimp only at fits ⊢
    obtain ⟨here, later⟩ := List.forall_mem_append.mp fits
    obtain ⟨⟨added, same, loaded, -⟩, longer⟩ := session_survives doc session accepted here
    obtain ⟨⟨more, again, final, distinct⟩, rest⟩ := ih loaded later
    refine ⟨⟨added ++ more, ?_, ?_, ?_⟩, longer.trans rest⟩
    · rw [List.map_append]
      exact List.rel_append same again
    · rwa [← List.append_assoc]
    · rwa [← List.append_assoc]

def sampleDigests : List (String × String) :=
  [("cowrie|s1|2026-01-01T00:00:00+00:00", "d84978d225056f9cff9dd2a1bd36d4928e6042ecb4920a42efcfde71b98338b8"),
    ("cowrie|s2|2026-01-01T00:00:00+00:00", "325fa117693e7393e797945df8627875173c002086ba184697f0158d0792252b"),
    ("7:scanning", "8a51887c76cc429b25ed625f5a3f0e2d430f49d5823470f557a8c0e94fddc253"),
    ("7:brute_force", "86acbda015d69d2b3134b73d8a826878144afd093605583df67dd2ffea8b6d6a"),
    ("7:reconnaissance", "2da3961ae9696d326809d41aabecfe434f4b25cfa14f932c20e487e1b3bcba3c"),
    ("7:successful_intrusion", "419513b4768b45e3842cc220e6f9ccab3b5ab7eea7d979046e1689cccf76171a"),
    ("7:malware_delivery", "c69f5682d561682c76228320e485cd80d3a25f9b4c051dcf9cc4af3b54fc8646"),
    ("7:persistence_attempt", "5485fb6774b7449177ae48464f31d298f1f6a83b93f9d0a65a658527817fca88"),
    ("7:other", "9ed5c9048dc9d9b62229c088f5cf3b51e7bd16a5402034896d22643077fbfd10"),
    ("7:injection-candidate", "2a65610a32939267d6acac497681f9ca25f321d97faab960e63087f7d7510490"),
    ("7:unverdicted", "ad96b07bbc299f93b0c4bb19fcab246874ac594b1005a349b8a0ae2f527457cd")]

def sampleSha256 (bytes : Bytes) : PyStr :=
  ((sampleDigests.find? fun d => encode (str d.1) = some bytes).map fun d => str d.2).getD []

def sampleHost : Host where
  lib := { documentedLibraries with
    sha256 := sampleSha256
    text := fun s => (encode s).isSome
    int := fun j => match j with
      | .int n => some n
      | _ => none }
  bool := fun j => match j with
    | .bool b => some b
    | _ => none
  dumpJson := fun j => if j.scalars then some (j.dumps compactLayout 0) else none
  nesting := 900

theorem sampleHost_documented : EvalsGolden.Documented sampleHost where
  alerts :=
    { documentedLibraries_documented with
      empty_text := rfl
      int_again := by
        intro j n found
        cases j with
        | int i => rfl
        | _ => cases found }
  severity_literal _ := rfl
  bool_literal _ := rfl
  int_printable := by
    intro j n sound found
    cases j with
    | int i =>
      cases found
      exact sound
    | _ => cases found
  time_reads := by
    intro j d found
    have read : d = newYear (some 0) ∨ d = newYear none := by
      cases j with
      | str s =>
        simp only [sampleHost, documentedLibraries, sampleLibraries] at found
        split at found
        · exact .inl (Option.some.inj found).symm
        · split at found
          · exact .inr (Option.some.inj found).symm
          · cases found
      | _ => cases found
    rcases read with rfl | rfl
    · exact ⟨newYear (some 0), rfl, rfl, rfl⟩
    · exact ⟨newYear none, rfl, rfl, rfl⟩
  time_plain := by
    intro d
    change Plain (str "2026-01-01T00:00:00" ++ if d.aware then str "Z" else [])
    cases d.aware <;> decide
  dump_text := by
    intro j s dumped
    simp only [sampleHost] at dumped
    split at dumped
    · rename_i scalars
      exact ⟨scalars, (Option.some.inj dumped).symm⟩
    · cases dumped

def sampleTools : Tools where
  host := sampleHost
  isprintable := fun c => decide (0x20 ≤ c ∧ c < 0x7F)
  fromisoformat := fun s => decide (s = str "2026-01-01T00:00:00+00:00")
  injectionHint := fun _ => false

def sampleNow : Now sampleHost.lib where
  time := newYear (some 0)
  utc := rfl
  known := ⟨.str (str "2026-01-01T00:00:00Z"), rfl⟩

def alertRow (session message : PyStr) : Json :=
  let event := Json.obj [(str "eventid", .str (str "cowrie.session.connect")),
    (str "timestamp", .str (str "2026-01-01T00:00:00Z")), (str "session", .str session),
    (str "src_ip", .str (str "192.0.2.1")), (str "sensor", .str (str "hp")), (str "message", .str message)]
  .obj [(str "source", .str source), (str "session_id", .str session),
    (str "src_ip", .str (str "192.0.2.1")), (str "sensor", .str (str "hp")), (str "events", .arr [event])]

def candidateRow (session message : PyStr) : Json :=
  let preimage := str "cowrie|" ++ session ++ str "|2026-01-01T00:00:00+00:00"
  .obj [(str "case_id", .str (sampleSha256 ((encode preimage).getD []))),
    (str "alert", alertRow session message),
    (str "sampled", .obj [(str "seed", .int 1), (str "stratum_id", .str (str "0a1b2c3d")),
      (str "alert_id", .str (str "7")), (str "received_at", .str (str "2026-01-01T00:00:00+00:00"))])]

def goldenRow (session : PyStr) : Json :=
  .obj [(str "alert", alertRow session (str "hi")),
    (str "label", .obj [(str "severity", .int 1), (str "category", .str (str "other")),
      (str "escalate", .bool false)]), (str "labeler_note", .str (str "a single scan"))]

def rowLine (row : Json) : Bytes := (encode (row.dumps pythonLayout 0 ++ [0x0A])).getD []

/-- A case that was written by hand, its line not ended. -/
def sampleStored : Bytes := (rowLine (goldenRow (str "s1"))).dropLast

/-- The first session is left at the second candidate, the next one resumes there. -/
def sampleSessions : List (Session sampleTools) :=
  let candidates := (["s1", "s2"].map fun session => candidateRow (str session) (str "hi")).flatMap rowLine
  [.label candidates 0 [str "x", str "q"] fun _ => sampleNow,
    .label candidates 0 [str "x", str "4", str "2", str "6.6 sev 4: a guess", str "ssh, root"] fun _ => sampleNow]

def fits (host : Host) (w : Write) : Bool :=
  (match loadGolden host false w.before with
    | .ok before => before.all fun d => d.alert.fingerprint host.lib ≠ w.case.alert.fingerprint host.lib
    | .error _ => true) &&
    (w.case.alert.extra.isEmpty && w.case.alert.events.all fun e => e.extra.isEmpty) &&
    (w.case.alert.fingerprint host.lib).isSome &&
    ((w.case.alert.dumped host.lib).codePoints ++ (w.case.labelerNote ++ w.case.tags.flatten)).all
      fun c => !separators.contains c

theorem fits_sound {host : Host} {w : Write} (seen : fits host w = true) {before : List GoldenCase}
    (loaded : loadGolden host false w.before = .ok before) : Fits host before w.case := by
  simp only [fits, loaded, Bool.and_eq_true, List.isEmpty_iff, List.all_eq_true, Bool.not_eq_true',
    List.contains_eq_mem, decide_eq_false_iff_not, decide_eq_true_eq] at seen
  obtain ⟨⟨⟨fresh, own, events⟩, fingerprint⟩, unbroken⟩ := seen
  obtain ⟨alert, typed⟩ := List.forall_mem_append.mp unbroken
  obtain ⟨note, tags⟩ := List.forall_mem_append.mp typed
  obtain ⟨caseId, known⟩ := Option.isSome_iff_exists.mp fingerprint
  refine ⟨alert, note, ?_, ⟨?_, ?_⟩, caseId, known, fun d member => known ▸ fresh d member⟩
  · intro t member c inside
    exact tags c (List.mem_flatten.mpr ⟨t, member, inside⟩)
  · rw [own]
    trivial
  · intro e member
    rw [events e member]
    trivial

theorem labeling_survives_session :
    ∃ cases, stored sampleHost (some sampleStored) = .ok cases ∧ cases.length = 1 ∧
      (runSessions sampleTools sampleSessions (some sampleStored)).2.length = 1 ∧
      Survives sampleHost (some sampleStored) (runSessions sampleTools sampleSessions (some sampleStored)).1
        cases (runSessions sampleTools sampleSessions (some sampleStored)).2 := by
  have seen : (fun writes : List Write => writes.length == 1 && writes.all (fits sampleHost))
      (runSessions sampleTools sampleSessions (some sampleStored)).2 = true := by decide +kernel
  have single : (match stored sampleHost (some sampleStored) with
      | .ok cases => cases.length == 1
      | .error _ => false) = true := by decide +kernel
  simp only [Bool.and_eq_true, beq_iff_eq, List.all_eq_true] at seen
  cases read : stored sampleHost (some sampleStored) with
  | error e =>
    rw [read] at single
    cases single
  | ok cases =>
    rw [read] at single
    exact ⟨cases, rfl, by simpa using single, seen.1,
      labeling_survives sampleHost_documented sampleSessions read
        fun w member before loaded => fits_sound (seen.2 w member) loaded⟩

/-- A message with a line separator splits its row. -/
theorem line_separator_lost :
    let sessions : List (Session sampleTools) :=
      [.label (rowLine (candidateRow (str "s1") [0x2028])) 0 [str "1", str "1", str "6.6 sev 1: a scan", []]
        fun _ => sampleNow]
    stored sampleHost none = .ok [] ∧
      ¬ Survives sampleHost none (runSessions sampleTools sessions none).1 []
        (runSessions sampleTools sessions none).2 := by
  intro sessions
  have rejected : (match stored sampleHost (runSessions sampleTools sessions none).1 with
      | .ok _ => false
      | .error _ => true) = true := by decide +kernel
  refine ⟨rfl, fun survives => ?_⟩
  obtain ⟨added, -, loaded, -⟩ := survives.read
  rw [loaded] at rejected
  cases rejected

end EvalsLabeling
