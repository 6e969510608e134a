import SentinelBrief.Evals.Candidates
import SentinelBrief.Library.Runs

/-!
The golden set grows: `python -m evals.sample`, with the golden file as `--exclude`,
writes a candidates file, the labeling tools append to the golden file, in any order and
any number of times. A candidates file may be labeled long after later ones were written.
-/
namespace EvalsAnnotation
open Utf8Text JsonText PyText StepRuns ApiSessionAlert ApiPoison ApiFingerprint EvalsGolden EvalsLabeling
open EvalsCandidates (Files Exportable writeCandidates loadExcludeCaseIds)
open EvalsSample (Frame Rng)
open CoreAlertsRead (AlertRow)

section Writes
variable {tools : Tools}

theorem goldenCase_alert {alert : SessionAlert} {label : EvalsScoring.GoldenLabel} {labelerNote : PyStr}
    {tags : List PyStr} {labeledBy : Provenance} {now : Now tools.host.lib} {c : GoldenCase}
    (made : goldenCase tools alert label labelerNote tags labeledBy now = some c) : c.alert = alert := by
  unfold goldenCase at made
  split at made
  · split at made
    · cases made
      rfl
    · cases made
  · cases made

theorem promptLabel_alert {alert : SessionAlert} {now : Now tools.host.lib} {console rest : List PyStr}
    {c : GoldenCase} (typed : promptLabel tools alert now console = .ok (some c, rest)) : c.alert = alert := by
  obtain ⟨⟨severity, console⟩, -, typed⟩ := bind_ok typed
  cases severity with
  | none => cases typed
  | some severity =>
    obtain ⟨⟨category, console⟩, -, typed⟩ := bind_ok typed
    obtain ⟨⟨labelerNote, console⟩, -, typed⟩ := bind_ok typed
    obtain ⟨⟨tags, console⟩, -, typed⟩ := bind_ok typed
    dsimp only at typed
    split at typed
    · rename_i made
      cases typed
      exact goldenCase_alert made
    · cases typed

theorem write_writes {p q : Progress} {c : GoldenCase} (written : p.write tools c = some q) :
    q.writes = p.writes ++ [⟨p.file, c⟩] := by
  obtain ⟨row, -, rest⟩ := Option.bind_eq_some_iff.mp written
  obtain ⟨bytes, -, same⟩ := Option.bind_eq_some_iff.mp rest
  cases same
  rfl

theorem labelLoop_alerts (already : List PyStr) (clock : Nat → Now tools.host.lib)
    (candidates : List Candidate) (console : List PyStr) (p : Progress) :
    ∃ new : List Write, (labelLoop tools already clock candidates console p).1.writes = p.writes ++ new ∧
      (new.map fun w => w.case.alert).Sublist
        ((candidates.filter fun c => !known already c.caseId).map Candidate.alert) := by
  induction candidates generalizing console p with
  | nil => exact ⟨[], (List.append_nil _).symm, List.Sublist.slnil⟩
  | cons candidate later ih =>
    have nothing : ∃ new : List Write, p.writes = p.writes ++ new ∧ (new.map fun w => w.case.alert).Sublist
        (((candidate :: later).filter fun c => !known already c.caseId).map Candidate.alert) :=
      ⟨[], (List.append_nil _).symm, List.nil_sublist _⟩
    have skip : (later.filter fun c => !known already c.caseId).Sublist
        ((candidate :: later).filter fun c => !known already c.caseId) :=
      (List.sublist_cons_self candidate later).filter _
    rw [labelLoop]
    split
    · exact nothing
    · split
      · obtain ⟨new, same, inside⟩ := ih console p
        exact ⟨new, same, inside.trans (skip.map _)⟩
      · rename_i fresh
        split
        · exact nothing
        · exact nothing
        · rename_i console' _
          obtain ⟨new, same, inside⟩ := ih console' p
          exact ⟨new, same, inside.trans (skip.map _)⟩
        · rename_i c console' typed
          split
          · exact nothing
          · rename_i q written
            obtain ⟨new, same, inside⟩ := ih console' q
            refine ⟨⟨p.file, c⟩ :: new, ?_, ?_⟩
            · rw [same, write_writes written, List.append_assoc, List.singleton_append]
            · rw [List.filter_cons_of_pos (by simpa using fresh), List.map_cons, List.map_cons,
                promptLabel_alert typed]
              exact inside.cons_cons _

theorem writeRows_alerts (tools : Tools) (cases : List GoldenCase) (p : Progress) :
    ∃ new : List Write, (writeRows tools cases p).1.writes = p.writes ++ new ∧
      (new.map Write.case).Sublist cases := by
  induction cases generalizing p with
  | nil => exact ⟨[], (List.append_nil _).symm, List.Sublist.slnil⟩
  | cons c cs ih =>
    rw [writeRows]
    split
    · exact ⟨[], (List.append_nil _).symm, List.nil_sublist _⟩
    · rename_i q written
      obtain ⟨new, same, inside⟩ := ih q
      refine ⟨⟨p.file, c⟩ :: new, ?_, inside.cons_cons _⟩
      rw [same, write_writes written, List.append_assoc, List.singleton_append]

theorem labelOne_alert {alert : SessionAlert} {labelerNote : PyStr} {now : Now tools.host.lib}
    {outcome : PipelineOutcome} {c : GoldenCase}
    (made : labelOne tools labelerNote alert now outcome = some (some c)) : c.alert = alert := by
  cases outcome with
  | verdict v =>
    obtain ⟨d, made, same⟩ := Option.map_eq_some_iff.mp made
    cases same
    exact goldenCase_alert made
  | failed => cases made
  | raised => cases made

theorem results_alerts {labelerNote : PyStr} {outcomes : Nat → PipelineOutcome}
    {clock : Nat → Now tools.host.lib} {pending : List ((PyStr × SessionAlert) × Nat)}
    {results : List (Option GoldenCase)}
    (gathered : (pending.mapM fun x => labelOne tools labelerNote x.1.2 (clock x.2) (outcomes x.2)) = some results) :
    ((results.filterMap id).map GoldenCase.alert).Sublist (pending.map fun p => p.1.2) := by
  rw [mapM_eq_some_iff] at gathered
  induction pending generalizing results with
  | nil =>
    obtain rfl := List.map_eq_nil_iff.mp gathered.symm
    exact List.Sublist.slnil
  | cons first pending ih =>
    obtain ⟨o, results, rfl, here, rest⟩ := List.map_eq_cons_iff.mp gathered.symm
    have later := ih rest.symm
    cases o with
    | none => exact later.cons _
    | some c =>
      rw [List.filterMap_cons_some (f := id) (a := some c) rfl, List.map_cons, List.map_cons,
        labelOne_alert here.symm]
      exact later.cons_cons _

end Writes

theorem stripBy_nil {p : Nat → Bool} {s : PyStr} : stripBy p s = [] ↔ ∀ c ∈ s, p c = true := by
  rw [stripBy, List.reverse_eq_nil_iff, List.dropWhile_eq_nil_iff]
  simp only [List.mem_reverse]
  constructor
  · intro all c member
    rcases List.mem_append.mp (List.takeWhile_append_dropWhile (p := p) (l := s) ▸ member) with first | rest
    · exact List.mem_takeWhile_imp first
    · exact all c rest
  · exact fun all c member => all c ((List.dropWhile_suffix p).subset member)

theorem filledLines_blank {s : PyStr} (blank : strip s = []) : filledLines s = [] := by
  rw [filledLines, List.filter_eq_nil_iff]
  intro line listed
  have empty : strip line = [] := by
    rw [strip, stripBy_nil] at blank ⊢
    exact fun c inside => blank c ((mem_splitlinesFrom listed inside).resolve_left (by simp))
  simp [empty]

structure Textual (host : Host) (c : GoldenCase) : Prop where
  alert : Unbroken (c.alert.dumped host.lib).codePoints
  note : Unbroken c.labelerNote
  tags : ∀ t ∈ c.tags, Unbroken t
  finite : FiniteAlert c.alert

def Fresh (host : Host) (cases : List GoldenCase) (id : PyStr) : Prop :=
  ∀ d ∈ cases, d.caseId host ≠ some id

section Fits
variable {host : Host}

theorem appends_fit (doc : EvalsGolden.Documented host) {first last : Bytes} {writes : List Write}
    (appends : Appends host first writes last) {cases : List GoldenCase} (holds : Holds host first cases)
    (textual : ∀ w ∈ writes, Textual host w.case)
    (distinct : (writes.map fun w => w.case.caseId host).Nodup)
    (fresh : ∀ w ∈ writes, ∃ id, w.case.caseId host = some id ∧ Fresh host cases id) :
    AllFit host writes := by
  induction appends with
  | start =>
    intro w member
    cases member
  | @row file bytes writes c row before labeled dumped encoded ih =>
    rw [List.forall_mem_append] at textual fresh
    rw [List.map_append, List.nodup_append] at distinct
    obtain ⟨old, -, apart⟩ := distinct
    have earlier := ih textual.1 old fresh.1
    obtain ⟨added, same, middle, -⟩ := appends_holds doc before holds earlier
    refine List.forall_mem_append.mpr ⟨earlier, ?_⟩
    intro w member here loaded
    obtain rfl := List.mem_singleton.mp member
    obtain ⟨id, known, unseen⟩ := fresh.2 _ member
    obtain rfl : cases ++ added = here := by
      have both := middle.accepted.symm.trans loaded
      injection both
    have texts := textual.2 _ member
    refine ⟨texts.alert, texts.note, texts.tags, texts.finite, id, known, ?_⟩
    intro d listed again
    rcases List.mem_append.mp listed with stored | recent
    · exact unseen d stored again
    · obtain ⟨e, inside, same⟩ : ∃ e ∈ writes.map Write.case, SameCase e d := by
        obtain ⟨i, bound, rfl⟩ := List.getElem_of_mem recent
        have length := same.length_eq
        exact ⟨_, List.getElem_mem (by omega), (List.forall₂_iff_get.mp same).2 i (by omega) bound⟩
      obtain ⟨v, written, rfl⟩ := List.mem_map.mp inside
      have twice : v.case.caseId host = some id := (fingerprint_same same.alert).symm.trans again
      exact apart _ (List.mem_map_of_mem written) _ (List.mem_map_of_mem member) (twice.trans known.symm)

theorem alreadyLabeled_covers {tools : Tools} {file : Option Bytes} {cases : List GoldenCase}
    (accepted : stored tools.host file = .ok cases) {already : List PyStr}
    (found : alreadyLabeled tools file = some already) {id : PyStr} (absent : id ∉ already) :
    Fresh tools.host cases id := by
  cases file with
  | none =>
    cases accepted
    intro d member
    cases member
  | some bytes =>
    obtain ⟨text, decoded, read⟩ := Option.bind_eq_some_iff.mp found
    split at read
    · rename_i blank
      obtain ⟨l, loaded, rfl⟩ := (loadGolden_rows decoded).mp accepted
      rw [filledLines_blank blank] at loaded
      cases loaded
      intro d member
      cases member
    · have loaded : loadGolden tools.host false bytes = .ok cases := accepted
      rw [loaded] at read
      have ids := mapM_eq_some_iff.mp read
      intro d member known
      have listed : some id ∈ already.map some := ids ▸ known ▸ List.mem_map_of_mem member
      obtain ⟨other, inside, same⟩ := List.mem_map.mp listed
      exact absent (Option.some.inj same ▸ inside)

end Fits

/-- A candidates file with distinct case ids, each the fingerprint of its alert. -/
structure Offered (tools : Tools) (file : Bytes) : Prop where
  candidates : ∃ all, loadCandidates tools file = some all ∧
    (all.map fun c => c.alert.fingerprint tools.host.lib).Nodup ∧
    ∀ c ∈ all, ∃ id, c.caseId = .str id ∧ c.alert.fingerprint tools.host.lib = some id
  alerts : ∃ all, loadCandidateAlerts tools file = some all ∧
    (all.map fun a => a.2.fingerprint tools.host.lib).Nodup ∧
    ∀ a ∈ all, a.2.fingerprint tools.host.lib = some a.1

def sessionFile {tools : Tools} : Session tools → Bytes
  | .label candidates _ _ _ => candidates
  | .aiLabel candidates _ _ _ _ _ => candidates

section Sessions
variable {tools : Tools}

/-- A session over such a file labels cases that the golden file lacks, no case twice. -/
theorem session_fresh {session : Session tools} (offered : Offered tools (sessionFile session))
    {file : Option Bytes} {cases : List GoldenCase} (accepted : stored tools.host file = .ok cases) :
    ((session.run tools file).writes.map fun w => w.case.caseId tools.host).Nodup ∧
      ∀ w ∈ (session.run tools file).writes, ∃ id, w.case.caseId tools.host = some id ∧
        Fresh tools.host cases id := by
  have empty : (([] : List Write).map fun w => w.case.caseId tools.host).Nodup ∧
      ∀ w ∈ ([] : List Write), ∃ id, w.case.caseId tools.host = some id ∧ Fresh tools.host cases id := by
    simp
  cases session with
  | label candidates startAt console clock =>
    obtain ⟨all, loaded, distinct, named⟩ := offered.candidates
    rw [Session.run, label]
    split
    · rename_i all' already start found covered opened
      obtain rfl : all = all' := Option.some.inj (loaded.symm.trans found)
      have sliced : (sliceFrom startAt all).Sublist all := by
        unfold sliceFrom
        split
        · exact List.drop_sublist _ _
        · exact List.drop_sublist _ _
      obtain ⟨new, same, inside⟩ :=
        labelLoop_alerts already clock (sliceFrom startAt all) console ⟨start, []⟩
      have left := (inside.trans ((sliced.filter _).map _)).map fun a => a.fingerprint tools.host.lib
      rw [List.map_map, List.map_map] at left
      dsimp only
      rw [same, List.nil_append]
      refine ⟨((distinct.sublist (List.filter_sublist.map _)).sublist left), fun w member => ?_⟩
      obtain ⟨c, listed, alert⟩ := List.mem_map.mp (inside.subset (List.mem_map_of_mem member))
      obtain ⟨there, unknown⟩ := List.mem_filter.mp listed
      obtain ⟨id, own, fingerprint⟩ := named c (sliced.subset there)
      rw [own] at unknown
      refine ⟨id, ?_, alreadyLabeled_covers accepted covered (by simpa [known] using unknown)⟩
      rw [GoldenCase.caseId, ← alert]
      exact fingerprint
    · exact empty
  | aiLabel candidates model promptVersion today outcomes clock =>
    obtain ⟨all, loaded, distinct, named⟩ := offered.alerts
    rw [Session.run, aiLabel]
    split
    · rename_i all' already found covered
      obtain rfl : all = all' := Option.some.inj (loaded.symm.trans found)
      rw [labelCandidates]
      dsimp only
      split
      · rename_i results start gathered opened
        obtain ⟨new, same, inside⟩ :=
          writeRows_alerts tools (results.filterMap id) ⟨start, []⟩
        have pending := (inside.map GoldenCase.alert).trans (results_alerts gathered)
        have whole : ((all.filter fun a => a.1 ∉ already).zipIdx.map fun p => p.1.2) =
            (all.filter fun a => a.1 ∉ already).map Prod.snd := by
          have numbered := List.zipIdx_map_fst 0 (all.filter fun a => a.1 ∉ already)
          have both := congrArg (List.map Prod.snd) numbered
          rwa [List.map_map] at both
        rw [whole, List.map_map] at pending
        have left := pending.map fun a => a.fingerprint tools.host.lib
        rw [List.map_map, List.map_map] at left
        rw [same, List.nil_append]
        refine ⟨((distinct.sublist (List.filter_sublist.map _)).sublist left), fun w member => ?_⟩
        obtain ⟨a, listed, alert⟩ := List.mem_map.mp (pending.subset (List.mem_map_of_mem member))
        obtain ⟨there, unknown⟩ := List.mem_filter.mp listed
        refine ⟨a.1, ?_, alreadyLabeled_covers accepted covered (by simpa using unknown)⟩
        have own : w.case.alert = a.2 := alert.symm
        rw [GoldenCase.caseId, own]
        exact named a there
      · exact empty
    · exact empty

end Sessions

/-- No row has a member `case_id`, as `model_dump_json` writes none. -/
def Keyless (host : Host) (file : Bytes) : Prop :=
  ∀ text, decode file = some text → ∀ line ∈ filledLines (universalNewlines text),
    ∀ row, loads host.nesting line = .ok row → row.get? (str "case_id") = none

section Excluded
variable {host : Host}

theorem keyless_written (doc : EvalsGolden.Documented host) {file bytes : Bytes} {cases : List GoldenCase}
    (holds : Holds host file cases) (keyless : Keyless host file) {c : GoldenCase} (labeled : Labeled host c)
    (textual : Textual host c) {row : PyStr} (dumped : host.dumpJson (c.modelDump host) = some row)
    (encoded : encode (row ++ [0x0A]) = some bytes) : Keyless host (file ++ bytes) := by
  obtain ⟨text, decoded, ended⟩ := holds.ended
  obtain ⟨scalars, rfl⟩ := doc.dump_text _ _ dumped
  have clean : 0x0D ∉ (c.modelDump host).dumps compactLayout 0 := fun member =>
    absurd (compact_printable 0 _ _ member) (by decide)
  have single := dumps_single (unbroken_case doc textual.alert textual.note textual.tags)
  obtain ⟨longer, found, -, lines⟩ := appended_lines decoded ended rfl clean single encoded
  obtain ⟨readable, deep⟩ := rereads_case labeled.carried scalars
  have read := loads_dumps compactLayout readable deep (b := []) (by simp)
  rw [List.append_nil] at read
  intro text' here line member row loaded
  obtain rfl : longer = text' := Option.some.inj (found.symm.trans here)
  rw [lines] at member
  rcases List.mem_append.mp member with old | last
  · exact keyless text decoded line old row loaded
  · obtain rfl := List.mem_singleton.mp last
    have same := read.symm.trans loaded
    injection same with same
    subst same
    rfl

theorem appends_keyless (doc : EvalsGolden.Documented host) {first last : Bytes} {writes : List Write}
    (appends : Appends host first writes last) {cases : List GoldenCase} (holds : Holds host first cases)
    (fits : AllFit host writes) (textual : ∀ w ∈ writes, Textual host w.case) (keyless : Keyless host first) :
    Keyless host last := by
  induction appends with
  | start => exact keyless
  | @row file bytes writes c row before labeled dumped encoded ih =>
    obtain ⟨earlier, -⟩ := List.forall_mem_append.mp fits
    obtain ⟨old, only⟩ := List.forall_mem_append.mp textual
    obtain ⟨added, -, middle, -⟩ := appends_holds doc before holds earlier
    exact keyless_written doc middle (ih earlier old) labeled (only _ (List.mem_singleton_self _)) dumped encoded

theorem loadRows_lines {lines : List PyStr} {l : Loaded} (loaded : loadRows host false lines = .ok l) :
    ∀ d ∈ l.cases, ∃ line ∈ lines, readRow host line = .valid d := by
  have run : ∀ (lines : List PyStr) (start l : Loaded), lines.foldlM (loadRow host false) start = .ok l →
      ∀ d ∈ l.cases, d ∈ start.cases ∨ ∃ line ∈ lines, readRow host line = .valid d := by
    intro lines
    induction lines with
    | nil =>
      intro start l loaded d member
      cases loaded
      exact .inl member
    | cons line lines ih =>
      intro start l loaded d member
      rw [List.foldlM_cons] at loaded
      cases first : loadRow host false start line with
      | error e =>
        rw [first] at loaded
        cases loaded
      | ok next =>
        rw [first] at loaded
        obtain ⟨c, caseId, read, -, -, rfl⟩ := loadRow_valid first
        rcases ih _ l loaded d member with old | ⟨later, there, found⟩
        · rcases List.mem_append.mp old with before | here
          · exact .inl before
          · obtain rfl := List.mem_singleton.mp here
            exact .inr ⟨line, List.mem_cons_self, read⟩
        · exact .inr ⟨later, List.mem_cons_of_mem _ there, found⟩
  intro d member
  exact (run lines {} l loaded d member).resolve_left (by simp)

theorem readRow_parts {line : PyStr} {d : GoldenCase} (read : readRow host line = .valid d) :
    ∃ row j, loads host.nesting line = .ok row ∧ row.get? (str "alert") = some j ∧
      ApiSessionAlert.validate host.lib j = .valid d.alert := by
  unfold readRow at read
  split at read
  · cases read
  · cases read
  · rename_i row loaded
    unfold GoldenCase.validate at read
    split at read
    · cases read
    · rename_i alert valid
      obtain ⟨j, present, here⟩ := Option.map_eq_some_iff.mp valid
      split at read
      · rename_i c others
        cases read
        refine ⟨row, j, loaded, present, ?_⟩
        unfold readOthers at others
        iterate 5 obtain ⟨_, -, others⟩ := Option.bind_eq_some_iff.mp others
        cases others
        exact here
      · cases read
    · cases read

theorem excluded_cases {files : Files} {file : Bytes} {cases : List GoldenCase}
    (accepted : loadGolden files.tools.host false file = .ok cases) (keyless : Keyless files.tools.host file)
    {ids : List Json} (found : loadExcludeCaseIds files file = some ids) {d : GoldenCase} (member : d ∈ cases)
    {id : PyStr} (known : d.caseId files.tools.host = some id) : Json.str id ∈ ids := by
  obtain ⟨text, decoded, lines⟩ := Option.bind_eq_some_iff.mp found
  obtain ⟨l, loaded, rfl⟩ := (loadGolden_rows decoded).mp accepted
  obtain ⟨line, there, read⟩ := loadRows_lines loaded d member
  obtain ⟨row, j, parsed, present, valid⟩ := readRow_parts read
  have absent := keyless text decoded line there row parsed
  have fingerprint : d.alert.fingerprint files.tools.host.lib = some id := known
  have own : EvalsCandidates.excludedId files row = some (.str id) := by
    rw [EvalsCandidates.excludedId, absent, present, Option.map_some, valid]
    simp only [fingerprint, Option.map_some]
  have all := mapM_eq_some_iff.mp lines
  have listed : some (Json.str id) ∈ ids.map some := by
    rw [← all]
    refine List.mem_map.mpr ⟨line, there, ?_⟩
    rw [parsed]
    exact own
  obtain ⟨other, inside, same⟩ := List.mem_map.mp listed
  exact Option.some.inj same ▸ inside

end Excluded

structure Export (files : Files) (frame : Frame) where
  raw : AlertRow → Json
  alert : AlertRow → SessionAlert
  alertId : Nat → PyStr
  receivedAt : Int → IsoDateText.DateTime
  valued : ∀ a ∈ frame.db.alerts, (raw a).Valued
  valid : ∀ a ∈ frame.db.alerts, ApiSessionAlert.validate files.tools.host.lib (raw a) = .valid (alert a)
  finite : ∀ a ∈ frame.db.alerts, FiniteAlert (alert a)
  caseId : ∀ a ∈ frame.db.alerts, (alert a).fingerprint files.tools.host.lib = some (frame.caseId a)
  hint : ∀ a ∈ frame.db.alerts, frame.matchesInjectionHint a = matchesInjectionHint files.tools (alert a)
  plain : ∀ n, Plain (alertId n)

def Export.candidate {files : Files} {frame : Frame} (rows : Export files frame) (c : EvalsSample.Candidate) :
    Option EvalsCandidates.Candidate :=
  (frame.db.alerts.find? fun a => a.id = c.alertId).map fun a =>
    ⟨.str c.caseId, .str (rows.alertId c.alertId), rows.receivedAt c.receivedAt,
      EvalsCandidates.stratumText c.stratum, rows.alert a⟩

/-- One run of `python -m evals.sample`, beside what it excludes. -/
structure Sampling (files : Files) (σ : Type) where
  frame : Frame
  rows : Export files frame
  seed : Int
  generator : σ
  n : Nat
  since : Option Int
  fuel : Nat

structure State where
  golden : Option Bytes
  files : List Bytes := []
  writes : List Write := []

inductive Event (files : Files) (σ : Type) where
  | sample (run : Sampling files σ)
  | sit (session : Session files.tools)

def textOf : Json → Option PyStr
  | .str s => some s
  | _ => none

section System
variable (files : Files) {σ : Type} (rng : Rng σ)

/-- The case ids of `--exclude`, which is left out while there is no golden file. -/
def excluded : Option Bytes → Option (List PyStr)
  | none => some []
  | some file => (loadExcludeCaseIds files file).map fun ids => ids.filterMap textOf

def sampleFile (golden : Option Bytes) (run : Sampling files σ) : Option Bytes := do
  let ids ← excluded files golden
  let sampled ← EvalsSample.sample rng run.fuel run.frame run.generator ⟨run.n, run.since, ids⟩
  writeCandidates files run.seed (← sampled.mapM run.rows.candidate)

/-- A session reads a candidates file that was written. A run of `sample` that raises writes nothing. -/
def step (s : State) : Event files σ → Option State
  | .sample run => some { s with files := s.files ++ (sampleFile files rng s.golden run).toList }
  | .sit session =>
    if sessionFile session ∈ s.files then
      let outcome := session.run files.tools s.golden
      some { s with golden := outcome.file, writes := s.writes ++ outcome.writes }
    else none

def textual (s : State) : Event files σ → Prop
  | .sample _ => True
  | .sit session => ∀ w ∈ (session.run files.tools s.golden).writes, Textual files.tools.host w.case

end System

section Sampled
variable {files : Files} {σ : Type} {rng : Rng σ}

theorem sample_within {fuel : Nat} {frame : Frame} {seed : σ} {q : EvalsSample.Query}
    {sampled : List EvalsSample.Candidate} (returned : EvalsSample.sample rng fuel frame seed q = some sampled) :
    (sampled.map EvalsSample.Candidate.caseId).Nodup ∧ ∀ c ∈ sampled, c ∈ EvalsSample.eligible frame q := by
  have parts (selected : EvalsSample.Selected)
      (within : EvalsSample.Within (EvalsSample.eligible frame q) selected) :
      ((selected.map Prod.snd).map EvalsSample.Candidate.caseId).Nodup ∧
        ∀ c ∈ selected.map Prod.snd, c ∈ EvalsSample.eligible frame q := by
    rw [EvalsSample.values_ids within]
    refine ⟨within.distinct, fun c member => ?_⟩
    obtain ⟨e, there, rfl⟩ := List.mem_map.mp member
    exact within.listed e there
  have before := (EvalsSample.beforeFill_within rng frame seed q).1
  rw [EvalsSample.sample] at returned
  split at returned
  · cases returned
    exact parts _ before
  · obtain ⟨taken, served, rfl⟩ := Option.map_eq_some_iff.mp returned
    refine parts _ (EvalsSample.select_within before fun c member => ?_)
    have piled := RoundRobin.roundRobin_mem served c member
    have ordered := (RoundRobin.order_perm _).mem_iff.mpr piled
    exact List.mem_of_mem_filter ((EvalsSample.beforeFill_piles rng frame seed q).subset ordered)

theorem candidate_row {frame : Frame} {q : EvalsSample.Query} (rows : Export files frame)
    {c : EvalsSample.Candidate} (member : c ∈ EvalsSample.eligible frame q) {made : EvalsCandidates.Candidate}
    (found : rows.candidate c = some made) :
    Exportable files made ∧ made.caseId = .str c.caseId ∧ c.caseId ∉ q.excludeCaseIds := by
  obtain ⟨a, there, category, rfl⟩ := EvalsSample.eligible_source member
  obtain ⟨listed, allowed⟩ := List.mem_filter.mp there
  rw [Bool.and_eq_true, decide_eq_true_eq] at allowed
  obtain ⟨b, first, rfl⟩ := Option.map_eq_some_iff.mp found
  have satisfied := List.find?_some first
  have same : b.id = a.id := of_decide_eq_true satisfied
  obtain rfl : b = a :=
    List.inj_on_of_nodup_map frame.db.alert_ids (List.mem_of_find?_eq_some first) listed same
  refine ⟨⟨⟨rows.raw b, rows.valued b listed, rows.valid b listed⟩, rows.finite b listed,
    ⟨_, rows.caseId b listed, rfl⟩, ⟨_, rows.plain _, rfl⟩, ?_⟩, rfl, allowed.2⟩
  have known (stratum : EvalsSample.Stratum) :
      EvalsCandidates.stratumText stratum ∈ EvalsCandidates.knownStrata := by
    rcases stratum with (_ | _ | _ | _ | _ | _ | _) | _ | _ <;> decide
  exact known _

theorem candidates_rows {frame : Frame} {q : EvalsSample.Query} (rows : Export files frame)
    {sampled : List EvalsSample.Candidate} (inside : ∀ c ∈ sampled, c ∈ EvalsSample.eligible frame q)
    {candidates : List EvalsCandidates.Candidate} (made : sampled.mapM rows.candidate = some candidates) :
    (∀ c ∈ candidates, Exportable files c ∧ ∃ id, c.caseId = .str id ∧ id ∉ q.excludeCaseIds) ∧
      candidates.map EvalsCandidates.Candidate.caseId =
        sampled.map fun c => .str c.caseId := by
  rw [mapM_eq_some_iff] at made
  induction sampled generalizing candidates with
  | nil =>
    obtain rfl := List.map_eq_nil_iff.mp made.symm
    simp
  | cons c sampled ih =>
    obtain ⟨first, candidates, rfl, here, rest⟩ := List.map_eq_cons_iff.mp made.symm
    rw [List.forall_mem_cons] at inside
    obtain ⟨exportable, own, fresh⟩ := candidate_row rows inside.1 here.symm
    obtain ⟨all, ids⟩ := ih inside.2 rest.symm
    exact ⟨List.forall_mem_cons.mpr ⟨⟨exportable, _, own, fresh⟩, all⟩, by rw [List.map_cons, List.map_cons, own, ids]⟩

theorem read_ids {α : Type} (alertOf : α → SessionAlert) {R : EvalsCandidates.Candidate → α → Prop}
    {candidates : List EvalsCandidates.Candidate} {back : List α} (related : List.Forall₂ R candidates back)
    (same : ∀ c a, R c a → SameAlert c.alert (alertOf a)) (exportable : ∀ c ∈ candidates, Exportable files c)
    (distinct : (candidates.map EvalsCandidates.Candidate.caseId).Nodup) :
    (back.map fun a => (alertOf a).fingerprint files.tools.host.lib).Nodup ∧
      ∀ a ∈ back, ∃ c ∈ candidates, R c a ∧ ∃ id, c.caseId = .str id ∧
        (alertOf a).fingerprint files.tools.host.lib = some id := by
  have ids : ∀ c ∈ candidates, ∀ a, R c a → ∃ id, c.caseId = .str id ∧
      (alertOf a).fingerprint files.tools.host.lib = some id := by
    intro c member a here
    obtain ⟨id, fingerprint, own⟩ := (exportable c member).caseId
    exact ⟨id, own, (fingerprint_same (same c a here)).trans fingerprint⟩
  clear exportable
  induction related with
  | nil => simp
  | @cons c a candidates back here _ ih =>
    rw [List.map_cons, List.nodup_cons] at distinct
    rw [List.forall_mem_cons] at ids
    obtain ⟨id, own, fingerprint⟩ := ids.1 a here
    obtain ⟨apart, found⟩ := ih distinct.2 ids.2
    constructor
    · rw [List.map_cons, List.nodup_cons]
      refine ⟨fun again => distinct.1 ?_, apart⟩
      obtain ⟨b, member, twice⟩ := List.mem_map.mp again
      obtain ⟨d, there, -, id', other, known⟩ := found b member
      obtain rfl : id' = id := Option.some.inj (known.symm.trans (twice.trans fingerprint))
      exact own ▸ other ▸ List.mem_map_of_mem there
    · refine List.forall_mem_cons.mpr ⟨⟨c, List.mem_cons_self, here, id, own, fingerprint⟩, fun b member => ?_⟩
      obtain ⟨d, there, rest⟩ := found b member
      exact ⟨d, List.mem_cons_of_mem _ there, rest⟩

theorem sampleFile_offered (doc : EvalsCandidates.Documented files) {golden : Option Bytes}
    {cases : List GoldenCase} (accepted : stored files.tools.host golden = .ok cases)
    (keyless : ∀ file ∈ golden, Keyless files.tools.host file) {run : Sampling files σ} {file : Bytes}
    (made : sampleFile files rng golden run = some file) :
    Offered files.tools file ∧ ∃ all, loadCandidates files.tools file = some all ∧
      ∀ c ∈ all, ∃ id, c.caseId = .str id ∧ Fresh files.tools.host cases id := by
  obtain ⟨ids, excludes, made⟩ := Option.bind_eq_some_iff.mp made
  obtain ⟨sampled, returned, made⟩ := Option.bind_eq_some_iff.mp made
  obtain ⟨candidates, gathered, written⟩ := Option.bind_eq_some_iff.mp made
  obtain ⟨distinct, inside⟩ := sample_within returned
  obtain ⟨exportable, named⟩ := candidates_rows run.rows inside gathered
  have fresh : ∀ id ∉ ids, Fresh files.tools.host cases id := by
    intro id absent d member known
    cases golden with
    | none =>
      cases accepted
      cases member
    | some bytes =>
      obtain ⟨values, found, rfl⟩ := Option.map_eq_some_iff.mp excludes
      have listed := excluded_cases accepted (keyless bytes rfl) found member known
      exact absent (List.mem_filterMap.mpr ⟨_, listed, rfl⟩)
  have whole : ∀ c ∈ candidates, Exportable files c := fun c member => (exportable c member).1
  have apart : (candidates.map EvalsCandidates.Candidate.caseId).Nodup := by
    have texts : (sampled.map fun c => Json.str c.caseId) =
        (sampled.map EvalsSample.Candidate.caseId).map Json.str := by rw [List.map_map]; rfl
    rw [named, texts]
    exact List.Nodup.map (fun _ _ same => Json.str.inj same) distinct
  obtain ⟨back, loaded, related⟩ := EvalsCandidates.written_candidates doc whole written
  obtain ⟨alerts, read, same⟩ := EvalsCandidates.written_alerts doc whole written
  obtain ⟨back_distinct, back_ids⟩ := read_ids (fun c => c.alert) related (fun _ _ here => here.alert) whole apart
  obtain ⟨alerts_distinct, alerts_ids⟩ := read_ids Prod.snd same (fun _ _ here => here.2) whole apart
  have session := EvalsCandidates.loadCandidates_session doc loaded
  refine ⟨⟨⟨_, session, ?_, ?_⟩, ⟨alerts, read, alerts_distinct, ?_⟩⟩, _, session, ?_⟩
  · rw [List.map_map]
    exact back_distinct
  · intro c member
    obtain ⟨d, there, rfl⟩ := List.mem_map.mp member
    obtain ⟨e, -, here, id, own, fingerprint⟩ := back_ids d there
    exact ⟨id, here.caseId.trans own, fingerprint⟩
  · intro a member
    obtain ⟨e, -, here, id, own, fingerprint⟩ := alerts_ids a member
    have text : a.1 = id := Json.str.inj (here.1.symm.trans own)
    rw [text]
    exact fingerprint
  · intro c member
    obtain ⟨d, there, rfl⟩ := List.mem_map.mp member
    obtain ⟨e, inside, here, -⟩ := back_ids d there
    obtain ⟨-, id, own, absent⟩ := exportable e inside
    exact ⟨id, here.caseId.trans own, fresh id absent⟩

end Sampled

structure Grown (files : Files) (start : Option Bytes) (cases : List GoldenCase) (s : State) : Prop where
  survives : Survives files.tools.host start s.golden cases s.writes
  keyless : ∀ file ∈ s.golden, Keyless files.tools.host file
  offered : ∀ file ∈ s.files, Offered files.tools file

section Steps
variable {files : Files} {σ : Type} {rng : Rng σ}

theorem endLine_keyless {file : Option Bytes} (keyless : ∀ bytes ∈ file, Keyless files.tools.host bytes)
    {start : Bytes} (opened : endLine file = some start) : Keyless files.tools.host start := by
  cases file with
  | none =>
    cases opened
    intro text decoded line member
    cases decoded
    cases member
  | some bytes =>
    obtain ⟨text, decoded, same⟩ := Option.map_eq_some_iff.mp opened
    dsimp only at same
    split at same
    · rename_i unended
      subst same
      intro text' found line member
      have longer : decode (bytes ++ [0x0A]) = some (text ++ [0x0A]) := decode_append decoded rfl
      obtain rfl : text ++ [0x0A] = text' := Option.some.inj (longer.symm.trans found)
      rw [universalNewlines_newline unended.2, filledLines_newline (universalNewlines_clean text)] at member
      exact keyless bytes rfl text decoded line member
    · exact same ▸ keyless bytes rfl

theorem session_grown (doc : EvalsCandidates.Documented files) {session : Session files.tools}
    (offered : Offered files.tools (sessionFile session)) {golden : Option Bytes} {cases : List GoldenCase}
    (accepted : stored files.tools.host golden = .ok cases)
    (keyless : ∀ file ∈ golden, Keyless files.tools.host file)
    (texts : ∀ w ∈ (session.run files.tools golden).writes, Textual files.tools.host w.case) :
    Survives files.tools.host golden (session.run files.tools golden).file cases
        (session.run files.tools golden).writes ∧
      ∀ file ∈ (session.run files.tools golden).file, Keyless files.tools.host file := by
  obtain ⟨distinct, fresh⟩ := session_fresh offered accepted
  rcases session_appends doc.golden session golden with ⟨same, none⟩ | ⟨start, last, opened, left, appends⟩
  · have fits : AllFit files.tools.host (session.run files.tools golden).writes := by
      rw [none]
      intro w member
      cases member
    refine ⟨session_survives doc.golden session accepted fits, ?_⟩
    rw [same]
    exact keyless
  · obtain ⟨holds, -⟩ := endLine_holds accepted opened
    have fits := appends_fit doc.golden appends holds texts distinct fresh
    refine ⟨session_survives doc.golden session accepted fits, fun file member => ?_⟩
    rw [left] at member
    obtain rfl := Option.some.inj member
    exact appends_keyless doc.golden appends holds fits texts (endLine_keyless keyless opened)

theorem survives_trans {host : Host} {first middle last : Option Bytes} {cases : List GoldenCase}
    {earlier later : List Write} (before : Survives host first middle cases earlier)
    (after : ∀ added, stored host middle = .ok added → Survives host middle last added later) :
    Survives host first last cases (earlier ++ later) := by
  obtain ⟨⟨added, same, loaded, -⟩, longer⟩ := before
  obtain ⟨⟨more, again, final, distinct⟩, rest⟩ := after _ loaded
  refine ⟨⟨added ++ more, ?_, ?_, ?_⟩, longer.trans rest⟩
  · rw [List.map_append]
    exact List.rel_append same again
  · rwa [← List.append_assoc]
  · rwa [← List.append_assoc]

theorem step_grown (doc : EvalsCandidates.Documented files) {start : Option Bytes} {cases : List GoldenCase}
    {s s' : State} {event : Event files σ} (grown : Grown files start cases s) (texts : textual files s event)
    (taken : step files rng s event = some s') : Grown files start cases s' := by
  obtain ⟨added, -, loaded, -⟩ := grown.survives.read
  cases event with
  | sample run =>
    cases taken
    refine ⟨grown.survives, grown.keyless, fun file member => ?_⟩
    rcases List.mem_append.mp member with old | new
    · exact grown.offered file old
    · exact (sampleFile_offered doc loaded grown.keyless (Option.mem_toList.mp new)).1
  | sit session =>
    rw [step] at taken
    split at taken
    · rename_i listed
      cases taken
      obtain ⟨survives, keyless⟩ :=
        session_grown doc (grown.offered _ listed) loaded grown.keyless texts
      refine ⟨survives_trans grown.survives fun again here => ?_, keyless, grown.offered⟩
      have same := loaded.symm.trans here
      injection same with same
      exact same ▸ survives
    · cases taken

theorem reach_grown (doc : EvalsCandidates.Documented files) {start s : State} {cases : List GoldenCase}
    (empty : start.files = [] ∧ start.writes = []) (accepted : stored files.tools.host start.golden = .ok cases)
    (keyless : ∀ file ∈ start.golden, Keyless files.tools.host file)
    (reached : Reach (step files rng) (textual files) start s) : Grown files start.golden cases s := by
  refine reach_invariant (Grown files start.golden cases) ?_ ?_ reached
  · refine ⟨⟨⟨[], ?_, ?_, ?_⟩, List.prefix_rfl⟩, keyless, ?_⟩
    · rw [empty.2]
      exact .nil
    · rwa [List.append_nil]
    · rw [List.append_nil]
      exact stored_nodup accepted
    · rw [empty.1]
      simp
  · intro s event s' grown met taken
    exact step_grown doc grown met taken

/-- However samples and sessions follow one another, the golden file stays readable, keeps its rows, gets
    every labeled case once, and no sample offers a case that is in it. -/
theorem annotation_sound (doc : EvalsCandidates.Documented files) {start s : State} {cases : List GoldenCase}
    (empty : start.files = [] ∧ start.writes = []) (accepted : stored files.tools.host start.golden = .ok cases)
    (keyless : ∀ file ∈ start.golden, Keyless files.tools.host file)
    (reached : Reach (step files rng) (textual files) start s) :
    Survives files.tools.host start.golden s.golden cases s.writes ∧
      ∀ run file, sampleFile files rng s.golden run = some file →
        ∃ now all, stored files.tools.host s.golden = .ok now ∧ loadCandidates files.tools file = some all ∧
          ∀ c ∈ all, ∃ id, c.caseId = .str id ∧ Fresh files.tools.host now id := by
  have grown := reach_grown doc empty accepted keyless reached
  obtain ⟨added, -, loaded, -⟩ := grown.survives.read
  refine ⟨grown.survives, fun run file made => ?_⟩
  obtain ⟨-, all, read, fresh⟩ := sampleFile_offered doc loaded grown.keyless made
  exact ⟨_, all, loaded, read, fresh⟩

end Steps

section Example
open EvalsCandidates (sampleFiles sampleFiles_documented sampleAlert sampleAlert_id sampleAlert_finite samplePayload
  samplePayload_valid samplePayload_valued sampleTime)

def roundAlert : AlertRow :=
  { id := 1, source := str "cowrie", eventTime := 0, receivedAt := 10,
    raw := ⟨str "192.0.2.1", str "hp", []⟩, status := .triaged }

theorem roundAlert_ids : ([roundAlert].map AlertRow.id).Nodup := by decide

theorem noVerdict_ids : (([] : List CoreAlertsRead.VerdictRow).map CoreAlertsRead.VerdictRow.id).Nodup := by decide

theorem noVerdict_alerts :
    ∀ v ∈ ([] : List CoreAlertsRead.VerdictRow), ∃ a ∈ [roundAlert], a.id = v.alertId := by decide

theorem noCall_seqs :
    (([] : List CoreAlertsRead.ToolCallRow).map fun c => (c.verdictId, c.seq)).Nodup := by decide

def roundId : PyStr := str "d84978d225056f9cff9dd2a1bd36d4928e6042ecb4920a42efcfde71b98338b8"

theorem roundAlert_caseIds : ([roundAlert].map fun _ => roundId).Nodup := by decide

def roundFrame : Frame where
  db :=
    { alerts := [roundAlert], verdicts := [], toolCalls := [], alert_ids := roundAlert_ids,
      verdict_ids := noVerdict_ids, verdict_alerts := noVerdict_alerts, call_seqs := noCall_seqs }
  caseId _ := roundId
  matchesInjectionHint _ := false
  caseIds := roundAlert_caseIds

def roundRows : Export sampleFiles roundFrame where
  raw _ := samplePayload
  alert _ := sampleAlert
  alertId _ := str "3f0a"
  receivedAt _ := sampleTime
  valued _ _ := samplePayload_valued
  valid _ _ := samplePayload_valid
  finite _ _ := sampleAlert_finite
  caseId _ _ := sampleAlert_id
  hint _ _ := by
    change false = matchesInjectionHint sampleFiles.tools sampleAlert
    decide
  plain _ := by decide

def roundSampling : Sampling sampleFiles Unit :=
  { frame := roundFrame, rows := roundRows, seed := 7, generator := (), n := 8, since := none, fuel := 20 }

def roundFile : Bytes := (sampleFile sampleFiles EvalsSample.firstRng none roundSampling).getD []

theorem roundNow_utc : (newYear (some 0)).offset = some 0 := rfl

theorem roundNow_known : ∃ j, sampleFiles.tools.host.lib.datetime j = some (newYear (some 0)) :=
  ⟨.str (str "2026-01-01T00:00:00Z"), rfl⟩

def roundNow : Now sampleFiles.tools.host.lib where
  time := newYear (some 0)
  utc := roundNow_utc
  known := roundNow_known

def roundSession : Session sampleFiles.tools :=
  .label roundFile 0 [str "1", str "1", str "6.6 sev 1: a scan", []] fun _ => roundNow

def flat : Json → Bool
  | .int _ => true
  | .str _ => true
  | _ => false

theorem finite_flat {fs : List (PyStr × Json)} (all : (fs.all fun f => flat f.2) = true) : FiniteFields fs := by
  induction fs with
  | nil => trivial
  | cons f fs ih =>
    rw [List.all_cons, Bool.and_eq_true] at all
    refine ⟨?_, ih all.2⟩
    obtain ⟨k, v⟩ := f
    cases v with
    | int i => trivial
    | str s => trivial
    | _ => cases all.1

def flatRow (host : Host) (w : Write) : Bool :=
  (w.case.alert.extra.all fun f => flat f.2) && (w.case.alert.events.all fun e => e.extra.all fun f => flat f.2) &&
    ((w.case.alert.dumped host.lib).codePoints ++ (w.case.labelerNote ++ w.case.tags.flatten)).all
      fun c => !separators.contains c

theorem flatRow_textual {host : Host} {w : Write} (seen : flatRow host w = true) : Textual host w.case := by
  rw [flatRow, Bool.and_eq_true, Bool.and_eq_true] at seen
  obtain ⟨⟨own, events⟩, unbroken⟩ := seen
  simp only [List.all_eq_true, Bool.not_eq_true', List.contains_eq_mem, decide_eq_false_iff_not] at unbroken
  obtain ⟨alert, typed⟩ := List.forall_mem_append.mp unbroken
  obtain ⟨note, tags⟩ := List.forall_mem_append.mp typed
  refine ⟨alert, note, fun t member c inside => tags c (List.mem_flatten.mpr ⟨t, member, inside⟩),
    finite_flat own, fun e member => finite_flat ?_⟩
  exact List.all_eq_true.mp events e member

def roundState : State :=
  ⟨(roundSession.run sampleFiles.tools none).file, [sessionFile roundSession],
    (roundSession.run sampleFiles.tools none).writes⟩

theorem sit_reached {files : Files} {σ : Type} {rng : Rng σ} {golden : Option Bytes} {run : Sampling files σ}
    {session : Session files.tools} (written : sampleFile files rng golden run = some (sessionFile session))
    (texts : ∀ w ∈ (session.run files.tools golden).writes, Textual files.tools.host w.case) :
    Reach (step files rng) (textual files) { golden := golden }
      ⟨(session.run files.tools golden).file, [sessionFile session], (session.run files.tools golden).writes⟩ := by
  have sampled : step files rng { golden := golden } (.sample run) = some ⟨golden, [sessionFile session], []⟩ := by
    rw [step, written]
    rfl
  refine .next (.next .start (e := .sample run) trivial sampled) (e := .sit session) texts ?_
  rw [step, if_pos (List.mem_singleton_self _)]
  rfl

theorem roundFile_written :
    sampleFile sampleFiles EvalsSample.firstRng none roundSampling = some (sessionFile roundSession) := by
  have made : (sampleFile sampleFiles EvalsSample.firstRng none roundSampling).isSome = true := by decide +kernel
  obtain ⟨file, written⟩ := Option.isSome_iff_exists.mp made
  rw [roundSession, sessionFile, roundFile, written, Option.getD_some]

theorem roundSession_writes : (roundSession.run sampleFiles.tools none).writes.length = 1 ∧
    ∀ w ∈ (roundSession.run sampleFiles.tools none).writes, Textual sampleFiles.tools.host w.case := by
  have seen : (fun writes : List Write => writes.length == 1 && writes.all (flatRow sampleFiles.tools.host))
      (roundSession.run sampleFiles.tools none).writes = true := by decide +kernel
  simp only [Bool.and_eq_true, beq_iff_eq, List.all_eq_true] at seen
  exact ⟨seen.1, fun w member => flatRow_textual (seen.2 w member)⟩

theorem roundState_reached :
    Reach (step sampleFiles EvalsSample.firstRng) (textual sampleFiles) { golden := none } roundState :=
  sit_reached roundFile_written roundSession_writes.2

/-- One alert is sampled and labeled. -/
theorem annotation_sound_round :
    ((roundSession.run sampleFiles.tools none).writes.length = 1 ∧
      Survives sampleFiles.tools.host none roundState.golden [] roundState.writes) ∧
    ∀ run file, sampleFile sampleFiles EvalsSample.firstRng roundState.golden run = some file →
      ∃ now all, stored sampleFiles.tools.host roundState.golden = .ok now ∧
        loadCandidates sampleFiles.tools file = some all ∧
        ∀ c ∈ all, ∃ id, c.caseId = .str id ∧ Fresh sampleFiles.tools.host now id := by
  obtain ⟨survives, offers⟩ := annotation_sound sampleFiles_documented ⟨rfl, rfl⟩ rfl (by simp) roundState_reached
  exact ⟨⟨roundSession_writes.1, survives⟩, offers⟩

end Example

end EvalsAnnotation
