import SentinelBrief.Api.Fingerprint
import SentinelBrief.Api.VerdictEvents
import SentinelBrief.Evals.Scoring
import SentinelBrief.Library.JsonKeyed
import SentinelBrief.Library.PyText

/-!
The golden file (`evals/golden/__init__.py`): the rows that `load_golden` reads, the
case that a row denotes, and the row that `model_dump_json` makes of a case.
-/
namespace EvalsGolden
open Utf8Text JsonText DoubleText PyText OrderedDictionary ApiSessionAlert ApiPoison ApiFingerprint
open RelationalQueries (orderBy_perm)
open EvalsScoring (Severity GoldenLabel)
open CoreAlertsRead (VerdictCategory categoryText)
open ApiVerdictEvents (readCategory find_category severity_digits)

structure Host where
  lib : Libraries
  bool : Json → Option Bool
  /-- The text of `model_dump_json` for a value; none when it raises. -/
  dumpJson : Json → Option PyStr
  /-- How deep a JSON text may be nested. -/
  nesting : Nat

inductive Provenance where
  | human
  | ai
  deriving DecidableEq

def Provenance.text : Provenance → PyStr
  | .human => str "human"
  | .ai => str "ai"

structure GoldenCase where
  alert : SessionAlert
  label : GoldenLabel
  labelerNote : PyStr
  tags : List PyStr
  labeledBy : Option Provenance
  labeledAt : Option DateTime
  note_length : 10 ≤ labelerNote.length

inductive CaseValidation where
  | invalid
  | raised
  | valid (c : GoldenCase)

inductive GoldenError where
  | undecodable
  | invalid (row : Nat)
  /-- An exception that the row's own `except` does not catch. -/
  | raised (row : Nat)
  | notHuman (row : Nat)
  | duplicate (row : Nat) (caseId : PyStr) (first : Nat)

structure Loaded where
  cases : List GoldenCase := []
  rowOfCaseId : Dictionary PyStr Nat := []
  rowNumber : Nat := 0

section
variable (host : Host)

/-- `Annotated[int, Field(ge=1, le=5)]`. -/
def readSeverity (j : Json) : Option Severity :=
  (host.lib.int j).bind fun n => if range : 1 ≤ n ∧ n ≤ 5 then some ⟨n.toNat, by omega⟩ else none

def readLabel : Json → Option GoldenLabel
  | .obj fs => do
    let severity ← required (readSeverity host) "severity" (.obj fs)
    let category ← required readCategory "category" (.obj fs)
    let escalate ← required host.bool "escalate" (.obj fs)
    if escalates : 4 ≤ severity.1 → escalate = true then some ⟨severity, category, escalate, escalates⟩
    else none
  | _ => none

/-- `Annotated[str, Field(min_length=10)]`. -/
def readNote (j : Json) : Option { s : PyStr // 10 ≤ s.length } :=
  (readStr host.lib j).bind fun s => if long : 10 ≤ s.length then some ⟨s, long⟩ else none

def readTags : Json → Option (List PyStr)
  | .arr xs => xs.mapM (readStr host.lib)
  | _ => none

def readProvenance : Json → Option Provenance
  | .str s => if s = str "human" then some .human else if s = str "ai" then some .ai else none
  | _ => none

def readOthers (alert : SessionAlert) (j : Json) : Option GoldenCase := do
  let label ← required (readLabel host) "label" j
  let note ← required (readNote host) "labeler_note" j
  let tags ← defaulted (readTags host) "tags" [] j
  let labeledBy ← ApiSessionAlert.optional readProvenance "labeled_by" j
  let labeledAt ← ApiSessionAlert.optional host.lib.datetime "labeled_at" j
  return ⟨alert, label, note.1, tags, labeledBy, labeledAt, note.2⟩

def GoldenCase.validate (j : Json) : CaseValidation :=
  match (j.get? (str "alert")).map (ApiSessionAlert.validate host.lib) with
  | some .raised => .raised
  | some (.valid alert) => match readOthers host alert j with
    | some c => .valid c
    | none => .invalid
  | _ => .invalid

def GoldenCase.caseId (c : GoldenCase) : Option PyStr := c.alert.fingerprint host.lib

def labelDump (label : GoldenLabel) : Json :=
  .obj [(str "severity", .int label.severity.1), (str "category", .str (categoryText label.category)),
    (str "escalate", .bool label.escalate)]

def GoldenCase.modelDump (c : GoldenCase) : Json :=
  .obj [(str "alert", c.alert.dumped host.lib), (str "label", labelDump c.label),
    (str "labeler_note", .str c.labelerNote), (str "tags", .arr (c.tags.map .str)),
    (str "labeled_by", textOrNull (c.labeledBy.map Provenance.text)),
    (str "labeled_at", textOrNull (c.labeledAt.map host.lib.datetimeText))]

def readRow (line : PyStr) : CaseValidation :=
  match loads host.nesting line with
  | .error .decode => .invalid
  | .error _ => .raised
  | .ok payload => GoldenCase.validate host payload

def loadRow (requireHuman : Bool) (loaded : Loaded) (line : PyStr) : Except GoldenError Loaded :=
  let row := loaded.rowNumber + 1
  match readRow host line with
  | .invalid => .error (.invalid row)
  | .raised => .error (.raised row)
  | .valid c =>
    if requireHuman && c.labeledBy ≠ some .human then .error (.notHuman row)
    else match c.caseId host with
      | none => .error (.raised row)
      | some caseId => match lookup caseId loaded.rowOfCaseId with
        | some first => .error (.duplicate row caseId first)
        | none => .ok ⟨loaded.cases ++ [c], put caseId row loaded.rowOfCaseId, row⟩

def loadRows (requireHuman : Bool) (lines : List PyStr) : Except GoldenError Loaded :=
  lines.foldlM (loadRow host requireHuman) {}

def loadGolden (requireHuman : Bool) (file : Bytes) : Except GoldenError (List GoldenCase) :=
  match decode file with
  | none => .error .undecodable
  | some text => (loadRows host requireHuman (filledLines (universalNewlines text))).map Loaded.cases

end

/-- What is relied on outside the repository: a number and a truth value are read as they are, a
    number that was read has no more digits than the interpreter converts, a time that was read is
    read again from its text, and `model_dump_json` writes the compact text of what it can encode. -/
structure Documented (host : Host) : Prop where
  alerts : ApiFingerprint.Documented host.lib
  severity_literal : ∀ n : Severity, host.lib.int (.int n.1) = some (n.1 : Int)
  bool_literal : ∀ b, host.bool (.bool b) = some b
  int_printable : ∀ j n, j.Sound → host.lib.int j = some n → Printable n
  time_reads : ∀ j d, host.lib.datetime j = some d → TimeReads host.lib d
  time_plain : ∀ d, Plain (host.lib.datetimeText d)
  dump_text : ∀ j s, host.dumpJson j = some s → j.scalars = true ∧ s = j.dumps compactLayout 0

def SameTime (d d' : DateTime) : Prop := d'.aware = d.aware ∧ d'.instant = d.instant

structure SameEvent (e e' : CowrieEvent) : Prop where
  others : e' = { e with timestamp := e'.timestamp }
  time : SameTime e.timestamp e'.timestamp

structure SameAlert (a a' : SessionAlert) : Prop where
  sessionId : a'.sessionId = a.sessionId
  srcIp : a'.srcIp = a.srcIp
  sensor : a'.sensor = a.sensor
  events : List.Forall₂ SameEvent a.events a'.events
  extra : a'.extra = a.extra

structure SameCase (c c' : GoldenCase) : Prop where
  alert : SameAlert c.alert c'.alert
  label : c'.label = c.label
  labelerNote : c'.labelerNote = c.labelerNote
  tags : c'.tags = c.tags
  labeledBy : c'.labeledBy = c.labeledBy
  labeledAt : Option.Rel SameTime c.labeledAt c'.labeledAt

def FiniteAlert (a : SessionAlert) : Prop :=
  FiniteFields a.extra ∧ ∀ e ∈ a.events, FiniteFields e.extra

theorem astimezoneUtc_same {lib : Libraries} {d d' : DateTime} (same : SameTime d d') :
    d'.astimezoneUtc lib = d.astimezoneUtc lib := by
  obtain ⟨aware, instant⟩ := same
  unfold DateTime.aware at aware
  unfold DateTime.instant at instant
  unfold DateTime.astimezoneUtc
  cases there : d.offset with
  | none =>
    cases here : d'.offset with
    | none =>
      rw [there, here, Option.getD_none, Int.sub_zero, Int.sub_zero] at instant
      dsimp only
      rw [instant]
    | some o =>
      rw [there, here] at aware
      cases aware
  | some o =>
    cases here : d'.offset with
    | none =>
      rw [there, here] at aware
      cases aware
    | some o' =>
      rw [there, here, Option.getD_some, Option.getD_some] at instant
      dsimp only
      rw [instant]

theorem fingerprint_same {lib : Libraries} {a a' : SessionAlert} (same : SameAlert a a') :
    a'.fingerprint lib = a.fingerprint lib := by
  have events := same.events
  unfold SessionAlert.events at events
  rw [List.forall₂_cons] at events
  have connect : a'.connectTime.astimezoneUtc lib = a.connectTime.astimezoneUtc lib :=
    astimezoneUtc_same events.1.time
  rw [SessionAlert.fingerprint, SessionAlert.fingerprint, connect, same.sessionId]

structure Unlisted (n : Nat) (fs : List (PyStr × Json)) : Prop where
  distinct : Distinct fs
  sound : membersSound fs
  keyed : membersKeyed n fs

structure Carried (host : Host) (a : SessionAlert) : Prop where
  read : AlertWasRead host.lib a
  unmixed : ¬ Mixed a.events
  durations : ∀ e ∈ a.events, ∀ n ∈ e.durationMs, Printable n
  unlisted : ∃ m, host.nesting = m + 4 ∧ Unlisted (m + 2) a.extra ∧ ∀ e ∈ a.events, Unlisted m e.extra

section Reading
variable {host : Host}

theorem unlisted_extra {n : Nat} {named : List PyStr} {fs : List (PyStr × Json)} (distinct : Distinct fs)
    (sound : ∀ f ∈ fs, f.2.Sound) (keyed : ∀ f ∈ fs, f.2.Keyed n) : Unlisted n (extraOf named fs) where
  distinct := distinct_filter _ distinct
  sound := (membersSound_iff _).mpr fun f member => sound f (List.mem_of_mem_filter member)
  keyed := (membersKeyed_iff _).mpr fun f member => keyed f (List.mem_of_mem_filter member)

theorem validateEvent_parts {j : Json} {e : CowrieEvent} (found : validateEvent host.lib j = some e) :
    ∃ fs, j = .obj fs ∧ e.extra = extraOf eventFields fs ∧
      ∀ n ∈ e.durationMs, ∃ v, (Json.obj fs).get? (str "duration_ms") = some v ∧
        host.lib.int v = some n := by
  cases j with
  | obj fs =>
    rw [validateEvent] at found
    iterate 12 obtain ⟨_, -, found⟩ := Option.bind_eq_some_iff.mp found
    obtain ⟨durationMs, duration, found⟩ := Option.bind_eq_some_iff.mp found
    obtain ⟨_, -, found⟩ := Option.bind_eq_some_iff.mp found
    obtain ⟨_, unlisted, found⟩ := Option.bind_eq_some_iff.mp found
    cases found
    exact ⟨fs, rfl, (readExtra_some unlisted).1, optional_read duration⟩
  | _ => cases found

theorem validate_parts {j : Json} {a : SessionAlert} (valid : ApiSessionAlert.validate host.lib j = .valid a) :
    ∃ fs xs, j = .obj fs ∧ a.extra = extraOf alertFields fs ∧
      (Json.obj fs).get? (str "events") = some (.arr xs) ∧
      ∀ e ∈ a.events, ∃ x ∈ xs, validateEvent host.lib x = some e := by
  obtain ⟨fields, read, -, -, -, extra⟩ := validate_fields valid
  obtain ⟨-, sorted, -⟩ := validate_events read valid
  have perm : (byTime fields.events).Perm fields.events := orderBy_perm fields.events
  rw [← sorted] at perm
  cases j with
  | obj fs =>
    rw [validateFields] at read
    iterate 4 obtain ⟨_, -, read⟩ := Option.bind_eq_some_iff.mp read
    obtain ⟨events, listed, read⟩ := Option.bind_eq_some_iff.mp read
    obtain ⟨_, unlisted, read⟩ := Option.bind_eq_some_iff.mp read
    cases read
    obtain ⟨v, present, events_read⟩ := Option.bind_eq_some_iff.mp listed
    unfold readEvents at events_read
    split at events_read
    · rename_i x xs
      exact ⟨fs, x :: xs, rfl, extra.trans (readExtra_some unlisted).1, present, fun e member => mapM_mem events_read (perm.subset member)⟩
    · cases events_read
  | _ => cases read

theorem carried_loaded (doc : Documented host) {line : PyStr} {row j : Json} {a : SessionAlert}
    (range : InRange line) (read : loads host.nesting line = .ok row)
    (present : row.get? (str "alert") = some j) (valid : ApiSessionAlert.validate host.lib j = .valid a) :
    Carried host a := by
  have keyed := loads_keyed read
  have sound := sound_get (loads_sound range read) present
  obtain ⟨fs, xs, rfl, extra, listed, events⟩ := validate_parts valid
  cases row with
  | obj members =>
    obtain ⟨n, nesting, -, inside⟩ := keyed_obj keyed
    obtain ⟨n, rfl, distinct, fields⟩ := keyed_obj (inside _ (get_member present))
    obtain ⟨n, rfl, items⟩ := keyed_arr (fields _ (get_member listed))
    have all := sound_get sound listed
    rw [Json.Sound, membersSound_iff] at sound
    rw [Json.Sound, itemsSound_iff] at all
    have event : ∀ e ∈ a.events, ∃ m hs, n = m + 1 ∧ (Json.obj hs).Sound ∧
        (Json.obj hs).Keyed (m + 1) ∧ e.extra = extraOf eventFields hs ∧ ∀ d ∈ e.durationMs, ∃ v,
          (Json.obj hs).get? (str "duration_ms") = some v ∧ host.lib.int v = some d := by
      intro e member
      obtain ⟨x, there, found⟩ := events e member
      obtain ⟨hs, rfl, own, duration⟩ := validateEvent_parts found
      obtain ⟨m, rfl, -⟩ := keyed_obj (items _ there)
      exact ⟨m, hs, rfl, all _ there, items _ there, own, duration⟩
    obtain ⟨m, -, rfl, -⟩ := event a.first List.mem_cons_self
    refine ⟨validate_read doc.alerts valid, validate_unmixed valid, ?_, m, nesting, ?_, ?_⟩
    · intro e member d known
      obtain ⟨_, hs, -, whole, -, -, duration⟩ := event e member
      obtain ⟨v, found, int⟩ := duration d known
      exact doc.int_printable v d (sound_get whole found) int
    · exact extra ▸ unlisted_extra distinct sound fields
    · intro e member
      obtain ⟨k, hs, same, whole, keyed, own, -⟩ := event e member
      obtain rfl : m = k := Nat.succ.inj same
      obtain ⟨_, same, apart, inner⟩ := keyed_obj keyed
      cases same
      rw [Json.Sound, membersSound_iff] at whole
      exact own ▸ unlisted_extra apart whole inner
  | _ => cases present

theorem jsonMode_float {n : Nat} {f : Double} (canonical : f.Canonical) :
    (jsonMode (.float f)).Rereads compactLayout n := by
  cases f with
  | nan => exact rereads_null
  | inf neg => exact rereads_null
  | fin neg m e => exact rereads_float (serdeText_reads canonical rfl)

mutual
theorem rereads_jsonMode : (j : Json) → (n : Nat) → j.Sound → j.Keyed n →
    (jsonMode j).Rereads compactLayout n
  | .null, _, _, _ => rereads_null
  | .bool b, _, _, _ => rereads_bool b
  | .int _, _, sound, _ => rereads_int sound
  | .float _, _, sound, _ => jsonMode_float sound
  | .str s, _, _, _ => rereads_str s
  | .arr xs, n, sound, keyed => by
    obtain ⟨m, rfl, items⟩ := keyed_arr keyed
    rw [jsonMode]
    exact rereads_arr (rereads_jsonModeItems xs m sound ((itemsKeyed_iff xs).mpr items))
  | .obj fs, n, sound, keyed => by
    obtain ⟨m, rfl, distinct, members⟩ := keyed_obj keyed
    rw [jsonMode]
    refine rereads_obj ?_ (rereads_jsonModeFields fs m sound ((membersKeyed_iff fs).mpr members))
    rw [Distinct, OrderedDictionary.keys, jsonModeFields_keys]
    exact distinct

theorem rereads_jsonModeItems : (xs : List Json) → (n : Nat) → itemsSound xs → itemsKeyed n xs →
    ∀ x ∈ jsonModeItems xs, x.Rereads compactLayout n
  | [], _, _, _ => by simp [jsonModeItems]
  | x :: xs, n, sound, keyed => by
    rw [jsonModeItems, List.forall_mem_cons]
    exact ⟨rereads_jsonMode x n sound.1 keyed.1, rereads_jsonModeItems xs n sound.2 keyed.2⟩

theorem rereads_jsonModeFields : (fs : List (PyStr × Json)) → (n : Nat) → membersSound fs →
    membersKeyed n fs → ∀ f ∈ jsonModeFields fs, f.2.Rereads compactLayout n
  | [], _, _, _ => by simp [jsonModeFields]
  | (_, v) :: fs, n, sound, keyed => by
    rw [jsonModeFields, List.forall_mem_cons]
    exact ⟨rereads_jsonMode v n sound.1 keyed.1, rereads_jsonModeFields fs n sound.2 keyed.2⟩
end

theorem rereads_textOrNull {n : Nat} (o : Option PyStr) : (textOrNull o).Rereads compactLayout n := by
  cases o with
  | none => exact rereads_null
  | some s => exact rereads_str s

theorem rereads_extra {n : Nat} {listed extra : List (PyStr × Json)} (named : List PyStr)
    (own : listed.map Prod.fst = named) (distinct : named.Nodup) (apart : ∀ f ∈ extra, f.1 ∉ named)
    (values : ∀ f ∈ listed, f.2.Rereads compactLayout n) (unlisted : Unlisted n extra) :
    (Json.obj (listed ++ jsonModeFields extra)).Rereads compactLayout (n + 1) := by
  refine rereads_obj ?_ (List.forall_mem_append.mpr
    ⟨values, rereads_jsonModeFields extra n unlisted.sound unlisted.keyed⟩)
  rw [Distinct, OrderedDictionary.keys, List.map_append, own, jsonModeFields_keys]
  refine List.nodup_append.mpr ⟨distinct, unlisted.distinct, fun a old b new => ?_⟩
  obtain ⟨f, member, rfl⟩ := List.mem_map.mp new
  rintro rfl
  exact apart f member old

theorem rereads_event {n : Nat} {e : CowrieEvent} (read : WasRead host.lib e)
    (durations : ∀ d ∈ e.durationMs, Printable d) (unlisted : Unlisted n e.extra) :
    (e.dumped host.lib).Rereads compactLayout (n + 1) := by
  refine rereads_extra eventFields rfl (by decide) read.unlisted ?_ unlisted
  simp only [List.forall_mem_cons]
  refine ⟨rereads_str _, rereads_str _, rereads_str _, rereads_str _, rereads_str _, rereads_str _,
    rereads_textOrNull _, rereads_textOrNull _, rereads_textOrNull _, rereads_textOrNull _,
    rereads_textOrNull _, rereads_textOrNull _, ?_, rereads_textOrNull _, by simp⟩
  cases known : e.durationMs with
  | none => exact rereads_null
  | some d => exact rereads_int (durations d known)

theorem rereads_alert {n : Nat} {a : SessionAlert} (carried : Carried host a) (deep : host.nesting = n + 1) :
    (a.dumped host.lib).Rereads compactLayout n := by
  obtain ⟨m, nesting, own, events⟩ := carried.unlisted
  obtain rfl : n = m + 3 := by omega
  refine rereads_extra alertFields rfl (by decide) carried.read.unlisted ?_ own
  simp only [List.forall_mem_cons]
  refine ⟨rereads_str _, rereads_str _, rereads_str _, rereads_str _, ?_, by simp⟩
  refine rereads_arr fun j member => ?_
  obtain ⟨e, inside, rfl⟩ := List.mem_map.mp member
  exact rereads_event (carried.read.events e inside) (carried.durations e inside) (events e inside)

theorem rereads_case {c : GoldenCase} (carried : Carried host c.alert) :
    (c.modelDump host).Rereads compactLayout host.nesting := by
  obtain ⟨m, nesting, -⟩ := carried.unlisted
  have alert := rereads_alert carried (n := m + 3) (by omega)
  have severity : Printable c.label.severity.1 := by
    have range := c.label.severity.2
    exact severity_digits (by omega)
  have label_names : [str "severity", str "category", str "escalate"].Nodup := by decide
  have names : [str "alert", str "label", str "labeler_note", str "tags", str "labeled_by",
    str "labeled_at"].Nodup := by decide
  have label : (labelDump c.label).Rereads compactLayout (m + 3) := by
    refine rereads_obj label_names ?_
    simp only [List.forall_mem_cons]
    exact ⟨rereads_int severity, rereads_str _, rereads_bool _, by simp⟩
  rw [nesting]
  refine rereads_obj names ?_
  simp only [List.forall_mem_cons]
  refine ⟨alert, label, rereads_str _, ?_, rereads_textOrNull _, rereads_textOrNull _, by simp⟩
  refine rereads_arr fun j member => ?_
  obtain ⟨s, -, rfl⟩ := List.mem_map.mp member
  exact rereads_str s

structure Labeled (host : Host) (c : GoldenCase) : Prop where
  carried : Carried host c.alert
  note : host.lib.text c.labelerNote = true
  tags : ∀ t ∈ c.tags, host.lib.text t = true
  time : ∀ d ∈ c.labeledAt, ∃ j, host.lib.datetime j = some d

theorem readLabel_dump (doc : Documented host) (label : GoldenLabel) :
    readLabel host (labelDump label) = some label := by
  have severity : readSeverity host (.int label.severity.1) = some label.severity := by
    have range := label.severity.2
    rw [readSeverity, doc.severity_literal, Option.bind_some, dif_pos (by omega)]
    rfl
  have category : readCategory (.str (categoryText label.category)) = some label.category :=
    find_category label.category
  have h1 : required (readSeverity host) "severity" (labelDump label) = some label.severity := severity
  have h2 : required readCategory "category" (labelDump label) = some label.category := category
  have h3 : required host.bool "escalate" (labelDump label) = some label.escalate := doc.bool_literal _
  unfold labelDump at h1 h2 h3 ⊢
  simp only [readLabel, h1, h2, h3, Option.bind_eq_bind, Option.bind_some]
  exact dif_pos label.escalates

theorem readTags_dump {tags : List PyStr} (texts : ∀ t ∈ tags, host.lib.text t = true) :
    readTags host (.arr (tags.map .str)) = some tags := by
  rw [readTags]
  induction tags with
  | nil => rfl
  | cons t tags ih =>
    rw [List.forall_mem_cons] at texts
    rw [List.map_cons, List.mapM_cons, readStr_again texts.1, ih texts.2]
    rfl

theorem readProvenance_dump (o : Option Provenance) :
    nullable readProvenance (textOrNull (o.map Provenance.text)) = some o := by
  rcases o with _ | _ | _ <;> rfl

theorem readTime_dump (doc : Documented host) {o : Option DateTime}
    (time : ∀ d ∈ o, ∃ j, host.lib.datetime j = some d) :
    ∃ o', nullable host.lib.datetime (textOrNull (o.map host.lib.datetimeText)) = some o' ∧
      Option.Rel SameTime o o' := by
  cases o with
  | none => exact ⟨none, rfl, .none⟩
  | some d =>
    obtain ⟨j, read⟩ := time d rfl
    obtain ⟨d', again, same⟩ := doc.time_reads j d read
    refine ⟨some d', ?_, .some same⟩
    rw [Option.map_some, textOrNull, nullable, again, Option.map_some]
    simp

theorem readOthers_dump (doc : Documented host) {c : GoldenCase} (labeled : Labeled host c)
    (alert : SessionAlert) :
    ∃ o, readOthers host alert (c.modelDump host) = some { c with alert := alert, labeledAt := o } ∧
      Option.Rel SameTime c.labeledAt o := by
  obtain ⟨o, time, same⟩ := readTime_dump doc labeled.time
  have note : readNote host (.str c.labelerNote) = some ⟨c.labelerNote, c.note_length⟩ := by
    rw [readNote, readStr_again labeled.note, Option.bind_some, dif_pos c.note_length]
  have h1 : required (readLabel host) "label" (c.modelDump host) = some c.label := readLabel_dump doc c.label
  have h2 : required (readNote host) "labeler_note" (c.modelDump host) = some ⟨c.labelerNote, c.note_length⟩ :=
    note
  have h3 : defaulted (readTags host) "tags" [] (c.modelDump host) = some c.tags := readTags_dump labeled.tags
  have h4 : ApiSessionAlert.optional readProvenance "labeled_by" (c.modelDump host) = some c.labeledBy :=
    readProvenance_dump c.labeledBy
  have h5 : ApiSessionAlert.optional host.lib.datetime "labeled_at" (c.modelDump host) = some o := time
  refine ⟨o, ?_, same⟩
  simp only [readOthers, h1, h2, h3, h4, h5, Option.bind_eq_bind, Option.bind_some, Option.pure_def]

theorem same_retimed {events events' : List CowrieEvent} (retimed : RetimedAll Dumped events events')
    (finite : ∀ e ∈ events, FiniteFields e.extra) : List.Forall₂ SameEvent events events' := by
  induction retimed with
  | nil => exact List.Forall₂.nil
  | @cons e e' _ _ here _ ih =>
    rw [List.forall_mem_cons] at finite
    have own : e'.extra = e.extra := here.2.2.mpr finite.1
    refine List.Forall₂.cons ⟨?_, here.1.aware, here.1.instant⟩ (ih finite.2)
    rw [here.1.others, own]

theorem validate_alert (doc : Documented host) {a : SessionAlert} (was_read : AlertWasRead host.lib a)
    (unmixed : ¬ Mixed a.events) (finite : FiniteAlert a) :
    ∃ a', ApiSessionAlert.validate host.lib (a.dumped host.lib) = .valid a' ∧ SameAlert a a' := by
  have times : ∀ e ∈ a.events, TimeReads host.lib e.timestamp := by
    intro e member
    obtain ⟨j, time⟩ := (was_read.events e member).time
    exact doc.time_reads j _ time
  obtain ⟨fs, dumped, carries, extras⟩ := dump_carries was_read
  obtain ⟨a', valid, ids, ips, sensors, retimed, extra⟩ :=
    validate_timed was_read unmixed times carries
  refine ⟨a', dumped ▸ valid, ids, ips, sensors, ?_, ?_⟩
  · exact same_retimed retimed finite.2
  · rw [extra, extras]
    exact (jsonModeFields_iff a.extra).mpr finite.1

theorem validate_case (doc : Documented host) {c : GoldenCase} (labeled : Labeled host c)
    (finite : FiniteAlert c.alert) :
    ∃ c', GoldenCase.validate host (c.modelDump host) = .valid c' ∧ SameCase c c' := by
  obtain ⟨a', valid, same⟩ := validate_alert doc labeled.carried.read labeled.carried.unmixed finite
  obtain ⟨o, read, time⟩ := readOthers_dump doc labeled a'
  have alert : (c.modelDump host).get? (str "alert") = some (c.alert.dumped host.lib) := rfl
  refine ⟨{ c with alert := a', labeledAt := o }, ?_, ⟨same, rfl, rfl, rfl, rfl, time⟩⟩
  simp only [GoldenCase.validate, alert, Option.map_some, valid, read]

theorem readRow_dump (doc : Documented host) {c : GoldenCase} (labeled : Labeled host c)
    (finite : FiniteAlert c.alert) {row : PyStr} (dumped : host.dumpJson (c.modelDump host) = some row) :
    ∃ c', readRow host row = .valid c' ∧ SameCase c c' := by
  obtain ⟨scalars, rfl⟩ := doc.dump_text _ _ dumped
  obtain ⟨readable, deep⟩ := rereads_case labeled.carried scalars
  have read := loads_dumps compactLayout readable deep (b := []) (by simp)
  rw [List.append_nil] at read
  obtain ⟨c', valid, same⟩ := validate_case doc labeled finite
  refine ⟨c', ?_, same⟩
  rw [readRow, read]
  exact valid

end Reading

/-- Where `str.splitlines` ends a line although JSON leaves the code point as it is. -/
def separators : List Nat := [0x85, 0x2028, 0x2029]

def Unbroken (s : List Nat) : Prop := ∀ c ∈ s, c ∉ separators

theorem unbroken_plain {s : PyStr} (plain : Plain s) : Unbroken s := by
  intro c member
  have range := plain c member
  simp only [separators, List.mem_cons, List.not_mem_nil, or_false]
  omega

theorem unbroken_append {s t : List Nat} (first : Unbroken s) (second : Unbroken t) : Unbroken (s ++ t) :=
  List.forall_mem_append.mpr ⟨first, second⟩

theorem dumps_single {j : Json} (unbroken : Unbroken j.codePoints) :
    ∀ c ∈ j.dumps compactLayout 0, lineBreak c = false := by
  have writes : compactLayout.Writes (· ∉ separators) :=
    compact_writes fun c low high => unbroken_plain (s := [c]) (by simp [Plain, low, high]) c (by simp)
  intro c member
  have printable := compact_printable 0 j c member
  have free : c ∉ separators := by
    refine writes_dumps writes 0 j (fun d inside e written => ?_) c member
    rcases escapePoint_cases d with plain | ⟨eq, -⟩
    · exact unbroken_plain plain e written
    · have same : e ∈ escapePoint d := written
      rw [eq, List.mem_singleton] at same
      exact same ▸ unbroken d inside
  simp only [separators, List.mem_cons, List.not_mem_nil, or_false] at free
  simp only [lineBreak, Bool.or_eq_false_iff, Bool.and_eq_false_iff, decide_eq_false_iff_not, beq_eq_false_iff_ne]
  omega

section Rows
variable {host : Host}

theorem unbroken_textOrNull {o : Option PyStr} (texts : ∀ s ∈ o, Unbroken s) :
    Unbroken (textOrNull o).codePoints := by
  cases o with
  | none => simp [textOrNull, Json.codePoints, Unbroken]
  | some s => exact texts s rfl

theorem unbroken_tags {tags : List PyStr} (texts : ∀ t ∈ tags, Unbroken t) :
    Unbroken (itemsCodePoints (tags.map .str)) := by
  induction tags with
  | nil => simp [itemsCodePoints, Unbroken]
  | cons t tags ih =>
    rw [List.forall_mem_cons] at texts
    exact unbroken_append texts.1 (ih texts.2)

theorem unbroken_case (doc : Documented host) {c : GoldenCase}
    (alert : Unbroken (c.alert.dumped host.lib).codePoints) (note : Unbroken c.labelerNote)
    (tags : ∀ t ∈ c.tags, Unbroken t) : Unbroken (c.modelDump host).codePoints := by
  have label : Unbroken (labelDump c.label).codePoints := by
    cases category : c.label.category
    all_goals
      simp only [labelDump, category, categoryText, Json.codePoints, membersCodePoints]
      exact unbroken_plain (by decide)
  have source : Unbroken (textOrNull (c.labeledBy.map Provenance.text)).codePoints := by
    refine unbroken_textOrNull fun s known => ?_
    obtain ⟨p, -, rfl⟩ := Option.map_eq_some_iff.mp known
    cases p <;> exact unbroken_plain (by decide)
  have time : Unbroken (textOrNull (c.labeledAt.map host.lib.datetimeText)).codePoints := by
    refine unbroken_textOrNull fun s known => ?_
    obtain ⟨d, -, rfl⟩ := Option.map_eq_some_iff.mp known
    exact unbroken_plain (doc.time_plain d)
  have name {s : PyStr} (plain : Plain s) {t : List Nat} (rest : Unbroken t) : Unbroken (s ++ t) :=
    unbroken_append (unbroken_plain plain) rest
  simp only [GoldenCase.modelDump, Json.codePoints, membersCodePoints]
  exact name (by decide) (unbroken_append alert (name (by decide) (unbroken_append label
    (name (by decide) (unbroken_append note (name (by decide) (unbroken_append (unbroken_tags tags)
      (name (by decide) (unbroken_append source (name (by decide)
        (unbroken_append time (by simp [Unbroken]))))))))))))

structure Indexed (host : Host) (l : Loaded) : Prop where
  ids : l.cases.map (GoldenCase.caseId host) = (OrderedDictionary.keys l.rowOfCaseId).map some
  distinct : Distinct l.rowOfCaseId

theorem loadRow_valid {line : PyStr} {l l' : Loaded} (loaded : loadRow host false l line = .ok l') :
    ∃ c caseId, readRow host line = .valid c ∧ c.caseId host = some caseId ∧
      caseId ∉ OrderedDictionary.keys l.rowOfCaseId ∧
      l' = ⟨l.cases ++ [c], put caseId (l.rowNumber + 1) l.rowOfCaseId, l.rowNumber + 1⟩ := by
  unfold loadRow at loaded
  dsimp only at loaded
  split at loaded
  · cases loaded
  · cases loaded
  · rename_i c read
    rw [Bool.false_and, if_neg (by simp)] at loaded
    split at loaded
    · cases loaded
    · rename_i caseId known
      split at loaded
      · cases loaded
      · rename_i fresh
        cases loaded
        exact ⟨c, caseId, read, known, lookup_eq_none.mp fresh, rfl⟩

theorem loadRow_indexed {line : PyStr} {l l' : Loaded} (indexed : Indexed host l)
    (loaded : loadRow host false l line = .ok l') : Indexed host l' := by
  obtain ⟨c, caseId, -, known, fresh, rfl⟩ := loadRow_valid loaded
  constructor
  · dsimp only
    rw [List.map_append, indexed.ids, put_keys, if_neg fresh, List.map_append, List.map_singleton, known,
      List.map_singleton]
  · exact distinct_put indexed.distinct

theorem loadRow_new {line : PyStr} {l : Loaded} {c : GoldenCase} {caseId : PyStr} (indexed : Indexed host l)
    (read : readRow host line = .valid c) (known : c.caseId host = some caseId)
    (fresh : ∀ d ∈ l.cases, d.caseId host ≠ some caseId) :
    ∃ l', loadRow host false l line = .ok l' ∧ l'.cases = l.cases ++ [c] := by
  have absent : lookup caseId l.rowOfCaseId = none := by
    refine lookup_eq_none.mpr fun member => ?_
    have listed : some caseId ∈ l.cases.map (GoldenCase.caseId host) :=
      indexed.ids ▸ List.mem_map_of_mem member
    obtain ⟨d, there, same⟩ := List.mem_map.mp listed
    exact fresh d there same
  refine ⟨⟨l.cases ++ [c], put caseId (l.rowNumber + 1) l.rowOfCaseId, l.rowNumber + 1⟩, ?_, rfl⟩
  simp only [loadRow, read, known, absent, Bool.false_and]
  rfl

theorem loadRows_indexed {lines : List PyStr} {l : Loaded} (loaded : loadRows host false lines = .ok l) :
    Indexed host l := by
  have run : ∀ (lines : List PyStr) (l l' : Loaded), Indexed host l →
      lines.foldlM (loadRow host false) l = .ok l' → Indexed host l' := by
    intro lines
    induction lines with
    | nil =>
      intro l l' indexed loaded
      cases loaded
      exact indexed
    | cons line lines ih =>
      intro l l' indexed loaded
      rw [List.foldlM_cons] at loaded
      cases first : loadRow host false l line with
      | error e =>
        rw [first] at loaded
        cases loaded
      | ok next =>
        rw [first] at loaded
        exact ih next l' (loadRow_indexed indexed first) loaded
  exact run lines {} l ⟨rfl, List.nodup_nil⟩ loaded

theorem loadRows_nodup {lines : List PyStr} {l : Loaded} (loaded : loadRows host false lines = .ok l) :
    (l.cases.map (GoldenCase.caseId host)).Nodup := by
  have indexed := loadRows_indexed loaded
  rw [indexed.ids]
  exact List.Nodup.map (Option.some_injective _) indexed.distinct

theorem loadRows_new {lines : List PyStr} {line : PyStr} {l : Loaded} {c : GoldenCase} {caseId : PyStr}
    (loaded : loadRows host false lines = .ok l) (read : readRow host line = .valid c)
    (known : c.caseId host = some caseId) (fresh : ∀ d ∈ l.cases, d.caseId host ≠ some caseId) :
    ∃ l', loadRows host false (lines ++ [line]) = .ok l' ∧ l'.cases = l.cases ++ [c] := by
  obtain ⟨l', next, cases⟩ := loadRow_new (loadRows_indexed loaded) read known fresh
  refine ⟨l', ?_, cases⟩
  unfold loadRows at loaded ⊢
  rw [List.foldlM_append, loaded]
  change [line].foldlM (loadRow host false) l = .ok l'
  rw [List.foldlM_cons, next]
  rfl

/-- A text after which a row starts a line of its own. -/
def Ended (u : PyStr) : Prop := u = [] ∨ u.getLast? = some 0x0A

/-- `load_golden` gives these cases, and a row can be appended. -/
structure Holds (host : Host) (file : Bytes) (cases : List GoldenCase) : Prop where
  accepted : loadGolden host false file = .ok cases
  ended : ∃ text, decode file = some text ∧ Ended (universalNewlines text)

theorem loadGolden_rows {file : Bytes} {text : PyStr} {cases : List GoldenCase}
    (decoded : decode file = some text) :
    loadGolden host false file = .ok cases ↔
      ∃ l, loadRows host false (filledLines (universalNewlines text)) = .ok l ∧ l.cases = cases := by
  rw [loadGolden, decoded]
  dsimp only
  constructor
  · intro accepted
    exact map_ok accepted
  · rintro ⟨l, loaded, rfl⟩
    rw [loaded]
    rfl

theorem loadGolden_nodup {file : Bytes} {cases : List GoldenCase}
    (accepted : loadGolden host false file = .ok cases) : (cases.map (GoldenCase.caseId host)).Nodup := by
  cases decoded : decode file with
  | none =>
    rw [loadGolden, decoded] at accepted
    cases accepted
  | some text =>
    obtain ⟨l, loaded, rfl⟩ := (loadGolden_rows decoded).mp accepted
    exact loadRows_nodup loaded

theorem appended_lines {file bytes : Bytes} {text row : PyStr} (decoded : decode file = some text)
    (ended : Ended (universalNewlines text)) (opening : row.head? = some 0x7B) (clean : 0x0D ∉ row)
    (single : ∀ c ∈ row, lineBreak c = false) (encoded : encode (row ++ [0x0A]) = some bytes) :
    ∃ longer, decode (file ++ bytes) = some longer ∧ Ended (universalNewlines longer) ∧
      filledLines (universalNewlines longer) = filledLines (universalNewlines text) ++ [row] := by
  obtain ⟨tail, rfl⟩ := List.head?_eq_some_iff.mp opening
  have longer : decode (file ++ bytes) = some (text ++ (0x7B :: tail ++ [0x0A])) := decode_append decoded encoded
  have written : 0x0D ∉ 0x7B :: tail ++ [0x0A] := by
    intro member
    rcases List.mem_append.mp member with inside | last
    · exact clean inside
    · cases List.mem_singleton.mp last
  have lines : universalNewlines (text ++ (0x7B :: tail ++ [0x0A])) =
      universalNewlines text ++ (0x7B :: tail ++ [0x0A]) := by
    rw [List.cons_append, universalNewlines_append text (by decide), ← List.cons_append,
      universalNewlines_eq written]
  have filled : PyText.strip (0x7B :: tail) ≠ [] := by
    intro blank
    have first := stripBy_head (p := PyIntText.unicodeSpace) (c := 0x7B) (by decide) tail
    rw [PyText.strip] at blank
    rw [blank] at first
    cases first
  refine ⟨_, longer, ?_, ?_⟩
  · rw [lines, Ended, ← List.append_assoc]
    exact .inr (List.getLast?_concat ..)
  · rw [lines, filledLines_row (universalNewlines_clean text) ended single filled]

theorem holds_append {file bytes : Bytes} {stored : List GoldenCase} (holds : Holds host file stored)
    {row : PyStr} (opening : row.head? = some 0x7B) (clean : 0x0D ∉ row)
    (single : ∀ c ∈ row, lineBreak c = false) (encoded : encode (row ++ [0x0A]) = some bytes)
    {c : GoldenCase} {caseId : PyStr} (read : readRow host row = .valid c)
    (known : c.caseId host = some caseId) (fresh : ∀ d ∈ stored, d.caseId host ≠ some caseId) :
    Holds host (file ++ bytes) (stored ++ [c]) := by
  obtain ⟨text, decoded, ended⟩ := holds.ended
  obtain ⟨l, loaded, rfl⟩ := (loadGolden_rows decoded).mp holds.accepted
  obtain ⟨longer, found, again, lines⟩ := appended_lines decoded ended opening clean single encoded
  constructor
  · rw [loadGolden_rows found, lines]
    exact loadRows_new loaded read known fresh
  · exact ⟨longer, found, again⟩

/-- Under what a case that is labeled while the file holds `stored` can be read back from it. -/
structure Fits (host : Host) (stored : List GoldenCase) (c : GoldenCase) : Prop where
  alert : Unbroken (c.alert.dumped host.lib).codePoints
  note : Unbroken c.labelerNote
  tags : ∀ t ∈ c.tags, Unbroken t
  finite : FiniteAlert c.alert
  fresh : ∃ caseId, c.alert.fingerprint host.lib = some caseId ∧
    ∀ d ∈ stored, d.alert.fingerprint host.lib ≠ some caseId

theorem holds_written (doc : Documented host) {file bytes : Bytes} {stored : List GoldenCase}
    (holds : Holds host file stored) {c : GoldenCase} (labeled : Labeled host c) (fits : Fits host stored c)
    {row : PyStr} (dumped : host.dumpJson (c.modelDump host) = some row)
    (encoded : encode (row ++ [0x0A]) = some bytes) :
    ∃ c', SameCase c c' ∧ Holds host (file ++ bytes) (stored ++ [c']) := by
  obtain ⟨c', read, same⟩ := readRow_dump doc labeled fits.finite dumped
  obtain ⟨caseId, known, fresh⟩ := fits.fresh
  have again : c'.caseId host = some caseId := (fingerprint_same same.alert).trans known
  obtain ⟨-, rfl⟩ := doc.dump_text _ _ dumped
  have clean : 0x0D ∉ (c.modelDump host).dumps compactLayout 0 := fun member =>
    absurd (compact_printable 0 _ _ member) (by decide)
  have single := dumps_single (unbroken_case doc fits.alert fits.note fits.tags)
  exact ⟨c', same, holds_append holds rfl clean single encoded read again fresh⟩

end Rows

end EvalsGolden
