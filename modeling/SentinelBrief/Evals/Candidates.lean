import SentinelBrief.Evals.Labeling
import SentinelBrief.Evals.Publish
import SentinelBrief.Library.IsoDate

/-!
The candidates file (`evals/sample.py`, `evals/candidates.py`, `evals/label_tool.py`):
what `write_candidates` writes, the label tool and the next sample read.
-/
namespace EvalsCandidates
open Utf8Text JsonText PyText OrderedDictionary ApiSessionAlert ApiPoison ApiFingerprint EvalsGolden
open EvalsLabeling (Tools hashable loadLines sampleTools sampleHost_documented sampleDigests sampleSha256)
open EvalsSample (Stratum strataCategories)
open CoreAlertsRead (categoryText)

structure Files where
  tools : Tools
  fromisoformat : PyStr → Option IsoDateText.DateTime
  dumpNesting : Nat

/-- `Candidate`. What a file has as `case_id` and `alert_id` is not checked. -/
structure Candidate where
  caseId : Json
  alertId : Json
  receivedAt : IsoDateText.DateTime
  stratum : PyStr
  alert : SessionAlert

def stratumText : Stratum → PyStr
  | .category c => categoryText c
  | .injectionCandidate => str "injection-candidate"
  | .unverdicted => str "unverdicted"

def knownStrata : List PyStr :=
  strataCategories.map categoryText ++ [str "injection-candidate", str "unverdicted"]

section
variable (files : Files)

def stratumId (stratum seed : PyStr) : Option PyStr :=
  (encode (seed ++ str ":" ++ stratum)).map fun bytes => (files.tools.host.lib.sha256 bytes).take 8

def candidateRow (seed : Int) (c : Candidate) : Option Json := do
  let alert ← c.alert.modelDump files.tools.host.lib
  let id ← stratumId files c.stratum (intText seed)
  return .obj [(str "case_id", c.caseId), (str "alert", alert),
    (str "sampled", .obj [(str "alert_id", c.alertId), (str "received_at", .str (IsoDateText.isoformat c.receivedAt)),
      (str "stratum_id", .str id), (str "seed", .int seed)])]

/-- `json.dumps(row)`; none when it raises. -/
def candidateLine (seed : Int) (c : Candidate) : Option PyStr := do
  let row ← candidateRow files seed c
  if row.dumpError files.dumpNesting = none then some (row.dumps pythonLayout 0) else none

def writeCandidates (seed : Int) (candidates : List Candidate) : Option Bytes := do
  let lines ← candidates.mapM (candidateLine files seed)
  encode (join [0x0A] lines ++ if lines = [] then [] else [0x0A])

/-- `id_to_name`; of two names with one id the later stays. -/
def idToName (seed : PyStr) : Option (Dictionary PyStr PyStr) :=
  knownStrata.foldlM (fun ids name => (stratumId files name seed).map fun id => put id name ids) []

/-- `id_to_name.get(stratum_id_value, "unknown")`, of what can be hashed. -/
def stratumOf (ids : Dictionary PyStr PyStr) : Json → PyStr
  | .str id => (lookup id ids).getD (str "unknown")
  | _ => str "unknown"

def loadCandidate (row : Json) : Option Candidate := do
  let caseId ← row.get? (str "case_id")
  let alertData ← row.get? (str "alert")
  let sampled ← row.get? (str "sampled")
  let seed ← sampled.get? (str "seed")
  let stratumIdValue ← sampled.get? (str "stratum_id")
  let alertId ← sampled.get? (str "alert_id")
  let receivedAt ← sampled.get? (str "received_at")
  let ids ← idToName files (seed.pyStr files.tools.isprintable)
  match receivedAt, ApiSessionAlert.validate files.tools.host.lib alertData with
  | .str s, .valid alert =>
    if hashable stratumIdValue then
      (files.fromisoformat s).map fun time => ⟨caseId, alertId, time, stratumOf ids stratumIdValue, alert⟩
    else none
  | _, _ => none

def loadCandidates (file : Bytes) : Option (List Candidate) :=
  loadLines files.tools (loadCandidate files) file

def excludedId (row : Json) : Option Json :=
  match row.get? (str "case_id") with
  | some caseId => if hashable caseId then some caseId else none
  | none => match (row.get? (str "alert")).map (ApiSessionAlert.validate files.tools.host.lib) with
    | some (.valid alert) => (alert.fingerprint files.tools.host.lib).map .str
    | _ => none

def loadExcludeCaseIds (file : Bytes) : Option (List Json) :=
  loadLines files.tools (excludedId files) file

end

/-- What is relied on outside the repository: a text that pydantic takes has no lone surrogate,
    a digest is hexadecimal, and `fromisoformat` reads what `isoformat` writes. -/
structure Documented (files : Files) : Prop where
  golden : EvalsGolden.Documented files.tools.host
  text_encodes : ∀ s, files.tools.host.lib.text s = true → Encodes s
  digest_plain : ∀ bytes, Plain (files.tools.host.lib.sha256 bytes)
  fromisoformat_isoformat : ∀ d, files.fromisoformat (IsoDateText.isoformat d) = some d
  fromisoformat_reads : ∀ s, files.tools.fromisoformat s = (files.fromisoformat s).isSome
  nesting_le : files.dumpNesting ≤ files.tools.host.nesting

section Values
variable {files : Files}

theorem valued_text (doc : Documented files) {s : PyStr} (text : files.tools.host.lib.text s = true) :
    (Json.str s).Valued := apart_of_encodes (doc.text_encodes s text)

theorem itemsValued_iff (xs : List Json) : itemsValued xs ↔ ∀ x ∈ xs, x.Valued := by
  induction xs with
  | nil => simp [itemsValued]
  | cons x xs ih => rw [itemsValued, ih, List.forall_mem_cons]

theorem apart_plain {s : PyStr} (plain : Plain s) : Apart s :=
  apart_of_encodes fun c member => by
    have range := plain c member
    unfold Scalar
    omega

mutual
theorem valued_jsonMode : (j : Json) → j.Valued → (jsonMode j).Valued
  | .null, _ => trivial
  | .bool _, _ => trivial
  | .int _, _ => trivial
  | .float .nan, _ => trivial
  | .float (.inf _), _ => trivial
  | .float (.fin _ _ _), valued => valued
  | .str _, valued => valued
  | .arr xs, valued => valued_jsonModeItems xs valued
  | .obj fs, valued => by
    refine ⟨?_, valued_jsonModeFields fs valued.2⟩
    rw [Distinct, OrderedDictionary.keys, jsonModeFields_keys]
    exact valued.1

theorem valued_jsonModeItems : (xs : List Json) → itemsValued xs → itemsValued (jsonModeItems xs)
  | [], _ => trivial
  | x :: xs, valued => ⟨valued_jsonMode x valued.1, valued_jsonModeItems xs valued.2⟩

theorem valued_jsonModeFields : (fs : List (PyStr × Json)) → membersValued fs →
    membersValued (jsonModeFields fs)
  | [], _ => trivial
  | (_, v) :: fs, valued =>
    ⟨valued.1, valued_jsonMode v valued.2.1, valued_jsonModeFields fs valued.2.2⟩
end

theorem valued_textOrNull (doc : Documented files) {o : Option PyStr}
    (texts : ∀ s ∈ o, files.tools.host.lib.text s = true) : (textOrNull o).Valued := by
  cases o with
  | none => trivial
  | some s => exact valued_text doc (texts s rfl)

def Kept (fs : List (PyStr × Json)) : Prop := Distinct fs ∧ membersValued fs

theorem kept_extra {named : List PyStr} {fs : List (PyStr × Json)} (valued : (Json.obj fs).Valued) :
    Kept (extraOf named fs) := by
  rw [Json.Valued, membersValued_iff] at valued
  refine ⟨distinct_filter _ valued.1, (membersValued_iff _).mpr fun f member => ?_⟩
  exact valued.2 f (List.mem_of_mem_filter member)

theorem valued_fields {listed extra : List (PyStr × Json)} (named : List PyStr)
    (own : listed.map Prod.fst = named) (distinct : named.Nodup) (names : ∀ n ∈ named, Plain n)
    (apart : ∀ f ∈ extra, f.1 ∉ named) (values : ∀ f ∈ listed, f.2.Valued) (kept : Kept extra) :
    (Json.obj (listed ++ jsonModeFields extra)).Valued := by
  have unlisted := valued_jsonModeFields extra kept.2
  rw [membersValued_iff] at unlisted
  rw [Json.Valued, membersValued_iff]
  constructor
  · rw [Distinct, OrderedDictionary.keys, List.map_append, own, jsonModeFields_keys]
    refine List.nodup_append.mpr ⟨distinct, kept.1, fun a old b new => ?_⟩
    obtain ⟨f, member, rfl⟩ := List.mem_map.mp new
    rintro rfl
    exact apart f member old
  · refine List.forall_mem_append.mpr ⟨fun f member => ⟨?_, values f member⟩, unlisted⟩
    exact apart_plain (names f.1 (own ▸ List.mem_map_of_mem member))

structure Sampled (files : Files) (a : SessionAlert) : Prop where
  read : AlertWasRead files.tools.host.lib a
  unmixed : ¬ Mixed a.events
  kept : Kept a.extra
  events : ∀ e ∈ a.events, Kept e.extra

theorem sampled_validated (doc : Documented files) {raw : Json} {a : SessionAlert} (valued : raw.Valued)
    (valid : ApiSessionAlert.validate files.tools.host.lib raw = .valid a) : Sampled files a := by
  obtain ⟨fs, xs, rfl, extra, listed, events⟩ := validate_parts valid
  refine ⟨validate_read doc.golden.alerts valid, validate_unmixed valid, extra ▸ kept_extra valued, ?_⟩
  intro e member
  obtain ⟨x, there, found⟩ := events e member
  obtain ⟨hs, rfl, own, -⟩ := validateEvent_parts found
  rw [Json.Valued, membersValued_iff] at valued
  have items := (valued.2 _ (get_member listed)).2
  rw [Json.Valued, itemsValued_iff] at items
  exact own ▸ kept_extra (items _ there)

theorem valued_event (doc : Documented files) {e : CowrieEvent} (read : WasRead files.tools.host.lib e)
    (kept : Kept e.extra) : (e.dumped files.tools.host.lib).Valued := by
  have texts := read.texts
  have optionals := read.optional_texts
  simp only [List.forall_mem_cons] at texts optionals
  obtain ⟨eventid, session, srcIp, sensor, message, -⟩ := texts
  obtain ⟨username, password, input, url, outfile, shasum, version, -⟩ := optionals
  have time : (Json.str (files.tools.host.lib.datetimeText e.timestamp)).Valued :=
    apart_plain (doc.golden.time_plain e.timestamp)
  refine valued_fields eventFields rfl (by decide) (by decide) read.unlisted ?_ kept
  simp only [List.forall_mem_cons]
  refine ⟨valued_text doc eventid, time, valued_text doc session, valued_text doc srcIp, valued_text doc sensor,
    valued_text doc message, valued_textOrNull doc username, valued_textOrNull doc password,
    valued_textOrNull doc input, valued_textOrNull doc url, valued_textOrNull doc outfile,
    valued_textOrNull doc shasum, ?_, valued_textOrNull doc version, by simp⟩
  cases known : e.durationMs <;> trivial

theorem valued_alert (doc : Documented files) {a : SessionAlert} (sampled : Sampled files a) :
    (a.dumped files.tools.host.lib).Valued := by
  obtain ⟨sessionId, srcIp, sensor⟩ := sampled.read.texts
  refine valued_fields alertFields rfl (by decide) (by decide) sampled.read.unlisted ?_ sampled.kept
  simp only [List.forall_mem_cons]
  refine ⟨apart_plain (by decide), valued_text doc sessionId, valued_text doc srcIp, valued_text doc sensor,
    ?_, by simp⟩
  refine (itemsValued_iff _).mpr fun j member => ?_
  obtain ⟨e, inside, rfl⟩ := List.mem_map.mp member
  exact valued_event doc (sampled.read.events e inside) (sampled.events e inside)

end Values

section Lines
variable {files : Files}

theorem filledLines_rows {rows : List PyStr} (single : ∀ row ∈ rows, ∀ c ∈ row, lineBreak c = false)
    (filled : ∀ row ∈ rows, strip row ≠ []) : filledLines (rows.flatMap (· ++ [0x0A])) = rows := by
  have lines : splitlinesFrom [] (rows.flatMap (· ++ [0x0A])) = rows := by
    induction rows with
    | nil => rfl
    | cons row rows ih =>
      rw [List.forall_mem_cons] at single filled
      rw [List.flatMap_cons, List.append_assoc, List.singleton_append, splitlinesFrom_clean single.1,
        List.nil_append, ih single.2 filled.2]
  rw [filledLines, splitlines, lines, List.filter_eq_self]
  simpa using filled

theorem join_rows (rows : List PyStr) :
    join [0x0A] rows ++ (if rows = [] then [] else [0x0A]) = rows.flatMap (· ++ [0x0A]) := by
  induction rows with
  | nil => rfl
  | cons row rows ih =>
    cases rows with
    | nil => simp [join]
    | cons next rows =>
      rw [if_neg (by simp)] at ih ⊢
      rw [List.flatMap_cons, ← ih]
      simp [join, List.intercalate]

theorem python_line (fs : List (PyStr × Json)) :
    (∀ c ∈ (Json.obj fs).dumps pythonLayout 0, lineBreak c = false ∧ c < 0x80) ∧
      strip ((Json.obj fs).dumps pythonLayout 0) ≠ [] := by
  constructor
  · intro c member
    have plain := python_ascii 0 (.obj fs) c member
    refine ⟨?_, by omega⟩
    simp only [lineBreak, Bool.or_eq_false_iff, Bool.and_eq_false_iff, decide_eq_false_iff_not, beq_eq_false_iff_ne]
    omega
  · obtain ⟨tail, opening⟩ : ∃ tail, (Json.obj fs).dumps pythonLayout 0 = 0x7B :: tail := by
      cases fs <;> exact ⟨_, rfl⟩
    have first := stripBy_head (p := PyIntText.unicodeSpace) (c := 0x7B) (by decide) tail
    intro blank
    rw [opening, strip] at blank
    rw [blank] at first
    cases first

theorem loadLines_rows {α : Type} {read : Json → Option α} {rows : List Json} {values : List α}
    (objects : ∀ row ∈ rows, ∃ fs, row = .obj fs)
    (loaded : ∀ row ∈ rows, loads files.tools.host.nesting (row.dumps pythonLayout 0) = .ok row)
    (found : rows.map read = values.map some) {file : Bytes}
    (encoded : encode ((rows.map (Json.dumps pythonLayout 0)).flatMap (· ++ [0x0A])) = some file) :
    loadLines files.tools read file = some values := by
  have ascii : ∀ line ∈ rows.map (Json.dumps pythonLayout 0),
      (∀ c ∈ line, lineBreak c = false ∧ c < 0x80) ∧ strip line ≠ [] := by
    intro line member
    obtain ⟨row, there, rfl⟩ := List.mem_map.mp member
    obtain ⟨fs, rfl⟩ := objects row there
    exact python_line fs
  have empty : decode [] = some [] := rfl
  have decoded := decode_append empty encoded
  have clean : 0x0D ∉ (rows.map (Json.dumps pythonLayout 0)).flatMap (· ++ [0x0A]) := by
    intro member
    obtain ⟨line, there, inside⟩ := List.mem_flatMap.mp member
    rcases List.mem_append.mp inside with inside | last
    · exact absurd ((ascii line there).1 _ inside).1 (by decide)
    · cases List.mem_singleton.mp last
  rw [List.nil_append, List.nil_append] at decoded
  rw [loadLines, decoded, Option.bind_eq_bind, Option.bind_some, universalNewlines_eq clean,
    filledLines_rows (fun line member c inside => ((ascii line member).1 c inside).1)
      (fun line member => (ascii line member).2), mapM_eq_some_iff, ← found, List.map_map]
  refine List.map_congr_left fun row member => ?_
  simp only [Function.comp_apply, loaded row member]

end Lines

section Strata
variable {files : Files} {seed : PyStr}

structure Named (files : Files) (seed : PyStr) (ids : Dictionary PyStr PyStr) : Prop where
  distinct : Distinct ids
  known : ∀ e ∈ ids, e.2 ∈ knownStrata ∧ stratumId files e.2 seed = some e.1

theorem put_named {ids : Dictionary PyStr PyStr} {name id : PyStr} (named : Named files seed ids)
    (member : name ∈ knownStrata) (found : stratumId files name seed = some id) :
    Named files seed (put id name ids) where
  distinct := distinct_put named.distinct
  known e there := by
    rcases mem_put.mp there with rfl | ⟨-, old⟩
    · exact ⟨member, found⟩
    · exact named.known e old

theorem names_folded (encodes : Encodes seed) {names : List PyStr} (inside : names ⊆ knownStrata)
    {start : Dictionary PyStr PyStr} (named : Named files seed start) :
    ∃ ids, names.foldlM (fun ids name => (stratumId files name seed).map fun id => put id name ids) start =
        some ids ∧
      Named files seed ids ∧ keys start ⊆ keys ids ∧
      ∀ name ∈ names, ∀ id, stratumId files name seed = some id → id ∈ keys ids := by
  induction names generalizing start with
  | nil => exact ⟨start, rfl, named, List.Subset.refl _, by simp⟩
  | cons name names ih =>
    rw [List.cons_subset] at inside
    have text : Encodes (seed ++ str ":" ++ name) := by
      have ascii : ∀ name ∈ knownStrata, Encodes (str ":" ++ name) := by decide
      rw [List.append_assoc]
      exact (encodes_append _ _).mpr ⟨encodes, ascii name inside.1⟩
    obtain ⟨bytes, encoded⟩ := Option.isSome_iff_exists.mp ((encode_isSome_iff _).mpr text)
    have found : stratumId files name seed = some ((files.tools.host.lib.sha256 bytes).take 8) := by
      rw [stratumId, encoded]
      rfl
    obtain ⟨ids, folded, last, kept, all⟩ := ih inside.2 (put_named named inside.1 found)
    have grown : ∀ id, id = (files.tools.host.lib.sha256 bytes).take 8 ∨ id ∈ keys start → id ∈ keys ids := by
      intro id member
      refine kept ?_
      rw [put_keys]
      split
      · rcases member with rfl | old
        · assumption
        · exact old
      · rw [List.mem_append, List.mem_singleton]
        exact member.symm
    refine ⟨ids, ?_, last, fun id old => grown id (.inr old), ?_⟩
    · rw [List.foldlM_cons, found]
      exact folded
    · rw [List.forall_mem_cons]
      refine ⟨fun id same => grown id (.inl ?_), all⟩
      exact Option.some.inj (same.symm.trans found)

theorem idToName_named (encodes : Encodes seed) :
    ∃ ids, idToName files seed = some ids ∧ Named files seed ids ∧
      ∀ name ∈ knownStrata, ∀ id, stratumId files name seed = some id → id ∈ keys ids := by
  have empty : Named files seed [] := ⟨List.nodup_nil, by simp⟩
  obtain ⟨ids, folded, named, -, all⟩ := names_folded encodes (List.Subset.refl knownStrata) empty
  exact ⟨ids, folded, named, all⟩

theorem idToName_encodes {ids : Dictionary PyStr PyStr} (read : idToName files seed = some ids) :
    Encodes seed := by
  by_contra lone
  have text : encode (seed ++ str ":" ++ categoryText .scanning) = none := by
    rw [List.append_assoc]
    exact if_neg fun all => lone ((encodes_append _ _).mp all).1
  rw [idToName, knownStrata, strataCategories, List.map_cons, List.cons_append, List.foldlM_cons, stratumId,
    text] at read
  cases read

theorem stratum_found (encodes : Encodes seed) {ids : Dictionary PyStr PyStr}
    (read : idToName files seed = some ids) {name id : PyStr} (member : name ∈ knownStrata)
    (found : stratumId files name seed = some id) :
    stratumOf ids (.str id) ∈ knownStrata ∧ stratumId files (stratumOf ids (.str id)) seed = some id := by
  obtain ⟨ids', folded, named, all⟩ := idToName_named encodes
  obtain rfl : ids' = ids := Option.some.inj (folded.symm.trans read)
  obtain ⟨e, there, rfl⟩ := List.mem_map.mp (all name member id found)
  have entry : lookup e.1 ids' = some e.2 := (lookup_eq_some named.distinct).mpr there
  rw [stratumOf, entry]
  exact named.known e there

end Strata

/-- A candidate as `sample` makes it, of a row without NaN and infinity. -/
structure Exportable (files : Files) (c : Candidate) : Prop where
  validated : ∃ raw : Json, raw.Valued ∧
    ApiSessionAlert.validate files.tools.host.lib raw = .valid c.alert
  finite : FiniteAlert c.alert
  caseId : ∃ id, c.alert.fingerprint files.tools.host.lib = some id ∧ c.caseId = .str id
  alertId : ∃ id, Plain id ∧ c.alertId = .str id
  stratum : c.stratum ∈ knownStrata

structure ReadBack (files : Files) (seed : Int) (c c' : Candidate) : Prop where
  caseId : c'.caseId = c.caseId
  alertId : c'.alertId = c.alertId
  receivedAt : c'.receivedAt = c.receivedAt
  alert : SameAlert c.alert c'.alert
  stratum : c'.stratum ∈ knownStrata ∧
    stratumId files c'.stratum (intText seed) = stratumId files c.stratum (intText seed)

section Rows
variable {files : Files}

theorem encodes_plain {s : PyStr} (plain : Plain s) : Encodes s := by
  intro c member
  have range := plain c member
  unfold Scalar
  omega

theorem plain_fingerprint (doc : Documented files) {a : SessionAlert} {id : PyStr}
    (known : a.fingerprint files.tools.host.lib = some id) : Plain id := by
  obtain ⟨_, -, known⟩ := Option.bind_eq_some_iff.mp known
  obtain ⟨bytes, -, same⟩ := Option.bind_eq_some_iff.mp known
  cases same
  exact doc.digest_plain bytes

theorem python_floats : pythonLayout.Floats := fun _ canonical => repr_reads canonical

theorem candidateRow_parts {seed : Int} {c : Candidate} {row : Json}
    (made : candidateRow files seed c = some row) :
    ∃ id, stratumId files c.stratum (intText seed) = some id ∧
      row = .obj [(str "case_id", c.caseId), (str "alert", c.alert.dumped files.tools.host.lib),
        (str "sampled", .obj [(str "alert_id", c.alertId),
          (str "received_at", .str (IsoDateText.isoformat c.receivedAt)), (str "stratum_id", .str id),
          (str "seed", .int seed)])] := by
  obtain ⟨alert, dumps, made⟩ := Option.bind_eq_some_iff.mp made
  obtain ⟨id, found, made⟩ := Option.bind_eq_some_iff.mp made
  obtain rfl := Option.some.inj made
  exact ⟨id, found, by rw [modelDump_some dumps]⟩

theorem candidateRow_valued (doc : Documented files) {seed : Int} {c : Candidate} (exportable : Exportable files c)
    {row : Json} (made : candidateRow files seed c = some row) : row.Valued := by
  obtain ⟨id, found, rfl⟩ := candidateRow_parts made
  obtain ⟨raw, valued, valid⟩ := exportable.validated
  obtain ⟨caseId, known, own⟩ := exportable.caseId
  obtain ⟨alertId, plain, row_id⟩ := exportable.alertId
  obtain ⟨bytes, -, rfl⟩ := Option.map_eq_some_iff.mp found
  have time : Apart (IsoDateText.isoformat c.receivedAt) := by
    refine apart_of_encodes fun p member => ?_
    have ascii := IsoDateText.isoformat_ascii c.receivedAt p member
    unfold Scalar
    omega
  have digest : Apart ((files.tools.host.lib.sha256 bytes).take 8) :=
    apart_plain fun p member => doc.digest_plain bytes p (List.mem_of_mem_take member)
  have name {s : PyStr} (plain : Plain s) : Apart s := apart_plain plain
  have own_names : [str "case_id", str "alert", str "sampled"].Nodup := by decide
  have names : [str "alert_id", str "received_at", str "stratum_id", str "seed"].Nodup := by decide
  rw [own, row_id]
  refine ⟨own_names, name (by decide), name (plain_fingerprint doc known), name (by decide),
    valued_alert doc (sampled_validated doc valued valid), name (by decide), ?_, trivial⟩
  exact ⟨names, name (by decide), name plain, name (by decide), time, name (by decide), digest,
    name (by decide), trivial, trivial⟩

theorem candidateLine_loads (doc : Documented files) {seed : Int} {c : Candidate}
    (exportable : Exportable files c) {line : PyStr} (written : candidateLine files seed c = some line) :
    ∃ row, candidateRow files seed c = some row ∧ row.dumps pythonLayout 0 = line ∧
      loads files.tools.host.nesting line = .ok row := by
  obtain ⟨row, made, dumped⟩ := Option.bind_eq_some_iff.mp written
  split at dumped
  · rename_i shallow
    obtain rfl := Option.some.inj dumped
    obtain ⟨readable, deep⟩ :=
      readable_dumped python_floats row files.dumpNesting (candidateRow_valued doc exportable made) shallow
    have read := loads_dumps pythonLayout readable (deep.trans doc.nesting_le) (b := []) (by simp)
    rw [List.append_nil] at read
    exact ⟨row, made, rfl, read⟩
  · cases dumped

theorem exported_alert (doc : Documented files) {c : Candidate} (exportable : Exportable files c) :
    ∃ alert, ApiSessionAlert.validate files.tools.host.lib (c.alert.dumped files.tools.host.lib) = .valid alert ∧
      SameAlert c.alert alert := by
  obtain ⟨raw, valued, valid⟩ := exportable.validated
  have sampled := sampled_validated doc valued valid
  exact validate_alert doc.golden sampled.read sampled.unmixed exportable.finite

theorem loadCandidate_row (doc : Documented files) {seed : Int} {c : Candidate}
    (exportable : Exportable files c) {row : Json} (made : candidateRow files seed c = some row) :
    ∃ c', loadCandidate files row = some c' ∧ ReadBack files seed c c' := by
  obtain ⟨id, found, rfl⟩ := candidateRow_parts made
  obtain ⟨alert, valid, same⟩ := exported_alert doc exportable
  have digits : Encodes (intText seed) := encodes_plain (plain_intText seed)
  obtain ⟨ids, folded, -⟩ : ∃ ids, idToName files (intText seed) = some ids ∧ _ := idToName_named digits
  have stratum := stratum_found digits folded exportable.stratum found
  refine ⟨⟨c.caseId, c.alertId, c.receivedAt, stratumOf ids (.str id), alert⟩, ?_,
    ⟨rfl, rfl, rfl, same, stratum.1, stratum.2.trans found.symm⟩⟩
  have names : idToName files ((Json.int seed).pyStr files.tools.isprintable) = some ids := folded
  have h1 (v w x : Json) : (Json.obj [(str "case_id", v), (str "alert", w), (str "sampled", x)]).get?
      (str "case_id") = some v := rfl
  have h2 (v w x : Json) : (Json.obj [(str "case_id", v), (str "alert", w), (str "sampled", x)]).get?
      (str "alert") = some w := rfl
  have h3 (v w x : Json) : (Json.obj [(str "case_id", v), (str "alert", w), (str "sampled", x)]).get?
      (str "sampled") = some x := rfl
  have h4 (v w x y : Json) : (Json.obj [(str "alert_id", v), (str "received_at", w), (str "stratum_id", x),
      (str "seed", y)]).get? (str "seed") = some y := rfl
  have h5 (v w x y : Json) : (Json.obj [(str "alert_id", v), (str "received_at", w), (str "stratum_id", x),
      (str "seed", y)]).get? (str "stratum_id") = some x := rfl
  have h6 (v w x y : Json) : (Json.obj [(str "alert_id", v), (str "received_at", w), (str "stratum_id", x),
      (str "seed", y)]).get? (str "alert_id") = some v := rfl
  have h7 (v w x y : Json) : (Json.obj [(str "alert_id", v), (str "received_at", w), (str "stratum_id", x),
      (str "seed", y)]).get? (str "received_at") = some w := rfl
  simp only [loadCandidate, h1, h2, h3, h4, h5, h6, h7, names, valid, hashable, doc.fromisoformat_isoformat,
    Option.bind_eq_bind, Option.bind_some, if_true, Option.map_some]

theorem loadCandidateAlert_row (doc : Documented files) {seed : Int} {c : Candidate}
    (exportable : Exportable files c) {row : Json} (made : candidateRow files seed c = some row) :
    ∃ a, EvalsLabeling.loadCandidateAlert files.tools row = some a ∧ c.caseId = .str a.1 ∧
      SameAlert c.alert a.2 := by
  obtain ⟨id, found, rfl⟩ := candidateRow_parts made
  obtain ⟨alert, valid, same⟩ := exported_alert doc exportable
  obtain ⟨caseId, -, own⟩ := exportable.caseId
  have h1 (v w x : Json) : (Json.obj [(str "case_id", v), (str "alert", w), (str "sampled", x)]).get?
      (str "case_id") = some v := rfl
  have h2 (v w x : Json) : (Json.obj [(str "case_id", v), (str "alert", w), (str "sampled", x)]).get?
      (str "alert") = some w := rfl
  refine ⟨(caseId, alert), ?_, own, same⟩
  rw [own]
  simp only [EvalsLabeling.loadCandidateAlert, h1, h2, valid, Json.pyStr, Option.bind_eq_bind, Option.bind_some]

theorem excludedId_row {seed : Int} {c : Candidate} (exportable : Exportable files c) {row : Json}
    (made : candidateRow files seed c = some row) : excludedId files row = some c.caseId := by
  obtain ⟨id, found, rfl⟩ := candidateRow_parts made
  obtain ⟨caseId, -, own⟩ := exportable.caseId
  have present (w x : Json) : (Json.obj [(str "case_id", Json.str caseId), (str "alert", w),
      (str "sampled", x)]).get? (str "case_id") = some (.str caseId) := rfl
  rw [own, excludedId, present]
  rfl

theorem written_rows (doc : Documented files) {seed : Int} {candidates : List Candidate}
    (exportable : ∀ c ∈ candidates, Exportable files c) {file : Bytes}
    (written : writeCandidates files seed candidates = some file) :
    ∃ rows, List.Forall₂ (fun c row => candidateRow files seed c = some row) candidates rows ∧
      (∀ row ∈ rows, ∃ fs, row = .obj fs) ∧
      (∀ row ∈ rows, loads files.tools.host.nesting (row.dumps pythonLayout 0) = .ok row) ∧
      encode ((rows.map (Json.dumps pythonLayout 0)).flatMap (· ++ [0x0A])) = some file := by
  obtain ⟨lines, made, encoded⟩ := Option.bind_eq_some_iff.mp written
  rw [join_rows] at encoded
  rw [mapM_eq_some_iff] at made
  suffices found : ∃ rows, List.Forall₂ (fun c row => candidateRow files seed c = some row) candidates rows ∧
      (∀ row ∈ rows, ∃ fs, row = .obj fs) ∧
      (∀ row ∈ rows, loads files.tools.host.nesting (row.dumps pythonLayout 0) = .ok row) ∧
      rows.map (Json.dumps pythonLayout 0) = lines by
    obtain ⟨rows, all, objects, loaded, rfl⟩ := found
    exact ⟨rows, all, objects, loaded, encoded⟩
  clear encoded written
  induction candidates generalizing lines with
  | nil =>
    obtain rfl := List.map_eq_nil_iff.mp made.symm
    exact ⟨[], .nil, by simp, by simp, rfl⟩
  | cons c candidates ih =>
    obtain ⟨line, later, rfl, first, rest⟩ := List.map_eq_cons_iff.mp made.symm
    rw [List.forall_mem_cons] at exportable
    obtain ⟨row, here, rfl, loaded⟩ := candidateLine_loads doc exportable.1 first.symm
    obtain ⟨id, -, object⟩ := candidateRow_parts here
    obtain ⟨rows, all, objects, read, rfl⟩ := ih exportable.2 later rest.symm
    exact ⟨row :: rows, .cons here all, List.forall_mem_cons.mpr ⟨⟨_, object⟩, objects⟩,
      List.forall_mem_cons.mpr ⟨loaded, read⟩, rfl⟩

theorem rows_read {α : Type} {read : Json → Option α} {R : Candidate → α → Prop} {seed : Int}
    {candidates : List Candidate} {rows : List Json}
    (made : List.Forall₂ (fun c row => candidateRow files seed c = some row) candidates rows)
    (each : ∀ c ∈ candidates, ∀ row, candidateRow files seed c = some row → ∃ a, read row = some a ∧ R c a) :
    ∃ values, rows.map read = values.map some ∧ List.Forall₂ R candidates values := by
  induction made with
  | nil => exact ⟨[], rfl, .nil⟩
  | @cons c row candidates rows here _ ih =>
    rw [List.forall_mem_cons] at each
    obtain ⟨a, found, related⟩ := each.1 row here
    obtain ⟨values, all, rest⟩ := ih each.2
    exact ⟨a :: values, by rw [List.map_cons, List.map_cons, found, all], .cons related rest⟩

theorem written_candidates (doc : Documented files) {seed : Int} {candidates : List Candidate}
    (exportable : ∀ c ∈ candidates, Exportable files c) {file : Bytes}
    (written : writeCandidates files seed candidates = some file) :
    ∃ back, loadCandidates files file = some back ∧ List.Forall₂ (ReadBack files seed) candidates back := by
  obtain ⟨rows, made, objects, loaded, encoded⟩ := written_rows doc exportable written
  obtain ⟨back, found, related⟩ :=
    rows_read made fun c member row here => loadCandidate_row doc (exportable c member) here
  exact ⟨back, loadLines_rows objects loaded found encoded, related⟩

theorem written_alerts (doc : Documented files) {seed : Int} {candidates : List Candidate}
    (exportable : ∀ c ∈ candidates, Exportable files c) {file : Bytes}
    (written : writeCandidates files seed candidates = some file) :
    ∃ alerts, EvalsLabeling.loadCandidateAlerts files.tools file = some alerts ∧
      List.Forall₂ (fun c a => c.caseId = .str a.1 ∧ SameAlert c.alert a.2) candidates alerts := by
  obtain ⟨rows, made, objects, loaded, encoded⟩ := written_rows doc exportable written
  obtain ⟨alerts, found, related⟩ :=
    rows_read made fun c member row here => loadCandidateAlert_row doc (exportable c member) here
  exact ⟨alerts, loadLines_rows objects loaded found encoded, related⟩

theorem written_ids (doc : Documented files) {seed : Int} {candidates : List Candidate}
    (exportable : ∀ c ∈ candidates, Exportable files c) {file : Bytes}
    (written : writeCandidates files seed candidates = some file) :
    loadExcludeCaseIds files file = some (candidates.map Candidate.caseId) := by
  obtain ⟨rows, made, objects, loaded, encoded⟩ := written_rows doc exportable written
  obtain ⟨ids, found, related⟩ :=
    rows_read (R := fun c id => c.caseId = id) made fun c member row here =>
      ⟨_, excludedId_row (exportable c member) here, rfl⟩
  have same : candidates.map Candidate.caseId = ids := by
    rw [← List.forall₂_eq_eq_eq, List.forall₂_map_left_iff]
    exact related
  exact same ▸ loadLines_rows objects loaded found encoded

def Candidate.inSession (c : Candidate) : EvalsLabeling.Candidate := ⟨c.caseId, c.alert⟩

theorem loadCandidate_session (doc : Documented files) {row : Json} {c : Candidate}
    (loaded : loadCandidate files row = some c) :
    EvalsLabeling.loadCandidate files.tools row = some c.inSession := by
  rw [loadCandidate] at loaded
  obtain ⟨caseId, h1, loaded⟩ := Option.bind_eq_some_iff.mp loaded
  obtain ⟨alertData, h2, loaded⟩ := Option.bind_eq_some_iff.mp loaded
  obtain ⟨sampled, h3, loaded⟩ := Option.bind_eq_some_iff.mp loaded
  obtain ⟨seed, h4, loaded⟩ := Option.bind_eq_some_iff.mp loaded
  obtain ⟨id, h5, loaded⟩ := Option.bind_eq_some_iff.mp loaded
  obtain ⟨alertId, h6, loaded⟩ := Option.bind_eq_some_iff.mp loaded
  obtain ⟨receivedAt, h7, loaded⟩ := Option.bind_eq_some_iff.mp loaded
  obtain ⟨ids, named, loaded⟩ := Option.bind_eq_some_iff.mp loaded
  obtain ⟨bytes, encoded⟩ := Option.isSome_iff_exists.mp ((encode_isSome_iff _).mpr (idToName_encodes named))
  split at loaded
  · rename_i s alert valid _
    split at loaded
    · rename_i usable
      obtain ⟨time, read, rfl⟩ := Option.map_eq_some_iff.mp loaded
      have reads : files.tools.fromisoformat s = true := by
        rw [doc.fromisoformat_reads, read]
        rfl
      simp only [EvalsLabeling.loadCandidate, h1, h2, h3, h4, h5, h6, h7, encoded, valid, usable, reads,
        Option.bind_eq_bind, Option.bind_some, Bool.and_self, if_true, Candidate.inSession]
    · cases loaded
  · cases loaded

theorem loadCandidates_session (doc : Documented files) {file : Bytes} {back : List Candidate}
    (loaded : loadCandidates files file = some back) :
    EvalsLabeling.loadCandidates files.tools file = some (back.map Candidate.inSession) := by
  obtain ⟨text, decoded, lines⟩ := Option.bind_eq_some_iff.mp loaded
  refine Option.bind_eq_some_iff.mpr ⟨text, decoded, ?_⟩
  rw [mapM_eq_some_iff] at lines ⊢
  generalize filledLines (universalNewlines text) = filled at lines
  clear loaded
  induction filled generalizing back with
  | nil =>
    obtain rfl := List.map_eq_nil_iff.mp lines.symm
    rfl
  | cons line filled ih =>
    obtain ⟨c, later, rfl, here, rest⟩ := List.map_eq_cons_iff.mp lines.symm
    rw [List.map_cons, List.map_cons, List.map_cons, ih rest.symm]
    congr 1
    dsimp only at here
    cases read : loads files.tools.host.nesting line with
    | error e =>
      rw [read] at here
      cases here
    | ok row =>
      rw [read] at here
      exact loadCandidate_session doc here.symm

end Rows

/-- What is written is read back by both labeling tools and by the next sample. -/
theorem candidates_read_back {files : Files} (doc : Documented files) {seed : Int}
    {candidates : List Candidate} (exportable : ∀ c ∈ candidates, Exportable files c) {file : Bytes}
    (written : writeCandidates files seed candidates = some file) :
    (∃ back, loadCandidates files file = some back ∧ List.Forall₂ (ReadBack files seed) candidates back) ∧
      (∃ alerts, EvalsLabeling.loadCandidateAlerts files.tools file = some alerts ∧
        List.Forall₂ (fun c a => c.caseId = .str a.1 ∧ SameAlert c.alert a.2) candidates alerts) ∧
      loadExcludeCaseIds files file = some (candidates.map Candidate.caseId) :=
  ⟨written_candidates doc exportable written, written_alerts doc exportable written,
    written_ids doc exportable written⟩

def sampleFiles : Files where
  tools := { sampleTools with fromisoformat := fun s => (IsoDateText.fromisoformat s).isSome }
  fromisoformat := IsoDateText.fromisoformat
  dumpNesting := 800

theorem sampleFiles_documented : Documented sampleFiles where
  golden := sampleHost_documented
  text_encodes s text := (encode_isSome_iff s).mp text
  digest_plain bytes := by
    change Plain (sampleSha256 bytes)
    rw [sampleSha256]
    cases found : sampleDigests.find? fun d => encode (str d.1) = some bytes with
    | none => simp [Plain]
    | some d =>
      have hexadecimal : ∀ d ∈ sampleDigests, Plain (str d.2) := by decide
      exact hexadecimal d (List.mem_of_find?_eq_some found)
  fromisoformat_isoformat := IsoDateText.fromisoformat_isoformat
  fromisoformat_reads _ := rfl
  nesting_le := by decide

def sampleTime : IsoDateText.DateTime := EvalsPublish.sampleRun.startedAt

def sessionPayload (session : PyStr) : Json :=
  .obj [(str "source", .str source), (str "session_id", .str session),
    (str "src_ip", .str (str "192.0.2.1")), (str "sensor", .str (str "hp")),
    (str "events", .arr [.obj [(str "eventid", .str (str "cowrie.session.connect")),
      (str "timestamp", .str (str "2026-01-01T00:00:00Z")), (str "session", .str session),
      (str "src_ip", .str (str "192.0.2.1")), (str "sensor", .str (str "hp")),
      (str "src_port", .int 40022)]])]

def sessionAlert (session : PyStr) : SessionAlert :=
  { sessionId := session, srcIp := str "192.0.2.1", sensor := str "hp",
    first := { loadEvent [(str "src_port", .int 40022)] with session := session }, rest := [],
    extra := [], connects := rfl }

def samplePayload : Json := sessionPayload (str "s1")

def sampleAlert : SessionAlert := sessionAlert (str "s1")

def sampleCandidate : Candidate where
  caseId := .str (str "d84978d225056f9cff9dd2a1bd36d4928e6042ecb4920a42efcfde71b98338b8")
  alertId := .str (str "3f0a")
  receivedAt := sampleTime
  stratum := str "scanning"
  alert := sampleAlert

def otherCandidate : Candidate where
  caseId := .str (str "325fa117693e7393e797945df8627875173c002086ba184697f0158d0792252b")
  alertId := .str (str "3f0b")
  receivedAt := sampleTime
  stratum := str "injection-candidate"
  alert := sessionAlert (str "s2")

theorem samplePayload_valid :
    ApiSessionAlert.validate sampleFiles.tools.host.lib samplePayload = .valid sampleAlert := rfl

theorem sessionPayload_valued {session : PyStr} (plain : Plain session) : (sessionPayload session).Valued := by
  have name {s : PyStr} (plain : Plain s) : Apart s := apart_plain plain
  have event_names : [str "eventid", str "timestamp", str "session", str "src_ip", str "sensor",
    str "src_port"].Nodup := by decide
  have names : [str "source", str "session_id", str "src_ip", str "sensor", str "events"].Nodup := by decide
  have event : (Json.obj [(str "eventid", .str (str "cowrie.session.connect")),
      (str "timestamp", .str (str "2026-01-01T00:00:00Z")), (str "session", .str session),
      (str "src_ip", .str (str "192.0.2.1")), (str "sensor", .str (str "hp")),
      (str "src_port", .int 40022)]).Valued :=
    ⟨event_names, name (by decide), name (by decide), name (by decide), name (by decide), name (by decide),
      name plain, name (by decide), name (by decide), name (by decide), name (by decide),
      name (by decide), trivial, trivial⟩
  exact ⟨names, name (by decide), name (by decide), name (by decide), name plain, name (by decide),
    name (by decide), name (by decide), name (by decide), name (by decide), ⟨event, trivial⟩, trivial⟩

theorem samplePayload_valued : samplePayload.Valued := sessionPayload_valued (by decide)

theorem sessionAlert_finite (session : PyStr) : FiniteAlert (sessionAlert session) := by
  refine ⟨trivial, fun e member => ?_⟩
  obtain rfl := List.mem_singleton.mp member
  exact ⟨trivial, trivial⟩

theorem sampleAlert_finite : FiniteAlert sampleAlert := sessionAlert_finite _

theorem sampleAlert_id : sampleAlert.fingerprint sampleFiles.tools.host.lib =
    some (str "d84978d225056f9cff9dd2a1bd36d4928e6042ecb4920a42efcfde71b98338b8") := by decide +kernel

theorem otherCandidate_id : otherCandidate.alert.fingerprint sampleFiles.tools.host.lib =
    some (str "325fa117693e7393e797945df8627875173c002086ba184697f0158d0792252b") := by decide +kernel

theorem sampleCandidate_exportable : Exportable sampleFiles sampleCandidate :=
  ⟨⟨samplePayload, samplePayload_valued, samplePayload_valid⟩, sampleAlert_finite,
    ⟨_, sampleAlert_id, rfl⟩, ⟨str "3f0a", by decide, rfl⟩, by decide⟩

theorem otherCandidate_exportable : Exportable sampleFiles otherCandidate :=
  ⟨⟨sessionPayload (str "s2"), sessionPayload_valued (by decide), rfl⟩, sessionAlert_finite _,
    ⟨_, otherCandidate_id, rfl⟩, ⟨str "3f0b", by decide, rfl⟩, by decide⟩

theorem candidates_read_back_two :
    ∃ file, writeCandidates sampleFiles 7 [sampleCandidate, otherCandidate] = some file ∧
      (∃ back, loadCandidates sampleFiles file = some back ∧
        List.Forall₂ (ReadBack sampleFiles 7) [sampleCandidate, otherCandidate] back) ∧
      (∃ alerts, EvalsLabeling.loadCandidateAlerts sampleFiles.tools file = some alerts ∧
        List.Forall₂ (fun c a => c.caseId = .str a.1 ∧ SameAlert c.alert a.2)
          [sampleCandidate, otherCandidate] alerts) ∧
      loadExcludeCaseIds sampleFiles file = some [sampleCandidate.caseId, otherCandidate.caseId] := by
  have writes : (writeCandidates sampleFiles 7 [sampleCandidate, otherCandidate]).isSome = true := by
    decide +kernel
  obtain ⟨file, written⟩ := Option.isSome_iff_exists.mp writes
  have exportable : ∀ c ∈ [sampleCandidate, otherCandidate], Exportable sampleFiles c := by
    simp only [List.forall_mem_cons]
    exact ⟨sampleCandidate_exportable, otherCandidate_exportable, by simp⟩
  exact ⟨file, written, candidates_read_back sampleFiles_documented exportable written⟩

end EvalsCandidates
