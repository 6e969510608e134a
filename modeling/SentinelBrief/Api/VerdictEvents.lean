import SentinelBrief.Api.Stream
import SentinelBrief.Core.AlertsRead
import SentinelBrief.Library.EventStream
import SentinelBrief.Library.JsonBytes
import SentinelBrief.Library.JsonDumps

/-!
`verdict.created` on its way: `worker/publish.py` builds and writes the message,
`api/routes/stream.py` reads and validates it and writes the frame. An id is the
128-bit number of a UUID. `Pydantic` is what the validation of a UUID, an `int`
and a `bool` field makes of a JSON value.
-/
namespace ApiVerdictEvents
open Utf8Text JsonText EventStream CoreAlertsRead

abbrev Uuid := BitVec 128

def hexText : Nat → Nat → PyStr
  | 0, _ => []
  | width + 1, n => hexText width (n / 16) ++ [hexDigit (n % 16)]

def uuidText (u : Uuid) : PyStr :=
  let digits := hexText 32 u.toNat
  digits.take 8 ++ 0x2D :: ((digits.drop 8).take 4 ++ 0x2D :: ((digits.drop 12).take 4 ++
    0x2D :: ((digits.drop 16).take 4 ++ 0x2D :: digits.drop 20)))

/-- `Verdict` (`core/schemas/verdict.py`), as far as it is published. -/
structure Verdict where
  severity : Int
  category : VerdictCategory
  reasoning : PyStr
  escalate : Bool
  severity_range : 1 ≤ severity ∧ severity ≤ 5
  reasoning_length : reasoning.length ≤ 1200
  reasoning_encodes : Encodes reasoning
  escalate_required : 4 ≤ severity → escalate = true

def verdictCreatedPayload (alertId verdictId : Uuid) (v : Verdict) : Json :=
  .obj [(str "alert_id", .str (uuidText alertId)), (str "verdict_id", .str (uuidText verdictId)),
    (str "severity", .int v.severity), (str "category", .str (categoryText v.category)),
    (str "escalate", .bool v.escalate), (str "summary", .str (reasoningExcerpt v.reasoning))]

/-- What `publish_verdict_created` hands to Redis. -/
def publishedText (alertId verdictId : Uuid) (v : Verdict) : PyStr :=
  (verdictCreatedPayload alertId verdictId v).dumps pythonLayout 0

structure VerdictCreatedEvent where
  alertId : Uuid
  verdictId : Uuid
  severity : Int
  category : VerdictCategory
  escalate : Bool
  summary : PyStr
  severity_range : 1 ≤ severity ∧ severity ≤ 5
  summary_length : summary.length ≤ reasoningExcerptChars
  summary_encodes : Encodes summary

def VerdictCreatedEvent.value (e : VerdictCreatedEvent) : Json :=
  .obj [(str "alert_id", .str (uuidText e.alertId)), (str "verdict_id", .str (uuidText e.verdictId)),
    (str "severity", .int e.severity), (str "category", .str (categoryText e.category)),
    (str "escalate", .bool e.escalate), (str "summary", .str e.summary)]

def VerdictCreatedEvent.modelDumpJson (e : VerdictCreatedEvent) : PyStr :=
  e.value.dumps compactLayout 0

/-- Values other than the canonical ones may be accepted as well. -/
structure Pydantic where
  uuid : Json → Option Uuid
  int : Json → Option Int
  bool : Json → Option Bool
  uuid_text : ∀ u, uuid (.str (uuidText u)) = some u
  int_number : ∀ i, int (.int i) = some i
  bool_literal : ∀ b, bool (.bool b) = some b

def categories : List VerdictCategory :=
  [.scanning, .bruteForce, .successfulIntrusion, .malwareDelivery, .persistenceAttempt,
    .reconnaissance, .other]

def readCategory : Json → Option VerdictCategory
  | .str s => categories.find? fun c => categoryText c = s
  | _ => none

def readStr : Json → Option PyStr
  | .str s => some s
  | _ => none

def fieldNames : List PyStr :=
  [str "alert_id", str "verdict_id", str "severity", str "category", str "escalate", str "summary"]

/-- `extra="forbid"`. -/
def isModel : Json → Bool
  | .obj fs => fs.all fun f => f.1 ∈ fieldNames
  | _ => false

section
variable (p : Pydantic) (limit : Nat)

/-- `VerdictCreatedEvent.model_validate`; `none` is `ValidationError`. -/
def modelValidate (data : Json) : Option VerdictCreatedEvent :=
  if isModel data then do
    let alertId ← data.get? (str "alert_id") >>= p.uuid
    let verdictId ← data.get? (str "verdict_id") >>= p.uuid
    let severity ← data.get? (str "severity") >>= p.int
    let category ← data.get? (str "category") >>= readCategory
    let escalate ← data.get? (str "escalate") >>= p.bool
    let summary ← data.get? (str "summary") >>= readStr
    if h : (1 ≤ severity ∧ severity ≤ 5) ∧ summary.length ≤ reasoningExcerptChars ∧
        Encodes summary then
      some ⟨alertId, verdictId, severity, category, escalate, summary, h.1, h.2.1, h.2.2⟩
    else none
  else none

def formatSse (event data : PyStr) : PyStr :=
  str "event: " ++ event ++ str "\ndata: " ++ data ++ str "\n\n"

def verdictCreatedEvent : PyStr := str "verdict.created"

/-- `render_verdict_event`; an `.error` is an exception that it does not catch. -/
def renderVerdictEvent (raw : RawJson) : Except LoadError (Option PyStr) :=
  match raw.loads limit with
  | .error .unicode => .ok none
  | .error (.json .decode) => .ok none
  | .error (.json e) => .error e
  | .ok data => match modelValidate p data with
    | none => .ok none
    | some event => .ok (some (formatSse verdictCreatedEvent event.modelDumpJson))

inductive Poll where
  | timeout
  | nothing
  | message (raw : RawJson)
  | redisError

def verdictEventStream : List Poll → List PyStr
  | [] => []
  | .timeout :: ps => ApiStream.formatComment ApiStream.heartbeatComment :: verdictEventStream ps
  | .nothing :: ps => ApiStream.formatComment ApiStream.heartbeatComment :: verdictEventStream ps
  | .redisError :: _ => []
  | .message raw :: ps => match renderVerdictEvent p limit raw with
    | .error _ => []
    | .ok none => verdictEventStream ps
    | .ok (some frame) => frame :: verdictEventStream ps

def validated (raw : RawJson) : Option VerdictCreatedEvent :=
  match raw.loads limit with
  | .ok data => modelValidate p data
  | .error _ => none

/-- `json.loads` succeeds or raises `JSONDecodeError` or `UnicodeDecodeError`. -/
def Ordinary (raw : RawJson) : Prop :=
  raw.loads limit ≠ .error (.json .value) ∧ raw.loads limit ≠ .error (.json .recursion)

end

def received : List Poll → List RawJson
  | [] => []
  | .timeout :: ps => received ps
  | .nothing :: ps => received ps
  | .redisError :: _ => []
  | .message raw :: ps => raw :: received ps

theorem hexText_range (width n : Nat) : ∀ c ∈ hexText width n, 0x30 ≤ c ∧ c < 0x7F := by
  induction width generalizing n with
  | zero => simp [hexText]
  | succ width ih =>
    intro c member
    rcases List.mem_append.mp member with front | last
    · exact ih _ c front
    · rw [List.mem_singleton.mp last]
      exact hexDigit_range (n % 16) (by omega)

theorem uuidText_digits (u : Uuid) :
    (uuidText u).filter (· ≠ 0x2D) = hexText 32 u.toNat := by
  have digits : ∀ s : PyStr, s ⊆ hexText 32 u.toNat → s.filter (· ≠ 0x2D) = s := by
    intro s inside
    rw [List.filter_eq_self]
    intro c member
    have range := hexText_range 32 u.toNat c (inside member)
    simp only [decide_eq_true_eq]
    omega
  have part : ∀ m n, ((hexText 32 u.toNat).drop m).take n ⊆ hexText 32 u.toNat := fun m n _ inside =>
    List.drop_subset m _ (List.take_subset n _ inside)
  have rest : ∀ m n, ((hexText 32 u.toNat).drop m).take n ++ (hexText 32 u.toNat).drop (m + n) =
      (hexText 32 u.toNat).drop m := by
    intro m n
    rw [← List.drop_drop, List.take_append_drop]
  have dash : (0x2D ≠ 0x2D) = False := by simp
  simp only [uuidText, List.filter_append, List.filter_cons, dash, decide_false, Bool.false_eq_true,
    if_false, digits _ (part 8 4), digits _ (part 12 4), digits _ (part 16 4),
    digits _ (List.drop_subset 20 _), digits _ (List.take_subset 8 _), rest 16 4, rest 12 4, rest 8 4,
    List.take_append_drop]

theorem uuidText_range (u : Uuid) : ∀ c ∈ uuidText u, c < 0x7F := by
  intro c member
  by_cases dash : c = 0x2D
  · omega
  · have inside : c ∈ (uuidText u).filter (· ≠ 0x2D) :=
      List.mem_filter.mpr ⟨member, by simpa using dash⟩
    rw [uuidText_digits] at inside
    exact (hexText_range 32 u.toNat c inside).2

theorem encodes_uuidText (u : Uuid) : Encodes (uuidText u) := by
  intro c member
  have range := uuidText_range u c member
  exact .inl (by omega)

theorem encodes_categoryText (c : VerdictCategory) : Encodes (categoryText c) := by
  cases c <;> decide

theorem encodes_take {s : PyStr} (encodes : Encodes s) (n : Nat) : Encodes (s.take n) :=
  fun c member => encodes c (List.take_subset n s member)

theorem severity_digits {i : Int} (range : 1 ≤ i ∧ i ≤ 5) :
    (digitsText i.natAbs).length ≤ intMaxStrDigits := by
  rw [digitsText, Nat.toDigits_of_lt_base (by omega)]
  simp [intMaxStrDigits]

theorem value_readable (w : Layout) (e : VerdictCreatedEvent) : e.value.Readable w := by
  have names : ∀ k ∈ fieldNames, Encodes k := by decide
  have distinct : fieldNames.Nodup := by decide
  refine readable_obj rfl distinct (fun k member => apart_of_encodes (names k member)) ?_
  simp only [List.map_cons, List.map_nil, List.forall_mem_cons, Json.Readable]
  exact ⟨apart_of_encodes (encodes_uuidText _), apart_of_encodes (encodes_uuidText _),
    severity_digits e.severity_range, apart_of_encodes (encodes_categoryText _), trivial,
    apart_of_encodes e.summary_encodes, by simp⟩

theorem find_category (c : VerdictCategory) :
    categories.find? (fun d => categoryText d = categoryText c) = some c := by
  cases c <;> decide

theorem validate_value (p : Pydantic) (e : VerdictCreatedEvent) :
    modelValidate p e.value = some e := by
  have names : isModel e.value = true := by
    simp [isModel, VerdictCreatedEvent.value, fieldNames]
  have alert : e.value.get? (str "alert_id") = some (.str (uuidText e.alertId)) := rfl
  have verdict : e.value.get? (str "verdict_id") = some (.str (uuidText e.verdictId)) := rfl
  have severity : e.value.get? (str "severity") = some (.int e.severity) := rfl
  have category : e.value.get? (str "category") = some (.str (categoryText e.category)) := rfl
  have escalate : e.value.get? (str "escalate") = some (.bool e.escalate) := rfl
  have summary : e.value.get? (str "summary") = some (.str e.summary) := rfl
  simp [modelValidate, names, alert, verdict, severity, category, escalate, summary, p.uuid_text,
    p.int_number, p.bool_literal, readCategory, find_category, readStr, e.severity_range,
    e.summary_length, e.summary_encodes]

def publishedEvent (alertId verdictId : Uuid) (v : Verdict) : VerdictCreatedEvent where
  alertId := alertId
  verdictId := verdictId
  severity := v.severity
  category := v.category
  escalate := v.escalate
  summary := reasoningExcerpt v.reasoning
  severity_range := v.severity_range
  summary_length := List.length_take_le _ _
  summary_encodes := encodes_take v.reasoning_encodes _

theorem payload_eq (alertId verdictId : Uuid) (v : Verdict) :
    verdictCreatedPayload alertId verdictId v = (publishedEvent alertId verdictId v).value := rfl

theorem value_depth (e : VerdictCreatedEvent) : e.value.depth = 1 := rfl

theorem loads_value (w : Layout) {limit : Nat} (positive : 0 < limit) (e : VerdictCreatedEvent) :
    loads limit (e.value.dumps w 0) = .ok e.value := by
  have deep : e.value.depth ≤ limit := by
    rw [value_depth]
    omega
  have read := loads_dumps w (value_readable w e) deep (b := []) (by simp)
  rwa [List.append_nil] at read

theorem oneLine_dump (e : VerdictCreatedEvent) : OneLine e.modelDumpJson := by
  intro c member
  have printable := compact_printable 0 e.value c member
  omega

theorem oneLine_name : OneLine verdictCreatedEvent := by
  unfold OneLine
  decide

theorem resume_frame (e : VerdictCreatedEvent) (s : PyStr) :
    resume (formatSse verdictCreatedEvent e.modelDumpJson ++ s) =
      ⟨verdictCreatedEvent, e.modelDumpJson⟩ :: resume s :=
  resume_event (by decide) oneLine_name (oneLine_dump e) s

theorem resume_heartbeat (s : PyStr) :
    resume (ApiStream.formatComment ApiStream.heartbeatComment ++ s) = resume s :=
  resume_comment (by unfold OneLine; decide) s

variable {p : Pydantic} {limit : Nat}

/-- A message that the parser reads or refuses becomes a frame exactly when it is valid. -/
theorem render_ordinary {raw : RawJson} (ordinary : Ordinary limit raw) :
    renderVerdictEvent p limit raw = .ok ((validated p limit raw).map fun e =>
      formatSse verdictCreatedEvent e.modelDumpJson) := by
  unfold renderVerdictEvent validated
  cases read : raw.loads limit with
  | ok data =>
    simp only
    cases modelValidate p data <;> rfl
  | error e =>
    rw [Ordinary, read] at ordinary
    cases e with
    | unicode => rfl
    | json e => cases e <;> simp_all

theorem resume_stream (polls : List Poll)
    (ordinary : ∀ raw ∈ received polls, Ordinary limit raw) :
    resume (verdictEventStream p limit polls).flatten =
      ((received polls).filterMap (validated p limit)).map fun e =>
        ⟨verdictCreatedEvent, e.modelDumpJson⟩ := by
  induction polls with
  | nil => rfl
  | cons poll polls ih =>
    cases poll with
    | timeout =>
      simp only [verdictEventStream, received, List.flatten_cons, resume_heartbeat] at ordinary ⊢
      exact ih ordinary
    | nothing =>
      simp only [verdictEventStream, received, List.flatten_cons, resume_heartbeat] at ordinary ⊢
      exact ih ordinary
    | redisError => rfl
    | message raw =>
      simp only [received, List.mem_cons, forall_eq_or_imp] at ordinary
      have rest := ih ordinary.2
      simp only [verdictEventStream, received, render_ordinary ordinary.1, List.filterMap_cons]
      cases validated p limit raw with
      | none => exact rest
      | some e =>
        simp only [Option.map_some, List.flatten_cons, resume_frame, rest, List.map_cons]

theorem stream_head (polls : List Poll) :
    (verdictEventStream p limit polls).flatten.head? ≠ some 0xFEFF := by
  induction polls with
  | nil => simp [verdictEventStream]
  | cons poll polls ih =>
    cases poll with
    | timeout | nothing => simp [verdictEventStream, ApiStream.formatComment, str]
    | redisError => simp [verdictEventStream]
    | message raw =>
      rw [verdictEventStream]
      split
      · simp
      · exact ih
      · rename_i frame rendered
        unfold renderVerdictEvent at rendered
        split at rendered
        all_goals try cases rendered
        split at rendered
        all_goals cases rendered
        simp [formatSse, str]

theorem parse_plain {s : PyStr} (plain : s.head? ≠ some 0xFEFF) : parse s = resume s := by
  unfold parse
  split
  · simp at plain
  · rfl

theorem loads_published (limit : Nat) (positive : 0 < limit) (e : VerdictCreatedEvent) {raw : RawJson}
    (sent : raw = .text (e.value.dumps pythonLayout 0) ∨
      raw = .bytes ((e.value.dumps pythonLayout 0).flatMap encodePoint)) :
    raw.loads limit = .ok e.value := by
  have text : RawJson.loads limit (.text (e.value.dumps pythonLayout 0)) = .ok e.value := by
    rw [RawJson.loads, loads_value pythonLayout positive e]
    rfl
  rcases sent with rfl | rfl
  · exact text
  · rw [loads_ascii_bytes, text]
    intro c member
    have ascii := python_ascii 0 e.value c member
    omega

def hexNumber (s : PyStr) : Nat := s.foldl (fun n c => n * 16 + (hexValue c).getD 0) 0

theorem hexNumber_hexText (width n : Nat) : hexNumber (hexText width n) = n % 16 ^ width := by
  induction width generalizing n with
  | zero => simp [hexText, hexNumber, Nat.mod_one]
  | succ width ih =>
    have front := ih (n / 16)
    have digit := hexValue_hexDigit (n % 16) (by omega)
    rw [hexNumber] at front
    rw [hexText, hexNumber, List.foldl_append, front]
    simp only [List.foldl_cons, List.foldl_nil, digit, Option.getD_some]
    rw [Nat.pow_succ, Nat.mul_comm (16 ^ width) 16, Nat.mod_mul]
    omega

def strictPydantic : Pydantic where
  uuid
    | .str s =>
      let u := BitVec.ofNat 128 (hexNumber (s.filter (· ≠ 0x2D)))
      if uuidText u = s then some u else none
    | _ => none
  int
    | .int i => some i
    | _ => none
  bool
    | .bool b => some b
    | _ => none
  uuid_text u := by
    have number : BitVec.ofNat 128 (hexNumber (hexText 32 u.toNat)) = u := by
      rw [hexNumber_hexText]
      apply BitVec.eq_of_toNat_eq
      have bound := u.isLt
      simp only [BitVec.toNat_ofNat]
      omega
    simp only [uuidText_digits, number, if_true]
  int_number _ := rfl
  bool_literal _ := rfl

def twoLines : Verdict where
  severity := 4
  category := .bruteForce
  reasoning := str "two\nlines"
  escalate := true
  severity_range := by decide
  reasoning_length := by decide
  reasoning_encodes := by decide
  escalate_required := fun _ => rfl

/-- An idle second, a verdict, a torn message, a timeout and octets that are no text. -/
def twoLinesPolls : List Poll :=
  [.nothing, .message (.text (publishedText 1#128 2#128 twoLines)), .message (.text (str "\x7b")), .timeout,
    .message (.bytes [0xC3])]

theorem verdict_created_delivered (p : Pydantic) (limit : Nat) (positive : 0 < limit) :
    (∀ alertId verdictId v raw,
      (raw = .text (publishedText alertId verdictId v) ∨
        raw = .bytes ((publishedText alertId verdictId v).flatMap encodePoint)) →
      ∃ data, renderVerdictEvent p limit raw = .ok (some (formatSse verdictCreatedEvent data)) ∧
        parse (formatSse verdictCreatedEvent data) = [⟨verdictCreatedEvent, data⟩] ∧
        loads limit data = .ok (verdictCreatedPayload alertId verdictId v)) ∧
    (∀ polls, (∀ raw ∈ received polls, Ordinary limit raw) →
      parse (verdictEventStream p limit polls).flatten =
        ((received polls).filterMap (validated p limit)).map fun e =>
          ⟨verdictCreatedEvent, e.modelDumpJson⟩) ∧
    (∀ e : VerdictCreatedEvent, loads limit e.modelDumpJson = .ok e.value) := by
  refine ⟨?_, ?_, loads_value compactLayout positive⟩
  · intro alertId verdictId v raw sent
    have read := loads_published limit positive (publishedEvent alertId verdictId v) sent
    have value : validated p limit raw = some (publishedEvent alertId verdictId v) := by
      simp only [validated, read, validate_value]
    have ordinary : Ordinary limit raw := by
      rw [Ordinary, read]
      exact ⟨by simp, by simp⟩
    rw [payload_eq]
    refine ⟨(publishedEvent alertId verdictId v).modelDumpJson, ?_, ?_,
      loads_value compactLayout positive _⟩
    · rw [render_ordinary ordinary, value]
      rfl
    · have frame := resume_frame (publishedEvent alertId verdictId v) []
      rw [List.append_nil] at frame
      rw [parse_plain (by simp [formatSse, str]), frame]
      rfl
  · intro polls ordinary
    rw [parse_plain (stream_head polls), resume_stream polls ordinary]

theorem verdict_created_delivered_session :
    parse (verdictEventStream strictPydantic 1 twoLinesPolls).flatten =
      [⟨verdictCreatedEvent, (publishedEvent 1#128 2#128 twoLines).modelDumpJson⟩] := by
  have read : RawJson.loads 1 (.text (publishedText 1#128 2#128 twoLines)) =
      .ok (publishedEvent 1#128 2#128 twoLines).value :=
    loads_published 1 (by decide) _ (.inl rfl)
  have torn : RawJson.loads 1 (.text (str "\x7b")) = .error (.json .decode) := rfl
  have octets : RawJson.loads 1 (.bytes [0xC3]) = .error .unicode := rfl
  have ordinary : ∀ raw ∈ received twoLinesPolls, Ordinary 1 raw := by
    simp [twoLinesPolls, received, Ordinary, read, torn, octets]
  rw [(verdict_created_delivered strictPydantic 1 (by decide)).2.1 twoLinesPolls ordinary]
  simp only [twoLinesPolls, received, List.filterMap_cons, validated, read, torn, octets,
    validate_value, List.filterMap_nil, List.map_cons, List.map_nil]

end ApiVerdictEvents
