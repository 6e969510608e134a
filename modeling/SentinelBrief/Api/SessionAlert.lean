import SentinelBrief.Library.Json

/-!
`SessionAlert` (`core/schemas/alert.py`) and what `insert_alert` takes from it.
`Libraries` is what this code calls outside the repository: pydantic's reading of
one scalar, the conversions of `datetime`, SHA-256 and the JSONB column. A
datetime is its wall clock in microseconds since the first of year 1, with its
offset when it has one.
-/
namespace ApiSessionAlert
open Utf8Text JsonText DoubleText

/-- Microseconds from year 1 to the end of year 9999. -/
def wallLimit : Int := 315537897600000000

structure DateTime where
  wall : Int
  /-- The offset from UTC; a naive datetime has none. -/
  offset : Option Int
  from_year_one : 0 ≤ wall
  to_year_9999 : wall < wallLimit

structure Libraries where
  /-- A text that pydantic takes for a `str`. -/
  text : PyStr → Bool
  int : Json → Option Int
  datetime : Json → Option DateTime
  /-- How `model_dump` writes a datetime. -/
  datetimeText : DateTime → PyStr
  /-- An unlisted value that `model_dump(mode="json")` writes: not one nested too deep or with a key
      that is no `str` to pydantic, for which it raises. -/
  dumps : Json → Bool
  /-- `astimezone(UTC)` of a naive wall clock, in the zone of the host. -/
  localToUtc : Int → Option Int
  /-- `isoformat` of a wall clock in UTC. -/
  isoformat : Int → PyStr
  sha256 : Bytes → PyStr
  jsonb : Json → Bool

structure CowrieEvent where
  eventid : PyStr
  timestamp : DateTime
  session : PyStr
  srcIp : PyStr
  sensor : PyStr
  message : PyStr
  username : Option PyStr
  password : Option PyStr
  input : Option PyStr
  url : Option PyStr
  outfile : Option PyStr
  shasum : Option PyStr
  durationMs : Option Int
  version : Option PyStr
  extra : List (PyStr × Json)

structure SessionAlert where
  sessionId : PyStr
  srcIp : PyStr
  sensor : PyStr
  first : CowrieEvent
  rest : List CowrieEvent
  extra : List (PyStr × Json)
  connects : first.eventid = str "cowrie.session.connect"

def source : PyStr := str "cowrie"

section
variable (lib : Libraries) {α : Type}

def readStr : Json → Option PyStr
  | .str s => if lib.text s then some s else none
  | _ => none

def required (read : Json → Option α) (key : String) (j : Json) : Option α :=
  (j.get? (str key)).bind read

def defaulted (read : Json → Option α) (key : String) (default : α) (j : Json) : Option α :=
  match j.get? (str key) with
  | none => some default
  | some v => read v

def nullable (read : Json → Option α) : Json → Option (Option α)
  | .null => some none
  | v => (read v).map some

def optional (read : Json → Option α) (key : String) (j : Json) : Option (Option α) :=
  defaulted (nullable read) key none j

def eventFields : List PyStr :=
  [str "eventid", str "timestamp", str "session", str "src_ip", str "sensor", str "message",
    str "username", str "password", str "input", str "url", str "outfile", str "shasum",
    str "duration_ms", str "version"]

def alertFields : List PyStr :=
  [str "source", str "session_id", str "src_ip", str "sensor", str "events"]

def extraOf (named : List PyStr) (fs : List (PyStr × Json)) : List (PyStr × Json) :=
  fs.filter fun f => !named.contains f.1

/-- What `extra="allow"` keeps; every key has to be a `str` to pydantic. -/
def readExtra (named : List PyStr) (fs : List (PyStr × Json)) : Option (List (PyStr × Json)) :=
  if (extraOf named fs).all fun f => lib.text f.1 then some (extraOf named fs) else none

def validateEvent : Json → Option CowrieEvent
  | .obj fs => do
    let eventid ← required (readStr lib) "eventid" (.obj fs)
    let timestamp ← required lib.datetime "timestamp" (.obj fs)
    let session ← required (readStr lib) "session" (.obj fs)
    let srcIp ← required (readStr lib) "src_ip" (.obj fs)
    let sensor ← required (readStr lib) "sensor" (.obj fs)
    let message ← defaulted (readStr lib) "message" [] (.obj fs)
    let username ← optional (readStr lib) "username" (.obj fs)
    let password ← optional (readStr lib) "password" (.obj fs)
    let input ← optional (readStr lib) "input" (.obj fs)
    let url ← optional (readStr lib) "url" (.obj fs)
    let outfile ← optional (readStr lib) "outfile" (.obj fs)
    let shasum ← optional (readStr lib) "shasum" (.obj fs)
    let durationMs ← optional lib.int "duration_ms" (.obj fs)
    let version ← optional (readStr lib) "version" (.obj fs)
    let extra ← readExtra lib eventFields fs
    return ⟨eventid, timestamp, session, srcIp, sensor, message, username, password, input, url,
      outfile, shasum, durationMs, version, extra⟩
  | _ => none

def readSource : Json → Option Unit
  | .str s => if s = source then some () else none
  | _ => none

/-- `Annotated[list[CowrieEvent], Field(min_length=1)]`. -/
def readEvents : Json → Option (List CowrieEvent)
  | .arr (x :: xs) => (x :: xs).mapM (validateEvent lib)
  | _ => none

structure AlertFields where
  sessionId : PyStr
  srcIp : PyStr
  sensor : PyStr
  events : List CowrieEvent
  extra : List (PyStr × Json)

def validateFields : Json → Option AlertFields
  | .obj fs => do
    required readSource "source" (.obj fs)
    let sessionId ← required (readStr lib) "session_id" (.obj fs)
    let srcIp ← required (readStr lib) "src_ip" (.obj fs)
    let sensor ← required (readStr lib) "sensor" (.obj fs)
    let events ← required (readEvents lib) "events" (.obj fs)
    let extra ← readExtra lib alertFields fs
    return ⟨sessionId, srcIp, sensor, events, extra⟩
  | _ => none

end

def DateTime.aware (d : DateTime) : Bool := d.offset.isSome

/-- The instant of an aware datetime, the wall clock of a naive one. -/
def DateTime.instant (d : DateTime) : Int := d.wall - d.offset.getD 0

/-- `a < b`; a naive with an aware one raises `TypeError`. -/
def DateTime.lt (a b : DateTime) : Option Bool :=
  if a.aware = b.aware then some (decide (a.instant < b.instant)) else none

def insertEvent (e : CowrieEvent) : List CowrieEvent → Option (List CowrieEvent)
  | [] => some [e]
  | f :: fs => do
    if ← f.timestamp.lt e.timestamp then return f :: (← insertEvent e fs)
    else return e :: f :: fs

/-- `sorted(events, key=timestamp)`, stable. -/
def sortEvents : List CowrieEvent → Option (List CowrieEvent)
  | [] => some []
  | e :: es => do insertEvent e (← sortEvents es)

inductive Validation where
  | invalid
  /-- An exception that pydantic does not turn into one. -/
  | raised
  | valid (a : SessionAlert)

def sortAndRequireConnectFirst (fields : AlertFields) : Validation :=
  match sortEvents fields.events with
  | none | some [] => .raised
  | some (first :: rest) =>
    if connects : first.eventid = str "cowrie.session.connect" then
      .valid { sessionId := fields.sessionId, srcIp := fields.srcIp, sensor := fields.sensor,
               first := first, rest := rest, extra := fields.extra, connects := connects }
    else .invalid

def SessionAlert.events (a : SessionAlert) : List CowrieEvent := a.first :: a.rest

def SessionAlert.connectTime (a : SessionAlert) : DateTime := a.first.timestamp

section
variable (lib : Libraries)

def validate (j : Json) : Validation :=
  match validateFields lib j with
  | none => .invalid
  | some fields => sortAndRequireConnectFirst fields

/-- The wall clock of `astimezone(UTC)`; `none` when it raises. -/
def DateTime.astimezoneUtc (d : DateTime) : Option Int :=
  match d.offset with
  | none => lib.localToUtc d.wall
  | some offset =>
    if 0 ≤ d.wall - offset ∧ d.wall - offset < wallLimit then some (d.wall - offset) else none

def SessionAlert.fingerprint (a : SessionAlert) : Option PyStr := do
  let utc ← a.connectTime.astimezoneUtc lib
  let raw := source ++ str "|" ++ a.sessionId ++ str "|" ++ lib.isoformat utc
  return lib.sha256 (← encode raw)

mutual
/-- An unlisted value under `mode="json"`: a NaN or an infinity becomes null. -/
def jsonMode : Json → Json
  | .float .nan => .null
  | .float (.inf _) => .null
  | .arr xs => .arr (jsonModeItems xs)
  | .obj fs => .obj (jsonModeFields fs)
  | j => j

def jsonModeItems : List Json → List Json
  | [] => []
  | x :: xs => jsonMode x :: jsonModeItems xs

def jsonModeFields : List (PyStr × Json) → List (PyStr × Json)
  | [] => []
  | (k, v) :: fs => (k, jsonMode v) :: jsonModeFields fs
end

def textOrNull : Option PyStr → Json
  | some s => .str s
  | none => .null

def CowrieEvent.dumped (e : CowrieEvent) : Json :=
  .obj ([(str "eventid", .str e.eventid), (str "timestamp", .str (lib.datetimeText e.timestamp)),
    (str "session", .str e.session), (str "src_ip", .str e.srcIp), (str "sensor", .str e.sensor),
    (str "message", .str e.message), (str "username", textOrNull e.username),
    (str "password", textOrNull e.password), (str "input", textOrNull e.input),
    (str "url", textOrNull e.url), (str "outfile", textOrNull e.outfile),
    (str "shasum", textOrNull e.shasum),
    (str "duration_ms", match e.durationMs with | some n => .int n | none => .null),
    (str "version", textOrNull e.version)] ++ jsonModeFields e.extra)

def SessionAlert.dumped (a : SessionAlert) : Json :=
  .obj ([(str "source", .str source), (str "session_id", .str a.sessionId),
    (str "src_ip", .str a.srcIp), (str "sensor", .str a.sensor),
    (str "events", .arr (a.events.map (CowrieEvent.dumped lib)))] ++ jsonModeFields a.extra)

def SessionAlert.dumpable (a : SessionAlert) : Bool :=
  (a.extra ++ a.events.flatMap CowrieEvent.extra).all fun f => lib.dumps f.2

/-- `model_dump(mode="json")`; `none` when it raises. -/
def SessionAlert.modelDump (a : SessionAlert) : Option Json :=
  if a.dumpable lib then some (a.dumped lib) else none

structure AlertValues where
  fingerprint : PyStr
  source : PyStr
  eventTime : DateTime
  raw : Json

/-- The values of the INSERT; `none` when one cannot be computed or the database refuses one. -/
def SessionAlert.values (a : SessionAlert) : Option AlertValues := do
  let fingerprint ← a.fingerprint lib
  let raw ← a.modelDump lib
  if lib.jsonb raw then return ⟨fingerprint, source, a.connectTime, raw⟩ else none

end

end ApiSessionAlert
