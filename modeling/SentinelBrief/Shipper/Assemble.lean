import SentinelBrief.Library.Json

/-!
`SessionAssembler` (`sentinelbrief_shipper/assemble.py`). Clock readings are
integers; only their differences matter. Sessions are a dict keyed by the
`session` field as it stands in the log, so any hashable value can be a key and
equal numbers are one key. Log records are left out, the counters are kept.
-/
namespace ShipperAssemble
open Utf8Text JsonText DoubleText

def closedEvent : PyStr := str "cowrie.session.closed"

def connectEvent : PyStr := str "cowrie.session.connect"

def requiredFields : List PyStr :=
  [str "eventid", str "session", str "src_ip", str "sensor", str "timestamp"]

def shipperVersion : PyStr := str "0.1.0"

/-- `SHIPPER_IDLE_FLUSH_S`, `SHIPPER_MAX_EVENTS` (at least 2, `ShipperConfig.from_env`),
    `SHIPPER_MAX_PAYLOAD_BYTES`, and the nesting the interpreter reads and writes. -/
structure AssemblerConfig where
  idleFlush : Int
  maxEvents : Nat
  maxPayloadBytes : Nat
  loadLimit : Nat
  dumpLimit : Nat
  two_events : 2 ≤ maxEvents

inductive Raised where
  | valueError
  | recursionError
  | typeError
  | keyError
  | unicodeEncodeError
  deriving DecidableEq, Repr

inductive Key where
  | null
  | text (s : PyStr)
  | number (i : Int)
  | float (f : Double)
  deriving DecidableEq

/-- The key of a value; lists and objects are not hashable. -/
def keyOf : Json → Option Key
  | .null => some .null
  | .bool b => some (.number (if b then 1 else 0))
  | .int i => some (.number i)
  | .float f => match integral f with
    | some i => some (.number i)
    | none => some (.float f)
  | .str s => some (.text s)
  | .arr _ => none
  | .obj _ => none

structure OpenSession where
  sessionId : Json
  srcIp : Json
  sensor : Json
  events : List Json
  lastSeen : Int
  hasConnect : Bool
  droppedEvents : Nat

structure SessionAssembler where
  sessions : List (Key × OpenSession) := []
  parseErrors : Nat := 0
  droppedNoConnect : Nat := 0
  truncatedSessions : Nat := 0

def SessionAssembler.session? (a : SessionAssembler) (key : Key) : Option OpenSession :=
  (a.sessions.find? fun entry => entry.1 == key).map (·.2)

/-- A dict entry set: an existing key keeps its place. -/
def setSession (key : Key) (session : OpenSession) :
    List (Key × OpenSession) → List (Key × OpenSession)
  | [] => [(key, session)]
  | entry :: entries => if entry.1 = key then (key, session) :: entries
    else entry :: setSession key session entries

def SessionAssembler.store (a : SessionAssembler) (key : Key) (session : OpenSession) :
    SessionAssembler :=
  { a with sessions := setSession key session a.sessions }

def SessionAssembler.forget (a : SessionAssembler) (key : Key) : SessionAssembler :=
  { a with sessions := a.sessions.filter fun entry => entry.1 ≠ key }

def field (name : String) (event : Json) : Json := (event.get? (str name)).getD .null

def isText (value : Json) (text : PyStr) : Bool :=
  match value with
  | .str s => s == text
  | _ => false

def isEvent (event : Json) : Bool :=
  match event with
  | .obj _ => requiredFields.all fun name => (event.get? name).isSome
  | _ => false

def openSession (event : Json) (now : Int) : OpenSession :=
  { sessionId := field "session" event, srcIp := field "src_ip" event,
    sensor := field "sensor" event, events := [], lastSeen := now,
    hasConnect := isText (field "eventid" event) connectEvent, droppedEvents := 0 }

/-- The event appended; past the cap the second-newest one goes. -/
def OpenSession.append (cfg : AssemblerConfig) (s : OpenSession) (event : Json) (now : Int) :
    OpenSession :=
  if cfg.maxEvents < s.events.length + 1 then
    { s with events := s.events.dropLast ++ [event], lastSeen := now,
             droppedEvents := s.droppedEvents + 1 }
  else { s with events := s.events ++ [event], lastSeen := now }

def dumps (cfg : AssemblerConfig) (envelope : Json) : Except Raised Bytes :=
  if cfg.dumpLimit < envelope.depth then .error .recursionError
  else match encode envelope.text with
    | none => .error .unicodeEncodeError
    | some bytes => .ok bytes

/-- The dict a payload is written from; `truncated` is absent once the `shipper` key is deleted. -/
def envelope (s : OpenSession) (events : List Json) (truncated : Option Nat) : Json :=
  .obj ([(str "source", .str (str "cowrie")), (str "session_id", s.sessionId),
      (str "src_ip", s.srcIp), (str "sensor", s.sensor), (str "events", .arr events)] ++
    match truncated with
    | some n => [(str "shipper", .obj [(str "version", .str shipperVersion),
        (str "truncated_events", .int n)])]
    | none => [])

def firstAndLast (n : Nat) (events : List Json) : List Json :=
  events.take n ++ events.getLast?.toList

def capEvents (cfg : AssemblerConfig) (events : List Json) : List Json :=
  if cfg.maxEvents < events.length then firstAndLast (cfg.maxEvents - 1) events else events

def halveEvents (events : List Json) : List Json :=
  firstAndLast (max 2 (events.length / 2) - 1) events

/-- Cap 2: the loop that halves until the payload fits. The fuel is the number of events. -/
def fitPayload (cfg : AssemblerConfig) (s : OpenSession) (total : Nat) :
    Nat → List Json → Bytes → Except Raised (List Json × Bytes)
  | 0, events, payload => .ok (events, payload)
  | fuel + 1, events, payload =>
    if cfg.maxPayloadBytes < payload.length ∧ 2 < events.length then
      let events := halveEvents events
      match dumps cfg (envelope s events (some (total - events.length))) with
      | .error e => .error e
      | .ok payload => fitPayload cfg s total fuel events payload
    else .ok (events, payload)

/-- `build_payload`; the second part says whether it counted the session as truncated. -/
def buildPayload (cfg : AssemblerConfig) (s : OpenSession) : Except Raised (Bytes × Bool) :=
  let total := s.events.length + s.droppedEvents
  let events := capEvents cfg s.events
  match dumps cfg (envelope s events (some (total - events.length))) with
  | .error e => .error e
  | .ok payload => match fitPayload cfg s total events.length events payload with
    | .error e => .error e
    | .ok (events, payload) =>
      if 0 < total - events.length then .ok (payload, true)
      else match dumps cfg (envelope s events none) with
        | .error e => .error e
        | .ok payload => .ok (payload, false)

/-- A session that has left the dict: dropped without a connect event, else built. -/
def ship (cfg : AssemblerConfig) (s : OpenSession) (a : SessionAssembler) :
    Except Raised (List Bytes × SessionAssembler) :=
  if s.hasConnect then match buildPayload cfg s with
    | .error e => .error e
    | .ok (payload, truncated) =>
      .ok ([payload],
        if truncated then { a with truncatedSessions := a.truncatedSessions + 1 } else a)
  else .ok ([], { a with droppedNoConnect := a.droppedNoConnect + 1 })

def joined (cfg : AssemblerConfig) (key : Key) (event : Json) (now : Int) (a : SessionAssembler) :
    OpenSession :=
  ((a.session? key).getD (openSession event now)).append cfg event now

def fold (cfg : AssemblerConfig) (key : Key) (event : Json) (now : Int) (a : SessionAssembler) :
    Except Raised (List Bytes × SessionAssembler) :=
  let session := joined cfg key event now a
  if isText (field "eventid" event) closedEvent then
    ship cfg session ((a.store key session).forget key)
  else .ok ([], a.store key session)

def feed (cfg : AssemblerConfig) (line : PyStr) (now : Int) (a : SessionAssembler) :
    Except Raised (List Bytes × SessionAssembler) :=
  let skipped := { a with parseErrors := a.parseErrors + 1 }
  match loads cfg.loadLimit line with
  | .error .decode => .ok ([], skipped)
  | .error .value => .error .valueError
  | .error .recursion => .error .recursionError
  | .ok event =>
    if isEvent event then match keyOf (field "session" event) with
      | none => .error .typeError
      | some key => fold cfg key event now a
    else .ok ([], skipped)

def flush (cfg : AssemblerConfig) :
    List Key → SessionAssembler → Except Raised (List Bytes × SessionAssembler)
  | [], a => .ok ([], a)
  | key :: keys, a => match a.session? key with
    | none => .error .keyError
    | some s => match ship cfg s (a.forget key) with
      | .error e => .error e
      | .ok (payloads, a) => match flush cfg keys a with
        | .error e => .error e
        | .ok (later, a) => .ok (payloads ++ later, a)

def SessionAssembler.staleIds (cfg : AssemblerConfig) (now : Int) (a : SessionAssembler) :
    List Key :=
  (a.sessions.filter fun entry => cfg.idleFlush ≤ now - entry.2.lastSeen).map (·.1)

def flushIdle (cfg : AssemblerConfig) (now : Int) (a : SessionAssembler) :
    Except Raised (List Bytes × SessionAssembler) :=
  flush cfg (a.staleIds cfg now) a

def flushAll (cfg : AssemblerConfig) (a : SessionAssembler) :
    Except Raised (List Bytes × SessionAssembler) :=
  flush cfg (a.sessions.map (·.1)) a

end ShipperAssemble
