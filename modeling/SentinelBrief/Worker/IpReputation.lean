import SentinelBrief.Core.Cache
import SentinelBrief.Library.IpAddress
import SentinelBrief.Library.JsonValues
import SentinelBrief.Library.Runs

/-!
`IpReputationTool.run` (`worker/tools/ip_reputation.py`), one call after another over a
`TTLCache` that keeps its entries until they expire. `nesting` is how deep `json.loads`
may go.
-/
namespace WorkerIpReputation
open StepRuns ExpiringCache Utf8Text JsonText IpAddressText CoreCache

def cacheKeyPrefix : PyStr := str "abuseipdb:"

def quotaKey : PyStr := cacheKeyPrefix ++ str "quota_exceeded"

def cacheKey (ip : Address) : PyStr := cacheKeyPrefix ++ ip.text

structure IpReputationTool where
  apiKey : PyStr
  cacheTtl : ℕ+
  quotaBackoff : Nat
  nesting : ℕ+

inductive Reply where
  | httpError
  | raises
  | response (status : Nat) (content : Bytes)

structure Call where
  arguments : List (PyStr × Json)
  reply : Reply
  getAt : Rat
  quotaAt : Rat
  sentAt : Rat
  answeredAt : Rat
  setAt : Rat
  ordered : getAt ≤ quotaAt ∧ quotaAt ≤ sentAt ∧ sentAt ≤ answeredAt ∧ answeredAt ≤ setAt
  points : ∀ s, (Json.obj arguments).get? (str "ip") = some (.str s) → InRange s

structure Exchange where
  ip : Address
  reply : Reply
  sentAt : Rat
  answeredAt : Rat
  setAt : Rat

structure World (c : TtlCache PyStr Bytes) where
  cache : c.State
  log : List Exchange := []
  warnedNoApiKey : Bool := false
  now : Rat

inductive Raised where
  | recursionError
  | client
  deriving DecidableEq

abbrev Answer := Except Raised Json

def unavailable (reason : PyStr) : Answer :=
  .ok (.obj [(str "unavailable", .bool true), (str "reason", .str reason)])

structure Reputation where
  ip : PyStr
  abuseScore : Int
  reports : Int
  lastSeen : Option PyStr

def Reputation.fields (r : Reputation) : List (PyStr × Json) :=
  [(str "ip", .str r.ip), (str "abuse_score", .int r.abuseScore), (str "reports", .int r.reports),
    (str "last_seen", match r.lastSeen with
      | some s => .str s
      | none => .null)]

def answer (payload : List (PyStr × Json)) (cached : Bool) : Json :=
  .obj (setField (str "cached") (.bool cached) payload)

def Reputation.stored (r : Reputation) : Bytes :=
  ((Json.obj r.fields).dumps pythonLayout 0).flatMap encodePoint

def readLastSeen (data : Json) : Option (Option PyStr) :=
  match (data.get? (str "lastReportedAt")).getD .null with
  | .null => some none
  | .str s => some (some s)
  | _ => none

def readInt (data : Json) (key : PyStr) : Option Int := (data.get? key).bind Json.toInt

/-- What is taken from the decoded response; none is one of the exceptions caught there. -/
def reputation (ip : Address) (body : Json) : Option Reputation :=
  match body.get? (str "data") with
  | some (.obj data) => do
    let lastSeen ← readLastSeen (.obj data)
    let abuseScore ← readInt (.obj data) (str "abuseConfidenceScore")
    let reports ← readInt (.obj data) (str "totalReports")
    some { ip := ip.text, abuseScore := abuseScore, reports := reports, lastSeen := lastSeen }
  | _ => none

inductive Unread where
  | malformed
  | recursionError
  deriving DecidableEq

def readReputation (nesting : Nat) (ip : Address) (content : Bytes) : Except Unread Reputation :=
  match RawJson.loads nesting (.bytes content) with
  | .error (.json .recursion) => .error .recursionError
  | .error _ => .error .malformed
  | .ok body => match reputation ip body with
    | some r => .ok r
    | none => .error .malformed

def readPayload (nesting : Nat) (cached : Bytes) : Except Raised (Option (List (PyStr × Json))) :=
  match RawJson.loads nesting (.bytes cached) with
  | .ok (.obj payload) => .ok (some payload)
  | .error (.json .recursion) => .error .recursionError
  | _ => .ok none

variable {c : TtlCache PyStr Bytes}

/-- From the vendor request on. -/
def IpReputationTool.request (tool : IpReputationTool) (call : Call) (ip : Address) (w : World c) :
    Answer × World c :=
  let w := { w with log := w.log ++ [⟨ip, call.reply, call.sentAt, call.answeredAt, call.setAt⟩] }
  match call.reply with
  | .httpError => (unavailable (str "network_error"), w)
  | .raises => (.error .client, w)
  | .response status content =>
    if status = 429 then
      (unavailable (str "quota_exceeded"),
        if positive : 0 < tool.quotaBackoff then
          { w with cache := c.set quotaKey [0x31] ⟨tool.quotaBackoff, positive⟩ call.setAt w.cache }
        else w)
    else if status = 401 ∨ status = 403 then (unavailable (str "unauthorized"), w)
    else if ¬(200 ≤ status ∧ status < 300) then
      (unavailable (str "http_" ++ digitsText status), w)
    else match readReputation tool.nesting ip content with
      | .error .malformed => (unavailable (str "malformed_response"), w)
      | .error .recursionError => (.error .recursionError, w)
      | .ok r => (.ok (answer r.fields false),
          { w with cache := c.set (cacheKey ip) r.stored tool.cacheTtl call.setAt w.cache })

/-- From the read of `QUOTA_KEY` on. -/
def IpReputationTool.unlessBackoff (tool : IpReputationTool) (call : Call) (ip : Address)
    (w : World c) : Answer × World c :=
  if 0 < tool.quotaBackoff then
    let quota := c.get quotaKey call.quotaAt w.cache
    match quota.1 with
    | some _ => (unavailable (str "quota_exceeded"), { w with cache := quota.2 })
    | none => tool.request call ip { w with cache := quota.2 }
  else tool.request call ip w

/-- From the read of the address's own entry on. -/
def IpReputationTool.lookup (tool : IpReputationTool) (call : Call) (ip : Address) (w : World c) :
    Answer × World c :=
  let cached := c.get (cacheKey ip) call.getAt w.cache
  let w := { w with cache := cached.2 }
  match cached.1 with
  | none => tool.unlessBackoff call ip w
  | some value => match readPayload tool.nesting value with
    | .error e => (.error e, w)
    | .ok (some payload) => (.ok (answer payload true), w)
    | .ok none => tool.unlessBackoff call ip w

def Call.ip (call : Call) : Option Address :=
  match (Json.obj call.arguments).get? (str "ip") with
  | some (.str s) => ipAddress s
  | _ => none

def IpReputationTool.run (tool : IpReputationTool) (call : Call) (w : World c) : Answer × World c :=
  match call.ip with
  | none => (unavailable (str "invalid_arguments"), w)
  | some ip =>
    if tool.apiKey = [] then (unavailable (str "no_api_key"), { w with warnedNoApiKey := true })
    else tool.lookup call ip w

/-- One call after another: none begins before the one before has ended. -/
def IpReputationTool.step (tool : IpReputationTool) (w : World c) (call : Call) : Option (World c) :=
  if w.now ≤ call.getAt then some { (tool.run call w).2 with now := call.setAt } else none

def World.start (c : TtlCache PyStr Bytes) (now : Rat) : World c := { cache := c.empty, now := now }

def Reputation.Sound (r : Reputation) : Prop :=
  InRange r.ip ∧ Printable r.abuseScore ∧ Printable r.reports ∧ ∀ s ∈ r.lastSeen, InRange s

def Reputation.joined (r : Reputation) : Reputation :=
  { r with ip := joinUnits r.ip, lastSeen := r.lastSeen.map joinUnits }

theorem ip_points {call : Call} {ip : Address} (given : call.ip = some ip) : InRange ip.text := by
  unfold Call.ip at given
  split at given
  · rename_i s found
    exact text_points given (call.points s found)
  · cases given

theorem readLastSeen_sound {data : Json} {lastSeen : Option PyStr} (sound : data.Sound)
    (read : readLastSeen data = some lastSeen) : ∀ s ∈ lastSeen, InRange s := by
  unfold readLastSeen at read
  cases found : data.get? (str "lastReportedAt") with
  | none =>
    rw [found] at read
    cases read
    simp
  | some j =>
    have value := sound_get sound found
    rw [found] at read
    cases j with
    | null =>
      cases read
      simp
    | str s =>
      cases read
      rw [Json.Sound] at value
      rintro _ ⟨⟩
      exact value
    | _ => cases read

theorem readInt_printable {data : Json} {key : PyStr} {i : Int} (sound : data.Sound)
    (read : readInt data key = some i) : Printable i := by
  obtain ⟨j, found, value⟩ := Option.bind_eq_some_iff.mp read
  exact printable_toInt (sound_get sound found) value

theorem reputation_sound {ip : Address} {body : Json} {r : Reputation} (points : InRange ip.text)
    (sound : body.Sound) (read : reputation ip body = some r) : r.Sound ∧ r.ip = ip.text := by
  unfold reputation at read
  split at read
  · rename_i data found
    have inner := sound_get sound found
    obtain ⟨lastSeen, seen, read⟩ := Option.bind_eq_some_iff.mp read
    obtain ⟨abuseScore, first, read⟩ := Option.bind_eq_some_iff.mp read
    obtain ⟨reports, second, read⟩ := Option.bind_eq_some_iff.mp read
    cases read
    exact ⟨⟨points, readInt_printable inner first, readInt_printable inner second,
      readLastSeen_sound inner seen⟩, rfl⟩
  · cases read

theorem readReputation_sound {nesting : Nat} {ip : Address} {content : Bytes} {r : Reputation}
    (points : InRange ip.text) (read : readReputation nesting ip content = .ok r) :
    r.Sound ∧ r.ip = ip.text := by
  unfold readReputation at read
  split at read
  · cases read
  · cases read
  · rename_i body loaded
    split at read
    · rename_i given
      cases read
      exact reputation_sound points (loads_bytes_sound loaded) given
    · cases read

theorem quote_joinUnits (s : PyStr) : pythonLayout.quote (joinUnits s) = pythonLayout.quote s := by
  unfold Layout.quote
  rw [show pythonLayout.point = asciiPoint from rfl, joinUnits_written]

theorem dumps_joined (r : Reputation) :
    (Json.obj r.joined.fields).dumps pythonLayout 0 = (Json.obj r.fields).dumps pythonLayout 0 := by
  obtain ⟨ip, abuseScore, reports, _ | lastSeen⟩ := r <;>
    simp [Reputation.joined, Reputation.fields, Json.dumps, membersDumps, quote_joinUnits]

def names : List PyStr := [str "ip", str "abuse_score", str "reports", str "last_seen"]

theorem joined_readable {r : Reputation} (sound : r.Sound) :
    (Json.obj r.joined.fields).Readable pythonLayout := by
  obtain ⟨ip, abuseScore, reports, seen⟩ := sound
  have encoded : ∀ k ∈ names, Encodes k := by decide
  have last : Json.Readable pythonLayout (match r.joined.lastSeen with
      | some s => .str s
      | none => .null) := by
    cases found : r.lastSeen with
    | none => simp [Reputation.joined, found, Json.Readable]
    | some s =>
      have apart := apart_joinUnits (seen s found)
      simpa [Reputation.joined, found, Json.Readable] using apart
  refine readable_obj rfl (by decide : names.Nodup)
    (fun k member => apart_of_encodes (encoded k member)) ?_
  simp only [Reputation.fields, List.map_cons, List.map_nil, List.forall_mem_cons]
  exact ⟨apart_joinUnits ip, abuseScore, reports, last, by simp⟩

theorem fields_depth (r : Reputation) : (Json.obj r.fields).depth = 1 := by
  obtain ⟨ip, abuseScore, reports, _ | lastSeen⟩ := r <;> rfl

theorem readPayload_stored {r : Reputation} (sound : r.Sound) (nesting : ℕ+) :
    readPayload nesting r.stored = .ok (some r.joined.fields) := by
  have loaded : RawJson.loads nesting (.bytes r.stored) = .ok (.obj r.joined.fields) := by
    have ascii : ∀ x ∈ (Json.obj r.fields).dumps pythonLayout 0, 0 < x ∧ x < 0x80 := by
      intro x member
      have plain := python_ascii 0 (.obj r.fields) x member
      omega
    have deep : (Json.obj r.joined.fields).depth ≤ nesting := by
      rw [fields_depth]
      exact nesting.pos
    have read := loads_dumps pythonLayout (joined_readable sound) deep (b := []) (by simp)
    rw [List.append_nil, dumps_joined] at read
    rw [Reputation.stored, loads_ascii_bytes _ _ ascii, RawJson.loads, read]
    rfl
  rw [readPayload, loaded]

end WorkerIpReputation
