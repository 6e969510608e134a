import Mathlib.Data.List.Sort
import Mathlib.Data.List.TakeWhile
import SentinelBrief.Api.Dedup
import SentinelBrief.Shipper.Drain

/-!
What `POST /api/v1/alerts` answers to a signed body while database and queue are
healthy, and what one `drain` of the shipper does against it. FastAPI answers 422
to a `JSONDecodeError` and 400 to anything else that `json.loads` raises; an
exception of the validator or of `insert_alert` is answered 500. `loads` is the
same function on both sides.
-/
namespace ApiPoison
open Utf8Text JsonText ShipperSpool ShipperDrain ApiSessionAlert

structure Service where
  lib : Libraries
  loads : Bytes → Except BytesError Json
  /-- `INGEST_MAX_BODY_BYTES`. -/
  maxBody : Nat

inductive Outcome where
  | tooLarge
  | unreadable
  | invalid
  | raised
  | stored (values : AlertValues)

def validated (lib : Libraries) : Validation → Outcome
  | .invalid => .invalid
  | .raised => .raised
  | .valid a => match a.values lib with
    | none => .raised
    | some values => .stored values

/-- How far a signed body gets, whatever the database holds. -/
def outcome (srv : Service) (body : Bytes) : Outcome :=
  if srv.maxBody < body.length then .tooLarge
  else match srv.loads body with
    | .error .jsonDecode => .invalid
    | .error .other => .unreadable
    | .ok j => validated srv.lib (validate srv.lib j)

def answer (srv : Service) (fingerprints : List PyStr) (body : Bytes) : Nat :=
  match outcome srv body with
  | .tooLarge => 413
  | .unreadable => 400
  | .invalid => 422
  | .raised => 500
  | .stored values => if values.fingerprint ∈ fingerprints then 200 else 202

def Mixed (events : List CowrieEvent) : Prop :=
  ∃ e ∈ events, ∃ f ∈ events, e.timestamp.aware ≠ f.timestamp.aware

def byTime (events : List CowrieEvent) : List CowrieEvent :=
  events.insertionSort fun e f => e.timestamp.instant ≤ f.timestamp.instant

/-- The alert's values can be computed and the database takes them: the connect time stays within
years 1 to 9999 in UTC, the hashed text encodes, and the JSONB column takes the dump there is. -/
def Storable (lib : Libraries) (a : SessionAlert) : Prop :=
  (∃ utc, a.connectTime.astimezoneUtc lib = some utc ∧ Encodes a.sessionId ∧
    Encodes (lib.isoformat utc)) ∧ ∃ raw, a.modelDump lib = some raw ∧ lib.jsonb raw = true

def AlertFields.alert (fields : AlertFields) (first : CowrieEvent) (rest : List CowrieEvent)
    (connects : first.eventid = str "cowrie.session.connect") : SessionAlert :=
  ⟨fields.sessionId, fields.srcIp, fields.sensor, first, rest, fields.extra, connects⟩

/-- The body reads as an alert whose timestamps are mixed, or whose earliest event is a connect and
that cannot be stored. -/
def Poison (srv : Service) (body : Bytes) : Prop :=
  body.length ≤ srv.maxBody ∧ ∃ j fields, srv.loads body = .ok j ∧
    validateFields srv.lib j = some fields ∧
    (Mixed fields.events ∨ ∃ first rest connects, byTime fields.events = first :: rest ∧
      ¬ Storable srv.lib (AlertFields.alert fields first rest connects))

variable {lib : Libraries} {srv : Service}

theorem insertEvent_eq {e : CowrieEvent} {es : List CowrieEvent}
    (same : ∀ f ∈ es, f.timestamp.aware = e.timestamp.aware) :
    insertEvent e es =
      some (es.orderedInsert (fun e f => e.timestamp.instant ≤ f.timestamp.instant) e) := by
  induction es with
  | nil => rfl
  | cons f fs ih =>
    rw [List.forall_mem_cons] at same
    rw [insertEvent, DateTime.lt, if_pos same.1, List.orderedInsert_cons]
    by_cases before : f.timestamp.instant < e.timestamp.instant
    · rw [if_neg (not_le.mpr before), ih same.2, decide_eq_true before]
      rfl
    · rw [if_pos (not_lt.mp before), decide_eq_false before]
      rfl

theorem insertEvent_mixed {e f : CowrieEvent} {fs : List CowrieEvent}
    (other : f.timestamp.aware ≠ e.timestamp.aware) : insertEvent e (f :: fs) = none := by
  rw [insertEvent, DateTime.lt, if_neg other]
  rfl

theorem unmixed_cons {e : CowrieEvent} {es : List CowrieEvent} :
    ¬ Mixed (e :: es) ↔ ¬ Mixed es ∧ ∀ f ∈ es, f.timestamp.aware = e.timestamp.aware := by
  constructor
  · intro unmixed
    constructor
    · rintro ⟨f, mem, g, mem', other⟩
      exact unmixed ⟨f, List.mem_cons_of_mem _ mem, g, List.mem_cons_of_mem _ mem', other⟩
    · intro f mem
      by_contra other
      exact unmixed ⟨f, List.mem_cons_of_mem _ mem, e, List.mem_cons_self, other⟩
  · rintro ⟨unmixed, same⟩ ⟨f, mem, g, mem', other⟩
    have own {h : CowrieEvent} (mem : h ∈ e :: es) : h.timestamp.aware = e.timestamp.aware := by
      rcases List.mem_cons.mp mem with rfl | later
      · rfl
      · exact same h later
    exact other ((own mem).trans (own mem').symm)

theorem sortEvents_eq {events : List CowrieEvent} (unmixed : ¬ Mixed events) :
    sortEvents events = some (byTime events) := by
  induction events with
  | nil => rfl
  | cons e es ih =>
    obtain ⟨unmixed, same⟩ := unmixed_cons.mp unmixed
    rw [sortEvents, ih unmixed]
    apply insertEvent_eq
    intro f mem
    exact same f ((List.mem_insertionSort _).mp mem)

theorem sortEvents_mixed {events : List CowrieEvent} (mixed : Mixed events) :
    sortEvents events = none := by
  induction events with
  | nil =>
    obtain ⟨e, mem, -⟩ := mixed
    cases mem
  | cons e es ih =>
    by_cases later : Mixed es
    · rw [sortEvents, ih later]
      rfl
    · rw [sortEvents, sortEvents_eq later]
      have other : ∃ f ∈ es, f.timestamp.aware ≠ e.timestamp.aware := by
        by_contra none
        simp only [not_exists, not_and, not_not] at none
        exact unmixed_cons.mpr ⟨later, none⟩ mixed
      obtain ⟨f, mem, other⟩ := other
      cases sorted : byTime es with
      | nil => exact absurd ((List.mem_insertionSort _).mpr mem) (sorted ▸ List.not_mem_nil)
      | cons g gs =>
        have there : g ∈ es := (List.mem_insertionSort _).mp (sorted ▸ List.mem_cons_self)
        have alike : g.timestamp.aware = f.timestamp.aware := by
          by_contra differ
          exact later ⟨g, there, f, mem, differ⟩
        exact insertEvent_mixed (alike ▸ other)

theorem readEvents_nonempty {j : Json} : readEvents lib j ≠ some [] := by
  unfold readEvents
  split
  · rename_i x xs
    rw [List.mapM_cons]
    cases validateEvent lib x with
    | none => simp
    | some e => cases xs.mapM (validateEvent lib) <;> simp
  · simp

theorem byTime_nonempty {j : Json} {fields : AlertFields}
    (read : validateFields lib j = some fields) : byTime fields.events ≠ [] := by
  intro empty
  have none : fields.events = [] := by
    have perm : (byTime fields.events).Perm fields.events := List.perm_insertionSort ..
    exact List.perm_nil.mp (empty ▸ perm.symm)
  unfold validateFields at read
  split at read
  · rename_i fs
    simp only [Option.bind_eq_bind, Option.bind_eq_some_iff, Option.pure_def,
      Option.some.injEq] at read
    obtain ⟨_, -, _, -, _, -, _, -, events, found, _, -, rfl⟩ := read
    obtain ⟨v, -, eq⟩ := Option.bind_eq_some_iff.mp found
    have empty : events = [] := none
    exact readEvents_nonempty (empty ▸ eq)
  · cases read

theorem fingerprint_isSome (a : SessionAlert) : (a.fingerprint lib).isSome ↔
    ∃ utc, a.connectTime.astimezoneUtc lib = some utc ∧ Encodes a.sessionId ∧
      Encodes (lib.isoformat utc) := by
  have plain : Encodes source ∧ Encodes (str "|") := by decide
  unfold SessionAlert.fingerprint
  cases a.connectTime.astimezoneUtc lib with
  | none => simp
  | some utc =>
    have hashed : Encodes (source ++ str "|" ++ a.sessionId ++ str "|" ++ lib.isoformat utc) ↔
        Encodes a.sessionId ∧ Encodes (lib.isoformat utc) := by
      simp only [encodes_append, plain, true_and, and_true]
    simp only [Option.bind_eq_bind, Option.bind_some, Option.pure_def, Option.some.injEq,
      exists_eq_left']
    rw [← hashed, ← encode_isSome_iff]
    cases encode (source ++ str "|" ++ a.sessionId ++ str "|" ++ lib.isoformat utc) <;> simp

theorem values_isSome (a : SessionAlert) : (a.values lib).isSome ↔ Storable lib a := by
  rw [Storable, ← fingerprint_isSome, SessionAlert.values]
  cases a.fingerprint lib with
  | none => simp
  | some fingerprint =>
    cases a.modelDump lib with
    | none => simp
    | some raw =>
      by_cases taken : lib.jsonb raw = true
      · simp [taken]
      · simp [taken]

theorem validated_raised (a : SessionAlert) :
    validated lib (.valid a) = .raised ↔ ¬ Storable lib a := by
  rw [← values_isSome, validated]
  cases a.values lib <;> simp

theorem fields_raised {fields : AlertFields} (nonempty : byTime fields.events ≠ []) :
    validated lib (sortAndRequireConnectFirst fields) = .raised ↔
      Mixed fields.events ∨ ∃ first rest connects, byTime fields.events = first :: rest ∧
        ¬ Storable lib (AlertFields.alert fields first rest connects) := by
  unfold sortAndRequireConnectFirst
  by_cases mixed : Mixed fields.events
  · rw [sortEvents_mixed mixed]
    exact ⟨fun _ => .inl mixed, fun _ => rfl⟩
  rw [sortEvents_eq mixed]
  obtain ⟨first, rest, sorted⟩ := List.exists_cons_of_ne_nil nonempty
  simp only [sorted, List.cons.injEq, mixed, false_or]
  split
  · rename_i connects
    rw [validated_raised]
    constructor
    · exact fun refused => ⟨first, rest, connects, ⟨rfl, rfl⟩, refused⟩
    · rintro ⟨_, _, _, ⟨rfl, rfl⟩, refused⟩
      exact refused
  · rename_i other
    constructor
    · intro raised
      cases raised
    · rintro ⟨_, _, connects, ⟨rfl, rfl⟩, -⟩
      exact absurd connects other

theorem raised_iff (body : Bytes) :
    outcome srv body = .raised ↔ Poison srv body := by
  unfold outcome Poison
  by_cases large : srv.maxBody < body.length
  · simp [large]
  simp only [large, if_false, not_lt.mp large, true_and]
  cases srv.loads body with
  | error e => cases e <;> simp
  | ok j =>
    simp only [Except.ok.injEq, validate, exists_and_left, exists_eq_left']
    cases read : validateFields srv.lib j with
    | none => simp [validated]
    | some fields =>
      rw [fields_raised (byTime_nonempty read)]
      simp

def Outcome.isRaised : Outcome → Bool
  | .raised => true
  | _ => false

theorem isRaised_iff (body : Bytes) :
    (outcome srv body).isRaised = true ↔ Poison srv body := by
  rw [← raised_iff]
  cases outcome srv body <;> simp [Outcome.isRaised]

theorem post_answer (fingerprints : List PyStr) (body : Bytes) :
    post (some (answer srv fingerprints body)) =
      ⟨some (answer srv fingerprints body), (outcome srv body).isRaised⟩ := by
  unfold answer
  cases outcome srv body with
  | tooLarge | unreadable | invalid | raised => rfl
  | stored values =>
    dsimp only
    split
    · rfl
    · rfl

theorem sessionIdForLog_ok {body : Bytes} {values : AlertValues}
    (stored : outcome srv body = .stored values) :
    ∃ id, sessionIdForLog srv.loads body = .ok id := by
  unfold sessionIdForLog
  unfold outcome at stored
  split at stored
  · cases stored
  cases loaded : srv.loads body with
  | error e =>
    rw [loaded] at stored
    cases e <;> cases stored
  | ok j =>
    dsimp only
    split
    · exact ⟨_, rfl⟩
    · exact ⟨_, rfl⟩

def Healthy (srv : Service) (api : Nat → Bytes → Option Nat) : Prop :=
  ∀ i payload, ∃ fingerprints, api i payload = some (answer srv fingerprints payload)

variable {api : Nat → Bytes → Option Nat}

theorem drainFiles_cons (healthy : Healthy srv api) (file : SpoolFile)
    (files : List SpoolFile) (delivered : Nat) (d : Drainer) :
    if (outcome srv file.payload).isRaised then
      (drainFiles api srv.loads (file :: files) delivered d).2.spool = d.spool
    else ∃ delivered' d', drainFiles api srv.loads (file :: files) delivered d =
        drainFiles api srv.loads files delivered' d' ∧
      d'.spool.files = (d.spool.unlink file.name).files ∧ d'.posts = d.posts + 1 := by
  obtain ⟨fingerprints, answered⟩ := healthy d.posts file.payload
  rw [drainFiles, answered, post_answer]
  dsimp only
  cases ends : outcome srv file.payload with
  | raised =>
    simp only [Outcome.isRaised, if_true]
    cases Backoff.wait d.backoff <;> rfl
  | tooLarge | unreadable | invalid =>
    simp only [Outcome.isRaised, answer, ends]
    exact ⟨_, _, rfl, rfl, rfl⟩
  | stored values =>
    obtain ⟨id, read⟩ := sessionIdForLog_ok ends
    have accepted : 200 ≤ answer srv fingerprints file.payload ∧
        answer srv fingerprints file.payload < 300 := by
      simp only [answer, ends]
      split
      · decide
      · decide
    simp only [Outcome.isRaised, Bool.false_eq_true, if_false, if_pos accepted, read]
    exact ⟨_, _, rfl, rfl, rfl⟩

def passes (srv : Service) (f : SpoolFile) : Bool :=
  !(outcome srv f.payload).isRaised

theorem passes_iff (f : SpoolFile) : passes srv f = true ↔ ¬ Poison srv f.payload := by
  rw [← isRaised_iff, passes, Bool.not_eq_true', Bool.not_eq_true]

/-- A drain takes the files up to the first poison out of the spool. -/
theorem drainFiles_files (healthy : Healthy srv api) (files : List SpoolFile)
    (delivered : Nat) (d : Drainer) :
    (drainFiles api srv.loads files delivered d).2.spool.files = d.spool.files.filter fun f =>
      f.name ∉ (files.takeWhile (passes srv)).map SpoolFile.name := by
  induction files generalizing delivered d with
  | nil => simp [drainFiles]
  | cons file files ih =>
    have first := drainFiles_cons healthy file files delivered d
    cases raised : (outcome srv file.payload).isRaised with
    | true =>
      rw [raised, if_pos rfl] at first
      simp [first, passes, raised]
    | false =>
      rw [raised, if_neg Bool.false_ne_true] at first
      obtain ⟨delivered', d', eq, unlinked, -⟩ := first
      have goes : passes srv file = true := by
        rw [passes, raised]
        rfl
      rw [eq, ih, unlinked, Spool.unlink, List.filter_filter, List.takeWhile_cons_of_pos goes]
      apply List.filter_congr
      intro f _
      by_cases here : f.name = file.name
      · simp [here]
      · simp [here]

theorem drainFiles_posts (healthy : Healthy srv api) {files : List SpoolFile}
    (clean : ∀ f ∈ files, ¬ Poison srv f.payload) (delivered : Nat) (d : Drainer) :
    (drainFiles api srv.loads files delivered d).1.isOk = true ∧
      (drainFiles api srv.loads files delivered d).2.posts = d.posts + files.length := by
  induction files generalizing delivered d with
  | nil => exact ⟨rfl, rfl⟩
  | cons file files ih =>
    rw [List.forall_mem_cons] at clean
    have first := drainFiles_cons healthy file files delivered d
    rw [if_neg (fun raised => clean.1 ((isRaised_iff _).mp raised))] at first
    obtain ⟨delivered', d', eq, -, posts⟩ := first
    rw [eq]
    obtain ⟨returned, later⟩ := ih clean.2 delivered' d'
    refine ⟨returned, ?_⟩
    rw [later, posts, List.length_cons]
    omega

theorem drain_pending (healthy : Healthy srv api) (d : Drainer)
    (distinct : (d.spool.files.map SpoolFile.name).Nodup) :
    (drain api srv.loads d).2.spool.pending = [] ↔
      ∀ f ∈ d.spool.files, ¬ Poison srv f.payload := by
  have sorted (s : Spool) : s.pending.Perm s.files := List.perm_insertionSort ..
  rw [← List.length_eq_zero_iff, (sorted _).length_eq, List.length_eq_zero_iff, drain,
    drainFiles_files healthy, List.filter_eq_nil_iff]
  constructor
  · intro gone f mem
    have taken : f.name ∈ (d.spool.pending.takeWhile (passes srv)).map SpoolFile.name := by
      simpa using gone f mem
    obtain ⟨g, there, same⟩ := List.mem_map.mp taken
    have stored : g ∈ d.spool.files := (sorted d.spool).subset (List.takeWhile_subset _ there)
    rw [← List.inj_on_of_nodup_map distinct stored mem same, ← passes_iff]
    exact List.mem_takeWhile_imp there
  · intro clean f mem
    have all : d.spool.pending.takeWhile (passes srv) = d.spool.pending := by
      rw [List.takeWhile_eq_self_iff]
      intro g there
      exact (passes_iff g).mpr (clean g ((sorted d.spool).subset there))
    have there : f.name ∈ d.spool.pending.map SpoolFile.name :=
      List.mem_map_of_mem ((sorted d.spool).symm.subset mem)
    rw [all]
    simpa using there

theorem validated_cases (v : Validation) : validated lib v = .invalid ∨ validated lib v = .raised ∨
    ∃ values, validated lib v = .stored values := by
  cases v with
  | invalid => exact .inl rfl
  | raised => exact .inr (.inl rfl)
  | valid a =>
    rw [validated]
    cases a.values lib with
    | none => exact .inr (.inl rfl)
    | some values => exact .inr (.inr ⟨values, rfl⟩)

theorem answer_clean (fingerprints : List PyStr) {body : Bytes}
    (within : body.length ≤ srv.maxBody) :
    answer srv fingerprints body ∈ [202, 200, 422] ↔
      srv.loads body ≠ .error .other ∧ ¬ Poison srv body := by
  rw [← raised_iff, answer, outcome, if_neg (not_lt.mpr within)]
  cases srv.loads body with
  | error e => cases e <;> simp
  | ok j =>
    dsimp only
    rcases @validated_cases srv.lib (validate srv.lib j) with ends | ends | ⟨values, ends⟩
    · simp [ends]
    · simp [ends]
    · rw [ends]
      dsimp only
      split
      · simp
      · simp

/-- The clean answers are those to a body that `json.loads` reads or rejects and that is no poison;
only poison is retried, and only poison stays in the spool. -/
theorem no_poison_iff (srv : Service) (fingerprints : List PyStr) (body : Bytes)
    (within : body.length ≤ srv.maxBody) {api : Nat → Bytes → Option Nat}
    (healthy : Healthy srv api) (d : Drainer)
    (distinct : (d.spool.files.map SpoolFile.name).Nodup) :
    (answer srv fingerprints body ∈ [202, 200, 422] ↔
      srv.loads body ≠ .error .other ∧ ¬ Poison srv body) ∧
    ((post (some (answer srv fingerprints body))).retry = false ↔ ¬ Poison srv body) ∧
    ((drain api srv.loads d).2.spool.pending = [] ↔ ∀ f ∈ d.spool.files, ¬ Poison srv f.payload) ∧
    ((∀ f ∈ d.spool.files, ¬ Poison srv f.payload) →
      (drain api srv.loads d).1.isOk = true ∧
      (drain api srv.loads d).2.posts = d.posts + d.spool.files.length) := by
  have sorted : d.spool.pending.Perm d.spool.files := List.perm_insertionSort ..
  refine ⟨answer_clean fingerprints within, ?_, drain_pending healthy d distinct, ?_⟩
  · rw [post_answer, ← isRaised_iff, Bool.not_eq_true]
  · intro clean
    rw [← sorted.length_eq]
    exact drainFiles_posts healthy (fun f mem => clean f (sorted.subset mem)) 0 d

def sampleLoads (body : Bytes) : Except BytesError Json :=
  match decode body with
  | none => .error .other
  | some text => match JsonText.loads 100 text with
    | .error .decode => .error .jsonDecode
    | .error _ => .error .other
    | .ok j => .ok j

def newYear (offset : Option Int) : DateTime := ⟨63902822400000000, offset, by decide, by decide⟩

def sampleLibraries : Libraries :=
  { text := fun _ => true
    int := fun _ => none
    datetime := fun j => match j with
      | .str s =>
        if s = str "2026-01-01T00:00:00Z" then some (newYear (some 0))
        else if s = str "2026-01-01T00:00:00" then some (newYear none)
        else none
      | _ => none
    datetimeText := fun d => str "2026-01-01T00:00:00" ++ if d.aware then str "Z" else []
    dumps := fun _ => true
    localToUtc := some
    isoformat := fun _ => str "2026-01-01T00:00:00+00:00"
    sha256 := fun _ => str "d84978d225056f9cff9dd2a1bd36d4928e6042ecb4920a42efcfde71b98338b8"
    jsonb := fun _ => true }

def sampleService : Service := ⟨sampleLibraries, sampleLoads, 2000000⟩

def sampleEvent (eventid timestamp : String) : PyStr :=
  str "\x7b\"eventid\":\"" ++ str eventid ++ str "\",\"timestamp\":\"" ++ str timestamp ++
    str "\",\"session\":\"s1\",\"src_ip\":\"192.0.2.1\",\"sensor\":\"hp\"\x7d"

def sampleBody (events : PyStr) : Bytes :=
  (encode (str "\x7b\"source\":\"cowrie\",\"session_id\":\"s1\",\"src_ip\":\"192.0.2.1\"," ++
    str "\"sensor\":\"hp\",\"events\":[" ++ events ++ str "]\x7d")).getD []

def connectBody : Bytes := sampleBody (sampleEvent "cowrie.session.connect" "2026-01-01T00:00:00Z")

def mixedBody : Bytes :=
  sampleBody (sampleEvent "cowrie.session.connect" "2026-01-01T00:00:00Z" ++ str "," ++
    sampleEvent "cowrie.session.closed" "2026-01-01T00:00:00")

def sampleApi (_ : Nat) (payload : Bytes) : Option Nat := some (answer sampleService [] payload)

def sampleDrainer (body : Bytes) : Drainer :=
  { spool := { files := [⟨str "a.json", body⟩] }, backoff := ⟨2, 60, 0⟩ }

theorem sampleDrainer_clean {body : Bytes} (clean : ¬ Poison sampleService body) :
    ∀ f ∈ (sampleDrainer body).spool.files, ¬ Poison sampleService f.payload := by
  intro f mem
  rw [List.mem_singleton.mp mem]
  exact clean

theorem no_poison_iff_connect :
    answer sampleService [] connectBody = 202 ∧
    (drain sampleApi sampleService.loads (sampleDrainer connectBody)).2.spool.pending = [] ∧
    (drain sampleApi sampleService.loads (sampleDrainer connectBody)).2.posts = 1 := by
  have clean : ¬ Poison sampleService connectBody := by
    rw [← isRaised_iff]
    decide +kernel
  have parts := no_poison_iff sampleService [] connectBody (by decide +kernel)
    (fun _ _ => ⟨[], rfl⟩ : Healthy sampleService sampleApi) (sampleDrainer connectBody) (by decide)
  have all := sampleDrainer_clean clean
  exact ⟨by decide +kernel, parts.2.2.1.mpr all, (parts.2.2.2 all).2⟩

/-- The api raises on the comparison, the shipper retries, and the file stays. -/
theorem mixed_timestamps_poison :
    mixedBody.length ≤ sampleService.maxBody ∧ answer sampleService [] mixedBody = 500 ∧
    (post (some (answer sampleService [] mixedBody))).retry = true ∧
    (drain sampleApi sampleService.loads (sampleDrainer mixedBody)).2.spool.pending.length = 1 := by
  decide +kernel

end ApiPoison
