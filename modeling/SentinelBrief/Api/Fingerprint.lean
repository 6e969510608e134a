import SentinelBrief.Api.Poison
import SentinelBrief.Library.Calendar
import SentinelBrief.Library.Lines
import SentinelBrief.Library.Queries

/-!
The hashed text of a `SessionAlert` as an identity: what it depends on, and that the
alert read back from `alerts.raw` has it again.
-/
namespace ApiFingerprint
open Utf8Text JsonText DoubleText ApiSessionAlert ApiPoison SeparatedLines GregorianCalendar RelationalQueries

def preimage (lib : Libraries) (a : SessionAlert) : Option PyStr :=
  (a.connectTime.astimezoneUtc lib).map fun utc =>
    source ++ str "|" ++ a.sessionId ++ str "|" ++ lib.isoformat utc

theorem fingerprint_eq (lib : Libraries) (a : SessionAlert) :
    a.fingerprint lib = (preimage lib a).bind fun raw => (encode raw).map lib.sha256 := by
  unfold SessionAlert.fingerprint preimage
  cases a.connectTime.astimezoneUtc lib with
  | none => rfl
  | some utc =>
    simp only [Option.bind_eq_bind, Option.bind_some, Option.map_some]
    cases encode (source ++ str "|" ++ a.sessionId ++ str "|" ++ lib.isoformat utc) <;> rfl

/-- An aware time that UTC can express. -/
structure InUtc (d : DateTime) : Prop where
  aware : d.aware = true
  low : 0 ≤ d.instant
  high : d.instant < wallLimit

theorem wallLimit_eq : wallLimit = (limit : Int) := by decide

theorem InUtc.inside {d : DateTime} (utc : InUtc d) : d.instant.toNat < limit := by
  have low := utc.low
  have high := utc.high
  rw [wallLimit_eq] at high
  omega

/-- What is relied on outside the repository: an empty text is a `str`, a number that was read is
    read again, a time that was read keeps its instant when it is written and read again, and
    `isoformat` of a time in UTC. -/
structure Documented (lib : Libraries) : Prop where
  empty_text : lib.text [] = true
  int_again : ∀ j n, lib.int j = some n → lib.int (.int n) = some n
  datetime_again : ∀ j d, lib.datetime j = some d → InUtc d →
    ∃ d', lib.datetime (.str (lib.datetimeText d)) = some d' ∧ d'.aware = true ∧
      d'.instant = d.instant
  isoformat_utc : ∀ d (utc : InUtc d),
    lib.isoformat d.instant = IsoDateText.isoformat (utcDateTime d.instant.toNat utc.inside)

section Identity
variable {lib : Libraries}

theorem astimezoneUtc_instant {d : DateTime} (utc : InUtc d) :
    d.astimezoneUtc lib = some d.instant := by
  have aware := utc.aware
  have low := utc.low
  have high := utc.high
  unfold DateTime.aware at aware
  unfold DateTime.instant at low high ⊢
  unfold DateTime.astimezoneUtc
  cases zone : d.offset with
  | none =>
    rw [zone] at aware
    cases aware
  | some offset =>
    rw [zone, Option.getD_some] at low high
    exact if_pos ⟨low, high⟩

theorem preimage_eq {a : SessionAlert} (utc : InUtc a.connectTime) :
    preimage lib a = some (source ++ str "|" ++ a.sessionId ++ str "|" ++
      lib.isoformat a.connectTime.instant) := by
  rw [preimage, astimezoneUtc_instant utc, Option.map_some]

theorem last_sep_inj {a b x y : PyStr} {c : Nat} (x_free : c ∉ x) (y_free : c ∉ y)
    (same : a ++ c :: x = b ++ c :: y) : a = b ∧ x = y := by
  have turned : x.reverse ++ c :: a.reverse = y.reverse ++ c :: b.reverse := by
    simpa using congrArg List.reverse same
  obtain ⟨tails, heads⟩ := sep_append_inj (fun m => x_free (List.mem_reverse.mp m))
    (fun m => y_free (List.mem_reverse.mp m)) turned
  exact ⟨List.reverse_inj.mp heads, List.reverse_inj.mp tails⟩

/-- The last bar of the text stands before the time, whatever the session id holds. -/
theorem preimage_iff (doc : Documented lib) {a b : SessionAlert} (a_utc : InUtc a.connectTime)
    (b_utc : InUtc b.connectTime) : preimage lib a = preimage lib b ↔
      a.sessionId = b.sessionId ∧ a.connectTime.instant = b.connectTime.instant := by
  rw [preimage_eq a_utc, preimage_eq b_utc, Option.some.injEq]
  constructor
  · intro same
    rw [doc.isoformat_utc _ a_utc, doc.isoformat_utc _ b_utc] at same
    have bar : str "|" = [0x7C] := rfl
    simp only [bar, List.append_assoc, List.append_cancel_left_eq, List.cons_append,
      List.nil_append, List.cons.injEq, true_and] at same
    obtain ⟨ids, times⟩ := last_sep_inj (IsoDateText.isoformat_no_bar _)
      (IsoDateText.isoformat_no_bar _) same
    have micros := utcDateTime_injective (IsoDateText.isoformat_injective times)
    have := a_utc.low
    have := b_utc.low
    exact ⟨ids, by omega⟩
  · rintro ⟨ids, times⟩
    rw [ids, times]

end Identity

structure Respelled (e e' : CowrieEvent) : Prop where
  others : e' = { e with timestamp := e'.timestamp }
  aware : e'.timestamp.aware = true
  instant : e'.timestamp.instant = e.timestamp.instant

def Reordered (events events' : List CowrieEvent) : Prop :=
  ∃ turned, events.Perm turned ∧ List.Forall₂ Respelled turned events'

section Orders
variable {lib : Libraries}

theorem unmixed_aware {events : List CowrieEvent} (aware : ∀ e ∈ events, e.timestamp.aware = true) :
    ¬ Mixed events := by
  rintro ⟨e, mem, f, mem', other⟩
  exact other ((aware e mem).trans (aware f mem').symm)

theorem forall₂_partner {α β : Type} {R : α → β → Prop} {l : List α} {m : List β}
    (both : List.Forall₂ R l m) : (∀ a ∈ l, ∃ b ∈ m, R a b) ∧ ∀ b ∈ m, ∃ a ∈ l, R a b := by
  induction both with
  | nil => simp
  | cons here _ ih =>
    rw [List.forall_mem_cons, List.forall_mem_cons]
    refine ⟨⟨⟨_, List.mem_cons_self, here⟩, fun a mem => ?_⟩,
      ⟨_, List.mem_cons_self, here⟩, fun b mem => ?_⟩
    · obtain ⟨b, mem', related⟩ := ih.1 a mem
      exact ⟨b, List.mem_cons_of_mem _ mem', related⟩
    · obtain ⟨a, mem', related⟩ := ih.2 b mem
      exact ⟨a, List.mem_cons_of_mem _ mem', related⟩

theorem validate_events {j : Json} {fields : AlertFields} {a : SessionAlert}
    (read : validateFields lib j = some fields) (valid : validate lib j = .valid a) :
    ¬ Mixed fields.events ∧ a.events = byTime fields.events ∧ a.sessionId = fields.sessionId := by
  rw [validate, read] at valid
  simp only [sortAndRequireConnectFirst] at valid
  by_cases mixed : Mixed fields.events
  · rw [sortEvents_mixed mixed] at valid
    cases valid
  · rw [sortEvents_eq mixed] at valid
    refine ⟨mixed, ?_⟩
    cases sorted : byTime fields.events with
    | nil =>
      rw [sorted] at valid
      cases valid
    | cons first rest =>
      rw [sorted] at valid
      dsimp only at valid
      split at valid
      · cases valid
        exact ⟨rfl, rfl⟩
      · cases valid

theorem connect_least {events : List CowrieEvent} {a : SessionAlert} (sorted : a.events = byTime events) :
    (∃ e ∈ events, e.timestamp = a.connectTime) ∧
      ∀ e ∈ events, a.connectTime.instant ≤ e.timestamp.instant := by
  have perm : (byTime events).Perm events := orderBy_perm events
  have order : (byTime events).Pairwise fun e f => e.timestamp.instant ≤ f.timestamp.instant :=
    orderBy_sorted events
  rw [← sorted] at perm order
  refine ⟨⟨a.first, perm.subset List.mem_cons_self, rfl⟩, fun e mem => ?_⟩
  rcases List.mem_cons.mp (perm.symm.subset mem) with rfl | later
  · exact Int.le_refl _
  · exact (List.pairwise_cons.mp order).1 e later

theorem reordered_instants {events events' : List CowrieEvent} (reordered : Reordered events events') :
    (∀ e ∈ events, ∃ e' ∈ events', e'.timestamp.instant = e.timestamp.instant) ∧
      ∀ e' ∈ events', e'.timestamp.aware = true ∧
        ∃ e ∈ events, e'.timestamp.instant = e.timestamp.instant := by
  obtain ⟨turned, perm, spelled⟩ := reordered
  constructor
  · intro e mem
    obtain ⟨e', mem', same⟩ := (forall₂_partner spelled).1 e (perm.subset mem)
    exact ⟨e', mem', same.instant⟩
  · intro e' mem'
    obtain ⟨e, mem, same⟩ := (forall₂_partner spelled).2 e' mem'
    exact ⟨same.aware, e, perm.symm.subset mem, same.instant⟩

theorem preimage_reordered {j k : Json} {f g : AlertFields} {a b : SessionAlert}
    (f_read : validateFields lib j = some f) (g_read : validateFields lib k = some g)
    (ids : f.sessionId = g.sessionId) (reordered : Reordered f.events g.events)
    (utc : ∀ e ∈ f.events, InUtc e.timestamp) (a_valid : validate lib j = .valid a)
    (b_valid : validate lib k = .valid b) :
    InUtc a.connectTime ∧ InUtc b.connectTime ∧ preimage lib a = preimage lib b := by
  obtain ⟨-, a_sorted, a_id⟩ := validate_events f_read a_valid
  obtain ⟨-, b_sorted, b_id⟩ := validate_events g_read b_valid
  obtain ⟨⟨e, e_mem, e_first⟩, a_least⟩ := connect_least a_sorted
  obtain ⟨⟨e', e'_mem, e'_first⟩, b_least⟩ := connect_least b_sorted
  obtain ⟨there, back⟩ := reordered_instants reordered
  have a_utc : InUtc a.connectTime := e_first ▸ utc e e_mem
  obtain ⟨x, x_mem, x_same⟩ := there e e_mem
  obtain ⟨aware, y, y_mem, y_same⟩ := back e' e'_mem
  have instants : b.connectTime.instant = a.connectTime.instant := by
    apply Int.le_antisymm
    · rw [← e_first, ← x_same]
      exact b_least x x_mem
    · rw [← e'_first, y_same]
      exact a_least y y_mem
  have b_utc : InUtc b.connectTime :=
    ⟨e'_first ▸ aware, instants ▸ a_utc.low, instants ▸ a_utc.high⟩
  refine ⟨a_utc, b_utc, ?_⟩
  rw [preimage_eq a_utc, preimage_eq b_utc, a_id, b_id, ids, instants]

end Orders

structure WasRead (lib : Libraries) (e : CowrieEvent) : Prop where
  texts : ∀ s ∈ [e.eventid, e.session, e.srcIp, e.sensor, e.message], lib.text s = true
  optional_texts : ∀ o ∈ [e.username, e.password, e.input, e.url, e.outfile, e.shasum, e.version],
    ∀ s ∈ o, lib.text s = true
  duration : ∀ n ∈ e.durationMs, lib.int (.int n) = some n
  time : ∃ j, lib.datetime j = some e.timestamp
  unlisted : ∀ f ∈ e.extra, f.1 ∉ eventFields
  keys : ∀ f ∈ e.extra, lib.text f.1 = true

section Reading
variable {lib : Libraries} {α : Type} {read : Json → Option α}

theorem readStr_text {j : Json} {s : PyStr} (found : readStr lib j = some s) : lib.text s = true := by
  unfold readStr at found
  split at found
  · split at found
    · cases found
      assumption
    · cases found
  · cases found

theorem required_read {key : String} {j : Json} {a : α} (found : required read key j = some a) :
    ∃ v, read v = some a := by
  obtain ⟨v, -, here⟩ := Option.bind_eq_some_iff.mp found
  exact ⟨v, here⟩

theorem optional_read {key : String} {j : Json} {o : Option α}
    (found : ApiSessionAlert.optional read key j = some o) :
    ∀ a ∈ o, ∃ v, j.get? (str key) = some v ∧ read v = some a := by
  unfold ApiSessionAlert.optional defaulted at found
  rintro a rfl
  split at found
  · cases found
  · rename_i v present
    unfold nullable at found
    split at found
    · cases found
    · obtain ⟨b, here, same⟩ := Option.map_eq_some_iff.mp found
      cases same
      exact ⟨v, present, here⟩

theorem defaulted_text (doc : Documented lib) {key : String} {j : Json} {s : PyStr}
    (found : defaulted (readStr lib) key [] j = some s) : lib.text s = true := by
  unfold defaulted at found
  split at found
  · cases found
    exact doc.empty_text
  · exact readStr_text found

theorem mem_extraOf {named : List PyStr} {fs : List (PyStr × Json)} :
    ∀ f ∈ extraOf named fs, f.1 ∉ named := by
  intro f member
  have free := (List.mem_filter.mp member).2
  simpa using free

theorem readExtra_some {named : List PyStr} {fs extra : List (PyStr × Json)}
    (found : readExtra lib named fs = some extra) :
    extra = extraOf named fs ∧ ∀ f ∈ extra, lib.text f.1 = true := by
  unfold readExtra at found
  split at found
  · rename_i texts
    cases found
    exact ⟨rfl, List.all_eq_true.mp texts⟩
  · cases found

theorem readExtra_again {named : List PyStr} {fs : List (PyStr × Json)}
    (texts : ∀ f ∈ extraOf named fs, lib.text f.1 = true) :
    readExtra lib named fs = some (extraOf named fs) := if_pos (List.all_eq_true.mpr texts)

theorem mapM_mem {β : Type} {f : β → Option α} {l : List β} {m : List α} (found : l.mapM f = some m)
    {a : α} (member : a ∈ m) : ∃ b ∈ l, f b = some a := by
  have there : some a ∈ l.map f := mapM_eq_some_iff.mp found ▸ List.mem_map_of_mem member
  exact List.mem_map.mp there

theorem validateEvent_read (doc : Documented lib) {j : Json} {e : CowrieEvent}
    (found : validateEvent lib j = some e) : WasRead lib e := by
  cases j with
  | obj fs =>
    rw [validateEvent] at found
    obtain ⟨eventid, h1, found⟩ := Option.bind_eq_some_iff.mp found
    obtain ⟨timestamp, h2, found⟩ := Option.bind_eq_some_iff.mp found
    obtain ⟨session, h3, found⟩ := Option.bind_eq_some_iff.mp found
    obtain ⟨srcIp, h4, found⟩ := Option.bind_eq_some_iff.mp found
    obtain ⟨sensor, h5, found⟩ := Option.bind_eq_some_iff.mp found
    obtain ⟨message, h6, found⟩ := Option.bind_eq_some_iff.mp found
    obtain ⟨username, h7, found⟩ := Option.bind_eq_some_iff.mp found
    obtain ⟨password, h8, found⟩ := Option.bind_eq_some_iff.mp found
    obtain ⟨input, h9, found⟩ := Option.bind_eq_some_iff.mp found
    obtain ⟨url, h10, found⟩ := Option.bind_eq_some_iff.mp found
    obtain ⟨outfile, h11, found⟩ := Option.bind_eq_some_iff.mp found
    obtain ⟨shasum, h12, found⟩ := Option.bind_eq_some_iff.mp found
    obtain ⟨durationMs, h13, found⟩ := Option.bind_eq_some_iff.mp found
    obtain ⟨version, h14, found⟩ := Option.bind_eq_some_iff.mp found
    obtain ⟨extra, h15, found⟩ := Option.bind_eq_some_iff.mp found
    cases found
    obtain ⟨own, keys⟩ := readExtra_some h15
    have text {key : String} {s : PyStr} (here : required (readStr lib) key (.obj fs) = some s) :
        lib.text s = true := (required_read here).elim fun _ inner => readStr_text inner
    have optionalText {key : String} {o : Option PyStr}
        (here : ApiSessionAlert.optional (readStr lib) key (.obj fs) = some o) : ∀ s ∈ o, lib.text s = true :=
      fun s member => (optional_read here s member).elim fun _ inner => readStr_text inner.2
    constructor
    · simp only [List.forall_mem_cons]
      exact ⟨text h1, text h3, text h4, text h5, defaulted_text doc h6, by simp⟩
    · simp only [List.forall_mem_cons]
      exact ⟨optionalText h7, optionalText h8, optionalText h9, optionalText h10, optionalText h11,
        optionalText h12, optionalText h14, by simp⟩
    · intro n member
      obtain ⟨v, -, here⟩ := optional_read h13 n member
      exact doc.int_again v n here
    · exact required_read h2
    · exact own ▸ mem_extraOf
    · exact keys
  | _ => cases found

end Reading

/-- The fields of an object are those of the dump; what else it has is left open, up to its keys. -/
structure Carries (lib : Libraries) (e : CowrieEvent) (fs : List (PyStr × Json)) : Prop where
  fields : ∀ key ∈ eventFields, (Json.obj fs).get? key = (e.dumped lib).get? key
  keys : ∀ f ∈ extraOf eventFields fs, lib.text f.1 = true

/-- The same event, its time perhaps spelled otherwise, with other unlisted fields. -/
structure Reread (e e' : CowrieEvent) : Prop where
  others : e' = { e with timestamp := e'.timestamp, extra := e'.extra }
  aware : e'.timestamp.aware = true
  instant : e'.timestamp.instant = e.timestamp.instant

section Rereading
variable {lib : Libraries}

theorem readStr_again {s : PyStr} (text : lib.text s = true) : readStr lib (.str s) = some s :=
  if_pos text

theorem nullable_again {o : Option PyStr} (texts : ∀ s ∈ o, lib.text s = true) :
    nullable (readStr lib) (textOrNull o) = some o := by
  cases o with
  | none => rfl
  | some s =>
    have again := readStr_again (texts s rfl)
    simp only [textOrNull, nullable, again, Option.map_some]

theorem carried_required {α : Type} {read : Json → Option α} {e : CowrieEvent}
    {fs : List (PyStr × Json)} (carries : Carries lib e fs) {key : String} (listed : str key ∈ eventFields)
    {v : Json} (dumped : (e.dumped lib).get? (str key) = some v) {a : α} (again : read v = some a) :
    required read key (.obj fs) = some a := by
  rw [required, carries.fields _ listed, dumped, Option.bind_some, again]

theorem carried_defaulted {α : Type} {read : Json → Option α} {e : CowrieEvent}
    {fs : List (PyStr × Json)} (carries : Carries lib e fs) {key : String} (listed : str key ∈ eventFields)
    {v : Json} (dumped : (e.dumped lib).get? (str key) = some v) {a : α} (again : read v = some a)
    (default : α) : defaulted read key default (.obj fs) = some a := by
  rw [defaulted, carries.fields _ listed, dumped]
  exact again

def intOrNull : Option Int → Json
  | some n => .int n
  | none => .null

theorem validateEvent_carried {e : CowrieEvent} (read : WasRead lib e) {d : DateTime}
    (again : lib.datetime (.str (lib.datetimeText e.timestamp)) = some d) {fs : List (PyStr × Json)}
    (carries : Carries lib e fs) :
    validateEvent lib (.obj fs) = some { e with timestamp := d, extra := extraOf eventFields fs } := by
  have texts := read.texts
  have optional_texts := read.optional_texts
  simp only [List.forall_mem_cons] at texts optional_texts
  obtain ⟨t1, t2, t3, t4, t5, -⟩ := texts
  obtain ⟨o1, o2, o3, o4, o5, o6, o7, -⟩ := optional_texts
  have duration : nullable lib.int (intOrNull e.durationMs) = some e.durationMs := by
    have known := read.duration
    cases whole : e.durationMs with
    | none => rfl
    | some n => simp only [intOrNull, nullable, known n whole, Option.map_some]
  have h1 := @carried_required lib _ _ e fs carries "eventid" (by decide) _ rfl _ (readStr_again t1)
  have h2 := @carried_required lib _ _ e fs carries "timestamp" (by decide) _ rfl _ (again)
  have h3 := @carried_required lib _ _ e fs carries "session" (by decide) _ rfl _ (readStr_again t2)
  have h4 := @carried_required lib _ _ e fs carries "src_ip" (by decide) _ rfl _ (readStr_again t3)
  have h5 := @carried_required lib _ _ e fs carries "sensor" (by decide) _ rfl _ (readStr_again t4)
  have h6 := @carried_defaulted lib _ _ e fs carries "message" (by decide) _ rfl _ (readStr_again t5) []
  have h7 := @carried_defaulted lib _ _ e fs carries "username" (by decide) _ rfl _ (nullable_again o1) none
  have h8 := @carried_defaulted lib _ _ e fs carries "password" (by decide) _ rfl _ (nullable_again o2) none
  have h9 := @carried_defaulted lib _ _ e fs carries "input" (by decide) _ rfl _ (nullable_again o3) none
  have h10 := @carried_defaulted lib _ _ e fs carries "url" (by decide) _ rfl _ (nullable_again o4) none
  have h11 := @carried_defaulted lib _ _ e fs carries "outfile" (by decide) _ rfl _ (nullable_again o5) none
  have h12 := @carried_defaulted lib _ _ e fs carries "shasum" (by decide) _ rfl _ (nullable_again o6) none
  have h13 := @carried_defaulted lib _ _ e fs carries "duration_ms" (by decide) _ rfl _ (duration) none
  have h14 := @carried_defaulted lib _ _ e fs carries "version" (by decide) _ rfl _ (nullable_again o7) none
  have h15 := readExtra_again carries.keys
  simp only [validateEvent, ApiSessionAlert.optional, h1, h2, h3, h4, h5, h6, h7, h8, h9, h10, h11,
    h12, h13, h14, h15, Option.bind_eq_bind, Option.bind_some, Option.pure_def]

def CarriesAll (lib : Libraries) (Extras : CowrieEvent → List (PyStr × Json) → Prop)
    (events : List CowrieEvent) (js : List Json) : Prop :=
  List.Forall₂ (fun e j => ∃ fs, j = .obj fs ∧ Carries lib e fs ∧ Extras e (extraOf eventFields fs))
    events js

def RereadAll (Extras : CowrieEvent → List (PyStr × Json) → Prop)
    (events events' : List CowrieEvent) : Prop :=
  List.Forall₂ (fun e e' => Reread e e' ∧ Extras e e'.extra) events events'

def TimeReads (lib : Libraries) (d : DateTime) : Prop :=
  ∃ d', lib.datetime (.str (lib.datetimeText d)) = some d' ∧ d'.aware = d.aware ∧ d'.instant = d.instant

structure Retimed (e e' : CowrieEvent) : Prop where
  others : e' = { e with timestamp := e'.timestamp, extra := e'.extra }
  aware : e'.timestamp.aware = e.timestamp.aware
  instant : e'.timestamp.instant = e.timestamp.instant

def RetimedAll (Extras : CowrieEvent → List (PyStr × Json) → Prop)
    (events events' : List CowrieEvent) : Prop :=
  List.Forall₂ (fun e e' => Retimed e e' ∧ Extras e e'.extra) events events'

variable {Extras : CowrieEvent → List (PyStr × Json) → Prop}

theorem mapM_carried {events : List CowrieEvent} {js : List Json} (carries : CarriesAll lib Extras events js)
    (known : ∀ e ∈ events, WasRead lib e ∧ TimeReads lib e.timestamp) :
    ∃ events', js.mapM (validateEvent lib) = some events' ∧ RetimedAll Extras events events' := by
  induction carries with
  | nil => exact ⟨[], rfl, List.Forall₂.nil⟩
  | @cons e _ _ _ here _ ih =>
    rw [List.forall_mem_cons] at known
    obtain ⟨fs, rfl, carries, extras⟩ := here
    obtain ⟨d, again, aware, instant⟩ := known.1.2
    obtain ⟨events', rest, all⟩ := ih known.2
    have retimed : Retimed e { e with timestamp := d, extra := extraOf eventFields fs } :=
      ⟨rfl, aware, instant⟩
    refine ⟨_ :: events', ?_, List.Forall₂.cons ⟨retimed, extras⟩ all⟩
    rw [List.mapM_cons, validateEvent_carried known.1.1 again carries, rest]
    rfl

theorem retimed_instants {events events' : List CowrieEvent} (all : RetimedAll Extras events events') :
    events'.map (fun e => e.timestamp.instant) = events.map fun e => e.timestamp.instant := by
  induction all with
  | nil => rfl
  | cons here _ ih => rw [List.map_cons, List.map_cons, here.1.instant, ih]

theorem retimed_unmixed {events events' : List CowrieEvent} (all : RetimedAll Extras events events')
    (unmixed : ¬ Mixed events) : ¬ Mixed events' := by
  rintro ⟨e', mem, f', mem', other⟩
  obtain ⟨e, there, here, _⟩ := (forall₂_partner all).2 e' mem
  obtain ⟨f, there', here', _⟩ := (forall₂_partner all).2 f' mem'
  refine unmixed ⟨e, there, f, there', ?_⟩
  rwa [here.aware, here'.aware] at other

theorem retimed_sorted {events events' : List CowrieEvent} (all : RetimedAll Extras events events')
    (unmixed : ¬ Mixed events)
    (order : events.Pairwise fun e f => e.timestamp.instant ≤ f.timestamp.instant) :
    sortEvents events' = some events' := by
  rw [sortEvents_eq (retimed_unmixed all unmixed)]
  have instants : (events'.map fun e => e.timestamp.instant).Pairwise (· ≤ ·) := by
    rw [retimed_instants all]
    exact List.pairwise_map.mpr order
  exact congrArg some (List.Pairwise.insertionSort_eq (List.pairwise_map.mp instants))

theorem reread_retimed {events events' : List CowrieEvent} (all : RetimedAll Extras events events')
    (aware : ∀ e ∈ events, e.timestamp.aware = true) : RereadAll Extras events events' := by
  induction all with
  | nil => exact List.Forall₂.nil
  | cons here _ ih =>
    rw [List.forall_mem_cons] at aware
    have known := here.1.aware.trans aware.1
    exact List.Forall₂.cons ⟨⟨here.1.others, known, here.1.instant⟩, here.2⟩ (ih aware.2)

structure AlertWasRead (lib : Libraries) (a : SessionAlert) : Prop where
  texts : lib.text a.sessionId = true ∧ lib.text a.srcIp = true ∧ lib.text a.sensor = true
  events : ∀ e ∈ a.events, WasRead lib e
  order : a.events.Pairwise fun e f => e.timestamp.instant ≤ f.timestamp.instant
  unlisted : ∀ f ∈ a.extra, f.1 ∉ alertFields
  keys : ∀ f ∈ a.extra, lib.text f.1 = true

theorem readEvents_read (doc : Documented lib) {j : Json} {events : List CowrieEvent}
    (found : readEvents lib j = some events) : ∀ e ∈ events, WasRead lib e := by
  unfold readEvents at found
  split at found
  · rename_i x xs
    intro e member
    obtain ⟨y, -, read⟩ := mapM_mem found member
    exact validateEvent_read doc read
  · cases found

theorem validateFields_read (doc : Documented lib) {j : Json} {fields : AlertFields}
    (found : validateFields lib j = some fields) :
    (lib.text fields.sessionId = true ∧ lib.text fields.srcIp = true ∧
      lib.text fields.sensor = true) ∧ (∀ e ∈ fields.events, WasRead lib e) ∧
      ∀ f ∈ fields.extra, f.1 ∉ alertFields ∧ lib.text f.1 = true := by
  cases j with
  | obj fs =>
    rw [validateFields] at found
    obtain ⟨_, -, found⟩ := Option.bind_eq_some_iff.mp found
    obtain ⟨sessionId, h1, found⟩ := Option.bind_eq_some_iff.mp found
    obtain ⟨srcIp, h2, found⟩ := Option.bind_eq_some_iff.mp found
    obtain ⟨sensor, h3, found⟩ := Option.bind_eq_some_iff.mp found
    obtain ⟨events, h4, found⟩ := Option.bind_eq_some_iff.mp found
    obtain ⟨extra, h5, found⟩ := Option.bind_eq_some_iff.mp found
    cases found
    obtain ⟨own, keys⟩ := readExtra_some h5
    have text {key : String} {s : PyStr} (here : required (readStr lib) key (.obj fs) = some s) :
        lib.text s = true := (required_read here).elim fun _ inner => readStr_text inner
    obtain ⟨v, listed⟩ := required_read h4
    exact ⟨⟨text h1, text h2, text h3⟩, readEvents_read doc listed,
      fun f member => ⟨mem_extraOf f (own ▸ member), keys f member⟩⟩
  | _ => cases found

theorem validate_fields {j : Json} {a : SessionAlert} (valid : validate lib j = .valid a) :
    ∃ fields, validateFields lib j = some fields ∧ a.sessionId = fields.sessionId ∧
      a.srcIp = fields.srcIp ∧ a.sensor = fields.sensor ∧ a.extra = fields.extra := by
  rw [validate] at valid
  split at valid
  · cases valid
  · rename_i fields read
    refine ⟨fields, read, ?_⟩
    unfold sortAndRequireConnectFirst at valid
    split at valid
    · cases valid
    · cases valid
    · split at valid
      · cases valid
        exact ⟨rfl, rfl, rfl, rfl⟩
      · cases valid

theorem validate_read (doc : Documented lib) {j : Json} {a : SessionAlert}
    (valid : validate lib j = .valid a) : AlertWasRead lib a := by
  obtain ⟨fields, read, ids, ips, sensors, extras⟩ := validate_fields valid
  obtain ⟨-, sorted, -⟩ := validate_events read valid
  obtain ⟨texts, events, unlisted⟩ := validateFields_read doc read
  have perm : (byTime fields.events).Perm fields.events := orderBy_perm fields.events
  have order : (byTime fields.events).Pairwise fun e f =>
    e.timestamp.instant ≤ f.timestamp.instant := orderBy_sorted fields.events
  rw [← sorted] at perm order
  constructor
  · rw [ids, ips, sensors]
    exact texts
  · exact fun e member => events e (perm.subset member)
  · exact order
  · rw [extras]
    exact fun f member => (unlisted f member).1
  · rw [extras]
    exact fun f member => (unlisted f member).2

structure CarriesAlert (lib : Libraries) (Extras : CowrieEvent → List (PyStr × Json) → Prop)
    (a : SessionAlert) (fs : List (PyStr × Json)) : Prop where
  source : (Json.obj fs).get? (str "source") = some (.str source)
  sessionId : (Json.obj fs).get? (str "session_id") = some (.str a.sessionId)
  srcIp : (Json.obj fs).get? (str "src_ip") = some (.str a.srcIp)
  sensor : (Json.obj fs).get? (str "sensor") = some (.str a.sensor)
  events : ∃ js, (Json.obj fs).get? (str "events") = some (.arr js) ∧
    CarriesAll lib Extras a.events js
  keys : ∀ f ∈ extraOf alertFields fs, lib.text f.1 = true

structure RereadAlert (Extras : CowrieEvent → List (PyStr × Json) → Prop)
    (a a' : SessionAlert) : Prop where
  sessionId : a'.sessionId = a.sessionId
  srcIp : a'.srcIp = a.srcIp
  sensor : a'.sensor = a.sensor
  events : RereadAll Extras a.events a'.events

theorem validate_unmixed {j : Json} {a : SessionAlert} (valid : validate lib j = .valid a) :
    ¬ Mixed a.events := by
  obtain ⟨fields, read, -⟩ := validate_fields valid
  obtain ⟨unmixed, sorted, -⟩ := validate_events read valid
  have perm : (byTime fields.events).Perm fields.events := orderBy_perm fields.events
  rw [← sorted] at perm
  rintro ⟨e, mem, f, mem', other⟩
  exact unmixed ⟨e, perm.subset mem, f, perm.subset mem', other⟩

theorem validate_timed {a : SessionAlert} (read : AlertWasRead lib a) (unmixed : ¬ Mixed a.events)
    (times : ∀ e ∈ a.events, TimeReads lib e.timestamp) {fs : List (PyStr × Json)}
    (carries : CarriesAlert lib Extras a fs) :
    ∃ a', validate lib (.obj fs) = .valid a' ∧ a'.sessionId = a.sessionId ∧ a'.srcIp = a.srcIp ∧
      a'.sensor = a.sensor ∧ RetimedAll Extras a.events a'.events ∧ a'.extra = extraOf alertFields fs := by
  obtain ⟨js, listed, all⟩ := carries.events
  obtain ⟨events', again, retimed⟩ := mapM_carried all
    fun e member => ⟨read.events e member, times e member⟩
  have sorted := retimed_sorted retimed unmixed read.order
  have shape := retimed
  unfold RetimedAll SessionAlert.events at shape
  cases shape with
  | @cons _ first _ rest here later =>
    have connects : first.eventid = str "cowrie.session.connect" := by
      rw [here.1.others]
      exact a.connects
    have events : required (readEvents lib) "events" (.obj fs) = some (first :: rest) := by
      rw [required, listed, Option.bind_some]
      cases js with
      | nil => cases all
      | cons x xs => exact again
    have source : required readSource "source" (.obj fs) = some () := by
      rw [required, carries.source, Option.bind_some, readSource, if_pos rfl]
    have text {key : String} {s : PyStr} (here : (Json.obj fs).get? (str key) = some (.str s))
        (known : lib.text s = true) : required (readStr lib) key (.obj fs) = some s := by
      rw [required, here, Option.bind_some, readStr_again known]
    have h1 := text carries.sessionId read.texts.1
    have h2 := text carries.srcIp read.texts.2.1
    have h3 := text carries.sensor read.texts.2.2
    refine ⟨⟨a.sessionId, a.srcIp, a.sensor, first, rest, extraOf alertFields fs, connects⟩, ?_,
      rfl, rfl, rfl, retimed, rfl⟩
    rw [validate]
    simp only [validateFields, source, h1, h2, h3, events, readExtra_again carries.keys, Option.bind_eq_bind, Option.bind_some,
      Option.pure_def]
    rw [sortAndRequireConnectFirst]
    simp only [sorted]
    rw [dif_pos connects]

theorem validate_carried (doc : Documented lib) {a : SessionAlert} (read : AlertWasRead lib a)
    (utc : ∀ e ∈ a.events, InUtc e.timestamp) {fs : List (PyStr × Json)}
    (carries : CarriesAlert lib Extras a fs) :
    ∃ a', validate lib (.obj fs) = .valid a' ∧ RereadAlert Extras a a' ∧
      a'.extra = extraOf alertFields fs := by
  have aware : ∀ e ∈ a.events, e.timestamp.aware = true := fun e member => (utc e member).aware
  have times : ∀ e ∈ a.events, TimeReads lib e.timestamp := by
    intro e member
    obtain ⟨j, time⟩ := (read.events e member).time
    obtain ⟨d, again, known, instant⟩ := doc.datetime_again j e.timestamp time (utc e member)
    exact ⟨d, again, known.trans (aware e member).symm, instant⟩
  obtain ⟨a', valid, ids, ips, sensors, retimed, extras⟩ :=
    validate_timed read (unmixed_aware aware) times carries
  exact ⟨a', valid, ⟨ids, ips, sensors, reread_retimed retimed aware⟩, extras⟩

theorem preimage_reread {a a' : SessionAlert} (utc : InUtc a.connectTime)
    (reread : RereadAlert Extras a a') : preimage lib a' = preimage lib a := by
  have events := reread.events
  unfold RereadAll SessionAlert.events at events
  rw [List.forall₂_cons] at events
  have first := events.1.1
  have again : InUtc a'.connectTime :=
    ⟨first.aware, first.instant ▸ utc.low, first.instant ▸ utc.high⟩
  rw [preimage_eq utc, preimage_eq again, reread.sessionId]
  exact congrArg (fun micros => some (source ++ str "|" ++ a.sessionId ++ str "|" ++
    lib.isoformat micros)) first.instant

end Rereading

mutual
def Finite : Json → Prop
  | .float .nan => False
  | .float (.inf _) => False
  | .arr xs => FiniteItems xs
  | .obj fs => FiniteFields fs
  | _ => True

def FiniteItems : List Json → Prop
  | [] => True
  | x :: xs => Finite x ∧ FiniteItems xs

def FiniteFields : List (PyStr × Json) → Prop
  | [] => True
  | (_, v) :: fs => Finite v ∧ FiniteFields fs
end

mutual
theorem jsonMode_iff : (j : Json) → (jsonMode j = j ↔ Finite j)
  | .null => by simp [jsonMode, Finite]
  | .bool _ => by simp [jsonMode, Finite]
  | .int _ => by simp [jsonMode, Finite]
  | .float .nan => by simp [jsonMode, Finite]
  | .float (.inf _) => by simp [jsonMode, Finite]
  | .float (.fin _ _ _) => by simp [jsonMode, Finite]
  | .str _ => by simp [jsonMode, Finite]
  | .arr xs => by
    rw [jsonMode, Finite, Json.arr.injEq]
    exact jsonModeItems_iff xs
  | .obj fs => by
    rw [jsonMode, Finite, Json.obj.injEq]
    exact jsonModeFields_iff fs

theorem jsonModeItems_iff : (xs : List Json) → (jsonModeItems xs = xs ↔ FiniteItems xs)
  | [] => by simp [jsonModeItems, FiniteItems]
  | x :: xs => by
    rw [jsonModeItems, FiniteItems, List.cons.injEq, jsonMode_iff x, jsonModeItems_iff xs]

theorem jsonModeFields_iff : (fs : List (PyStr × Json)) → (jsonModeFields fs = fs ↔ FiniteFields fs)
  | [] => by simp [jsonModeFields, FiniteFields]
  | (k, v) :: fs => by
    rw [jsonModeFields, FiniteFields, List.cons.injEq, Prod.mk.injEq, jsonMode_iff v,
      jsonModeFields_iff fs]
    simp
end

theorem jsonModeFields_keys (fs : List (PyStr × Json)) :
    (jsonModeFields fs).map Prod.fst = fs.map Prod.fst := by
  induction fs with
  | nil => rfl
  | cons f fs ih => rw [jsonModeFields, List.map_cons, List.map_cons, ih]

theorem jsonModeFields_unlisted {named : List PyStr} {fs : List (PyStr × Json)}
    (unlisted : ∀ f ∈ fs, f.1 ∉ named) : ∀ f ∈ jsonModeFields fs, f.1 ∉ named := by
  intro f member
  have key : f.1 ∈ fs.map Prod.fst := jsonModeFields_keys fs ▸ List.mem_map_of_mem member
  obtain ⟨g, there, same⟩ := List.mem_map.mp key
  exact same ▸ unlisted g there

theorem jsonModeFields_texts {lib : Libraries} {fs : List (PyStr × Json)}
    (keys : ∀ f ∈ fs, lib.text f.1 = true) : ∀ f ∈ jsonModeFields fs, lib.text f.1 = true := by
  intro f member
  have key : f.1 ∈ fs.map Prod.fst := jsonModeFields_keys fs ▸ List.mem_map_of_mem member
  obtain ⟨g, there, same⟩ := List.mem_map.mp key
  exact same ▸ keys g there

theorem extraOf_listed {named : List PyStr} {listed extra : List (PyStr × Json)}
    (own : listed.map Prod.fst = named) (unlisted : ∀ f ∈ extra, f.1 ∉ named) :
    extraOf named (listed ++ extra) = extra := by
  have none : listed.filter (fun f => !named.contains f.1) = [] := by
    rw [List.filter_eq_nil_iff]
    intro f member
    have inside : f.1 ∈ named := own ▸ List.mem_map_of_mem member
    simpa using inside
  have all : extra.filter (fun f => !named.contains f.1) = extra := by
    rw [List.filter_eq_self]
    intro f member
    simpa using unlisted f member
  rw [extraOf, List.filter_append, none, all, List.nil_append]

/-- What `model_dump` makes of the unlisted fields: they stay when they are finite, and only then. -/
def Dumped (e : CowrieEvent) (extra : List (PyStr × Json)) : Prop :=
  extra = jsonModeFields e.extra ∧ (extra = e.extra ↔ FiniteFields e.extra)

/-- An `alerts.raw` column: texts, integers, arrays and the members of objects come back. -/
structure Column where
  restore : Json → Json
  null : restore .null = .null
  text : ∀ s, restore (.str s) = .str s
  int : ∀ n, restore (.int n) = .int n
  arr : ∀ xs, restore (.arr xs) = .arr (xs.map restore)
  obj : ∀ fs, ∃ gs, restore (.obj fs) = .obj gs ∧
    ∀ key, (Json.obj gs).get? key = ((Json.obj fs).get? key).map restore

section Stored
variable {lib : Libraries}

theorem dump_carries {a : SessionAlert} (read : AlertWasRead lib a) :
    ∃ fs, a.dumped lib = .obj fs ∧ CarriesAlert lib Dumped a fs ∧
      extraOf alertFields fs = jsonModeFields a.extra := by
  have own {listed : List (PyStr × Json)} (own : listed.map Prod.fst = alertFields) :
      extraOf alertFields (listed ++ jsonModeFields a.extra) = jsonModeFields a.extra :=
    extraOf_listed own (jsonModeFields_unlisted read.unlisted)
  refine ⟨_, rfl, ⟨rfl, rfl, rfl, rfl, ⟨_, rfl, ?_⟩, ?_⟩, own rfl⟩
  · rw [CarriesAll, List.forall₂_map_right_iff, List.forall₂_same]
    intro e member
    have known := read.events e member
    have extras {listed : List (PyStr × Json)} (own : listed.map Prod.fst = eventFields) :
        extraOf eventFields (listed ++ jsonModeFields e.extra) = jsonModeFields e.extra :=
      extraOf_listed own (jsonModeFields_unlisted known.unlisted)
    refine ⟨_, rfl, ⟨fun _ _ => rfl, ?_⟩, ?_⟩
    · rw [extras rfl]
      exact jsonModeFields_texts known.keys
    · rw [extras rfl]
      exact ⟨rfl, jsonModeFields_iff e.extra⟩
  · rw [own rfl]
    exact jsonModeFields_texts read.keys

theorem modelDump_some {a : SessionAlert} {raw : Json} (found : a.modelDump lib = some raw) :
    raw = a.dumped lib := by
  unfold SessionAlert.modelDump at found
  split at found
  · exact (Option.some.inj found).symm
  · cases found

theorem restored_keys {restore : Json → Json} {fs gs : List (PyStr × Json)}
    (members : ∀ key, (Json.obj gs).get? key = ((Json.obj fs).get? key).map restore) :
    ∀ f ∈ gs, ∃ g ∈ fs, g.1 = f.1 := by
  intro f member
  by_contra absent
  have none : (Json.obj fs).get? f.1 = none := by
    rw [Json.get?, Option.map_eq_none_iff, List.find?_eq_none]
    exact fun g there same => absent ⟨g, there, by simpa using same⟩
  have gone := members f.1
  rw [none, Option.map_none, Json.get?, Option.map_eq_none_iff, List.find?_eq_none] at gone
  exact gone f member (by simp)

theorem restored_texts {restore : Json → Json} {named : List PyStr}
    {listed extra gs : List (PyStr × Json)} (own : listed.map Prod.fst = named)
    (texts : ∀ f ∈ extra, lib.text f.1 = true)
    (members : ∀ key, (Json.obj gs).get? key = ((Json.obj (listed ++ extra)).get? key).map restore) :
    ∀ f ∈ extraOf named gs, lib.text f.1 = true := by
  intro f member
  obtain ⟨g, there, same⟩ := restored_keys members f (List.mem_of_mem_filter member)
  rcases List.mem_append.mp there with old | new
  · exact absurd (own ▸ same ▸ List.mem_map_of_mem old) (mem_extraOf f member)
  · exact same ▸ texts g new

theorem dump_restored (column : Column) (e : CowrieEvent) :
    ∀ key ∈ eventFields, ((e.dumped lib).get? key).map column.restore = (e.dumped lib).get? key := by
  have text (s : PyStr) : (some (Json.str s)).map column.restore = some (.str s) := by
    rw [Option.map_some, column.text]
  have optionalText (o : Option PyStr) :
      (some (textOrNull o)).map column.restore = some (textOrNull o) := by
    cases o with
    | none => rw [Option.map_some, textOrNull, column.null]
    | some s => exact text s
  have number (o : Option Int) : (some (intOrNull o)).map column.restore = some (intOrNull o) := by
    cases o with
    | none => rw [Option.map_some, intOrNull, column.null]
    | some n => rw [Option.map_some, intOrNull, column.int]
  simp only [eventFields, List.forall_mem_cons]
  exact ⟨text _, text _, text _, text _, text _, text _, optionalText _, optionalText _,
    optionalText _, optionalText _, optionalText _, optionalText _, number _, optionalText _, by simp⟩

theorem column_carries (column : Column) {a : SessionAlert} (read : AlertWasRead lib a) :
    ∃ gs, column.restore (a.dumped lib) = .obj gs ∧ CarriesAlert lib (fun _ _ => True) a gs := by
  obtain ⟨gs, restored, members⟩ := column.obj _
  refine ⟨gs, restored, ?_⟩
  constructor
  · rw [members]
    exact congrArg some (column.text _)
  · rw [members]
    exact congrArg some (column.text _)
  · rw [members]
    exact congrArg some (column.text _)
  · rw [members]
    exact congrArg some (column.text _)
  · refine ⟨(a.events.map (CowrieEvent.dumped lib)).map column.restore, ?_, ?_⟩
    · rw [members]
      exact congrArg some (column.arr _)
    · rw [CarriesAll, List.map_map, List.forall₂_map_right_iff, List.forall₂_same]
      intro e member
      obtain ⟨hs, own, inner⟩ := column.obj _
      refine ⟨hs, own, ⟨fun key listed => ?_, ?_⟩, trivial⟩
      · rw [inner]
        exact dump_restored column e key listed
      · exact restored_texts rfl (jsonModeFields_texts (read.events e member).keys) inner
  · exact restored_texts rfl (jsonModeFields_texts read.keys) members

theorem dump_reread (doc : Documented lib) {j raw : Json} {a : SessionAlert}
    (valid : validate lib j = .valid a) (utc : ∀ e ∈ a.events, InUtc e.timestamp)
    (dumps : a.modelDump lib = some raw) :
    (∃ a', validate lib raw = .valid a' ∧ RereadAlert Dumped a a' ∧
      a'.extra = jsonModeFields a.extra ∧ a'.fingerprint lib = a.fingerprint lib) ∧
    ∀ column : Column, ∃ a', validate lib (column.restore raw) = .valid a' ∧
      RereadAlert (fun _ _ => True) a a' ∧ a'.fingerprint lib = a.fingerprint lib := by
  rw [modelDump_some dumps]
  have read := validate_read doc valid
  have connect : InUtc a.connectTime := utc a.first List.mem_cons_self
  constructor
  · obtain ⟨fs, dumped, carries, extras⟩ := dump_carries read
    obtain ⟨a', again, reread, own⟩ := validate_carried doc read utc carries
    refine ⟨a', dumped ▸ again, reread, own.trans extras, ?_⟩
    rw [fingerprint_eq, fingerprint_eq, preimage_reread connect reread]
  · intro column
    obtain ⟨gs, restored, carries⟩ := column_carries column read
    obtain ⟨a', again, reread, -⟩ := validate_carried doc read utc carries
    refine ⟨a', restored ▸ again, reread, ?_⟩
    rw [fingerprint_eq, fingerprint_eq, preimage_reread connect reread]

end Stored

/-- Orders and offsets of the events do not change the hashed text; it is the session id and the
    connect instant; and an alert read back from its dump or its row has the same events in the
    same order, unlisted NaNs and infinities apart, and the same fingerprint. -/
theorem fingerprint_canonical {lib : Libraries} (doc : Documented lib) :
    (∀ j k f g a b, validateFields lib j = some f → validateFields lib k = some g →
      f.sessionId = g.sessionId → Reordered f.events g.events →
      (∀ e ∈ f.events, InUtc e.timestamp) → validate lib j = .valid a → validate lib k = .valid b →
      (preimage lib a).isSome ∧ preimage lib a = preimage lib b) ∧
    (∀ a b : SessionAlert, InUtc a.connectTime → InUtc b.connectTime →
      (preimage lib a = preimage lib b ↔
        a.sessionId = b.sessionId ∧ a.connectTime.instant = b.connectTime.instant)) ∧
    ∀ j a raw, validate lib j = .valid a → (∀ e ∈ a.events, InUtc e.timestamp) →
      a.modelDump lib = some raw →
      (∃ a', validate lib raw = .valid a' ∧ RereadAlert Dumped a a' ∧
        a'.extra = jsonModeFields a.extra ∧ a'.fingerprint lib = a.fingerprint lib) ∧
      ∀ column : Column, ∃ a', validate lib (column.restore raw) = .valid a' ∧
        RereadAlert (fun _ _ => True) a a' ∧ a'.fingerprint lib = a.fingerprint lib := by
  refine ⟨?_, fun a b a_utc b_utc => preimage_iff doc a_utc b_utc,
    fun _ _ _ valid utc dumps => dump_reread doc valid utc dumps⟩
  intro j k f g a b f_read g_read ids reordered utc a_valid b_valid
  obtain ⟨connect, -, same⟩ := preimage_reordered f_read g_read ids reordered utc a_valid b_valid
  exact ⟨by rw [preimage_eq connect, Option.isSome_some], same⟩

def isoformatUtc (u : Int) : PyStr :=
  if h : 0 ≤ u ∧ u.toNat < limit then IsoDateText.isoformat (utcDateTime u.toNat h.2) else []

example : isoformatUtc 63902822400000000 = str "2026-01-01T00:00:00+00:00" := by decide +kernel

example : isoformatUtc 63844804800500000 = str "2024-02-29T12:00:00.500000+00:00" := by decide +kernel

mutual
def levels : Json → Nat
  | .arr xs => itemLevels xs + 1
  | .obj fs => memberLevels fs + 1
  | _ => 0

def itemLevels : List Json → Nat
  | [] => 0
  | x :: xs => max (levels x) (itemLevels xs)

def memberLevels : List (PyStr × Json) → Nat
  | [] => 0
  | (_, v) :: fs => max (levels v) (memberLevels fs)
end

def documentedLibraries : Libraries :=
  { sampleLibraries with isoformat := isoformatUtc, dumps := fun v => levels v ≤ 255 }

theorem documentedLibraries_documented : Documented documentedLibraries := by
  constructor
  · rfl
  · intro j n found
    cases found
  · intro j d found _
    have read : d = newYear (some 0) ∨ d = newYear none := by
      cases j with
      | str s =>
        simp only [documentedLibraries, sampleLibraries] at found
        split at found
        · exact Or.inl (Option.some.inj found).symm
        · split at found
          · exact Or.inr (Option.some.inj found).symm
          · cases found
      | _ => cases found
    rcases read with rfl | rfl
    · exact ⟨newYear (some 0), rfl, rfl, rfl⟩
    · rename_i utc
      cases utc.aware
  · intro d utc
    exact dif_pos ⟨utc.low, utc.inside⟩

def loadPayload (value : Json) : Json :=
  .obj [(str "source", .str source), (str "session_id", .str (str "s1")),
    (str "src_ip", .str (str "192.0.2.1")), (str "sensor", .str (str "hp")),
    (str "events", .arr [.obj [(str "eventid", .str (str "cowrie.session.connect")),
      (str "timestamp", .str (str "2026-01-01T00:00:00Z")), (str "session", .str (str "s1")),
      (str "src_ip", .str (str "192.0.2.1")), (str "sensor", .str (str "hp")),
      (str "load", value)]])]

def loadEvent (extra : List (PyStr × Json)) : CowrieEvent :=
  { eventid := str "cowrie.session.connect", timestamp := newYear (some 0), session := str "s1",
    srcIp := str "192.0.2.1", sensor := str "hp", message := [], username := none, password := none,
    input := none, url := none, outfile := none, shasum := none, durationMs := none, version := none,
    extra := extra }

def loadAlert (extra : List (PyStr × Json)) : SessionAlert :=
  { sessionId := str "s1", srcIp := str "192.0.2.1", sensor := str "hp", first := loadEvent extra,
    rest := [], extra := [], connects := rfl }

theorem loadPayload_valid (value : Json) :
    validate documentedLibraries (loadPayload value) = .valid (loadAlert [(str "load", value)]) := rfl

/-- What `json.loads` reads `1e999` as. -/
def infinite : Json := .float (.inf false)

theorem fingerprint_canonical_load :
    ∃ raw a', (loadAlert [(str "load", infinite)]).modelDump documentedLibraries = some raw ∧
      validate documentedLibraries raw = .valid a' ∧
      a'.fingerprint documentedLibraries = (loadAlert [(str "load", infinite)]).fingerprint documentedLibraries := by
  have parts := fingerprint_canonical documentedLibraries_documented
  have dumps : (loadAlert [(str "load", infinite)]).modelDump documentedLibraries = some _ := rfl
  obtain ⟨⟨a', again, -, -, same⟩, -⟩ := parts.2.2 (loadPayload infinite) _ _
    (loadPayload_valid infinite) (by
      intro e member
      cases List.mem_singleton.mp member
      exact ⟨rfl, by decide, by decide⟩) dumps
  exact ⟨_, a', dumps, again, same⟩

def nested (depth : Nat) : Json := Nat.rec .null (fun _ inner => .arr [inner]) depth

theorem levels_nested (depth : Nat) : levels (nested depth) = depth := by
  induction depth with
  | zero => rfl
  | succ depth ih =>
    change max (levels (nested depth)) 0 + 1 = depth + 1
    rw [ih, Nat.max_zero]

theorem loadAlert_dumpable (value : Json) :
    (loadAlert [(str "load", value)]).dumpable documentedLibraries = decide (levels value ≤ 255) :=
  Bool.and_true _

/-- An infinite number comes back as null, and a value nested too deep leaves no dump at all. -/
theorem unlisted_values_lost :
    (validate documentedLibraries (loadPayload infinite) = .valid (loadAlert [(str "load", infinite)]) ∧
      ((loadAlert [(str "load", infinite)]).modelDump documentedLibraries).map (validate documentedLibraries) =
        some (.valid (loadAlert [(str "load", .null)])) ∧ loadAlert [(str "load", .null)] ≠ loadAlert [(str "load", infinite)]) ∧
    validate documentedLibraries (loadPayload (nested 256)) = .valid (loadAlert [(str "load", nested 256)]) ∧
      (loadAlert [(str "load", nested 256)]).modelDump documentedLibraries = none := by
  refine ⟨⟨rfl, rfl, ?_⟩, loadPayload_valid _, ?_⟩
  · intro same
    have extras := congrArg (fun a => a.first.extra) same
    simp [loadAlert, loadEvent, infinite] at extras
  · rw [SessionAlert.modelDump, loadAlert_dumpable, levels_nested]
    rfl

end ApiFingerprint
