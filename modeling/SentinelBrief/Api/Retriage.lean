import SentinelBrief.Api.Gates
import SentinelBrief.Api.RateLimit
import SentinelBrief.Library.Calendar
import SentinelBrief.Worker.Jobs

/-!
`POST /api/v1/admin/retriage/{alert_id}` (`api/routes/admin.py`) over the alert rows and their
jobs: the admin token, the daily cap, and the flip. Between its count and its transaction a
request waits, and anything else may happen.
-/
namespace ApiRetriage
open Utf8Text JsonText ExpiringCounters GregorianCalendar StepRuns ApiRateLimit WorkerJobs
open WorkerAttempts (AlertStatus)

structure Config where
  gates : ApiGates.Settings
  retriagePerDay : Nat
  jobs : JobConfig

structure Request where
  headers : ApiGates.Request
  /-- `datetime.now(UTC)`. -/
  now : Instant
  redis : Option Exchange

inductive Raised where
  | signature (e : ApiGates.Raised)
  | queueUnavailable (message : PyStr)
  | rateLimited (e : RateLimitedError)

def retriageCounterTtl : Rat := 172800

def retriageKey (now : Instant) : PyStr := str "retriage:" ++ now.dateText

def unavailable : Raised := .queueUnavailable (str "retriage counter unavailable")

def checkDailyRetriageCap (retriagePerDay : Nat) (r : Request) (s : Store PyStr) :
    Except Raised Unit × Store PyStr :=
  match r.redis with
  | none => (.error unavailable, s)
  | some exchange =>
    let executed := incrExpire (retriageKey r.now) 1 retriageCounterTtl s exchange
    match executed.1 with
    | none => (.error unavailable, executed.2)
    | some count =>
      if retriagePerDay < count then
        (.error (.rateLimited ⟨str "daily retriage cap exceeded", none⟩), executed.2)
      else (.ok (), executed.2)

/-- The token check of the route and the first line of its body. -/
def passGates (cfg : Config) (r : Request) (s : Store PyStr) : Except Raised Unit × Store PyStr :=
  match ApiGates.requireAdminToken cfg.gates r.headers with
  | .error e => (.error (.signature e), s)
  | .ok () => checkDailyRetriageCap cfg.retriagePerDay r s

structure Ticket where
  id : Nat
  alert : Nat
  request : Request

structure State where
  queue : Queue := {}
  store : Store PyStr := fun _ => none
  clock : Rat := 0
  /-- Requests that passed the cap and have not come to their transaction. -/
  waiting : List Ticket := []
  /-- History: the requests that were counted, with their hits, and those that flipped a row. -/
  charges : List (Ticket × Hit PyStr) := []
  flips : List Ticket := []

inductive Event where
  | arrive (t : Ticket)
  | lookup (i : Nat)
  | other (e : WorkerJobs.Event)

def State.admitted (s : State) (t : Ticket) (outcome : Except Raised Unit) : State :=
  match outcome with
  | .ok () => { s with waiting := s.waiting ++ [t] }
  | .error _ => s

def State.counted (s : State) (t : Ticket) (time : Rat) (store : Store PyStr) : State :=
  let key := retriageKey t.request.now
  { s with store := store, clock := time,
           charges := s.charges ++ [(t, ⟨key, 1, time, read s.store key time + 1⟩)] }

def Request.charge (cfg : Config) (r : Request) : Option Rat :=
  match ApiGates.requireAdminToken cfg.gates r.headers with
  | .error _ => none
  | .ok () => r.redis.bind Exchange.time

def Reopened (before after : Queue) (alert : Nat) : Prop :=
  (∃ status, (before.entries alert).row = some status ∧ status ≠ .pending) ∧
    (after.entries alert).row = some .pending

instance (before after : Queue) (alert : Nat) : Decidable (Reopened before after alert) :=
  decidable_of_iff ((before.entries alert).row.any (· ≠ .pending) = true ∧
    (after.entries alert).row = some .pending) (by simp [Reopened, Option.any_eq_true])

def step (cfg : Config) (s : State) : Event → Option State
  | .arrive t =>
    let outcome := passGates cfg t.request s.store
    match t.request.charge cfg with
    | none => some (s.admitted t outcome.1)
    | some time =>
      if time < s.clock then none
      else some ((s.counted t time outcome.2).admitted t outcome.1)
  | .lookup i => match s.waiting[i]? with
    | none => none
    | some t => match WorkerJobs.step cfg.jobs s.queue (.retriage t.id t.alert false) with
      | none => none
      | some queue => some { s with
          queue := queue
          waiting := s.waiting.eraseIdx i
          flips := if Reopened s.queue queue t.alert then s.flips ++ [t] else s.flips }
  | .other (.retriage _ _ _) => none
  | .other e => (WorkerJobs.step cfg.jobs s.queue e).map fun queue => { s with queue := queue }

variable {cfg : Config} {s s' : State} {r : Request} {t : Ticket} {time : Rat} {day : Nat}

def charged (day : Nat) (s : State) : List (Ticket × Hit PyStr) :=
  s.charges.filter fun c => c.1.request.now.day = day

def dated (day : Nat) (tickets : List Ticket) : List Ticket :=
  tickets.filter fun t => t.request.now.day = day

theorem token_borne {req : ApiGates.Request}
    (passed : ApiGates.requireAdminToken cfg.gates req = .ok ()) :
    ApiGates.Bears cfg.gates req := by
  rw [ApiGates.bears_iff]
  simp only [ApiGates.requireAdminToken] at passed
  split at passed
  · cases passed
  · rename_i idle
    simp only [ne_eq, Bool.or_eq_true, List.isEmpty_iff, decide_eq_true_eq, not_or, not_not] at idle
    refine ⟨idle.1, Prod.ext idle.2 ?_⟩
    cases compared : ApiGates.compareDigest _ _ with
    | error e =>
      rw [compared] at passed
      cases passed
    | ok same =>
      rw [compared] at passed
      cases same with
      | false => cases passed
      | true =>
        unfold ApiGates.compareDigest at compared
        split at compared
        · exact beq_iff_eq.mp (Except.ok.inj compared)
        · cases compared

theorem passGates_free (free : r.charge cfg = none) (store : Store PyStr) :
    (passGates cfg r store).2 = store ∧ (passGates cfg r store).1 ≠ .ok () ∧
      ∀ e, (passGates cfg r store).1 ≠ .error (.rateLimited e) := by
  unfold Request.charge at free
  unfold passGates
  split at free
  · rename_i refused
    simp
  · rename_i passed
    simp only [checkDailyRetriageCap]
    cases wired : r.redis with
    | none => simp [unavailable]
    | some exchange =>
      rw [wired, Option.bind_some] at free
      cases exchange with
      | unreachable => simp [incrExpire, unavailable]
      | lost time | answered time => cases free

theorem passGates_charged (charge : r.charge cfg = some time) (store : Store PyStr) :
    ApiGates.Bears cfg.gates r.headers ∧
      passGates cfg r store =
        (match r.redis with
          | some (.answered _) =>
            if cfg.retriagePerDay < read store (retriageKey r.now) time + 1
            then .error (.rateLimited ⟨str "daily retriage cap exceeded", none⟩) else .ok ()
          | _ => .error unavailable,
        bump store (retriageKey r.now) 1 retriageCounterTtl time) := by
  unfold Request.charge at charge
  split at charge
  · cases charge
  · rename_i passed
    refine ⟨token_borne passed, ?_⟩
    obtain ⟨exchange, wired, executed⟩ := Option.bind_eq_some_iff.mp charge
    simp only [passGates, passed, checkDailyRetriageCap, wired]
    cases exchange with
    | unreachable => cases executed
    | lost at_ =>
      cases executed
      rfl
    | answered at_ =>
      cases executed
      simp only [incrExpire]
      split <;> rfl

structure Sound (cfg : Config) (s : State) : Prop where
  counted : Counted retriageCounterTtl s.store (s.charges.map Prod.snd) s.clock
  shaped : ∀ c ∈ s.charges, c.2.key = retriageKey c.1.request.now ∧ c.2.amount = 1
  jobs : Reach (WorkerJobs.step cfg.jobs) anyStep {} s.queue
  borne : ∀ t ∈ s.waiting ++ s.flips, ApiGates.Bears cfg.gates t.request.headers
  /-- Every request that passed the cap has a hit of its own within it. -/
  room : ∀ key, (s.waiting ++ s.flips).countP (fun t => retriageKey t.request.now = key) ≤
    within key cfg.retriagePerDay (s.charges.map Prod.snd)

theorem sound_refused (sound : Sound cfg s) {outcome : Except Raised Unit}
    (refused : outcome ≠ .ok ()) : Sound cfg (s.admitted t outcome) := by
  cases outcome with
  | ok u => exact absurd rfl refused
  | error e => exact sound

theorem counted_sound (sound : Sound cfg s) (t : Ticket) (le : s.clock ≤ time) :
    Sound cfg (s.counted t time
      (bump s.store (retriageKey t.request.now) 1 retriageCounterTtl time)) where
  counted := by
    simp only [State.counted, List.map_append, List.map_singleton]
    exact .hit (.later sound.counted le) _ 1
  shaped := by
    refine List.forall_mem_append.mpr ⟨sound.shaped, ?_⟩
    rw [List.forall_mem_singleton]
    exact ⟨rfl, rfl⟩
  jobs := sound.jobs
  borne := sound.borne
  room key := by
    simp only [State.counted, List.map_append, List.map_singleton, within_concat]
    exact (sound.room key).trans (Nat.le_add_right _ _)

theorem sound_admitted (sound : Sound cfg s) (le : s.clock ≤ time)
    (bears : ApiGates.Bears cfg.gates t.request.headers)
    (within_cap : read s.store (retriageKey t.request.now) time + 1 ≤ cfg.retriagePerDay) :
    Sound cfg ((s.counted t time (bump s.store (retriageKey t.request.now) 1 retriageCounterTtl
      time)).admitted t (.ok ())) where
  counted := (counted_sound sound t le).counted
  shaped := (counted_sound sound t le).shaped
  jobs := sound.jobs
  borne := by
    have earlier := List.forall_mem_append.mp sound.borne
    simp only [State.admitted, State.counted, List.forall_mem_append, List.forall_mem_singleton]
    exact ⟨⟨earlier.1, bears⟩, earlier.2⟩
  room key := by
    have room := sound.room key
    simp only [State.admitted, State.counted, List.map_append, List.map_singleton, within_concat,
      List.countP_append, List.countP_singleton, decide_eq_true_eq] at room ⊢
    split
    · rename_i own
      rw [if_pos ⟨own, within_cap⟩]
      omega
    · omega

theorem arrive_sound (sound : Sound cfg s) (taken : step cfg s (.arrive t) = some s') :
    Sound cfg s' := by
  simp only [step] at taken
  cases charge : t.request.charge cfg with
  | none =>
    rw [charge] at taken
    cases taken
    exact sound_refused sound (passGates_free charge s.store).2.1
  | some time =>
    rw [charge] at taken
    simp only at taken
    split at taken
    · cases taken
    · rename_i order
      have le := not_lt.mp order
      cases taken
      obtain ⟨bears, eq⟩ := passGates_charged charge s.store
      rw [eq]
      have refused := counted_sound sound t le
      split
      · split
        · exact refused
        · rename_i fits
          exact sound_admitted sound le bears (not_lt.mp fits)
      · exact refused

theorem lookup_sound {i : Nat} (sound : Sound cfg s) (taken : step cfg s (.lookup i) = some s') :
    Sound cfg s' := by
  simp only [step] at taken
  cases found : s.waiting[i]? with
  | none =>
    rw [found] at taken
    cases taken
  | some t =>
    rw [found] at taken
    simp only at taken
    cases next : WorkerJobs.step cfg.jobs s.queue (.retriage t.id t.alert false) with
    | none =>
      rw [next] at taken
      cases taken
    | some queue =>
      rw [next] at taken
      cases taken
      obtain ⟨short, rfl⟩ := List.getElem?_eq_some_iff.mp found
      have moved : (s.waiting.eraseIdx i ++ if Reopened s.queue queue s.waiting[i].alert
          then s.flips ++ [s.waiting[i]] else s.flips).Subperm (s.waiting ++ s.flips) := by
        have whole := (List.getElem_cons_eraseIdx_perm short).append_right s.flips
        split
        · have shifted : (s.waiting.eraseIdx i ++ (s.flips ++ [s.waiting[i]])).Perm
              (s.waiting[i] :: s.waiting.eraseIdx i ++ s.flips) := by
            rw [← List.append_assoc]
            exact List.perm_append_singleton _ _
          exact (shifted.trans whole).subperm
        · exact (List.sublist_cons_self _ _).subperm.trans whole.subperm
      refine ⟨sound.counted, sound.shaped, .next sound.jobs trivial next, ?_, fun key => ?_⟩
      · exact fun t member => sound.borne t (moved.subset member)
      · exact (moved.countP_le _).trans (sound.room key)

theorem other_step {e : WorkerJobs.Event} (taken : step cfg s (.other e) = some s') :
    ∃ queue, WorkerJobs.step cfg.jobs s.queue e = some queue ∧ s' = { s with queue := queue } ∧
      ∀ r a capped, e ≠ .retriage r a capped := by
  cases e with
  | retriage r a capped => cases taken
  | ingest r a | enqueue r | job a e | tick seconds =>
    simp only [step, Option.map_eq_some_iff] at taken
    obtain ⟨queue, next, rfl⟩ := taken
    exact ⟨queue, next, rfl, fun _ _ _ same => by cases same⟩

theorem step_sound {e : Event} (sound : Sound cfg s) (taken : step cfg s e = some s') :
    Sound cfg s' := by
  cases e with
  | arrive t => exact arrive_sound sound taken
  | lookup i => exact lookup_sound sound taken
  | other e =>
    obtain ⟨queue, next, rfl, -⟩ := other_step taken
    exact ⟨sound.counted, sound.shaped, .next sound.jobs trivial next, sound.borne, sound.room⟩

theorem reach_sound {start : Rat} (reached : Reach (step cfg) anyStep { clock := start } s) :
    Sound cfg s := by
  refine reach_invariant (Sound cfg) ?_ ?_ reached
  · exact ⟨.empty start, by simp, .start, by simp, fun key => Nat.zero_le _⟩
  · exact fun _ _ _ sound _ taken => step_sound sound taken

theorem jobStep_row {now : Nat} {x y : Entry} {e : JobEvent}
    (taken : jobStep cfg.jobs now x e = some y) : y.row = x.row ∨ y.row ≠ some .pending := by
  cases e <;> simp only [jobStep] at taken <;> repeat' split at taken
  all_goals cases taken
  all_goals first | exact .inl rfl | exact .inr (by simp)

theorem not_reopened {q q' : Queue} {a : Nat} (same : (q'.entries a).row = (q.entries a).row) :
    ¬ Reopened q q' a := by
  rintro ⟨⟨status, row, differs⟩, pending⟩
  rw [same, row] at pending
  exact differs (Option.some.inj pending)

theorem entries_setEntry (q : Queue) (a b : Nat) (x : Entry) :
    ((q.setEntry a x).entries b).row = if b = a then x.row else (q.entries b).row := by
  simp only [Queue.setEntry, Function.update_apply]
  split <;> rfl

theorem reopened_set {q q' : Queue} {a b : Nat} {x : Entry} (reopened : Reopened q q' a)
    (set : q'.entries = (q.setEntry b x).entries) :
    a = b ∧ x.row = some .pending ∧ (q.entries b).row ≠ none := by
  have rows := entries_setEntry q b a x
  rw [← set] at rows
  by_cases same : a = b
  · subst same
    rw [if_pos rfl] at rows
    obtain ⟨⟨status, row, -⟩, pending⟩ := reopened
    exact ⟨rfl, rows ▸ pending, by simp [row]⟩
  · rw [if_neg same] at rows
    exact absurd reopened (not_reopened rows)

theorem retriage_reopened {q q' : Queue} {r a b : Nat} {capped : Bool}
    (taken : WorkerJobs.step cfg.jobs q (.retriage r b capped) = some q')
    (reopened : Reopened q q' a) : a = b := by
  simp only [WorkerJobs.step] at taken
  split at taken
  · cases taken
    unfold Queue.retriageAlert at reopened
    split at reopened
    · exact absurd reopened (not_reopened rfl)
    · split at reopened
      · exact absurd reopened (not_reopened rfl)
      · exact absurd reopened (not_reopened rfl)
      · split at reopened
        · exact absurd reopened (not_reopened rfl)
        · exact (reopened_set reopened rfl).1
  · cases taken

theorem other_reopened {q q' : Queue} {e : WorkerJobs.Event} {a : Nat}
    (other : ∀ r a capped, e ≠ .retriage r a capped)
    (taken : WorkerJobs.step cfg.jobs q e = some q') : ¬ Reopened q q' a := by
  intro reopened
  cases e with
  | ingest r b =>
    simp only [WorkerJobs.step, Queue.ingestAlert] at taken
    split at taken
    · split at taken
      · rename_i row
        cases taken
        exact (reopened_set reopened rfl).2.2 row
      · cases taken
        exact not_reopened rfl reopened
      · cases taken
        exact not_reopened rfl reopened
    · cases taken
  | retriage r b capped => exact other r b capped rfl
  | enqueue r =>
    simp only [WorkerJobs.step] at taken
    split at taken
    · rename_i b answer request
      cases taken
      obtain ⟨rfl, pending, -⟩ := reopened_set reopened rfl
      obtain ⟨⟨status, row, differs⟩, -⟩ := reopened
      exact differs (Option.some.inj (row.symm.trans pending))
    · cases taken
  | job b e =>
    obtain ⟨y, stepped, rfl⟩ := Option.map_eq_some_iff.mp taken
    obtain ⟨rfl, pending, -⟩ := reopened_set reopened rfl
    rcases jobStep_row stepped with kept | written
    · obtain ⟨⟨status, row, differs⟩, -⟩ := reopened
      exact differs (Option.some.inj (row.symm.trans (kept.symm.trans pending)))
    · exact written pending
  | tick seconds =>
    cases taken
    exact not_reopened rfl reopened

/-- A row leaves `triaged` or `failed` for `pending` only in a counted request's transaction. -/
theorem reopened_flip {e : Event} {a : Nat} (taken : step cfg s e = some s')
    (reopened : Reopened s.queue s'.queue a) :
    ∃ t ∈ s.waiting, t.alert = a ∧ s'.flips = s.flips ++ [t] := by
  cases e with
  | arrive t =>
    have same : s'.queue = s.queue := by
      simp only [step] at taken
      split at taken
      · cases taken
        cases (passGates cfg t.request s.store).1 <;> rfl
      · split at taken
        · cases taken
        · cases taken
          cases (passGates cfg t.request s.store).1 <;> rfl
    rw [same] at reopened
    exact absurd reopened (not_reopened rfl)
  | lookup i =>
    simp only [step] at taken
    split at taken
    · cases taken
    · rename_i t found
      split at taken
      · cases taken
      · rename_i queue next
        cases taken
        obtain rfl := retriage_reopened next reopened
        refine ⟨t, List.mem_of_getElem? found, rfl, ?_⟩
        exact if_pos reopened
  | other e =>
    obtain ⟨queue, next, rfl, other⟩ := other_step taken
    exact absurd reopened (other_reopened other next)

structure Capped (cfg : Config) (s : State) : Prop where
  /-- The alerts and their jobs run as without it. -/
  jobs : Reach (WorkerJobs.step cfg.jobs) anyStep {} s.queue
  borne : ∀ t ∈ s.flips, ApiGates.Bears cfg.gates t.request.headers
  /-- In `n` times two days of Redis's clock at most `n` caps of rows are flipped for one date. -/
  bounded : ∀ (now : Instant) (t₀ : Rat) (n : Nat),
    (∀ c ∈ charged now.day s, t₀ ≤ c.2.time ∧ c.2.time < t₀ + n * retriageCounterTtl) →
    (dated now.day s.flips).length ≤ n * cfg.retriagePerDay
  reopened : ∀ e s' a, step cfg s e = some s' → Reopened s.queue s'.queue a →
    ∃ t ∈ s.waiting, t.alert = a ∧ s'.flips = s.flips ++ [t]
  /-- A request refused by the cap comes after as many of its date. -/
  earned : ∀ r : Request, ∀ e, (passGates cfg r s.store).1 = .error (.rateLimited e) →
    cfg.retriagePerDay ≤ (charged r.now.day s).length
  /-- Within two days exactly the first requests of a date pass. -/
  exact : ∀ r : Request, ∀ time, r.charge cfg = some time → r.redis = some (.answered time) →
    s.clock ≤ time → (∀ c ∈ charged r.now.day s, time ≤ c.2.time + retriageCounterTtl) →
    ((passGates cfg r s.store).1 = .ok () ↔ (charged r.now.day s).length < cfg.retriagePerDay)

theorem retriageKey_iff (m n : Instant) : retriageKey m = retriageKey n ↔ m.day = n.day :=
  dateText_iff (str "retriage:") m n

theorem keyed_charged (sound : Sound cfg s) (now : Instant) :
    keyed (retriageKey now) (s.charges.map Prod.snd) = (charged now.day s).map Prod.snd := by
  rw [keyed, charged, List.filter_map]
  congr 1
  refine List.filter_congr fun c member => ?_
  simp only [Function.comp, (sound.shaped c member).1, retriageKey_iff]

theorem added_charged (sound : Sound cfg s) (now : Instant) :
    added (retriageKey now) (s.charges.map Prod.snd) = (charged now.day s).length := by
  rw [added, keyed_charged sound, List.map_map]
  have ones : (charged now.day s).map (Hit.amount ∘ Prod.snd) =
      List.replicate (charged now.day s).length 1 := by
    rw [List.eq_replicate_iff, List.length_map]
    refine ⟨rfl, fun amount member => ?_⟩
    obtain ⟨c, inside, rfl⟩ := List.mem_map.mp member
    exact (sound.shaped c (List.mem_of_mem_filter inside)).2
  rw [ones, List.sum_replicate_nat, Nat.mul_one]

theorem dated_room (sound : Sound cfg s) (now : Instant) :
    (dated now.day s.flips).length ≤
      within (retriageKey now) cfg.retriagePerDay (s.charges.map Prod.snd) := by
  refine le_trans ?_ (sound.room (retriageKey now))
  simp only [dated, ← List.countP_eq_length_filter, List.countP_append, retriageKey_iff]
  exact Nat.le_add_left _ _

theorem sound_capped (sound : Sound cfg s) : Capped cfg s where
  jobs := sound.jobs
  borne := (List.forall_mem_append.mp sound.borne).2
  bounded now t₀ n window := by
    have positive : (0 : Rat) < retriageCounterTtl := by norm_num [retriageCounterTtl]
    refine (dated_room sound now).trans (within_le sound.counted _ n t₀ positive ?_ ?_)
    · intro h member own
      obtain ⟨c, inside, rfl⟩ := List.mem_map.mp member
      exact (sound.shaped c inside).2
    · intro h member own
      have keyed := mem_keyed.mpr ⟨member, own⟩
      rw [keyed_charged sound] at keyed
      obtain ⟨c, inside, rfl⟩ := List.mem_map.mp keyed
      exact window c inside
  reopened _ _ _ taken reopened := reopened_flip taken reopened
  earned r e refused := by
    cases charge : r.charge cfg with
    | none => exact absurd refused ((passGates_free charge s.store).2.2 e)
    | some time =>
      have least := read_le_added sound.counted (retriageKey r.now) time
      rw [(passGates_charged charge s.store).2] at refused
      rw [added_charged sound] at least
      split at refused
      · split at refused
        · omega
        · cases refused
      · cases refused
  exact r time charge answered le recent := by
    have count : read s.store (retriageKey r.now) time = (charged r.now.day s).length := by
      rw [← added_charged sound]
      refine read_exact sound.counted le fun h member own => ?_
      have keyed := mem_keyed.mpr ⟨member, own⟩
      rw [keyed_charged sound] at keyed
      obtain ⟨c, inside, rfl⟩ := List.mem_map.mp keyed
      exact recent c inside
    rw [(passGates_charged charge s.store).2, answered, count]
    simp only
    split
    · simp only [reduceCtorEq, false_iff]
      omega
    · simp only [true_iff]
      omega

/-- In every run the rows are flipped by counted requests with the token, so many a date. -/
theorem retriage_capped (cfg : Config) (start : Rat) {s : State}
    (reached : Reach (step cfg) anyStep { clock := start } s) : Capped cfg s :=
  sound_capped (reach_sound reached)

theorem sampleBytes_pos : (1 : Int) ≤ 2000000 := by decide

theorem sampleTries_pos : 0 < 3 := by decide

theorem sampleTime_inside : 0 < limit := by decide

def sampleConfig : Config :=
  { gates := ⟨2000000, str "k", str "t", sampleBytes_pos⟩, retriagePerDay := 1, jobs := ⟨3, sampleTries_pos⟩ }

def sampleTicket (id : Nat) : Ticket :=
  let headers : ApiGates.Request :=
    { contentLength := none, xSignature := none, body := [],
      authorization := some [0x42, 0x65, 0x61, 0x72, 0x65, 0x72, 0x20, 0x74] }
  ⟨id, 7, headers, ⟨0, sampleTime_inside⟩, some (.answered id)⟩

/-- An alert is triaged and two requests ask for it again, one more than the cap. -/
def sampleEvents : List Event :=
  [.other (.ingest 0 7), .other (.enqueue 0), .other (.job 7 .pickUp), .other (.job 7 .readRow),
    .other (.job 7 .succeed), .arrive (sampleTicket 1), .arrive (sampleTicket 2),
    .other (.job 7 .finish), .lookup 0]

def sampleRun : Option State := run (step sampleConfig) {} sampleEvents

theorem sampleRun_flipped :
    sampleRun.isSome = true ∧ (sampleRun.getD {}).flips.map Ticket.id = [1] ∧
      (sampleRun.getD {}).charges.map (fun c => c.2.total) = [1, 2] ∧
      ((sampleRun.getD {}).queue.entries 7).row = some .pending := by
  decide +kernel

theorem retriage_capped_twice :
    (sampleRun.getD {}).flips.map Ticket.id = [1] ∧ Capped sampleConfig (sampleRun.getD {}) := by
  obtain ⟨s, eq⟩ := Option.isSome_iff_exists.mp sampleRun_flipped.1
  refine ⟨sampleRun_flipped.2.1, retriage_capped sampleConfig 0 ?_⟩
  rw [eq, Option.getD_some]
  exact run_reaches Reach.start eq

end ApiRetriage
