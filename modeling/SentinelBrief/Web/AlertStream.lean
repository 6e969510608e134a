import SentinelBrief.Library.Runs

/-!
The subscribing effect of `useAlertStream` (`web/src/hooks/useAlertStream.ts`) over
the browser's timers. Timer ids are never given twice; `onUpdate` returns. A closed
`EventSource` delivers no event.
-/
namespace WebAlertStream
open StepRuns

inductive StreamStatus where
  | connecting
  | live
  | polling
  deriving DecidableEq, Repr

/-- The timers that are scheduled, and the variables and effects of the hook. -/
structure Page where
  nextTimer : Nat := 1
  intervals : List Nat := []
  timeouts : List Nat := []
  pollTimer : Option Nat := none
  settleTimer : Option Nat := none
  status : StreamStatus := .connecting
  updates : Nat := 0
  onUpdateCalls : Nat := 0
  closed : Bool := false
  deriving DecidableEq, Repr

inductive Event where
  | opened
  | error
  | verdictCreated
  | interval (id : Nat)
  | timeout (id : Nat)
  | unmount
  deriving DecidableEq, Repr

/-- `clearInterval` and `clearTimeout`, which end any timer. -/
def Page.clear (p : Page) (id : Nat) : Page :=
  { p with intervals := p.intervals.filter fun i => i ≠ id,
           timeouts := p.timeouts.filter fun i => i ≠ id }

def Page.onUpdate (p : Page) : Page := { p with onUpdateCalls := p.onUpdateCalls + 1 }

def Page.stopPolling (p : Page) : Page :=
  match p.pollTimer with
  | some id => { p.clear id with pollTimer := none }
  | none => p

def Page.stopSettle (p : Page) : Page :=
  match p.settleTimer with
  | some id => { p.clear id with settleTimer := none }
  | none => p

def Page.setSettle (p : Page) : Page :=
  { p with timeouts := p.timeouts ++ [p.nextTimer], settleTimer := some p.nextTimer,
           nextTimer := p.nextTimer + 1 }

def Page.setPoll (p : Page) : Page :=
  { p with intervals := p.intervals ++ [p.nextTimer], pollTimer := some p.nextTimer,
           nextTimer := p.nextTimer + 1 }

def Page.onOpen (p : Page) : Page := { p with status := .live }.stopPolling

def Page.onVerdict (p : Page) : Page :=
  { p with updates := p.updates + 1 }.onUpdate.stopSettle.setSettle

def Page.onError (p : Page) : Page :=
  let p := { p with status := .polling }
  if p.pollTimer = none then p.setPoll else p

def Page.cleanup (p : Page) : Page := { p with closed := true }.stopPolling.stopSettle

/-- None: the event does not happen. A timeout is over when it fires. -/
def deliver (p : Page) : Event → Option Page
  | .opened => if p.closed then none else some p.onOpen
  | .error => if p.closed then none else some p.onError
  | .verdictCreated => if p.closed then none else some p.onVerdict
  | .interval id => if id ∈ p.intervals then some p.onUpdate else none
  | .timeout id =>
    if id ∈ p.timeouts then
      some { p with timeouts := p.timeouts.filter fun i => i ≠ id }.onUpdate
    else none
  | .unmount => if p.closed then none else some p.cleanup

def lastOf (read : Event → Option Bool) (events : List Event) : Option Bool :=
  (events.filterMap read).getLast?

def connectionSays : Event → Option Bool
  | .opened => some false
  | .error => some true
  | _ => none

def settlingSays : Event → Option Bool
  | .verdictCreated => some true
  | .timeout _ => some false
  | _ => none

def Event.isVerdict : Event → Bool
  | .verdictCreated => true
  | _ => false

def Event.isTimeout : Event → Bool
  | .timeout _ => true
  | _ => false

def Event.isInterval : Event → Bool
  | .interval _ => true
  | _ => false

structure Kept (events : List Event) (p : Page) : Prop where
  onePoll : p.intervals.length ≤ 1
  oneSettle : p.timeouts.length ≤ 1
  polling : p.closed = false → (p.intervals ≠ [] ↔ lastOf connectionSays events = some true)
  settling : p.closed = false → (p.timeouts ≠ [] ↔ lastOf settlingSays events = some true)
  calls : p.onUpdateCalls = events.countP Event.isVerdict + events.countP Event.isTimeout +
    events.countP Event.isInterval
  settled : ∀ before later id, events = before ++ .timeout id :: later →
    lastOf settlingSays before = some true
  unmounted : p.closed = true → p.intervals = [] ∧ p.timeouts = []
  quiet : ∀ before later, events = before ++ .unmount :: later → later = []

structure Mounted (connected settled : Option Bool) (p : Page) : Prop where
  intervals : p.intervals = p.pollTimer.toList
  timeouts : p.timeouts = if settled = some true then p.settleTimer.toList else []
  pending : settled = some true → p.settleTimer ≠ none
  polling : p.pollTimer ≠ none ↔ connected = some true
  apart : ∀ id ∈ p.pollTimer, id < p.nextTimer ∧ p.settleTimer ≠ some id
  fresh : ∀ id ∈ p.settleTimer, id < p.nextTimer

theorem lastOf_concat (read : Event → Option Bool) (events : List Event) (e : Event) :
    lastOf read (events ++ [e]) = (read e).orElse fun _ => lastOf read events := by
  rw [lastOf, List.filterMap_append, List.getLast?_append, lastOf]
  cases said : read e <;> simp [said]

theorem clear_other {l : List Nat} {id : Nat} (absent : id ∉ l) : l.filter (fun i => i ≠ id) = l := by
  rw [List.filter_eq_self]
  intro i member
  simpa using fun same : i = id => absent (same ▸ member)

theorem stopPolling_eq {p : Page} (scheduled : p.intervals = p.pollTimer.toList)
    (apart : ∀ id ∈ p.pollTimer, id ∉ p.timeouts) :
    p.stopPolling = { p with intervals := [], pollTimer := none } := by
  rcases p with ⟨next, intervals, timeouts, _ | id, settle, status, updates, calls, closed⟩
  · dsimp only [Option.toList_none] at scheduled
    rw [scheduled]
    rfl
  · dsimp only [Option.toList_some] at scheduled
    simp only [Page.stopPolling, Page.clear, scheduled, clear_other (apart id rfl)]
    simp

theorem stopSettle_eq {p : Page} (scheduled : ∀ id ∈ p.timeouts, p.settleTimer = some id)
    (apart : ∀ id ∈ p.settleTimer, id ∉ p.intervals) :
    p.stopSettle = { p with timeouts := [], settleTimer := none } := by
  rcases p with ⟨next, intervals, timeouts, poll, _ | id, status, updates, calls, closed⟩
  · have idle : timeouts = [] := by
      apply List.eq_nil_iff_forall_not_mem.mpr
      intro id member
      cases scheduled id member
    rw [idle]
    rfl
  · have only : timeouts.filter (fun i => i ≠ id) = [] := by
      rw [List.filter_eq_nil_iff]
      intro i member
      simpa using (Option.some.inj (scheduled i member)).symm
    simp only [Page.stopSettle, Page.clear, only, clear_other (apart id rfl)]

section Mounted
variable {connected settled : Option Bool} {p : Page} (m : Mounted connected settled p)
include m

theorem timeouts_named : ∀ id ∈ p.timeouts, p.settleTimer = some id := by
  intro id member
  rw [m.timeouts] at member
  split at member
  · simpa using member
  · cases member

theorem poll_apart : ∀ id ∈ p.pollTimer, id ∉ p.timeouts :=
  fun id polled member => (m.apart id polled).2 (timeouts_named m id member)

theorem settle_apart : ∀ id ∈ p.settleTimer, id ∉ p.intervals := by
  intro id named member
  rw [m.intervals, Option.mem_toList] at member
  exact (m.apart id member).2 named

theorem onOpen_eq :
    p.onOpen = { p with status := .live, intervals := [], pollTimer := none } := by
  have apart := poll_apart m
  apply stopPolling_eq
  · exact m.intervals
  · exact apart

theorem onVerdict_eq :
    p.onVerdict = { p with
      updates := p.updates + 1, onUpdateCalls := p.onUpdateCalls + 1, timeouts := [p.nextTimer],
      settleTimer := some p.nextTimer, nextTimer := p.nextTimer + 1 } := by
  have named := timeouts_named m
  have apart := settle_apart m
  have stopped : { p with updates := p.updates + 1 }.onUpdate.stopSettle =
      { p with updates := p.updates + 1, onUpdateCalls := p.onUpdateCalls + 1,
               timeouts := [], settleTimer := none } := by
    apply stopSettle_eq
    · exact named
    · exact apart
  rw [Page.onVerdict, stopped]
  rfl

theorem cleanup_eq : p.cleanup = { p with
    closed := true, intervals := [], timeouts := [], pollTimer := none, settleTimer := none } := by
  have named := timeouts_named m
  have apart := poll_apart m
  have stopped : { p with closed := true }.stopPolling =
      { p with closed := true, intervals := [], pollTimer := none } := by
    apply stopPolling_eq
    · exact m.intervals
    · exact apart
  rw [Page.cleanup, stopped]
  apply stopSettle_eq
  · exact named
  · simp

theorem mounted_opened : Mounted (some false) settled p.onOpen := by
  rw [onOpen_eq m]
  exact { m with intervals := rfl, polling := by simp, apart := by simp }

theorem mounted_error : Mounted (some true) settled p.onError := by
  cases poll : p.pollTimer with
  | none =>
    have started : p.onError = { p with
        status := .polling, intervals := p.intervals ++ [p.nextTimer],
        pollTimer := some p.nextTimer, nextTimer := p.nextTimer + 1 } := by
      simp [Page.onError, poll, Page.setPoll]
    have idle : p.intervals = [] := by rw [m.intervals, poll, Option.toList_none]
    rw [started, idle]
    refine { m with intervals := rfl, polling := by simp, apart := ?_, fresh := ?_ }
    · rintro id named
      cases named
      exact ⟨Nat.lt_succ_self _, fun same => lt_irrefl _ (m.fresh _ same)⟩
    · exact fun id named => Nat.lt_succ_of_lt (m.fresh id named)
  | some id =>
    have kept : p.onError = { p with status := .polling } := by simp [Page.onError, poll]
    rw [kept]
    exact { m with polling := by simp [poll] }

theorem mounted_verdict : Mounted connected (some true) p.onVerdict := by
  rw [onVerdict_eq m]
  refine { m with timeouts := rfl, pending := by simp, apart := ?_, fresh := ?_ }
  · intro id polled
    refine ⟨Nat.lt_succ_of_lt (m.apart id polled).1, fun same => ?_⟩
    cases same
    exact lt_irrefl _ (m.apart _ polled).1
  · rintro id named
    cases named
    exact Nat.lt_succ_self _

theorem mounted_interval : Mounted connected settled p.onUpdate := { m with }

/-- The variable keeps the id of a timeout that has fired. -/
theorem mounted_timeout {id : Nat} (scheduled : id ∈ p.timeouts) :
    Mounted connected (some false)
      { p with timeouts := p.timeouts.filter fun i => i ≠ id }.onUpdate := by
  have named := timeouts_named m id scheduled
  have ended : p.timeouts.filter (fun i => i ≠ id) = [] := by
    rw [List.filter_eq_nil_iff]
    intro i member
    simpa using Option.some.inj ((timeouts_named m i member).symm.trans named)
  rw [ended]
  exact { m with timeouts := rfl, pending := by simp }

end Mounted

theorem mounted_start : Mounted none none {} := by
  constructor <;> simp

def causes (events : List Event) : Nat :=
  events.countP Event.isVerdict + events.countP Event.isTimeout + events.countP Event.isInterval

structure Inv (events : List Event) (p : Page) : Prop where
  mounted : p.closed = false →
    Mounted (lastOf connectionSays events) (lastOf settlingSays events) p
  unmounted : p.closed = true → p.intervals = [] ∧ p.timeouts = []
  ended : .unmount ∈ events → p.closed = true
  calls : p.onUpdateCalls = causes events

theorem inv_start : Inv [] {} := by
  constructor
  · exact fun _ => mounted_start
  · simp
  · simp
  · rfl

theorem open_of_taken {events : List Event} {p p' : Page} {e : Event} (inv : Inv events p)
    (taken : deliver p e = some p') : p.closed = false := by
  cases shut : p.closed with
  | false => rfl
  | true =>
    obtain ⟨noInterval, noTimeout⟩ := inv.unmounted shut
    cases e <;> simp [deliver, shut, noInterval, noTimeout] at taken

theorem causes_concat (events : List Event) (e : Event) :
    causes (events ++ [e]) = causes events + match e with
      | .verdictCreated | .timeout _ | .interval _ => 1
      | _ => 0 := by
  cases e <;>
    simp [causes, List.countP_append, Event.isVerdict, Event.isTimeout, Event.isInterval] <;> omega

theorem inv_step {events : List Event} {p p' : Page} {e : Event} (inv : Inv events p)
    (taken : deliver p e = some p') : Inv (events ++ [e]) p' := by
  have mounted := open_of_taken inv taken
  have m := inv.mounted mounted
  have notEnded : .unmount ∉ events := fun member => by
    rw [inv.ended member] at mounted
    cases mounted
  have calls := inv.calls
  cases e with
  | opened =>
    simp only [deliver, mounted, Bool.false_eq_true, if_false, Option.some.injEq] at taken
    subst taken
    have next := mounted_opened m
    rw [onOpen_eq m] at next ⊢
    constructor
    · rw [lastOf_concat, lastOf_concat]
      exact fun _ => next
    · simp [mounted]
    · simp [notEnded]
    · rw [causes_concat]
      exact calls
  | error =>
    simp only [deliver, mounted, Bool.false_eq_true, if_false, Option.some.injEq] at taken
    subst taken
    have same : p.onError.closed = p.closed ∧ p.onError.onUpdateCalls = p.onUpdateCalls := by
      cases poll : p.pollTimer <;> simp [Page.onError, poll, Page.setPoll]
    constructor
    · rw [lastOf_concat, lastOf_concat]
      exact fun _ => mounted_error m
    · simp [same, mounted]
    · simp [notEnded]
    · rw [causes_concat, same.2]
      exact calls
  | verdictCreated =>
    simp only [deliver, mounted, Bool.false_eq_true, if_false, Option.some.injEq] at taken
    subst taken
    have next := mounted_verdict m
    rw [onVerdict_eq m] at next ⊢
    constructor
    · rw [lastOf_concat, lastOf_concat]
      exact fun _ => next
    · simp [mounted]
    · simp [notEnded]
    · rw [causes_concat, ← calls]
  | interval id =>
    simp only [deliver, Option.ite_none_right_eq_some, Option.some.injEq] at taken
    obtain ⟨_, rfl⟩ := taken
    constructor
    · rw [lastOf_concat, lastOf_concat]
      exact fun _ => mounted_interval m
    · simp [Page.onUpdate, mounted]
    · simp [notEnded]
    · rw [causes_concat, ← calls]
      rfl
  | timeout id =>
    simp only [deliver, Option.ite_none_right_eq_some, Option.some.injEq] at taken
    obtain ⟨scheduled, rfl⟩ := taken
    constructor
    · rw [lastOf_concat, lastOf_concat]
      exact fun _ => mounted_timeout m scheduled
    · simp [Page.onUpdate, mounted]
    · simp [notEnded]
    · rw [causes_concat, ← calls]
      rfl
  | unmount =>
    simp only [deliver, mounted, Bool.false_eq_true, if_false, Option.some.injEq] at taken
    subst taken
    rw [cleanup_eq m]
    constructor
    · simp
    · simp
    · simp
    · rw [causes_concat]
      exact calls

theorem concat_split {events before later : List Event} {e x : Event}
    (split : events ++ [e] = before ++ x :: later) :
    (later = [] ∧ events = before ∧ e = x) ∨
      ∃ rest, later = rest ++ [e] ∧ events = before ++ x :: rest := by
  rcases List.eq_nil_or_concat later with rfl | ⟨rest, last, rfl⟩
  · left
    obtain ⟨same, one⟩ := List.append_inj' split rfl
    exact ⟨rfl, same, List.singleton_inj.mp one⟩
  · right
    rw [List.concat_eq_append, ← List.cons_append, ← List.append_assoc] at split
    obtain ⟨same, one⟩ := List.append_inj' split rfl
    rw [List.concat_eq_append, List.singleton_inj.mp one]
    exact ⟨rest, rfl, same⟩

/-- A timeout that fires was set by a verdict event, the last of its kind. -/
theorem timeout_pending {events : List Event} {p p' : Page} {id : Nat} (inv : Inv events p)
    (taken : deliver p (.timeout id) = some p') : lastOf settlingSays events = some true := by
  have m := inv.mounted (open_of_taken inv taken)
  simp only [deliver, Option.ite_none_right_eq_some] at taken
  have member := taken.1
  rw [m.timeouts] at member
  split at member
  · assumption
  · cases member

structure Ordered (events : List Event) : Prop where
  settled : ∀ before later id, events = before ++ .timeout id :: later →
    lastOf settlingSays before = some true
  quiet : ∀ before later, events = before ++ .unmount :: later → later = []

theorem ordered_step {events : List Event} {p p' : Page} {e : Event} (inv : Inv events p)
    (ordered : Ordered events) (taken : deliver p e = some p') : Ordered (events ++ [e]) := by
  constructor
  · intro before later id split
    rcases concat_split split with ⟨_, rfl, rfl⟩ | ⟨rest, _, earlier⟩
    · exact timeout_pending inv taken
    · exact ordered.settled before rest id earlier
  · intro before later split
    rcases concat_split split with ⟨rfl, _⟩ | ⟨rest, _, earlier⟩
    · rfl
    · have shut := inv.ended (by rw [earlier]; simp)
      rw [open_of_taken inv taken] at shut
      cases shut

theorem run_inv (events : List Event) :
    ∀ p, run deliver {} events = some p → Inv events p ∧ Ordered events := by
  induction events using List.reverseRecOn with
  | nil =>
    intro p taken
    cases Option.some.inj taken
    exact ⟨inv_start, by simp, by simp⟩
  | append_singleton events e ih =>
    intro p taken
    rw [run_concat, Option.bind_eq_some_iff] at taken
    obtain ⟨before, earlier, last⟩ := taken
    obtain ⟨inv, ordered⟩ := ih before earlier
    exact ⟨inv_step inv last, ordered_step inv ordered last⟩

/-- In every state that events lead to. -/
theorem timers_kept (events : List Event) (p : Page) (taken : run deliver {} events = some p) :
    Kept events p := by
  obtain ⟨inv, ordered⟩ := run_inv events p taken
  cases shut : p.closed with
  | true =>
    obtain ⟨noInterval, noTimeout⟩ := inv.unmounted shut
    exact { onePoll := by simp [noInterval], oneSettle := by simp [noTimeout],
            polling := by simp [shut], settling := by simp [shut], calls := inv.calls,
            settled := ordered.settled, unmounted := inv.unmounted, quiet := ordered.quiet }
  | false =>
    have m := inv.mounted shut
    have onePoll : p.intervals.length ≤ 1 := by
      rw [m.intervals]
      cases p.pollTimer <;> simp
    have oneSettle : p.timeouts.length ≤ 1 := by
      rw [m.timeouts]
      cases p.settleTimer <;> split <;> simp
    have polling : p.intervals ≠ [] ↔ lastOf connectionSays events = some true := by
      rw [m.intervals, ← m.polling]
      cases p.pollTimer <;> simp
    have settling : p.timeouts ≠ [] ↔ lastOf settlingSays events = some true := by
      have pending := m.pending
      rw [m.timeouts]
      cases timer : p.settleTimer <;> simp_all
    exact { onePoll, oneSettle, polling := fun _ => polling, settling := fun _ => settling,
            calls := inv.calls, settled := ordered.settled, unmounted := inv.unmounted,
            quiet := ordered.quiet }

/-- An error, a verdict that settles while polling, and the end. -/
theorem timers_kept_session :
    let events : List Event := [.error, .verdictCreated, .interval 1, .timeout 2, .unmount]
    let p : Page := { nextTimer := 3, status := .polling, updates := 1, onUpdateCalls := 3,
                      closed := true }
    run deliver {} events = some p ∧ Kept events p :=
  ⟨by decide, timers_kept _ _ (by decide)⟩

end WebAlertStream
