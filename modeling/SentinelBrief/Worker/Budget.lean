import SentinelBrief.Library.Calendar
import SentinelBrief.Library.Counting
import SentinelBrief.Library.ExpiringCounters
import SentinelBrief.Library.Runs

/-!
The daily token budget (`core/budget.py`, `worker/budget.py`) under several jobs at once. A job
checks the counter, calls the model, and adds what the call cost; between the moment a job reads
its clock for the key and the moment Redis executes its command anything may happen.
-/
namespace WorkerBudget
open Utf8Text ExpiringCounters GregorianCalendar StepRuns Counting

def budgetCounterTtl : Rat := 172800

def budgetKey (now : Instant) : PyStr := str "budget:" ++ now.dateText

def readTokensToday (redis : Option Exchange) (key : PyStr) (s : Store PyStr) : Nat :=
  match redis with
  | some (.answered time) => (find s key time).getD 0
  | _ => 0

def checkAndWouldExceed (redis : Exchange) (key : PyStr) (budget wouldAddEstimate : Nat)
    (s : Store PyStr) : Bool :=
  if budget = 0 then false
  else budget ≤ readTokensToday (some redis) key s + wouldAddEstimate

/-- `record_tokens`; no total is an error of the client, which propagates. -/
def recordTokens (redis : Exchange) (key : PyStr) (tokens : Nat) (s : Store PyStr) :
    Option Nat × Store PyStr := incrExpire key tokens budgetCounterTtl s redis

inductive Slot where
  | idle
  /-- `budget_key` has read the clock; the `GET` is under way. -/
  | reading (now : Instant)
  | calling
  | recording (now : Instant) (tokens : Nat)

structure State (jobs : Nat) where
  now : Instant
  /-- Redis's clock. -/
  clock : Rat := 0
  store : Store PyStr := fun _ => none
  slots : Fin jobs → Slot := fun _ => .idle
  /-- History: the executed additions, and the dates whose counter a job failed to read. -/
  hits : List (Hit PyStr) := []
  blind : List Instant := []

inductive Event (jobs : Nat) where
  | check (i : Fin jobs)
  | read (i : Fin jobs) (redis : Exchange)
  | reply (i : Fin jobs) (tokens : Option Nat)
  | record (i : Fin jobs) (redis : Exchange)
  /-- A timeout, a cancellation or a crash. -/
  | stop (i : Fin jobs)
  | tick (now : Instant)

variable {jobs budget : Nat}

def State.setSlot (s : State jobs) (i : Fin jobs) (slot : Slot) : State jobs :=
  { s with slots := Function.update s.slots i slot }

def Exchange.failed : Exchange → Bool
  | .answered _ => false
  | _ => true

def step (budget : Nat) (s : State jobs) : Event jobs → Option (State jobs)
  | .check i => match s.slots i with
    | .idle => some (s.setSlot i (if budget = 0 then .calling else .reading s.now))
    | _ => none
  | .read i redis => match s.slots i with
    | .reading now =>
      if redis.time.any (· < s.clock) then none
      else
        let exceeds := checkAndWouldExceed redis (budgetKey now) budget 0 s.store
        some { s.setSlot i (if exceeds then .idle else .calling) with
          clock := redis.time.getD s.clock,
          blind := if Exchange.failed redis then s.blind ++ [now] else s.blind }
    | _ => none
  | .reply i tokens => match s.slots i with
    | .calling => some (s.setSlot i (tokens.elim .idle (.recording s.now)))
    | _ => none
  | .record i redis => match s.slots i with
    | .recording now tokens =>
      let key := budgetKey now
      match redis.time with
      | none => some { s.setSlot i .idle with store := (recordTokens redis key tokens s.store).2 }
      | some time =>
        if time < s.clock then none
        else some { s.setSlot i .idle with
          store := (recordTokens redis key tokens s.store).2, clock := time,
          hits := s.hits ++ [⟨key, tokens, time, ExpiringCounters.read s.store key time + tokens⟩] }
    | _ => none
  | .stop i => some (s.setSlot i .idle)
  | .tick now => if s.now.micros ≤ now.micros then some { s with now := now } else none

def Event.cost : Event jobs → Option Nat
  | .reply _ tokens => tokens
  | _ => none

def Event.answeredRead : Event jobs → Option (Fin jobs × Rat)
  | .read i (.answered time) => some (i, time)
  | _ => none

def Slot.asked : Slot → Option Instant
  | .reading now => some now
  | _ => none

/-- A counter is read no later than two days after each addition to it. -/
def Timely (s : State jobs) (e : Event jobs) : Prop :=
  ∀ r ∈ e.answeredRead, ∀ now ∈ (s.slots r.1).asked, ∀ h ∈ s.hits,
    h.key = budgetKey now → r.2 ≤ h.time + budgetCounterTtl

/-- No call costs more than `most`, and the readings are timely. -/
def Ordinary (most : Nat) (s : State jobs) (e : Event jobs) : Prop :=
  (∀ tokens ∈ e.cost, tokens ≤ most) ∧ Timely s e

instance (most : Nat) (s : State jobs) (e : Event jobs) : Decidable (Ordinary most s e) := by
  unfold Ordinary Timely
  infer_instance

def recordedOn (now : Instant) (s : State jobs) : Nat := added (budgetKey now) s.hits

def blindOn (now : Instant) (s : State jobs) : Nat := s.blind.countP fun other => other.day = now.day

/-- The job may still add to the day's counter without asking it. -/
def Slot.pending (today day : Nat) : Slot → Bool
  | .idle => false
  | .reading now => today ≤ day && now.day ≠ day
  | .calling => today ≤ day
  | .recording now _ => now.day = day

def pendingOn (s : State jobs) (now : Instant) : Nat :=
  ∑ i, ((s.slots i).pending s.now.day now.day).toNat

def Slot.Fits (today most : Nat) : Slot → Prop
  | .reading now => now.day ≤ today
  | .recording now tokens => now.day ≤ today ∧ tokens ≤ most
  | _ => True

structure Sound (budget most : Nat) (s : State jobs) : Prop where
  counted : Counted budgetCounterTtl s.store s.hits s.clock
  past : ∀ h ∈ s.hits, ∃ now : Instant, h.key = budgetKey now ∧ now.day ≤ s.now.day
  slots : ∀ i, (s.slots i).Fits s.now.day most
  /-- Each pending call, and each reading that failed, may exceed the budget by one call. -/
  room : ∀ now : Instant, now.day ≤ s.now.day →
    recordedOn now s + pendingOn s now * most ≤ budget - 1 + (jobs + blindOn now s) * most

variable {most : Nat} {s s' : State jobs} {i : Fin jobs} {slot : Slot}

theorem budgetKey_iff (m n : Instant) : budgetKey m = budgetKey n ↔ m.day = n.day :=
  dateText_iff (str "budget:") m n

theorem pendingOn_setSlot (s : State jobs) (i : Fin jobs) (slot : Slot) (now : Instant) :
    pendingOn (s.setSlot i slot) now + ((s.slots i).pending s.now.day now.day).toNat =
      pendingOn s now + (slot.pending s.now.day now.day).toNat :=
  sum_update (fun x : Slot => (x.pending s.now.day now.day).toNat) s.slots i slot

theorem pendingOn_le (s : State jobs) (now : Instant) : pendingOn s now ≤ jobs := by
  have each : ∀ i ∈ Finset.univ, ((s.slots i).pending s.now.day now.day).toNat ≤ 1 :=
    fun _ _ => Bool.toNat_le _
  rw [pendingOn]
  simpa using Finset.sum_le_card_nsmul Finset.univ _ 1 each

theorem fits_setSlot (sound : Sound budget most s) (fits : slot.Fits s.now.day most)
    (j : Fin jobs) : ((s.setSlot i slot).slots j).Fits s.now.day most := by
  by_cases same : j = i
  · subst same
    simpa [State.setSlot] using fits
  · simpa [State.setSlot, Function.update_of_ne same] using sound.slots j

theorem recordedOn_later (sound : Sound budget most s) {now : Instant} (later : s.now.day < now.day) :
    recordedOn now s = 0 := by
  have none : keyed (budgetKey now) s.hits = [] := by
    refine List.filter_eq_nil_iff.mpr fun h member => ?_
    obtain ⟨earlier, key, le⟩ := sound.past h member
    rw [decide_eq_true_eq, key, budgetKey_iff]
    omega
  rw [recordedOn, added, none]
  rfl

theorem sound_setSlot (sound : Sound budget most s) (fits : slot.Fits s.now.day most)
    (calmer : ∀ day ≤ s.now.day, slot.pending s.now.day day = true →
      (s.slots i).pending s.now.day day = true) : Sound budget most (s.setSlot i slot) where
  counted := sound.counted
  past := sound.past
  slots := fits_setSlot sound fits
  room now le := by
    have moved := pendingOn_setSlot s i slot now
    have fewer : pendingOn (s.setSlot i slot) now ≤ pendingOn s now := by
      have := Bool.toNat_le_toNat (calmer now.day le)
      omega
    calc recordedOn now s + pendingOn (s.setSlot i slot) now * most
        ≤ recordedOn now s + pendingOn s now * most :=
          Nat.add_le_add_left (Nat.mul_le_mul_right most fewer) _
      _ ≤ budget - 1 + (jobs + blindOn now s) * most := sound.room now le

theorem sound_later {time : Rat} (sound : Sound budget most s) (le : s.clock ≤ time) :
    Sound budget most { s with clock := time } :=
  ⟨.later sound.counted le, sound.past, sound.slots, sound.room⟩

theorem read_recorded {time : Rat} (sound : Sound budget most s) (now : Instant)
    (le : s.clock ≤ time)
    (timely : ∀ h ∈ s.hits, h.key = budgetKey now → time ≤ h.time + budgetCounterTtl) :
    readTokensToday (some (.answered time)) (budgetKey now) s.store = recordedOn now s := by
  rw [readTokensToday, find_read, recordedOn]
  exact read_exact sound.counted le timely

theorem recordedOn_congr {m n : Instant} (same : m.day = n.day) (s : State jobs) :
    recordedOn m s = recordedOn n s := by rw [recordedOn, recordedOn, (budgetKey_iff m n).mpr same]

theorem sound_calling {at_ : Instant} (missed : List Instant) (sound : Sound budget most s)
    (reading : s.slots i = .reading at_)
    (allowed : recordedOn at_ s ≤ budget - 1 ∨ missed = [at_]) :
    Sound budget most { s.setSlot i .calling with blind := s.blind ++ missed } where
  counted := sound.counted
  past := sound.past
  slots := fits_setSlot sound trivial
  room now le := by
    have moved := pendingOn_setSlot s i .calling now
    have whole := Nat.mul_le_mul_right most (pendingOn_le (s.setSlot i .calling) now)
    have before := sound.room now le
    have blinds : blindOn now { s with blind := s.blind ++ missed } =
        blindOn now s + missed.countP fun other => other.day = now.day := List.countP_append
    have more := Nat.mul_le_mul_right most (Nat.le_add_right (blindOn now s)
      (missed.countP fun other => other.day = now.day))
    show recordedOn now s + pendingOn (s.setSlot i .calling) now * most ≤
      budget - 1 + (jobs + blindOn now { s with blind := s.blind ++ missed }) * most
    rw [Nat.add_mul] at before
    rw [reading] at moved
    rw [blinds, Nat.add_mul]
    by_cases own : at_.day = now.day
    · rcases allowed with under | rfl
      · -- the counter was below the budget, and no more calls than jobs are under way
        rw [recordedOn_congr own] at under
        omega
      · -- a reading that failed lets one more call through
        have one : pendingOn (s.setSlot i .calling) now ≤ pendingOn s now + 1 := by
          have := Bool.toNat_le (Slot.calling.pending s.now.day now.day)
          omega
        have product := Nat.mul_le_mul_right most one
        rw [List.countP_singleton, if_pos (by simpa using own), Nat.add_mul (blindOn now s)]
        rw [Nat.add_mul] at product
        omega
    · have same : pendingOn (s.setSlot i .calling) now = pendingOn s now := by
        simpa [Slot.pending, own] using moved
      rw [same]
      omega

theorem sound_recorded {now : Instant} {tokens : Nat} {time : Rat} (sound : Sound budget most s)
    (recording : s.slots i = .recording now tokens) (le : s.clock ≤ time) :
    Sound budget most { s.setSlot i .idle with
      store := bump s.store (budgetKey now) tokens budgetCounterTtl time, clock := time,
      hits := s.hits ++ [⟨budgetKey now, tokens, time,
        ExpiringCounters.read s.store (budgetKey now) time + tokens⟩] } where
  counted := .hit (.later sound.counted le) (budgetKey now) tokens
  past := by
    have fits := sound.slots i
    rw [recording] at fits
    rw [List.forall_mem_append, List.forall_mem_singleton]
    exact ⟨sound.past, now, rfl, fits.1⟩
  slots := fits_setSlot sound trivial
  room day le := by
    have fits := sound.slots i
    have moved := pendingOn_setSlot s i .idle day
    have before := sound.room day le
    rw [recording] at fits moved
    simp only [Slot.pending, Bool.toNat_false, Nat.add_zero] at moved
    show added (budgetKey day) (s.hits ++ [_]) + pendingOn (s.setSlot i .idle) day * most ≤
      budget - 1 + (jobs + blindOn day s) * most
    rw [added_concat]
    rw [← moved, Nat.add_mul, recordedOn] at before
    by_cases own : now.day = day.day
    · rw [if_pos ((budgetKey_iff now day).mpr own)]
      simp only [own, decide_true, Bool.toNat_true, Nat.one_mul] at before
      have least := fits.2
      dsimp only
      omega
    · rw [if_neg fun same => own ((budgetKey_iff now day).mp same)]
      omega

theorem pending_earlier {today later day : Nat} (le : today ≤ later)
    (pending : slot.pending later day = true) : slot.pending today day = true := by
  cases slot with
  | idle | recording _ _ => exact pending
  | reading _ =>
    simp only [Slot.pending, Bool.and_eq_true, decide_eq_true_eq] at pending ⊢
    exact ⟨le.trans pending.1, pending.2⟩
  | calling =>
    simp only [Slot.pending, decide_eq_true_eq] at pending ⊢
    exact le.trans pending

theorem sound_tick {now : Instant} (sound : Sound budget most s) (le : s.now.micros ≤ now.micros) :
    Sound budget most { s with now := now } := by
  have days : s.now.day ≤ now.day := Nat.div_le_div_right le
  refine ⟨sound.counted, fun h member => ?_, fun i => ?_, fun day inside => ?_⟩
  · obtain ⟨earlier, key, before⟩ := sound.past h member
    exact ⟨earlier, key, before.trans days⟩
  · have fits := sound.slots i
    revert fits
    cases s.slots i with
    | idle | calling => exact id
    | reading _ => exact fun before => le_trans before days
    | recording _ _ => exact fun both => ⟨both.1.trans days, both.2⟩
  · show recordedOn day s + pendingOn { s with now := now } day * most ≤
      budget - 1 + (jobs + blindOn day s) * most
    by_cases before : day.day ≤ s.now.day
    · have fewer : pendingOn { s with now := now } day ≤ pendingOn s day :=
        Finset.sum_le_sum fun i _ => Bool.toNat_le_toNat (pending_earlier days)
      have product := Nat.mul_le_mul_right most fewer
      exact (Nat.add_le_add_left product _).trans (sound.room day before)
    · have whole := Nat.mul_le_mul_right most (pendingOn_le { s with now := now } day)
      rw [recordedOn_later sound (not_le.mp before), Nat.add_mul]
      omega

theorem timely_reading {now : Instant} {time : Rat} (timely : Timely s (.read i (.answered time)))
    (reading : s.slots i = .reading now) :
    ∀ h ∈ s.hits, h.key = budgetKey now → time ≤ h.time + budgetCounterTtl := by
  refine timely (i, time) rfl now ?_
  simp only [reading, Slot.asked, Option.mem_some_iff]

theorem sound_read {now : Instant} {redis : Exchange} (positive : 0 < budget)
    (sound : Sound budget most s) (reading : s.slots i = .reading now)
    (timely : Timely s (.read i redis)) (order : ∀ time, redis.time = some time → s.clock ≤ time) :
    Sound budget most { s.setSlot i
        (if checkAndWouldExceed redis (budgetKey now) budget 0 s.store then .idle else .calling) with
      clock := redis.time.getD s.clock,
      blind := if Exchange.failed redis then s.blind ++ [now] else s.blind } := by
  have through : ¬ budget ≤ 0 := Nat.not_le.mpr positive
  rw [checkAndWouldExceed, if_neg positive.ne']
  cases redis with
  | unreachable =>
    simp only [readTokensToday, Nat.add_zero, through, decide_false]
    exact sound_calling [now] sound reading (.inr rfl)
  | lost time =>
    simp only [readTokensToday, Nat.add_zero, through, decide_false]
    exact sound_calling [now] (sound_later sound (order time rfl)) reading (.inr rfl)
  | answered time =>
    have later := sound_later sound (order time rfl)
    rw [read_recorded sound now (order time rfl) (timely_reading timely reading), Nat.add_zero]
    by_cases exceeds : budget ≤ recordedOn now s
    · simp only [exceeds, decide_true]
      exact sound_setSlot later trivial fun _ _ never => by cases never
    · simp only [exceeds, decide_false]
      have under : recordedOn now s ≤ budget - 1 := by omega
      have calling := sound_calling [] later reading (.inl under)
      rwa [List.append_nil] at calling

theorem step_sound {e : Event jobs} (positive : 0 < budget) (sound : Sound budget most s)
    (ordinary : Ordinary most s e) (taken : step budget s e = some s') : Sound budget most s' := by
  cases e with
  | check i =>
    simp only [step] at taken
    split at taken
    · rename_i idle
      cases taken
      rw [if_neg positive.ne']
      refine sound_setSlot sound le_rfl fun day le => ?_
      simp only [Slot.pending, Bool.and_eq_true, decide_eq_true_eq]
      omega
    · cases taken
  | read i redis =>
    simp only [step] at taken
    split at taken
    · rename_i at_ reading
      split at taken
      · cases taken
      · rename_i order
        cases taken
        refine sound_read positive sound reading ordinary.2 fun time sent => ?_
        rw [sent] at order
        simpa using order
    · cases taken
  | reply i tokens =>
    simp only [step] at taken
    split at taken
    · rename_i calling
      cases taken
      cases tokens with
      | none => exact sound_setSlot sound trivial fun _ _ never => by cases never
      | some tokens =>
        refine sound_setSlot sound ⟨le_rfl, ordinary.1 tokens rfl⟩ fun day _ => ?_
        rw [calling]
        simp only [Option.elim_some, Slot.pending, decide_eq_true_eq]
        exact le_of_eq
    · cases taken
  | record i redis =>
    simp only [step] at taken
    split at taken
    · rename_i now tokens recording
      split at taken
      · rename_i unsent
        cases taken
        cases redis with
        | unreachable => exact sound_setSlot sound trivial fun _ _ never => by cases never
        | lost time | answered time => cases unsent
      · rename_i time sent
        split at taken
        · cases taken
        · rename_i order
          cases taken
          have recorded := sound_recorded sound recording (not_lt.mp order)
          cases redis with
          | unreachable => cases sent
          | lost at_ | answered at_ =>
            cases sent
            exact recorded
    · cases taken
  | stop i =>
    cases taken
    exact sound_setSlot sound trivial fun _ _ never => by cases never
  | tick now =>
    simp only [step] at taken
    split at taken
    · rename_i le
      cases taken
      exact sound_tick sound le
    · cases taken

theorem reach_sound {start : Instant} {clock : Rat} (positive : 0 < budget)
    (reached : Reach (step budget) (Ordinary most) { now := start, clock := clock } s) :
    Sound budget most s := by
  refine reach_invariant (Sound budget most) ?_ ?_ reached
  · refine ⟨.empty clock, by simp, fun _ => trivial, fun now _ => ?_⟩
    have none : pendingOn ({ now := start, clock := clock } : State jobs) now = 0 :=
      Finset.sum_eq_zero fun _ _ => rfl
    rw [none, Nat.zero_mul]
    exact Nat.zero_le _
  · exact fun _ _ _ sound ordinary taken => step_sound positive sound ordinary taken

structure Kept (budget most : Nat) (s : State jobs) : Prop where
  /-- A date is overdrawn by at most one call of each job and of each reading that failed. -/
  bounded : ∀ now, recordedOn now s ≤ budget - 1 + (jobs + blindOn now s) * most
  /-- A counter that is read lets a call through exactly while the budget lasts. -/
  exact : ∀ i now time s', s.slots i = .reading now → Timely s (.read i (.answered time)) →
    step budget s (.read i (.answered time)) = some s' →
    (recordedOn now s < budget → s'.slots i = .calling) ∧
      (budget ≤ recordedOn now s → s'.slots i = .idle)

theorem read_outcome {now : Instant} {time : Rat} (positive : 0 < budget)
    (sound : Sound budget most s) (reading : s.slots i = .reading now)
    (timely : Timely s (.read i (.answered time)))
    (taken : step budget s (.read i (.answered time)) = some s') :
    s'.slots i = if budget ≤ recordedOn now s then .idle else .calling := by
  simp only [step, reading] at taken
  split at taken
  · cases taken
  · rename_i order
    have le : s.clock ≤ time := by simpa [Exchange.time] using order
    cases taken
    rw [checkAndWouldExceed, if_neg positive.ne',
      read_recorded sound now le (timely_reading timely reading), Nat.add_zero]
    simp only [State.setSlot, Function.update_self, decide_eq_true_eq]

/-- The budget of every run, over any number of jobs. -/
theorem budget_kept (jobs budget most : Nat) (positive : 0 < budget) (start : Instant)
    (clock : Rat) {s : State jobs}
    (reached : Reach (step budget) (Ordinary most) { now := start, clock := clock } s) :
    Kept budget most s := by
  have sound := reach_sound positive reached
  refine ⟨fun now => ?_, fun i now time s' reading timely taken => ?_⟩
  · by_cases come : now.day ≤ s.now.day
    · exact (Nat.le_add_right _ _).trans (sound.room now come)
    · rw [recordedOn_later sound (not_le.mp come)]
      exact Nat.zero_le _
  · rw [read_outcome positive sound reading timely taken]
    refine ⟨fun under => if_neg (not_le.mpr under), fun spent => if_pos spent⟩

/-- Two jobs find one token of the budget left, and a third call is turned away. -/
def sampleEvents : List (Event 2) :=
  [.check 0, .check 1, .read 0 (.answered 0), .read 1 (.answered 0), .reply 0 (some 100),
    .reply 1 (some 100), .record 0 (.answered 1), .record 1 (.answered 2), .check 0,
    .read 0 (.answered 3)]

def sampleStart : State 2 := { now := ⟨0, by decide⟩ }

def sampleRun : Option (State 2) := runIf (step 1) (Ordinary 100) sampleStart sampleEvents

theorem sampleRun_spent :
    sampleRun.isSome = true ∧ recordedOn sampleStart.now (sampleRun.getD sampleStart) = 200 := by
  decide +kernel

/-- The bound is met. -/
theorem budget_kept_met :
    recordedOn sampleStart.now (sampleRun.getD sampleStart) = 1 - 1 + (2 + 0) * 100 ∧
      Kept 1 100 (sampleRun.getD sampleStart) := by
  obtain ⟨s, eq⟩ := Option.isSome_iff_exists.mp sampleRun_spent.1
  refine ⟨sampleRun_spent.2, budget_kept 2 1 100 Nat.one_pos sampleStart.now 0 ?_⟩
  rw [eq, Option.getD_some]
  exact runIf_reaches Reach.start eq

end WorkerBudget
