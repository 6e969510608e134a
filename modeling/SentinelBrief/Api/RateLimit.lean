import Mathlib.Data.Rat.Floor
import Mathlib.Data.NNRat.Floor
import SentinelBrief.Library.ExpiringCounters
import SentinelBrief.Library.IpAddress
import SentinelBrief.Library.Runs

/-!
The public rate limit (`rate_limit`, `api/deps.py`). The requests are taken in the order in
which Redis executes their pipelines; a request and Redis have clocks of their own.
-/
namespace ApiRateLimit
open Utf8Text JsonText IpAddressText ExpiringCounters StepRuns

inductive Network where
  | v4 (address prefixLength : Nat)
  | v6 (address prefixLength : Nat)

def Network.contains : Network → Address → Bool
  | .v4 network length, .v4 value _ => value / 2 ^ (32 - length) = network / 2 ^ (32 - length)
  | .v6 network length, .v6 value _ _ => value / 2 ^ (128 - length) = network / 2 ^ (128 - length)
  | _, _ => false

def nonPublicNetworks : List Network :=
  [.v4 0x0A000000 8, .v4 0xAC100000 12, .v4 0xC0A80000 16, .v4 0x7F000000 8, .v4 0xA9FE0000 16,
    .v6 1 128, .v6 (0xFC00 * 65536 ^ 7) 7, .v6 (0xFE80 * 65536 ^ 7) 10]

def isNonPublicClientIp (host : PyStr) : Bool :=
  match ipAddress host with
  | none => true
  | some ip => nonPublicNetworks.any fun network => network.contains ip

structure Settings where
  publicRateLimitPerMin : Nat

structure Request where
  /-- `request.client.host`. -/
  client : Option PyStr
  now : ℚ≥0
  redis : Option Exchange

structure RateLimitedError where
  message : PyStr
  retryAfter : Option Nat
  deriving DecidableEq

def rateKey (host : PyStr) (minute : Nat) : PyStr :=
  str "rl:" ++ host ++ colon :: digitsText minute

def Request.second (r : Request) : Nat := ⌊r.now⌋₊

def Request.minute (r : Request) : Nat := r.second / 60

def rateLimit (settings : Settings) (r : Request) (s : Store PyStr) :
    Except RateLimitedError Unit × Store PyStr :=
  if settings.publicRateLimitPerMin = 0 then (.ok (), s)
  else match r.redis with
    | none => (.ok (), s)
    | some exchange => match r.client with
      | none => (.ok (), s)
      | some host =>
        if isNonPublicClientIp host then (.ok (), s)
        else
          let executed := incrExpire (rateKey host r.minute) 1 60 s exchange
          match executed.1 with
          | none => (.ok (), executed.2)
          | some count =>
            if settings.publicRateLimitPerMin < count then
              (.error ⟨str "public rate limit exceeded", some (60 - r.second % 60)⟩, executed.2)
            else (.ok (), executed.2)

def Request.charge (settings : Settings) (r : Request) : Option (PyStr × Rat) :=
  if settings.publicRateLimitPerMin = 0 then none
  else match r.client, r.redis.bind Exchange.time with
    | some host, some time => if isNonPublicClientIp host then none else some (host, time)
    | _, _ => none

structure Handled where
  request : Request
  outcome : Except RateLimitedError Unit
  hit : Option (Hit PyStr)

structure State where
  store : Store PyStr := fun _ => none
  /-- Redis's clock. -/
  clock : Rat := 0
  handled : List Handled := []

def step (settings : Settings) (s : State) (r : Request) : Option State :=
  let served := rateLimit settings r s.store
  match r.charge settings with
  | none => some { s with handled := s.handled ++ [⟨r, served.1, none⟩], store := served.2 }
  | some charge =>
    let key := rateKey charge.1 r.minute
    if charge.2 < s.clock then none
    else
      let hit : Hit PyStr := ⟨key, 1, charge.2, read s.store key charge.2 + 1⟩
      some { store := served.2, clock := charge.2,
             handled := s.handled ++ [⟨r, served.1, some hit⟩] }

def hits (handled : List Handled) : List (Hit PyStr) := handled.filterMap Handled.hit

def Request.answered (r : Request) : Bool :=
  match r.redis with
  | some (.answered _) => true
  | _ => false

def Request.executedAt (r : Request) : Option Rat := r.redis.bind Exchange.time

/-- The seconds to the next minute. -/
def Request.refusal (r : Request) : RateLimitedError :=
  ⟨str "public rate limit exceeded", some (60 * (r.minute + 1) - r.second)⟩

theorem minute_left (r : Request) : 60 - r.second % 60 = 60 * (r.minute + 1) - r.second := by
  unfold Request.minute
  omega

theorem colon_digits (n : Nat) : colon ∉ digitsText n := by
  intro member
  exact absurd (digitsText_digits n colon member) (by decide)

theorem rateKey_inj {host host' : PyStr} {minute minute' : Nat}
    (same : rateKey host minute = rateKey host' minute') : host = host' ∧ minute = minute' := by
  rw [rateKey, rateKey, List.append_assoc, List.append_assoc, List.append_cancel_left_eq] at same
  rcases List.append_eq_append_iff.mp same with ⟨rest, whole, tail⟩ | ⟨rest, whole, tail⟩
  · cases rest with
    | nil =>
      obtain ⟨-, digits⟩ := List.cons.inj tail
      rw [List.append_nil] at whole
      exact ⟨whole.symm, by rw [← digitsText_value minute, digits, digitsText_value]⟩
    | cons c rest =>
      rw [List.cons_append, List.cons.injEq] at tail
      exact absurd (tail.2 ▸ List.mem_append_right rest List.mem_cons_self) (colon_digits minute)
  · cases rest with
    | nil =>
      obtain ⟨-, digits⟩ := List.cons.inj tail
      rw [List.append_nil] at whole
      exact ⟨whole, by rw [← digitsText_value minute, ← digits, digitsText_value]⟩
    | cons c rest =>
      rw [List.cons_append, List.cons.injEq] at tail
      exact absurd (tail.2 ▸ List.mem_append_right rest List.mem_cons_self) (colon_digits minute')

variable {settings : Settings} {r : Request} {host : PyStr} {time : Rat}

theorem charge_none (free : r.charge settings = none) (s : Store PyStr) :
    rateLimit settings r s = (.ok (), s) := by
  obtain ⟨client, now, redis⟩ := r
  unfold Request.charge at free
  unfold rateLimit
  split at free
  · rename_i off
    rw [if_pos off]
  · rename_i on
    rw [if_neg on]
    rcases redis with _ | exchange
    · rfl
    · rcases client with _ | host
      · rfl
      · cases exchange with
        | unreachable => simp [incrExpire]
        | lost time | answered time =>
          simp only [Option.bind_some, Exchange.time, ite_eq_left_iff, reduceCtorEq, imp_false,
            not_not] at free
          simp [free]

theorem charge_some (charge : r.charge settings = some (host, time)) (s : Store PyStr) :
    r.client = some host ∧ isNonPublicClientIp host = false ∧ r.executedAt = some time ∧
      rateLimit settings r s =
        (if r.answered = true ∧
            settings.publicRateLimitPerMin < read s (rateKey host r.minute) time + 1
          then .error r.refusal else .ok (),
        bump s (rateKey host r.minute) 1 60 time) := by
  unfold Request.charge at charge
  split at charge
  · cases charge
  · rename_i on
    split at charge
    · rename_i client redis
      split at charge
      · cases charge
      · rename_i internal
        cases charge
        refine ⟨client, Bool.not_eq_true _ ▸ internal, redis, ?_⟩
        obtain ⟨exchange, wired, executed⟩ := Option.bind_eq_some_iff.mp redis
        simp only [rateLimit, if_neg on, wired, client, if_neg internal]
        cases exchange with
        | unreachable => cases executed
        | lost at_ =>
          cases executed
          simp [incrExpire, Request.answered, wired]
        | answered at_ =>
          cases executed
          simp only [incrExpire, Request.answered, wired, true_and, Request.refusal, minute_left]
          split <;> rfl
    · cases charge

inductive Served (settings : Settings) (h : Handled) : Prop where
  | free (uncharged : h.request.charge settings = none) (missed : h.hit = none)
      (passed : h.outcome = .ok ())
  | charged {host : PyStr} {time : Rat} (total : Nat)
      (charge : h.request.charge settings = some (host, time))
      (hit : h.hit = some ⟨rateKey host h.request.minute, 1, time, total⟩)
      (outcome : h.outcome =
        if h.request.answered = true ∧ settings.publicRateLimitPerMin < total
        then .error h.request.refusal else .ok ())

structure Sound (settings : Settings) (s : State) : Prop where
  counted : Counted 60 s.store (hits s.handled) s.clock
  served : ∀ h ∈ s.handled, Served settings h

theorem step_sound {s s' : State} (sound : Sound settings s) (taken : step settings s r = some s') :
    Sound settings s' := by
  unfold step at taken
  cases charge : r.charge settings with
  | none =>
    rw [charge, charge_none charge] at taken
    cases taken
    constructor
    · simpa [hits] using sound.counted
    · rw [List.forall_mem_append, List.forall_mem_singleton]
      exact ⟨sound.served, .free charge rfl rfl⟩
  | some spent =>
    obtain ⟨host, time⟩ := spent
    obtain ⟨-, -, -, limited⟩ := charge_some charge s.store
    rw [charge] at taken
    simp only [limited] at taken
    split at taken
    · cases taken
    · rename_i order
      cases taken
      constructor
      · simp only [hits, List.filterMap_append, List.filterMap_cons, List.filterMap_nil]
        exact .hit (.later sound.counted (not_lt.mp order)) _ 1
      · rw [List.forall_mem_append, List.forall_mem_singleton]
        exact ⟨sound.served, .charged _ charge rfl rfl⟩

def Handled.refused (h : Handled) : Bool :=
  match h.outcome with
  | .error _ => true
  | .ok _ => false

def raising (settings : Settings) (host : PyStr) (minute : Nat) (handled : List Handled) :
    List Handled :=
  handled.filter fun h =>
    (h.request.charge settings).map Prod.fst = some host ∧ h.request.minute = minute

/-- Passed because its counter was within the limit, not because Redis gave no answer. -/
def Handled.admitted (h : Handled) : Bool := h.request.answered && !h.refused

variable {handled : List Handled} {h : Handled} {minute : Nat}

theorem served_hit (served : Served settings h) (host : PyStr) (minute : Nat) :
    (∃ g, h.hit = some g ∧ g.key = rateKey host minute) ↔
      (h.request.charge settings).map Prod.fst = some host ∧ h.request.minute = minute := by
  cases served with
  | free uncharged missed passed => simp [uncharged, missed]
  | charged total charge hit outcome =>
    rw [charge, hit]
    simp only [Option.some.injEq, Option.map_some]
    constructor
    · rintro ⟨g, rfl, same⟩
      exact rateKey_inj same
    · rintro ⟨rfl, rfl⟩
      exact ⟨_, rfl, rfl⟩

theorem raising_cons (h : Handled) (handled : List Handled) :
    raising settings host minute (h :: handled) =
      if (h.request.charge settings).map Prod.fst = some host ∧ h.request.minute = minute
      then h :: raising settings host minute handled else raising settings host minute handled := by
  simp only [raising, List.filter_cons, decide_eq_true_eq]

theorem hits_cons (h : Handled) (handled : List Handled) :
    hits (h :: handled) = h.hit.toList ++ hits handled := by
  unfold hits
  rw [List.filterMap_cons]
  cases h.hit <;> rfl

theorem raising_added (served : ∀ h ∈ handled, Served settings h) (host : PyStr) (minute : Nat) :
    (raising settings host minute handled).length = added (rateKey host minute) (hits handled) := by
  induction handled with
  | nil => rfl
  | cons h handled ih =>
    rw [List.forall_mem_cons] at served
    have own := served_hit served.1 host minute
    rw [raising_cons, hits_cons]
    cases served.1 with
    | free uncharged missed passed =>
      rw [uncharged, missed]
      simpa using ih served.2
    | @charged host' time total charge hit outcome =>
      rw [hit] at own ⊢
      simp only [Option.some.injEq, exists_eq_left'] at own
      rw [Option.toList_some, List.singleton_append, added, keyed, List.filter_cons]
      simp only [decide_eq_true_eq, ← own]
      split
      · rw [List.length_cons, ih served.2, List.map_cons, List.sum_cons, Nat.add_comm]
        rfl
      · exact ih served.2

theorem refused_iff {total : Nat}
    (outcome : h.outcome =
      if h.request.answered = true ∧ settings.publicRateLimitPerMin < total
      then .error h.request.refusal else .ok ()) :
    h.refused = true ↔ h.request.answered = true ∧ settings.publicRateLimitPerMin < total := by
  rw [Handled.refused, outcome]
  by_cases above : h.request.answered = true ∧ settings.publicRateLimitPerMin < total
  · rw [if_pos above]
    exact iff_of_true rfl above
  · rw [if_neg above]
    exact iff_of_false Bool.false_ne_true above

theorem raising_within (served : ∀ h ∈ handled, Served settings h) (host : PyStr) (minute : Nat) :
    (raising settings host minute handled).countP Handled.admitted ≤
      within (rateKey host minute) settings.publicRateLimitPerMin (hits handled) := by
  induction handled with
  | nil => exact le_rfl
  | cons h handled ih =>
    rw [List.forall_mem_cons] at served
    have own := served_hit served.1 host minute
    rw [raising_cons, hits_cons]
    cases served.1 with
    | free uncharged missed passed =>
      rw [uncharged, missed]
      simpa using ih served.2
    | @charged host' time total charge hit outcome =>
      rw [hit] at own ⊢
      simp only [Option.some.injEq, exists_eq_left'] at own
      rw [Option.toList_some, List.singleton_append, within, keyed, List.filter_cons]
      simp only [decide_eq_true_eq, ← own]
      split
      · rw [List.countP_cons, List.countP_cons]
        refine Nat.add_le_add (ih served.2) ?_
        split
        · rename_i admitted
          rw [Handled.admitted, Bool.and_eq_true, Bool.not_eq_true', ← Bool.not_eq_true,
            refused_iff outcome, not_and, not_lt] at admitted
          rw [if_pos (decide_eq_true (admitted.2 admitted.1))]
        · exact Nat.zero_le _
      · exact ih served.2

structure Limited (settings : Settings) (handled : List Handled) : Prop where
  /-- Only a request that was counted is refused, and told when the next minute begins. -/
  explained : ∀ h ∈ handled, ∀ e, h.outcome = .error e → h.request.answered = true ∧
    e = h.request.refusal ∧ ∃ host, h.request.client = some host ∧
      isNonPublicClientIp host = false ∧ settings.publicRateLimitPerMin ≠ 0
  /-- A refused request comes after as many of its host and minute as the limit. -/
  earned : ∀ before h after host, handled = before ++ h :: after → h.refused = true →
    h.request.client = some host →
      settings.publicRateLimitPerMin ≤ (raising settings host h.request.minute before).length
  /-- In `r` minutes of Redis's clock at most `r` limits are admitted for one host and minute. -/
  bounded : ∀ host minute t₀ (r : Nat),
    (∀ h ∈ raising settings host minute handled, ∀ t, h.request.executedAt = some t →
      t₀ ≤ t ∧ t < t₀ + r * 60) →
    (raising settings host minute handled).countP Handled.admitted ≤
      r * settings.publicRateLimitPerMin
  /-- Within one minute of Redis's clock exactly the first requests pass. -/
  exact : ∀ before h after host t, handled = before ++ h :: after →
    (h.request.charge settings) = some (host, t) → h.request.answered = true →
    (∀ g ∈ raising settings host h.request.minute before, ∀ u, g.request.executedAt = some u →
      t ≤ u + 60) →
    (h.refused = true ↔
      settings.publicRateLimitPerMin ≤ (raising settings host h.request.minute before).length)

theorem hits_append (before after : List Handled) :
    hits (before ++ after) = hits before ++ hits after := List.filterMap_append

theorem charged_on {host : PyStr} (charge : r.charge settings = some (host, time)) :
    settings.publicRateLimitPerMin ≠ 0 := by
  intro off
  rw [Request.charge, if_pos off] at charge
  cases charge

theorem hit_raising (served : ∀ h ∈ handled, Served settings h) {g : Hit PyStr}
    (member : g ∈ hits handled) (own : g.key = rateKey host minute) :
    g.amount = 1 ∧ ∃ h ∈ raising settings host minute handled,
      h.request.executedAt = some g.time := by
  obtain ⟨h, inside, hit⟩ := List.mem_filterMap.mp member
  have raised := (served_hit (served h inside) host minute).mp ⟨g, hit, own⟩
  cases served h inside with
  | free uncharged missed passed =>
    rw [missed] at hit
    cases hit
  | charged total charge hit' outcome =>
    rw [hit'] at hit
    cases hit
    have raises : h ∈ raising settings host minute handled := by
      rw [raising, List.mem_filter, decide_eq_true_eq]
      exact ⟨inside, raised⟩
    exact ⟨rfl, h, raises, (charge_some charge fun _ => none).2.2.1⟩

theorem sound_limited {s : State} (sound : Sound settings s) : Limited settings s.handled where
  explained h member e failed := by
    cases sound.served h member with
    | free uncharged missed passed =>
      rw [passed] at failed
      cases failed
    | @charged host time total charge hit outcome =>
      obtain ⟨client, outside, -⟩ := charge_some charge fun _ => none
      rw [outcome] at failed
      split at failed
      · rename_i refused
        cases failed
        exact ⟨refused.1, rfl, host, client, outside, charged_on charge⟩
      · cases failed
  earned before h after host split refused client := by
    have counted := sound.counted
    have served := sound.served
    rw [split] at counted served
    cases served h (List.mem_append_right before List.mem_cons_self) with
    | free uncharged missed passed =>
      rw [Handled.refused, passed] at refused
      cases refused
    | @charged host' time total charge hit outcome =>
      obtain ⟨same, -⟩ := charge_some charge fun _ => none
      obtain rfl : host' = host := Option.some.inj (same.symm.trans client)
      rw [hits_append, hits_cons, hit, Option.toList_some, List.singleton_append] at counted
      have bound := total_le_added counted
      rw [raising_added fun g member => served g (List.mem_append_left _ member)]
      exact Nat.lt_succ_iff.mp (((refused_iff outcome).mp refused).2.trans_le bound)
  bounded host minute t₀ r window := by
    have positive : (0 : Rat) < 60 := by norm_num
    refine (raising_within sound.served host minute).trans
      (within_le sound.counted _ r t₀ positive ?_ ?_)
    · exact fun g member own => (hit_raising sound.served member own).1
    · intro g member own
      obtain ⟨-, h, raises, executed⟩ := hit_raising sound.served member own
      exact window h raises g.time executed
  exact before h after host t split charge answered window := by
    have counted := sound.counted
    have served := sound.served
    rw [split] at counted served
    have earlier : ∀ g ∈ before, Served settings g :=
      fun g member => served g (List.mem_append_left _ member)
    cases served h (List.mem_append_right before List.mem_cons_self) with
    | free uncharged missed passed =>
      rw [charge] at uncharged
      cases uncharged
    | charged total charge' hit outcome =>
      rw [charge] at charge'
      cases charge'
      rw [hits_append, hits_cons, hit, Option.toList_some, List.singleton_append] at counted
      have total_eq : total = added (rateKey host h.request.minute) (hits before) + 1 :=
        total_exact counted fun g member own => by
          obtain ⟨-, h', raises, executed⟩ := hit_raising earlier member own
          exact window h' raises g.time executed
      rw [raising_added earlier, refused_iff outcome, total_eq, and_iff_right answered]
      exact Nat.lt_succ_iff

/-- In every run the public routes are limited to so many requests a host and minute. -/
theorem rate_limited (settings : Settings) (start : Rat) {s : State}
    (reached : Reach (step settings) anyStep { clock := start } s) :
    Limited settings s.handled := by
  have sound : Sound settings s := by
    refine reach_invariant (Sound settings) ?_ ?_ reached
    · exact ⟨.empty start, by simp⟩
    · exact fun _ _ _ sound _ taken => step_sound sound taken
  exact sound_limited sound

/-- Three requests of one host in one minute, the second without an answer, and an internal one. -/
def sampleRequests : List Request :=
  [⟨some (str "203.0.113.9"), 119, some (.answered 119)⟩,
    ⟨some (str "10.0.0.7"), 119, some (.answered 119)⟩,
    ⟨some (str "203.0.113.9"), 119, some (.lost 120)⟩,
    ⟨some (str "203.0.113.9"), 119, some (.answered 121)⟩]

def sampleSettings : Settings := { publicRateLimitPerMin := 2 }

def sampleRun : Option State := run (step sampleSettings) {} sampleRequests

theorem sampleRun_refused :
    ((sampleRun.getD {}).handled.map Handled.refused) = [false, false, false, true] := by
  decide +kernel

theorem sampleRun_taken : sampleRun = some (sampleRun.getD {}) := by
  have taken : sampleRun.isSome = true := by decide +kernel
  obtain ⟨s, eq⟩ := Option.isSome_iff_exists.mp taken
  rw [eq, Option.getD_some]

theorem rate_limited_refused :
    ((sampleRun.getD {}).handled.map Handled.refused) = [false, false, false, true] ∧
      Limited sampleSettings (sampleRun.getD {}).handled :=
  ⟨sampleRun_refused,
    rate_limited sampleSettings 0 (run_reaches Reach.start sampleRun_taken)⟩

end ApiRateLimit
