import Mathlib.Algebra.Order.Ring.Rat
import Mathlib.Data.List.MinMax
import Mathlib.Data.PNat.Basic
import Mathlib.Tactic.NormNum
import SentinelBrief.Library.Dictionary
import SentinelBrief.Library.TtlCache
import SentinelBrief.Library.Utf8

/-!
`InMemoryTTLCache` (`core/cache.py`). Seconds are exact. A call that reads the
clock is given what it reads; `set` reads it once for the purge and once more
for the expiry.
-/
namespace CoreCache
open ExpiringCache OrderedDictionary Utf8Text

structure Cached where
  expiresAt : Rat
  value : Bytes
  deriving DecidableEq, Repr

structure InMemoryTTLCache (maxEntries : Nat) where
  entries : Dictionary PyStr Cached
  distinct : Distinct entries
  bounded : entries.length ≤ maxEntries

def InMemoryTTLCache.empty (maxEntries : Nat) : InMemoryTTLCache maxEntries where
  entries := []
  distinct := List.nodup_nil
  bounded := Nat.zero_le _

variable {maxEntries : Nat}

def InMemoryTTLCache.delete (key : PyStr) (c : InMemoryTTLCache maxEntries) :
    InMemoryTTLCache maxEntries where
  entries := OrderedDictionary.delete key c.entries
  distinct := distinct_filter _ c.distinct
  bounded := (List.length_filter_le _ _).trans c.bounded

def InMemoryTTLCache.get (key : PyStr) (now : Rat) (c : InMemoryTTLCache maxEntries) :
    Option Bytes × InMemoryTTLCache maxEntries :=
  match lookup key c.entries with
  | none => (none, c)
  | some entry =>
    if entry.expiresAt ≤ now then (none, c.delete key) else (some entry.value, c)

/-- The purge of `set`, and the eviction when that was not enough. -/
def makeRoom (maxEntries : Nat) (now : Rat) (d : Dictionary PyStr Cached) :
    Dictionary PyStr Cached :=
  let kept := d.filter fun e => now < e.2.expiresAt
  if maxEntries ≤ kept.length then
    match kept.argmin fun e => e.2.expiresAt with
    | some soonest => OrderedDictionary.delete soonest.1 kept
    | none => kept
  else kept

def roomFor (maxEntries : Nat) (key : PyStr) (now : Rat) (d : Dictionary PyStr Cached) :
    Dictionary PyStr Cached :=
  if key ∉ keys d ∧ maxEntries ≤ d.length then makeRoom maxEntries now d else d

theorem makeRoom_distinct {now : Rat} {d : Dictionary PyStr Cached} (inv : Distinct d) :
    Distinct (makeRoom maxEntries now d) := by
  unfold makeRoom
  dsimp only
  split
  · split
    · exact distinct_filter _ (distinct_filter _ inv)
    · exact distinct_filter _ inv
  · exact distinct_filter _ inv

theorem makeRoom_length (now : Rat) {d : Dictionary PyStr Cached} (inv : Distinct d)
    (positive : 0 < maxEntries) (bounded : d.length ≤ maxEntries) :
    (makeRoom maxEntries now d).length < maxEntries := by
  have fewer := List.length_filter_le (fun e => decide (now < e.2.expiresAt)) d
  unfold makeRoom
  dsimp only
  split
  · rename_i full
    split
    · rename_i soonest first
      have less := delete_length (distinct_filter _ inv) (List.argmin_mem first)
      omega
    · rename_i none
      rw [List.argmin_eq_none.mp none] at full
      simp only [List.length_nil] at full
      omega
  · omega

theorem roomFor_distinct {key : PyStr} {now : Rat} {d : Dictionary PyStr Cached}
    (inv : Distinct d) : Distinct (roomFor maxEntries key now d) := by
  unfold roomFor
  split
  · exact makeRoom_distinct inv
  · exact inv

theorem roomFor_length {key : PyStr} {now : Rat} {d : Dictionary PyStr Cached} (inv : Distinct d)
    (positive : 0 < maxEntries) (bounded : d.length ≤ maxEntries) (entry : Cached) :
    (put key entry (roomFor maxEntries key now d)).length ≤ maxEntries := by
  rw [put_length]
  unfold roomFor
  split <;> rename_i full
  · have := makeRoom_length now inv positive bounded
    split <;> omega
  · split
    · exact bounded
    · rename_i fresh
      have := Nat.not_le.mp fun le => full ⟨fresh, le⟩
      omega

/-- `set`; `none` is its `ValueError`. -/
def InMemoryTTLCache.set (positive : 0 < maxEntries) (key : PyStr) (value : Bytes) (ttl : Int)
    (now later : Rat) (c : InMemoryTTLCache maxEntries) : Option (InMemoryTTLCache maxEntries) :=
  if ttl ≤ 0 then none
  else some {
    entries := put key ⟨later + ttl, value⟩ (roomFor maxEntries key now c.entries)
    distinct := distinct_put (roomFor_distinct c.distinct)
    bounded := roomFor_length c.distinct positive c.bounded _ }

/-- Why an entry is lost when room is made: it has expired, or a new key finds the cache full of
    live entries and it is one of the first to expire. -/
def Displaced (maxEntries : Nat) (key : PyStr) (now : Rat) (d : Dictionary PyStr Cached)
    (e : PyStr × Cached) : Prop :=
  e.2.expiresAt ≤ now ∨
    (key ∉ keys d ∧ d.length = maxEntries ∧ (∀ x ∈ d, now < x.2.expiresAt) ∧
      ∀ x ∈ d, e.2.expiresAt ≤ x.2.expiresAt)

theorem roomFor_sub {key : PyStr} {now : Rat} {d : Dictionary PyStr Cached} {e : PyStr × Cached}
    (member : e ∈ roomFor maxEntries key now d) : e ∈ d := by
  unfold roomFor at member
  split at member
  · unfold makeRoom at member
    dsimp only at member
    split at member
    · split at member
      · exact List.mem_of_mem_filter (mem_delete.mp member).1
      · exact List.mem_of_mem_filter member
    · exact List.mem_of_mem_filter member
  · exact member

theorem roomFor_lost {key : PyStr} {now : Rat} {d : Dictionary PyStr Cached} {e : PyStr × Cached}
    (inv : Distinct d) (bounded : d.length ≤ maxEntries) (member : e ∈ d)
    (lost : e ∉ roomFor maxEntries key now d) : Displaced maxEntries key now d e := by
  by_cases live : e.2.expiresAt ≤ now
  · exact .inl live
  have kept : e ∈ d.filter fun x => now < x.2.expiresAt := by
    simpa [member] using lt_of_not_ge live
  unfold roomFor at lost
  split at lost
  · rename_i room
    unfold makeRoom at lost
    dsimp only at lost
    split at lost
    · rename_i full
      -- nothing was purged, so every entry is live
      have all : d.filter (fun x => now < x.2.expiresAt) = d :=
        List.filter_sublist.eq_of_length_le (bounded.trans full)
      split at lost
      · rename_i soonest first
        right
        refine ⟨room.1, le_antisymm bounded room.2, ?_, ?_⟩
        · intro x inside
          simpa using List.filter_eq_self.mp all x inside
        · have same : e = soonest := by
            have key_eq : e.1 = soonest.1 := by
              by_contra other
              exact lost (mem_delete.mpr ⟨kept, other⟩)
            exact List.inj_on_of_nodup_map inv member
              (List.mem_of_mem_filter (List.argmin_mem first)) key_eq
          intro x inside
          rw [all] at first
          rw [same]
          exact List.le_of_mem_argmin (f := fun y : PyStr × Cached => y.2.expiresAt) inside first
      · exact absurd kept lost
    · exact absurd kept lost
  · exact absurd member lost

variable {c c' : InMemoryTTLCache maxEntries} {key : PyStr} {value : Bytes} {now later : Rat}
  {ttl : Int} {positive : 0 < maxEntries}

theorem set_mem (stored : c.set positive key value ttl now later = some c') {e : PyStr × Cached} :
    e ∈ c'.entries ↔ e = (key, ⟨later + ttl, value⟩) ∨
      (e.1 ≠ key ∧ e ∈ roomFor maxEntries key now c.entries) := by
  unfold InMemoryTTLCache.set at stored
  split at stored
  · cases stored
  · cases stored
    exact mem_put

theorem set_lost (stored : c.set positive key value ttl now later = some c') {e : PyStr × Cached}
    (member : e ∈ c.entries) (other : e.1 ≠ key) (lost : e ∉ c'.entries) :
    Displaced maxEntries key now c.entries e :=
  roomFor_lost c.distinct c.bounded member fun still => lost ((set_mem stored).mpr (.inr ⟨other, still⟩))

theorem get_hit {body : Bytes} (hit : (c.get key now).1 = some body) :
    (c.get key now).2 = c ∧ ∃ t, (key, ⟨t, body⟩) ∈ c.entries ∧ now < t := by
  unfold InMemoryTTLCache.get at hit ⊢
  cases found : lookup key c.entries with
  | none => simp [found] at hit
  | some entry =>
    simp only [found] at hit ⊢
    split at hit
    · cases hit
    · rename_i live
      cases hit
      rw [if_neg live]
      exact ⟨rfl, entry.expiresAt, (lookup_eq_some c.distinct).mp found, lt_of_not_ge live⟩

theorem get_live {t : Rat} (member : (key, ⟨t, value⟩) ∈ c.entries) (live : now < t) :
    (c.get key now).1 = some value := by
  unfold InMemoryTTLCache.get
  rw [(lookup_eq_some c.distinct).mpr member]
  simp [not_le.mpr live]

theorem get_sub {e : PyStr × Cached} (member : e ∈ (c.get key now).2.entries) : e ∈ c.entries := by
  unfold InMemoryTTLCache.get at member
  split at member
  · exact member
  · split at member
    · exact (mem_delete.mp member).1
    · exact member

theorem get_lost {e : PyStr × Cached} (member : e ∈ c.entries)
    (lost : e ∉ (c.get key now).2.entries) : e.1 = key ∧ e.2.expiresAt ≤ now := by
  unfold InMemoryTTLCache.get at lost
  split at lost
  · exact absurd member lost
  · rename_i entry found
    split at lost
    · rename_i expired
      have same : e.1 = key := by
        by_contra other
        exact lost (mem_delete.mpr ⟨member, other⟩)
      refine ⟨same, ?_⟩
      have inside := (lookup_eq_some c.distinct).mp found
      rw [distinct_value c.distinct (show (key, e.2) ∈ c.entries by rw [← same]; exact member) inside]
      exact expired
    · exact absurd member lost

def redisCacheKeyPrefix : PyStr := str "sentinelbrief:cache:"

def millis (seconds : Rat) : Rat := seconds * 1000

theorem millis_lt {a b : Rat} : millis a < millis b ↔ a < b :=
  mul_lt_mul_iff_left₀ (by norm_num)

theorem entry_millis {found : Option (Rat × Bytes)} {e : Rat × Bytes} :
    found.map (fun x => (x.1 / 1000, x.2)) = some e ↔ found = some (millis e.1, e.2) := by
  rw [Option.map_eq_some_iff]
  constructor
  · rintro ⟨x, rfl, rfl⟩
    rw [millis, div_mul_cancel₀ _ (by norm_num)]
  · rintro rfl
    exact ⟨_, rfl, by rw [millis, mul_div_cancel_right₀ _ (by norm_num)]⟩

/-- `RedisTTLCache` over a Redis that answers; Redis counts milliseconds. -/
def redisTTLCache (redis : TtlCache PyStr Bytes) (keyPrefix : PyStr) : TtlCache PyStr Bytes where
  State := redis.State
  empty := redis.empty
  get key now s := redis.get (keyPrefix ++ key) (millis now) s
  set key value ttl now s := redis.set (keyPrefix ++ key) value (ttl * 1000) (millis now) s
  entry s key := (redis.entry s (keyPrefix ++ key)).map fun x => (x.1 / 1000, x.2)
  entry_empty key := by rw [redis.entry_empty, Option.map_none]
  get_entry hit := by
    obtain ⟨t, found⟩ := redis.get_entry hit
    exact ⟨t / 1000, by rw [found, Option.map_some]⟩
  get_live found live := by
    have hit := redis.get_live (entry_millis.mp found) (millis_lt.mpr live)
    exact hit
  entry_get found := entry_millis.mpr (redis.entry_get (entry_millis.mp found))
  live_get found live :=
    entry_millis.mpr (redis.live_get (entry_millis.mp found) (millis_lt.mpr live))
  set_self key v ttl now s := by
    rw [entry_millis, redis.set_self]
    simp only [millis, PNat.mul_coe, Nat.cast_mul, add_mul]
    rfl
  entry_set apart found := entry_millis.mpr
    (redis.entry_set ((List.append_right_injective keyPrefix).ne apart) (entry_millis.mp found))
  live_set apart found live := entry_millis.mpr
    (redis.live_set ((List.append_right_injective keyPrefix).ne apart) (entry_millis.mp found)
      (millis_lt.mpr live))

end CoreCache
