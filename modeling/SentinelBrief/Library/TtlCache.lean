import Mathlib.Algebra.Order.Ring.Unbundled.Rat
import Mathlib.Data.PNat.Defs
import Mathlib.Logic.Function.Basic

/-!
A cache whose entries expire, given by what a caller may rely on: an entry is given back
until it expires, and what is given back is an entry.
-/
namespace ExpiringCache

structure TtlCache (κ ν : Type) where
  State : Type
  empty : State
  get : κ → Rat → State → Option ν × State
  set : κ → ν → ℕ+ → Rat → State → State
  entry : State → κ → Option (Rat × ν)
  entry_empty (key : κ) : entry empty key = none
  get_entry {key : κ} {now : Rat} {s : State} {v : ν} :
    (get key now s).1 = some v → ∃ t, entry s key = some (t, v)
  get_live {key : κ} {now : Rat} {s : State} {e : Rat × ν} :
    entry s key = some e → now < e.1 → (get key now s).1 = some e.2
  entry_get {key other : κ} {now : Rat} {s : State} {e : Rat × ν} :
    entry (get key now s).2 other = some e → entry s other = some e
  live_get {key other : κ} {now : Rat} {s : State} {e : Rat × ν} :
    entry s other = some e → now < e.1 → entry (get key now s).2 other = some e
  set_self (key : κ) (v : ν) (ttl : ℕ+) (now : Rat) (s : State) :
    entry (set key v ttl now s) key = some (now + ttl, v)
  entry_set {key other : κ} {v : ν} {ttl : ℕ+} {now : Rat} {s : State} {e : Rat × ν} :
    other ≠ key → entry (set key v ttl now s) other = some e → entry s other = some e
  live_set {key other : κ} {v : ν} {ttl : ℕ+} {now : Rat} {s : State} {e : Rat × ν} :
    other ≠ key → entry s other = some e → now < e.1 → entry (set key v ttl now s) other = some e

variable {κ ν : Type} {c : TtlCache κ ν} {s : c.State} {key other : κ} {now later due : Rat}

/-- Until `due` there is an entry under the key, which does not expire before. -/
def Kept (c : TtlCache κ ν) (s : c.State) (now : Rat) (key : κ) (due : Rat) : Prop :=
  now < due → ∃ e, c.entry s key = some e ∧ due ≤ e.1

theorem kept_later (kept : Kept c s now key due) (le : now ≤ later) : Kept c s later key due :=
  fun live => kept (le.trans_lt live)

theorem kept_get (kept : Kept c s now key due) (le : now ≤ later) :
    Kept c (c.get other later s).2 later key due := by
  intro live
  obtain ⟨e, found, lasts⟩ := kept (le.trans_lt live)
  exact ⟨e, c.live_get found (live.trans_le lasts), lasts⟩

theorem kept_set {v : ν} {ttl : ℕ+} (kept : Kept c s now key due) (le : now ≤ later)
    (renewed : key = other → due ≤ later + ttl) :
    Kept c (c.set other v ttl later s) later key due := by
  intro live
  by_cases same : key = other
  · subst same
    exact ⟨_, c.set_self key v ttl later s, renewed rfl⟩
  · obtain ⟨e, found, lasts⟩ := kept (le.trans_lt live)
    exact ⟨e, c.live_set same found (live.trans_le lasts), lasts⟩

theorem kept_miss (kept : Kept c s now key due) (le : now ≤ later)
    (miss : (c.get key later s).1 = none) : due ≤ later := by
  by_contra early
  have live := lt_of_not_ge early
  obtain ⟨e, found, lasts⟩ := kept (le.trans_lt live)
  rw [c.get_live found (live.trans_le lasts)] at miss
  cases miss

variable [DecidableEq κ]

def expiringMap (κ ν : Type) [DecidableEq κ] : TtlCache κ ν where
  State := κ → Option (Rat × ν)
  empty _ := none
  get key now s := ((s key).bind fun e => if now < e.1 then some e.2 else none, s)
  set key v ttl now s := Function.update s key (some (now + ttl, v))
  entry s key := s key
  entry_empty _ := rfl
  get_entry {key now s v} hit := by
    obtain ⟨e, found, value⟩ := Option.bind_eq_some_iff.mp hit
    split at value
    · cases value
      exact ⟨e.1, found⟩
    · cases value
  get_live {key now s e} found live := by
    simp only [found, Option.bind_some, if_pos live]
  entry_get found := found
  live_get found _ := found
  set_self key v ttl now s := Function.update_self key _ s
  entry_set {key other v ttl now s e} apart found := by
    rwa [Function.update_of_ne apart] at found
  live_set {key other v ttl now s e} apart found _ := by
    rwa [Function.update_of_ne apart]

end ExpiringCache
