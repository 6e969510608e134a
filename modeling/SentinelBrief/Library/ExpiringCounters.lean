import Mathlib.Algebra.BigOperators.Group.List.Basic
import Mathlib.Algebra.Order.Ring.Unbundled.Rat
import Mathlib.Logic.Function.Basic
import Mathlib.Tactic.Linarith

/-!
Counters that expire. A hit adds to the counter under its key and sets the counter's time to
live anew; a counter whose time is over starts again from nothing.
-/
namespace ExpiringCounters
variable {κ : Type} [DecidableEq κ]

structure Counter where
  value : Nat
  expires : Rat

abbrev Store (κ : Type) := κ → Option Counter

/-- What the counter holds; it lives up to its expiry, that instant included. -/
def read (s : Store κ) (key : κ) (now : Rat) : Nat :=
  match s key with
  | some c => if now ≤ c.expires then c.value else 0
  | none => 0

def bump (s : Store κ) (key : κ) (amount : Nat) (ttl now : Rat) : Store κ :=
  Function.update s key (some ⟨read s key now + amount, now + ttl⟩)

def find (s : Store κ) (key : κ) (now : Rat) : Option Nat :=
  (s key).bind fun c => if now ≤ c.expires then some c.value else none

/-- What becomes of a command; a lost one was executed, but its answer did not come. -/
inductive Exchange where
  | unreachable
  | lost (time : Rat)
  | answered (time : Rat)

def Exchange.time : Exchange → Option Rat
  | .unreachable => none
  | .lost time | .answered time => some time

/-- The pipeline of `INCRBY` and `EXPIRE`; no count is an error of the client. -/
def incrExpire (key : κ) (amount : Nat) (ttl : Rat) (s : Store κ) :
    Exchange → Option Nat × Store κ
  | .unreachable => (none, s)
  | .lost time => (none, bump s key amount ttl time)
  | .answered time => (some (read s key time + amount), bump s key amount ttl time)

structure Hit (κ : Type) where
  key : κ
  amount : Nat
  time : Rat
  total : Nat

inductive Counted (ttl : Rat) : Store κ → List (Hit κ) → Rat → Prop where
  | empty (now : Rat) : Counted ttl (fun _ => none) [] now
  | later {s : Store κ} {hits : List (Hit κ)} {now next : Rat} (before : Counted ttl s hits now)
      (le : now ≤ next) : Counted ttl s hits next
  | hit {s : Store κ} {hits : List (Hit κ)} {now : Rat} (before : Counted ttl s hits now)
      (key : κ) (amount : Nat) :
      Counted ttl (bump s key amount ttl now)
        (hits ++ [⟨key, amount, now, read s key now + amount⟩]) now

def keyed (key : κ) (hits : List (Hit κ)) : List (Hit κ) := hits.filter fun h => h.key = key

def added (key : κ) (hits : List (Hit κ)) : Nat := ((keyed key hits).map Hit.amount).sum

/-- The hits on the key after which the counter was at most `limit`. -/
def within (key : κ) (limit : Nat) (hits : List (Hit κ)) : Nat :=
  (keyed key hits).countP fun h => h.total ≤ limit

def starts (key : κ) (hits : List (Hit κ)) : Nat :=
  (keyed key hits).countP fun h => h.total = h.amount

variable {ttl now t₀ : Rat} {s : Store κ} {hits : List (Hit κ)} {key : κ} {h : Hit κ}

theorem mem_keyed : h ∈ keyed key hits ↔ h ∈ hits ∧ h.key = key := by
  rw [keyed, List.mem_filter, decide_eq_true_eq]

theorem keyed_concat (key : κ) (hits : List (Hit κ)) (h : Hit κ) :
    keyed key (hits ++ [h]) = if h.key = key then keyed key hits ++ [h] else keyed key hits := by
  rw [keyed, List.filter_append, List.filter_singleton]
  by_cases same : h.key = key
  · simp [same, keyed]
  · simp [same, keyed]

inductive Reading (s : Store κ) (key : κ) (now : Rat) : Prop where
  | absent (missing : s key = none) (zero : read s key now = 0)
  | live (c : Counter) (found : s key = some c) (lives : now ≤ c.expires)
      (value : read s key now = c.value)
  | expired (c : Counter) (found : s key = some c) (elapsed : c.expires < now)
      (zero : read s key now = 0)

omit [DecidableEq κ] in
theorem reading (s : Store κ) (key : κ) (now : Rat) : Reading s key now := by
  cases found : s key with
  | none => exact .absent found (by simp only [read, found])
  | some c =>
    by_cases lives : now ≤ c.expires
    · exact .live c found lives (by simp only [read, found, if_pos lives])
    · exact .expired c found (not_le.mp lives) (by simp only [read, found, if_neg lives])

omit [DecidableEq κ] in
theorem read_live {c : Counter} (found : s key = some c) (lives : now ≤ c.expires) :
    read s key now = c.value := by simp only [read, found, if_pos lives]

omit [DecidableEq κ] in
theorem find_read (s : Store κ) (key : κ) (now : Rat) : (find s key now).getD 0 = read s key now := by
  cases found : s key with
  | none => simp only [find, read, found, Option.bind_none, Option.getD_none]
  | some c =>
    simp only [find, read, found, Option.bind_some]
    split <;> rfl

theorem bump_self (s : Store κ) (key : κ) (amount : Nat) (ttl now : Rat) :
    bump s key amount ttl now key = some ⟨read s key now + amount, now + ttl⟩ :=
  Function.update_self key _ s

theorem bump_other {other : κ} (s : Store κ) (amount : Nat) (ttl now : Rat) (apart : other ≠ key) :
    bump s key amount ttl now other = s other := Function.update_of_ne apart _ s

theorem counted_last (counted : Counted ttl s hits now) (key : κ) :
    s key = (keyed key hits).getLast?.map fun h => ⟨h.total, h.time + ttl⟩ := by
  induction counted with
  | empty => rfl
  | later before le ih => exact ih
  | @hit s hits now before other amount ih =>
    rw [keyed_concat]
    by_cases same : other = key
    · subst same
      rw [bump_self, if_pos rfl, List.getLast?_concat]
      rfl
    · rw [bump_other s amount ttl now (Ne.symm same), if_neg same, ih]

theorem counted_time (counted : Counted ttl s hits now) : ∀ h ∈ hits, h.time ≤ now := by
  induction counted with
  | empty => simp
  | later before le ih => exact fun h member => (ih h member).trans le
  | hit before key amount ih =>
    rw [List.forall_mem_append, List.forall_mem_singleton]
    exact ⟨ih, le_rfl⟩

theorem added_concat (key : κ) (hits : List (Hit κ)) (h : Hit κ) :
    added key (hits ++ [h]) = added key hits + if h.key = key then h.amount else 0 := by
  rw [added, keyed_concat]
  split
  · simp [added]
  · rfl

theorem within_concat (key : κ) (limit : Nat) (hits : List (Hit κ)) (h : Hit κ) :
    within key limit (hits ++ [h]) =
      within key limit hits + if h.key = key ∧ h.total ≤ limit then 1 else 0 := by
  rw [within, within, keyed_concat]
  by_cases same : h.key = key
  · rw [if_pos same, List.countP_append, List.countP_singleton]
    simp only [same, true_and, decide_eq_true_eq]
  · rw [if_neg same, if_neg fun both => same both.1, Nat.add_zero]

theorem counted_value {c : Counter} (counted : Counted ttl s hits now) (found : s key = some c) :
    c.value ≤ added key hits := by
  induction counted generalizing c with
  | empty => cases found
  | later before le ih => exact ih found
  | @hit s hits now before other amount ih =>
    rw [added_concat]
    by_cases same : other = key
    · subst same
      rw [bump_self] at found
      cases found
      rw [if_pos rfl]
      refine Nat.add_le_add_right ?_ amount
      cases reading s other now with
      | live c found lives value => exact value ▸ ih found
      | absent missing zero => exact zero ▸ Nat.zero_le _
      | expired c found elapsed zero => exact zero ▸ Nat.zero_le _
    · rw [bump_other s amount ttl now (Ne.symm same)] at found
      exact (ih found).trans (Nat.le_add_right _ _)

theorem read_le_added (counted : Counted ttl s hits now) (key : κ) (time : Rat) :
    read s key time ≤ added key hits := by
  cases reading s key time with
  | live c found lives value => exact value ▸ counted_value counted found
  | absent missing zero => exact zero ▸ Nat.zero_le _
  | expired c found elapsed zero => exact zero ▸ Nat.zero_le _

/-- While every hit on the key is recent, the counter is exact. -/
theorem read_exact {time : Rat} (counted : Counted ttl s hits now)
    (le : now ≤ time) (recent : ∀ h ∈ hits, h.key = key → time ≤ h.time + ttl) :
    read s key time = added key hits := by
  induction counted generalizing time with
  | empty => rfl
  | later before before_le ih => exact ih (before_le.trans le) recent
  | @hit s hits now before other amount ih =>
    rw [List.forall_mem_append, List.forall_mem_singleton] at recent
    rw [added_concat]
    by_cases same : other = key
    · subst same
      rw [read_live (bump_self s other amount ttl now) (recent.2 rfl), if_pos rfl,
        ih le_rfl fun h member own => le.trans (recent.1 h member own)]
    · rw [if_neg same, Nat.add_zero, ← ih le recent.1]
      unfold read
      rw [bump_other s amount ttl now (Ne.symm same)]

theorem counted_at {before after : List (Hit κ)}
    (counted : Counted ttl s (before ++ h :: after) now) :
    ∃ s', Counted ttl s' before h.time ∧ h.total = read s' h.key h.time + h.amount := by
  generalize same : before ++ h :: after = hits at counted
  induction counted generalizing after with
  | empty => simp at same
  | later before le ih => exact ih same
  | @hit s hits now counted key amount ih =>
    rcases List.eq_nil_or_concat after with rfl | ⟨rest, last, rfl⟩
    · obtain ⟨rfl, eq⟩ := List.append_inj' same rfl
      cases eq
      exact ⟨s, counted, rfl⟩
    · rw [List.concat_eq_append, ← List.cons_append, ← List.append_assoc] at same
      exact ih (List.append_inj' same rfl).1

theorem total_le_added {before after : List (Hit κ)}
    (counted : Counted ttl s (before ++ h :: after) now) :
    h.total ≤ added h.key before + h.amount := by
  obtain ⟨s', earlier, eq⟩ := counted_at counted
  rw [eq]
  exact Nat.add_le_add_right (read_le_added earlier h.key h.time) h.amount

theorem total_exact {before after : List (Hit κ)}
    (counted : Counted ttl s (before ++ h :: after) now)
    (recent : ∀ g ∈ before, g.key = h.key → h.time ≤ g.time + ttl) :
    h.total = added h.key before + h.amount := by
  obtain ⟨s', earlier, eq⟩ := counted_at counted
  rw [eq, read_exact earlier le_rfl recent]

theorem within_starts (counted : Counted ttl s hits now) (limit : Nat)
    (ones : ∀ h ∈ hits, h.key = key → h.amount = 1) :
    within key limit hits + (limit - ((s key).elim limit Counter.value)) ≤ limit * starts key hits ∧
      ∀ c, s key = some c → 0 < c.value := by
  induction counted with
  | empty => simp [within, starts, keyed]
  | later before le ih => exact ih ones
  | @hit s hits now before other amount ih =>
    rw [List.forall_mem_append, List.forall_mem_singleton] at ones
    obtain ⟨bound, positive⟩ := ih ones.1
    rw [within, starts, keyed_concat] at *
    by_cases same : other = key
    · subst same
      obtain rfl : amount = 1 := ones.2 rfl
      rw [if_pos rfl, List.countP_append, List.countP_append, List.countP_singleton,
        List.countP_singleton, bump_self]
      simp only [Option.elim_some, decide_eq_true_eq, Option.some.injEq, forall_eq']
      refine ⟨?_, Nat.succ_pos _⟩
      cases reading s other now with
      | live c found lives value =>
        have more : c.value + 1 ≠ 1 := Nat.succ_ne_succ_iff.mpr (positive c found).ne'
        rw [found, Option.elim_some] at bound
        rw [value, if_neg more]
        simp only [Nat.add_zero]
        split <;> omega
      | absent missing zero =>
        rw [zero, if_pos (Nat.zero_add 1), Nat.mul_add]
        split <;> omega
      | expired c found elapsed zero =>
        rw [zero, if_pos (Nat.zero_add 1), Nat.mul_add]
        split <;> omega
    · rw [if_neg same, bump_other s amount ttl now (Ne.symm same)]
      exact ⟨bound, positive⟩

theorem starts_apart {c : Counter} (counted : Counted ttl s hits now)
    (ones : ∀ h ∈ hits, h.key = key → h.amount = 1)
    (since : ∀ h ∈ hits, h.key = key → t₀ ≤ h.time) (found : s key = some c) :
    t₀ + starts key hits * ttl ≤ c.expires := by
  induction counted generalizing c with
  | empty => cases found
  | later before le ih => exact ih ones since found
  | @hit s hits now before other amount ih =>
    have values := (within_starts before 0 (List.forall_mem_append.mp ones).1).2
    rw [List.forall_mem_append, List.forall_mem_singleton] at ones since
    rw [starts, keyed_concat]
    by_cases same : other = key
    · subst same
      obtain rfl : amount = 1 := ones.2 rfl
      rw [bump_self] at found
      cases found
      rw [if_pos rfl, List.countP_append, List.countP_singleton, ← starts]
      have from_ := since.2 rfl
      cases reading s other now with
      | live c found lives value =>
        have alive := values c found
        have earlier := ih ones.1 since.1 found
        rw [counted_last before other] at found
        obtain ⟨last, final, rfl⟩ := Option.map_eq_some_iff.mp found
        have member := (mem_keyed.mp (List.mem_of_getLast? final)).1
        have passed := counted_time before last member
        rw [value, if_neg (by simpa using alive.ne'), Nat.add_zero]
        simp only at earlier
        linarith
      | absent missing zero =>
        rw [counted_last before other, Option.map_eq_none_iff, List.getLast?_eq_none_iff] at missing
        rw [starts, missing, zero, if_pos (by simp)]
        simpa using from_
      | expired c found elapsed zero =>
        have earlier := ih ones.1 since.1 found
        rw [zero, if_pos (by simp)]
        push_cast
        linarith
    · rw [if_neg same, ← starts]
      rw [bump_other s amount ttl now (Ne.symm same)] at found
      exact ih ones.1 since.1 found

theorem within_le (counted : Counted ttl s hits now) (limit r : Nat) (t₀ : Rat) (positive : 0 < ttl)
    (ones : ∀ h ∈ hits, h.key = key → h.amount = 1)
    (window : ∀ h ∈ hits, h.key = key → t₀ ≤ h.time ∧ h.time < t₀ + r * ttl) :
    within key limit hits ≤ r * limit := by
  have spread : starts key hits ≤ r := by
    cases found : s key with
    | none =>
      rw [counted_last counted key, Option.map_eq_none_iff, List.getLast?_eq_none_iff] at found
      simp [starts, found]
    | some c =>
      have apart := starts_apart counted ones (fun h member own => (window h member own).1) found
      rw [counted_last counted key] at found
      obtain ⟨last, final, rfl⟩ := Option.map_eq_some_iff.mp found
      obtain ⟨member, own⟩ := mem_keyed.mp (List.mem_of_getLast? final)
      have before := (window last member own).2
      simp only at apart
      have less : (starts key hits : Rat) * ttl < (r + 1 : Nat) * ttl := by
        push_cast
        linarith
      have := lt_of_mul_lt_mul_right less positive.le
      exact Nat.lt_succ_iff.mp (by exact_mod_cast this)
  calc within key limit hits
      ≤ limit * starts key hits := (Nat.le_add_right _ _).trans (within_starts counted limit ones).1
    _ ≤ limit * r := Nat.mul_le_mul_left limit spread
    _ = r * limit := Nat.mul_comm limit r

end ExpiringCounters
