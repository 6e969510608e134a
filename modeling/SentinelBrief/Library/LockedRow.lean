import Mathlib.Logic.Function.Basic

/-!
A row under an exclusive lock. The holder of the lock writes a draft that no
one else sees; a commit makes it the row, a rollback forgets it, and both
release the lock. `Exclusive` ties the lock to the phases of the actors: only
the holder is in a phase that holds it, and that phase describes the row and
the draft. Each rule moves one actor.
-/
namespace LockedRow
variable {ι ρ φ : Type}

structure Locked (ι ρ : Type) where
  row : ρ
  lock : Option ι := none
  draft : Option ρ := none

def Locked.acquire (l : Locked ι ρ) (i : ι) : Locked ι ρ := { l with lock := some i }

def Locked.write (l : Locked ι ρ) (draft : ρ) : Locked ι ρ := { l with draft := some draft }

def Locked.commit (l : Locked ι ρ) : Locked ι ρ := { row := l.draft.getD l.row }

def Locked.rollback (l : Locked ι ρ) : Locked ι ρ := { row := l.row }

structure Exclusive (holds : φ → Prop) (view : ρ → Option ρ → φ → Prop) (l : Locked ι ρ)
    (actors : ι → φ) : Prop where
  owner : ∀ i, holds (actors i) → l.lock = some i
  seen : ∀ i, l.lock = some i → holds (actors i) ∧ view l.row l.draft (actors i)
  clean : l.lock = none → l.draft = none

variable {holds : φ → Prop} {view : ρ → Option ρ → φ → Prop} {l : Locked ι ρ} {actors : ι → φ}
  {i : ι} {p : φ}

theorem exclusive_start (row : ρ) (idle : ∀ i, ¬ holds (actors i)) :
    Exclusive holds view { row := row } actors where
  owner i held := absurd held (idle i)
  seen i eq := by cases eq
  clean _ := rfl

variable [DecidableEq ι]

theorem exclusive_idle (inv : Exclusive holds view l actors) (before : ¬ holds (actors i))
    (after : ¬ holds p) : Exclusive holds view l (Function.update actors i p) := by
  constructor
  · intro j held
    by_cases same : j = i
    · subst same
      rw [Function.update_self] at held
      exact absurd held after
    · rw [Function.update_of_ne same] at held
      exact inv.owner j held
  · intro j owned
    have ne : j ≠ i := by
      rintro rfl
      exact before (inv.seen j owned).1
    rw [Function.update_of_ne ne]
    exact inv.seen j owned
  · exact inv.clean

theorem exclusive_take {draft : Option ρ} (inv : Exclusive holds view l actors)
    (free : l.lock = none) (held : holds p) (seen : view l.row draft p) :
    Exclusive holds view { row := l.row, lock := some i, draft := draft }
      (Function.update actors i p) := by
  constructor
  · intro j held
    by_cases same : j = i
    · rw [same]
    · rw [Function.update_of_ne same] at held
      have owned := inv.owner j held
      rw [free] at owned
      cases owned
  · intro j owned
    cases owned
    rw [Function.update_self]
    exact ⟨held, seen⟩
  · intro free
    cases free

theorem exclusive_acquire (inv : Exclusive holds view l actors) (free : l.lock = none)
    (held : holds p) (seen : view l.row none p) :
    Exclusive holds view (l.acquire i) (Function.update actors i p) := by
  rw [← inv.clean free] at seen
  exact exclusive_take inv free held seen

theorem exclusive_keep {draft : Option ρ} (inv : Exclusive holds view l actors)
    (owned : l.lock = some i) (held : holds p) (seen : view l.row draft p) :
    Exclusive holds view { l with draft := draft } (Function.update actors i p) := by
  constructor
  · intro j held
    by_cases same : j = i
    · rw [same]
      exact owned
    · rw [Function.update_of_ne same] at held
      exact inv.owner j held
  · intro j eq
    have same : j = i := by
      rw [show l.lock = some j from eq, Option.some.injEq] at owned
      exact owned
    rw [same, Function.update_self]
    exact ⟨held, seen⟩
  · intro free
    rw [show l.lock = none from free] at owned
    cases owned

theorem exclusive_release {row : ρ} (inv : Exclusive holds view l actors)
    (owned : l.lock = some i) (after : ¬ holds p) :
    Exclusive holds view { row := row } (Function.update actors i p) := by
  apply exclusive_start
  intro j held
  by_cases same : j = i
  · rw [same, Function.update_self] at held
    exact after held
  · rw [Function.update_of_ne same] at held
    have other := inv.owner j held
    rw [owned, Option.some.injEq] at other
    exact same other.symm

theorem exclusive_crash (inv : Exclusive holds view l actors) (after : ¬ holds p) :
    Exclusive holds view (if l.lock = some i then l.rollback else l)
      (Function.update actors i p) := by
  split
  · rename_i owned
    exact exclusive_release inv owned after
  · rename_i other
    exact exclusive_idle inv (fun held => other (inv.owner i held)) after

end LockedRow
