import Mathlib.Data.List.Infix

/-!
Runs of a partial step function. `step s e = none` means that event `e` is not
possible in `s`. A condition on steps restricts the runs considered; a state
property is an invariant of a run when it holds at its start and every step
that meets the condition keeps it.
-/
namespace StepRuns
variable {σ ε : Type}

inductive Reach (step : σ → ε → Option σ) (ok : σ → ε → Prop) (start : σ) : σ → Prop where
  | start : Reach step ok start start
  | next {s s' : σ} {e : ε} (before : Reach step ok start s) (met : ok s e)
      (taken : step s e = some s') : Reach step ok start s'

def anyStep (_ : σ) (_ : ε) : Prop := True

def run (step : σ → ε → Option σ) : σ → List ε → Option σ
  | s, [] => some s
  | s, e :: es => (step s e).bind fun s' => run step s' es

variable {step : σ → ε → Option σ} {ok : σ → ε → Prop} {start : σ}

theorem run_concat (s : σ) (es : List ε) (e : ε) :
    run step s (es ++ [e]) = (run step s es).bind fun s' => step s' e := by
  induction es generalizing s with
  | nil =>
    rw [List.nil_append, run, run, Option.bind_some]
    cases step s e <;> rfl
  | cons first es ih => simp only [List.cons_append, run, Option.bind_assoc, ih]

theorem reach_invariant (inv : σ → Prop) (first : inv start)
    (kept : ∀ s e s', inv s → ok s e → step s e = some s' → inv s')
    {s : σ} (reached : Reach step ok start s) : inv s := by
  induction reached with
  | start => exact first
  | next before met taken ih => exact kept _ _ _ ih met taken

theorem reach_weaken {ok' : σ → ε → Prop} (weaker : ∀ s e, ok s e → ok' s e)
    {s : σ} (reached : Reach step ok start s) : Reach step ok' start s := by
  induction reached with
  | start => exact Reach.start
  | next before met taken ih => exact Reach.next ih (weaker _ _ met) taken

def runIf (step : σ → ε → Option σ) (ok : σ → ε → Prop) [∀ s e, Decidable (ok s e)] :
    σ → List ε → Option σ
  | s, [] => some s
  | s, e :: es => if ok s e then (step s e).bind fun s' => runIf step ok s' es else none

theorem runIf_reaches [∀ s e, Decidable (ok s e)] {s s' : σ} {es : List ε}
    (reached : Reach step ok start s) (taken : runIf step ok s es = some s') :
    Reach step ok start s' := by
  induction es generalizing s with
  | nil =>
    simp only [runIf, Option.some.injEq] at taken
    exact taken ▸ reached
  | cons e es ih =>
    simp only [runIf] at taken
    split at taken
    · rename_i met
      simp only [Option.bind_eq_some_iff] at taken
      obtain ⟨mid, first, later⟩ := taken
      exact ih (Reach.next reached met first) later
    · cases taken

theorem run_reaches {s s' : σ} {es : List ε} (reached : Reach step anyStep start s)
    (taken : run step s es = some s') : Reach step anyStep start s' := by
  induction es generalizing s with
  | nil =>
    simp only [run, Option.some.injEq] at taken
    exact taken ▸ reached
  | cons e es ih =>
    simp only [run, Option.bind_eq_some_iff] at taken
    obtain ⟨mid, first, later⟩ := taken
    exact ih (Reach.next reached trivial first) later

end StepRuns
