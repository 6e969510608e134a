import Mathlib.Tactic.Common

/-!
Programs with a state that survives an exception. A triple about such a program
says what a run from a given state ends with, whether it returns or raises.
-/
namespace EffectTriples
open Std.Do
variable {σ ε α : Type}

theorem run_of_triple {m : ExceptT ε (StateM σ) α} {pre : σ → Prop} {post : α → σ → Prop}
    {fail : ε → σ → Prop}
    (spec : ⦃fun s => ⌜pre s⌝⦄ m ⦃post⟨fun a s => ⌜post a s⌝, fun e s => ⌜fail e s⌝⟩⦄)
    {s : σ} (start : pre s) : match m.run.run s with
      | (.ok a, s') => post a s'
      | (.error e, s') => fail e s' := by
  have ends := spec s start
  simp only [WP.wp, PredTrans.apply_pushArg, PredTrans.apply_pushExcept] at ends
  revert ends
  generalize StateT.run m.run s = r
  intro ends
  obtain ⟨result, s'⟩ := r
  cases result with
  | ok a => exact ends
  | error e => exact ends

theorem triple_of_run (m : ExceptT ε (StateM σ) α) (s₀ : σ) :
    ⦃fun s => ⌜s = s₀⌝⦄ m
    ⦃post⟨fun a s => ⌜m.run.run s₀ = (.ok a, s)⌝, fun e s => ⌜m.run.run s₀ = (.error e, s)⌝⟩⦄ := by
  rintro s rfl
  simp only [WP.wp, PredTrans.apply_pushArg, PredTrans.apply_pushExcept]
  generalize StateT.run m.run s = r
  obtain ⟨result, s'⟩ := r
  cases result with
  | ok a => exact rfl
  | error e => exact rfl

end EffectTriples
