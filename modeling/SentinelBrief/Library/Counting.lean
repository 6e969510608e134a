import Mathlib.Algebra.BigOperators.Group.Finset.Basic
import Mathlib.Algebra.BigOperators.Group.Finset.Piecewise
import Mathlib.Algebra.Order.Field.Rat
import Mathlib.Tactic.Positivity

/-!
Loops that count: what a counter holds after a fold, the cells of a table summed
over a part of it, and the quotient of two counts.
-/
namespace Counting

variable {α κ τ σ : Type*}

theorem foldl_count (step : σ → α → σ) (counter : σ → Nat) (p : α → Bool)
    (raises : ∀ s a, counter (step s a) = counter s + if p a then 1 else 0) (s : σ) (l : List α) :
    counter (l.foldl step s) = counter s + l.countP p := by
  induction l generalizing s with
  | nil => rfl
  | cons a l ih =>
    rw [List.foldl_cons, ih, raises, List.countP_cons]
    omega

/-- The cells `g t` of a table, summed over `S`, count the entries that fall into one of them. -/
theorem sum_countP [DecidableEq κ] (f : α → κ) (g : τ → κ) (S : Finset τ) (apart : Set.InjOn g S)
    (l : List α) :
    ∑ t ∈ S, l.countP (fun a => decide (f a = g t)) =
      l.countP (fun a => decide (∃ t ∈ S, f a = g t)) := by
  induction l with
  | nil => simp
  | cons a l ih =>
    simp only [List.countP_cons, Finset.sum_add_distrib, ih, decide_eq_true_eq]
    congr 1
    by_cases found : ∃ t ∈ S, f a = g t
    · obtain ⟨t, member, cell⟩ := found
      rw [if_pos ⟨t, member, cell⟩, Finset.sum_eq_single_of_mem t member, if_pos cell]
      intro u other differs
      rw [if_neg]
      exact fun same => differs (apart other member (same.symm.trans cell))
    · rw [if_neg found]
      apply Finset.sum_eq_zero
      intro t member
      exact if_neg fun cell => found ⟨t, member, cell⟩

theorem sum_update [Fintype κ] [DecidableEq κ] (w : τ → Nat) (f : κ → τ) (i : κ) (x : τ) :
    ∑ j, w (Function.update f i x j) + w (f i) = ∑ j, w (f j) + w x := by
  have total (g : κ → Nat) : ∑ j, g j = g i + ∑ j ∈ Finset.univ \ {i}, g j := by
    rw [← Finset.sum_update_of_mem (Finset.mem_univ i), Function.update_eq_self]
  have weights : (fun j => w (Function.update f i x j)) = Function.update (w ∘ f) i (w x) :=
    (Function.comp_update w f i x)
  rw [weights, Finset.sum_update_of_mem (Finset.mem_univ i), total fun j => w (f j)]
  simp only [Function.comp]
  omega

/-- `a / b if b else 0`. -/
def ratio (a b : Nat) : Rat := if b = 0 then 0 else a / b

theorem ratio_mul (a b : Nat) (le : a ≤ b) : ratio a b * b = a := by
  rcases Nat.eq_zero_or_pos b with rfl | positive
  · rw [Nat.le_zero.mp le]
    simp
  · have nonzero : (b : Rat) ≠ 0 := by exact_mod_cast positive.ne'
    rw [ratio, if_neg positive.ne', div_mul_cancel₀ _ nonzero]

theorem ratio_nonneg (a b : Nat) : 0 ≤ ratio a b := by
  unfold ratio
  split
  · exact le_refl _
  · positivity

theorem ratio_le_one {a b : Nat} (le : a ≤ b) : ratio a b ≤ 1 := by
  unfold ratio
  split
  · exact zero_le_one
  · apply div_le_one_of_le₀
    · exact_mod_cast le
    · positivity

theorem ratio_anti {a b c : Nat} (fits : a ≤ b) (le : b ≤ c) : ratio a c ≤ ratio a b := by
  rcases Nat.eq_zero_or_pos b with rfl | positive
  · rw [Nat.le_zero.mp fits]
    simp [ratio]
  · rw [ratio, ratio, if_neg positive.ne', if_neg (by omega)]
    apply div_le_div_of_nonneg_left
    · positivity
    · exact_mod_cast positive
    · exact_mod_cast le

end Counting
