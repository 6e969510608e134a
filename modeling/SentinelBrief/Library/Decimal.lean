import Mathlib.Algebra.Group.Nat.Defs
import Mathlib.Data.List.Lex
import Mathlib.Data.List.Sort
import SentinelBrief.Library.Utf8

/-!
Decimal numbers of fixed width. Written with leading zeros they compare as
texts the way they compare as numbers, whatever follows them.
-/
namespace FixedDecimal
open Utf8Text

/-- The last `width` decimal digits of a number, most significant first. -/
def padded : Nat → Nat → PyStr
  | 0, _ => []
  | width + 1, n => padded width (n / 10) ++ [0x30 + n % 10]

theorem padded_lt {width t u : Nat} (lt : t < u) (small : u < 10 ^ width) (a b : PyStr) :
    padded width t ++ a < padded width u ++ b := by
  induction width generalizing t u a b with
  | zero => simp at small; omega
  | succ width ih =>
    simp only [padded, List.append_assoc, List.singleton_append]
    by_cases front : t / 10 < u / 10
    · refine ih front ?_ _ _
      rw [Nat.pow_succ] at small
      omega
    · have same : t / 10 = u / 10 := by omega
      rw [same]
      have digit : 0x30 + t % 10 < 0x30 + u % 10 := by omega
      exact List.append_left_lt (List.cons_lt_cons_iff.mpr (.inl digit))

theorem padded_length (width n : Nat) : (padded width n).length = width := by
  induction width generalizing n with
  | zero => rfl
  | succ width ih => simp [padded, ih]

theorem padded_injective {width t u : Nat} (t_small : t < 10 ^ width) (u_small : u < 10 ^ width)
    (same : padded width t = padded width u) : t = u := by
  rcases Nat.lt_trichotomy t u with lt | eq | gt
  · have less := padded_lt lt u_small [] []
    rw [same] at less
    exact absurd less (lt_irrefl _)
  · exact eq
  · have less := padded_lt gt t_small [] []
    rw [same] at less
    exact absurd less (lt_irrefl _)

theorem padded_digits (width n : Nat) : ∀ c ∈ padded width n, 0x30 ≤ c ∧ c ≤ 0x39 := by
  induction width generalizing n with
  | zero => simp [padded]
  | succ width ih =>
    intro c member
    rcases List.mem_append.mp member with front | last
    · exact ih _ c front
    · rw [List.mem_singleton.mp last]
      omega

end FixedDecimal
