import SentinelBrief.Core.Stats
import SentinelBrief.Library.OrderStatistics

/-!
`percentile` (`evals/scoring.py`), the nearest-rank percentile of a run's costs and
latencies, against the `percentile_disc` of `get_stats`. The numbers are exact.
-/
namespace EvalsPercentile
open OrderStatistics

/-- `l[i]`: a negative index counts from the end, none is an `IndexError`. -/
def item (l : List α) (i : Int) : Option α :=
  if 0 ≤ i then l[i.toNat]? else if -i ≤ l.length then l[(l.length + i).toNat]? else none

def nearestRankIndex (n : Nat) (p : Rat) : Int := ⌈p / 100 * n⌉ - 1

theorem item_nonneg {l : List α} {i : Int} (nonneg : 0 ≤ i) : item l i = l[i.toNat]? := by
  rw [item, if_pos nonneg]

variable {α : Type*} [LinearOrder α]

def percentile [Zero α] (values : List α) (p : Rat) : Option α :=
  if values.isEmpty then some 0
  else
    let valuesSorted := sorted values
    item valuesSorted (nearestRankIndex valuesSorted.length p)

/-- `percentile_disc(p / 100)` over a group of rows: the smallest value that the
fraction `p / 100` of them do not exceed. -/
def IsPercentileDisc (values : List α) (p : Rat) (v : α) : Prop :=
  IsLeast {x | x ∈ values ∧ p / 100 * values.length ≤ values.countP (fun y => decide (y ≤ x))} v

theorem index_nonneg {n : Nat} {p : Rat} (filled : 0 < n) (positive : 0 < p) :
    0 ≤ nearestRankIndex n p := by
  have reached : 0 < p / 100 * n := by positivity
  have := Int.ceil_pos.mpr reached
  unfold nearestRankIndex
  omega

theorem index_lt {n : Nat} {p : Rat} (filled : 0 < n) (limit : p ≤ 100) :
    nearestRankIndex n p < n := by
  have whole : p / 100 * n ≤ n := by
    have part : p / 100 ≤ 1 := by linarith
    have size : (0 : Rat) ≤ n := by positivity
    nlinarith
  have := Int.ceil_le.mpr (show p / 100 * n ≤ ((n : Int) : Rat) by exact_mod_cast whole)
  unfold nearestRankIndex
  omega

theorem index_mono {n : Nat} {p q : Rat} (le : p ≤ q) :
    nearestRankIndex n p ≤ nearestRankIndex n q := by
  have size : (0 : Rat) ≤ n := by positivity
  have scaled : p / 100 * n ≤ q / 100 * n := by
    apply mul_le_mul_of_nonneg_right _ size
    linarith
  have := Int.ceil_le_ceil scaled
  unfold nearestRankIndex
  omega

theorem index_zero (n : Nat) : nearestRankIndex n 0 = -1 := by
  simp [nearestRankIndex]

theorem rank_iff {n : Nat} {p : Rat} (filled : 0 < n) (positive : 0 < p) (count : Nat) :
    p / 100 * n ≤ count ↔ (nearestRankIndex n p).toNat + 1 ≤ count := by
  have nonneg := index_nonneg filled positive
  have ceiling : p / 100 * n ≤ count ↔ ⌈p / 100 * n⌉ ≤ (count : Int) := by
    rw [Int.ceil_le, Int.cast_natCast]
  rw [ceiling]
  unfold nearestRankIndex at nonneg ⊢
  omega

section Percentiles
variable [Zero α] {values : List α} {p : Rat}

theorem percentile_rank (filled : values ≠ []) (positive : 0 < p) :
    percentile values p = (sorted values)[(nearestRankIndex values.length p).toNat]? := by
  have size : 0 < values.length := List.length_pos_of_ne_nil filled
  simp only [percentile, sorted_length]
  rw [if_neg (by simpa using filled), item_nonneg (index_nonneg size positive)]

theorem percentile_disc (filled : values ≠ []) (positive : 0 < p) (limit : p ≤ 100) :
    ∃ v, percentile values p = some v ∧ IsPercentileDisc values p v := by
  have size : 0 < values.length := List.length_pos_of_ne_nil filled
  have nonneg := index_nonneg size positive
  have inside := index_lt size limit
  have bound : (nearestRankIndex values.length p).toNat < (sorted values).length := by
    rw [sorted_length]
    omega
  refine ⟨(sorted values)[(nearestRankIndex values.length p).toNat], ?_, ?_⟩
  · rw [percentile_rank filled positive, List.getElem?_eq_getElem bound]
  · simp only [IsPercentileDisc, rank_iff size positive]
    exact sorted_isLeast values bound

theorem percentile_mono {q : Rat} {v w : α} (filled : values ≠ []) (positive : 0 < p) (le : p ≤ q)
    (first : percentile values p = some v) (second : percentile values q = some w) : v ≤ w := by
  have size : 0 < values.length := List.length_pos_of_ne_nil filled
  have ordered := index_mono (n := values.length) le
  rw [percentile_rank filled positive, List.getElem?_eq_some_iff] at first
  rw [percentile_rank filled (lt_of_lt_of_le positive le), List.getElem?_eq_some_iff] at second
  obtain ⟨_, rfl⟩ := first
  obtain ⟨bound, rfl⟩ := second
  exact getElem_mono (sorted_pairwise values) (by omega) bound

/-- The percentile is the `percentile_disc` of the values, monotone from there on and
read off without wrapping, at every percentage but 0. -/
theorem percentile_disc_iff (filled : values ≠ []) (nonneg : 0 ≤ p) (limit : p ≤ 100) :
    ((∃ v, percentile values p = some v ∧ IsPercentileDisc values p v) ∧
      (∀ q v w, p ≤ q → q ≤ 100 → percentile values p = some v → percentile values q = some w →
        v ≤ w) ∧
      0 ≤ nearestRankIndex values.length p ∧ nearestRankIndex values.length p < values.length) ↔
    0 < p := by
  constructor
  · rintro ⟨_, _, inside, _⟩
    rcases nonneg.eq_or_lt with rfl | positive
    · rw [index_zero] at inside
      omega
    · exact positive
  · intro positive
    have size : 0 < values.length := List.length_pos_of_ne_nil filled
    exact ⟨percentile_disc filled positive limit,
      fun q v w le _ first second => percentile_mono filled positive le first second,
      index_nonneg size positive, index_lt size limit⟩

theorem percentile_disc_iff_median :
    ([(30 : Nat), 10, 20] ≠ [] ∧ (0 : Rat) ≤ 50 ∧ (50 : Rat) ≤ 100) ∧
    ∃ v, percentile [(30 : Nat), 10, 20] 50 = some v ∧ IsPercentileDisc [30, 10, 20] 50 v := by
  have filled : [(30 : Nat), 10, 20] ≠ [] := by simp
  have low : (0 : Rat) ≤ 50 := by norm_num
  have high : (50 : Rat) ≤ 100 := by norm_num
  exact ⟨⟨filled, low, high⟩, ((percentile_disc_iff filled low high).mpr (by norm_num)).1⟩

end Percentiles

/-- The percentile at 0 is the largest value, above the percentile at 1. -/
theorem percentile_zero_wraps :
    percentile [(10 : Nat), 20, 30] 0 = some 30 ∧ percentile [(10 : Nat), 20, 30] 1 = some 10 ∧
    CoreStats.percentileDisc 0 [10, 20, 30] = some 10 ∧ nearestRankIndex 3 0 = -1 ∧
    ¬ ∃ v, percentile [(10 : Nat), 20, 30] 0 = some v ∧ IsPercentileDisc [10, 20, 30] 0 v := by
  have wrapped : percentile [(10 : Nat), 20, 30] 0 = some 30 := by decide +kernel
  refine ⟨wrapped, by decide +kernel, by decide +kernel, index_zero 3, ?_⟩
  rintro ⟨v, value, least⟩
  cases Option.some.inj (value.symm.trans wrapped)
  have below : 30 ≤ 10 := least.2 ⟨by simp, by simp⟩
  omega

end EvalsPercentile
