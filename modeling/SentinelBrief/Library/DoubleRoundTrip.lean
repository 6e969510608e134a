import SentinelBrief.Library.Double
import Mathlib.Data.Int.Log
import Mathlib.Data.Rat.Floor
import Mathlib.Algebra.Order.Floor.Semifield
import Mathlib.Algebra.Order.Field.Power
import Mathlib.Tactic.Linarith
import Mathlib.Tactic.FieldSimp
import Mathlib.Tactic.Positivity
import Mathlib.Tactic.NormNum

/-!
Rounding as a function of the number alone, and the decimal text of a double
rounds back to it: seventeen digits are closer to it than half its last place.
-/
namespace DoubleText

def Double.Canonical : Double → Prop
  | .fin _ m e => m < 2 ^ 53 ∧ -1074 ≤ e ∧ e ≤ 971 ∧ (e = -1074 ∨ 2 ^ 52 ≤ m)
  | _ => True

instance (f : Double) : Decidable f.Canonical := by
  cases f <;> unfold Double.Canonical <;> infer_instance

def roundEven (x : ℚ) : Nat :=
  let q := ⌊x⌋₊
  if x - q < 1 / 2 then q else if 1 / 2 < x - q then q + 1 else q + q % 2

theorem divRound_eq (num : Nat) {den : Nat} (positive : 0 < den) :
    divRound num den = roundEven (num / den) := by
  have floor : ⌊(num / den : ℚ)⌋₊ = num / den := Nat.floor_div_eq_div num den
  have den0 : (0 : ℚ) < den := by exact_mod_cast positive
  have split : (num : ℚ) = den * (num / den : Nat) + (num % den : Nat) := by
    exact_mod_cast (Nat.div_add_mod num den).symm
  have rest : (num / den : ℚ) - (num / den : Nat) = (num % den : Nat) / den := by
    field_simp
    linarith
  have below : (num % den : Nat) / (den : ℚ) < 1 / 2 ↔ 2 * (num % den) < den := by
    rw [div_lt_div_iff₀ den0 two_pos, one_mul, mul_comm]
    exact_mod_cast Iff.rfl
  have above : 1 / 2 < (num % den : Nat) / (den : ℚ) ↔ den < 2 * (num % den) := by
    rw [div_lt_div_iff₀ two_pos den0, one_mul, mul_comm]
    exact_mod_cast Iff.rfl
  simp only [divRound, roundEven, floor, rest, below, above]

theorem floor_bounds {x : ℚ} (positive : 0 ≤ x) : (⌊x⌋₊ : ℚ) ≤ x ∧ x < ⌊x⌋₊ + 1 :=
  ⟨Nat.floor_le positive, Nat.lt_floor_add_one x⟩

theorem le_roundEven {x : ℚ} {n : Nat} (le : (n : ℚ) ≤ x) : n ≤ roundEven x := by
  have floor := Nat.le_floor le
  unfold roundEven
  dsimp only
  split
  · exact floor
  split
  · exact Nat.le_succ_of_le floor
  · exact Nat.le_add_right_of_le floor

theorem roundEven_near {x : ℚ} {n : Nat} (positive : 0 ≤ x) (below : (n : ℚ) - 1 / 2 < x)
    (above : x < n + 1 / 2) : roundEven x = n := by
  obtain ⟨low, high⟩ := floor_bounds positive
  have upper : (⌊x⌋₊ : ℚ) < n + 1 := by linarith
  have lower : (n : ℚ) < ⌊x⌋₊ + 2 := by linarith
  have range : ⌊x⌋₊ = n ∨ ⌊x⌋₊ + 1 = n := by
    have upper' : ⌊x⌋₊ < n + 1 := by exact_mod_cast upper
    have lower' : n < ⌊x⌋₊ + 2 := by exact_mod_cast lower
    omega
  unfold roundEven
  dsimp only
  rcases range with eq | eq
  · rw [eq] at low ⊢
    rw [if_pos (by linarith)]
  · have cast : (n : ℚ) = ⌊x⌋₊ + 1 := by exact_mod_cast eq.symm
    rw [if_neg (by linarith), if_pos (by linarith), eq]

theorem roundEven_le {x : ℚ} {n : Nat} (positive : 0 ≤ x) (lt : x < n) : roundEven x ≤ n := by
  have floor : ⌊x⌋₊ < n := (Nat.floor_lt positive).mpr lt
  unfold roundEven
  dsimp only
  split
  · exact floor.le
  split
  · exact floor
  · omega

theorem roundEven_ge {x : ℚ} {n : Nat} (positive : 0 ≤ x) (eq : roundEven x = n) :
    (n : ℚ) - 1 / 2 ≤ x := by
  obtain ⟨low, _⟩ := floor_bounds positive
  unfold roundEven at eq
  dsimp only at eq
  split at eq
  · rw [← eq]
    linarith
  split at eq
  · rw [← eq]
    push_cast
    linarith
  · rename_i half _
    have small : ⌊x⌋₊ % 2 ≤ 1 := by omega
    have cast : ((⌊x⌋₊ % 2 : Nat) : ℚ) ≤ 1 := by exact_mod_cast small
    rw [← eq]
    push_cast at cast ⊢
    linarith

theorem scaled_eq (num : Nat) {den : Nat} (positive : 0 < den) (e : Int) :
    scaled num den e = roundEven (num / den / 2 ^ e) := by
  unfold scaled
  split
  · rename_i nonneg
    obtain ⟨k, rfl⟩ := Int.eq_ofNat_of_zero_le nonneg
    rw [divRound_eq num (by positivity)]
    push_cast
    rw [div_div, Int.toNat_natCast, zpow_natCast]
  · rename_i negative
    obtain ⟨k, eq⟩ : ∃ k : Nat, e = -(k : Int) := ⟨(-e).toNat, by omega⟩
    subst eq
    rw [divRound_eq _ positive]
    push_cast
    rw [neg_neg, Int.toNat_natCast, zpow_neg, zpow_natCast, div_inv_eq_mul, div_mul_eq_mul_div]

def placeOf (x : ℚ) : Int := max (Int.log 2 x - 52) (-1074)

def signed (neg : Bool) (v : Nat × Int) : Double :=
  if 971 < v.2 then .inf neg else .fin neg v.1 v.2

def carried (m : Nat) (e : Int) : Nat × Int := if m = 2 ^ 53 then (2 ^ 52, e + 1) else (m, e)

def nearest (neg : Bool) (x : ℚ) : Double :=
  signed neg (carried (roundEven (x / 2 ^ placeOf x)) (placeOf x))

theorem log2_bounds {n : Nat} (positive : 0 < n) :
    (2 : ℚ) ^ (Nat.log2 n : Int) ≤ n ∧ (n : ℚ) < 2 ^ ((Nat.log2 n : Int) + 1) := by
  have low := Nat.log2_self_le (Nat.pos_iff_ne_zero.mp positive)
  have high := Nat.lt_log2_self (n := n)
  constructor
  · rw [zpow_natCast]
    exact_mod_cast low
  · have cast : ((Nat.log2 n : Int) + 1) = ((Nat.log2 n + 1 : Nat) : Int) := by push_cast; rfl
    rw [cast, zpow_natCast]
    exact_mod_cast high

theorem log_eq {b : Nat} (base : 1 < b) {x : ℚ} (positive : 0 < x) {t : Int}
    (low : (b : ℚ) ^ t ≤ x) (high : x < (b : ℚ) ^ (t + 1)) : Int.log b x = t := by
  have lower := (Int.zpow_le_iff_le_log base positive).mp low
  have upper := (Int.lt_zpow_iff_log_lt base positive).mp high
  omega

theorem log_ratio {num den : Nat} (numerator : 0 < num) (denominator : 0 < den) :
    Int.log 2 (num / den : ℚ) = (Nat.log2 num : Int) - (Nat.log2 den : Int) - 1 ∨
      Int.log 2 (num / den : ℚ) = (Nat.log2 num : Int) - (Nat.log2 den : Int) := by
  obtain ⟨low, high⟩ := log2_bounds numerator
  obtain ⟨low', high'⟩ := log2_bounds denominator
  generalize (Nat.log2 num : Int) = n at *
  generalize (Nat.log2 den : Int) = d at *
  have den0 : (0 : ℚ) < den := by exact_mod_cast denominator
  have num0 : (0 : ℚ) < num := by exact_mod_cast numerator
  have positive : (0 : ℚ) < num / den := div_pos num0 den0
  have power : ∀ k : Int, (0 : ℚ) < 2 ^ k := fun k => zpow_pos two_pos k
  have add : ∀ j k : Int, (2 : ℚ) ^ j * 2 ^ k = 2 ^ (j + k) := fun j k =>
    (zpow_add₀ two_ne_zero j k).symm
  have below : (2 : ℚ) ^ (n - d - 1) ≤ num / den := by
    rw [le_div_iff₀ den0]
    calc (2 : ℚ) ^ (n - d - 1) * den ≤ 2 ^ (n - d - 1) * 2 ^ (d + 1) :=
          mul_le_mul_of_nonneg_left high'.le (power _).le
      _ = 2 ^ n := by rw [add, show n - d - 1 + (d + 1) = n by omega]
      _ ≤ num := low
  have above : (num / den : ℚ) < 2 ^ (n - d + 1) := by
    rw [div_lt_iff₀ den0]
    calc (num : ℚ) < 2 ^ (n + 1) := high
      _ = 2 ^ (n - d + 1) * 2 ^ d := by rw [add, show n - d + 1 + d = n + 1 by omega]
      _ ≤ 2 ^ (n - d + 1) * den := mul_le_mul_of_nonneg_left low' (power _).le
  have lower := (Int.zpow_le_iff_le_log one_lt_two positive).mp (by exact_mod_cast below)
  have upper := (Int.lt_zpow_iff_log_lt one_lt_two positive).mp (by exact_mod_cast above)
  omega

theorem placed_lt (x : ℚ) : x / 2 ^ placeOf x < 2 ^ 53 := by
  have high := Int.lt_zpow_succ_log_self one_lt_two x
  have exponent : Int.log 2 x + 1 ≤ 53 + placeOf x := by
    unfold placeOf
    omega
  rw [div_lt_iff₀ (zpow_pos two_pos _)]
  calc x < ((2 : Nat) : ℚ) ^ (Int.log 2 x + 1) := high
    _ ≤ 2 ^ (53 + placeOf x) := by
        push_cast
        exact zpow_le_zpow_right₀ one_le_two exponent
    _ = 2 ^ 53 * 2 ^ placeOf x := by
        rw [zpow_add₀ two_ne_zero]
        rfl

theorem placed_le {x : ℚ} (positive : 0 < x) (normal : -1074 ≤ Int.log 2 x - 52) :
    2 ^ 52 ≤ x / 2 ^ placeOf x := by
  have low := Int.zpow_log_le_self one_lt_two positive
  have exponent : placeOf x = Int.log 2 x - 52 := by
    unfold placeOf
    omega
  rw [le_div_iff₀ (zpow_pos two_pos _), exponent]
  calc (2 : ℚ) ^ 52 * 2 ^ (Int.log 2 x - 52) = 2 ^ Int.log 2 x := by
        rw [← zpow_natCast, ← zpow_add₀ two_ne_zero]
        congr 1
        omega
    _ ≤ x := by exact_mod_cast low

theorem div_next (x : ℚ) (e : Int) : x / 2 ^ (e + 1) = x / 2 ^ e / 2 := by
  rw [zpow_add_one₀ two_ne_zero, div_div]

theorem roundEven_carry {x : ℚ} (positive : 0 < x) (lt : x < 2 ^ 53)
    (carry : roundEven x = 2 ^ 53) : roundEven (x / 2) = 2 ^ 52 := by
  have near := roundEven_ge positive.le carry
  push_cast at near
  refine roundEven_near (by linarith) ?_ ?_
  · push_cast
    linarith
  · push_cast
    linarith

/-- A first place that is right or one too fine is corrected. -/
theorem carried_guess {x : ℚ} (positive : 0 < x) {g : Int}
    (guess : g = placeOf x ∨ g + 1 = placeOf x ∧ 2 ^ 52 ≤ x / 2 ^ placeOf x) :
    let e := if roundEven (x / 2 ^ g) < 2 ^ 53 then g else g + 1
    carried (roundEven (x / 2 ^ e)) e = carried (roundEven (x / 2 ^ placeOf x)) (placeOf x) := by
  have below := placed_lt x
  dsimp only
  rcases guess with rfl | ⟨next, normal⟩
  · have placed : 0 < x / 2 ^ placeOf x := div_pos positive (zpow_pos two_pos _)
    have le := roundEven_le (n := 2 ^ 53) placed.le (by exact_mod_cast below)
    by_cases room : roundEven (x / 2 ^ placeOf x) < 2 ^ 53
    · rw [if_pos room]
    · have carry : roundEven (x / 2 ^ placeOf x) = 2 ^ 53 := by omega
      have half := roundEven_carry placed below carry
      rw [if_neg room, div_next, half, carry]
      rfl
  · have finer : x / 2 ^ g = x / 2 ^ placeOf x * 2 := by
      rw [← next, div_next]
      ring
    have many : 2 ^ 53 ≤ roundEven (x / 2 ^ g) := by
      refine le_roundEven ?_
      rw [finer]
      push_cast
      linarith
    rw [if_neg (by omega), next]

/-- The rounding does not depend on how the number is written as a ratio. -/
theorem ofRatio_eq (neg : Bool) {num den : Nat} (numerator : 0 < num) (denominator : 0 < den) :
    ofRatio neg num den = nearest neg (num / den) := by
  have positive : (0 : ℚ) < num / den :=
    div_pos (by exact_mod_cast numerator) (by exact_mod_cast denominator)
  have logs := log_ratio numerator denominator
  have normal := placed_le positive
  have place : placeOf (num / den : ℚ) = max (Int.log 2 (num / den : ℚ) - 52) (-1074) := rfl
  have chosen := carried_guess positive
    (g := max ((Nat.log2 num : Int) - (Nat.log2 den : Int) - 53) (-1074)) (by
      by_cases fine : -1074 ≤ Int.log 2 (num / den : ℚ) - 52
      · rcases logs with log | log
        · exact .inl (by omega)
        · by_cases least : Int.log 2 (num / den : ℚ) - 52 = -1074
          · exact .inl (by omega)
          · exact .inr ⟨by omega, normal fine⟩
      · exact .inl (by omega))
  rw [ofRatio, if_neg (Nat.pos_iff_ne_zero.mp numerator)]
  simp only [scaled_eq num denominator]
  rw [nearest, ← chosen]
  rfl

theorem canonical_signed (neg : Bool) {v : Nat × Int} (bound : v.1 < 2 ^ 53) (low : -1074 ≤ v.2)
    (normal : v.2 = -1074 ∨ 2 ^ 52 ≤ v.1) : (signed neg v).Canonical := by
  unfold signed
  split
  · trivial
  · exact ⟨bound, low, by omega, normal⟩

theorem canonical_nearest (neg : Bool) {x : ℚ} (positive : 0 < x) : (nearest neg x).Canonical := by
  have placed : 0 < x / 2 ^ placeOf x := div_pos positive (zpow_pos two_pos _)
  have le := roundEven_le (n := 2 ^ 53) placed.le (by exact_mod_cast placed_lt x)
  have low : -1074 ≤ placeOf x := le_max_right _ _
  have normal : placeOf x = -1074 ∨ 2 ^ 52 ≤ roundEven (x / 2 ^ placeOf x) := by
    by_cases fine : -1074 ≤ Int.log 2 x - 52
    · exact .inr (le_roundEven (by exact_mod_cast placed_le positive fine))
    · exact .inl (by unfold placeOf; omega)
  unfold nearest carried
  split
  · exact canonical_signed neg (by norm_num) (by dsimp only; omega) (.inr (le_refl _))
  · exact canonical_signed neg (by dsimp only; omega) low normal

def magnitude (m : Nat) (e : Int) : ℚ := m * 2 ^ e

/-- The numbers next to a value that are rounded to it and not to a neighbour:
    below a power of two the neighbour is nearer. -/
def Beside (m : Nat) (e : Int) (x : ℚ) : Prop :=
  (m : ℚ) - (if m = 2 ^ 52 ∧ e ≠ -1074 then 1 / 4 else 1 / 2) < x / 2 ^ e ∧ x / 2 ^ e < m + 1 / 2

theorem placeOf_eq {x : ℚ} {e : Int} (positive : 0 < x) (low : 2 ^ 52 ≤ x / 2 ^ e)
    (high : x / 2 ^ e < 2 ^ 53) (least : -1074 ≤ e) : placeOf x = e := by
  have power : (0 : ℚ) < 2 ^ e := zpow_pos two_pos e
  have log : Int.log (2 : Nat) x = e + 52 := by
    refine log_eq one_lt_two positive ?_ ?_
    · rw [le_div_iff₀ power, ← zpow_natCast, ← zpow_add₀ two_ne_zero] at low
      rw [add_comm]
      exact_mod_cast low
    · rw [div_lt_iff₀ power, ← zpow_natCast, ← zpow_add₀ two_ne_zero] at high
      rw [show e + 52 + 1 = ((53 : Nat) : Int) + e by push_cast; omega]
      exact_mod_cast high
  unfold placeOf
  omega

theorem placeOf_least {x : ℚ} (positive : 0 < x) (high : x / 2 ^ (-1074 : Int) < 2 ^ 53) :
    placeOf x = -1074 := by
  rw [div_lt_iff₀ (zpow_pos two_pos _), ← zpow_natCast, ← zpow_add₀ two_ne_zero] at high
  have log := (Int.lt_zpow_iff_log_lt one_lt_two positive).mp (by exact_mod_cast high)
  unfold placeOf
  omega

theorem nearest_beside {m : Nat} {e : Int} (canonical : (Double.fin false m e).Canonical) {x : ℚ}
    (positive : 0 < x) (beside : Beside m e x) : nearest false x = .fin false m e := by
  obtain ⟨bound, least, most, normal⟩ := canonical
  obtain ⟨below, above⟩ := beside
  have small : (m : ℚ) + 1 ≤ 2 ^ 53 := by exact_mod_cast bound
  have scaled : 0 < x / 2 ^ e := div_pos positive (zpow_pos two_pos _)
  -- where the place is that of the value
  have here : placeOf x = e → (m : ℚ) - 1 / 2 < x / 2 ^ e → nearest false x = .fin false m e := by
    intro place low
    have round := roundEven_near scaled.le low above
    rw [nearest, place, round, carried, if_neg (by omega), signed, if_neg (by simpa using most)]
  by_cases inner : e = -1074
  · subst inner
    rw [if_neg (by simp)] at below
    exact here (placeOf_least positive (by linarith)) below
  have normal := normal.resolve_left inner
  by_cases under : x / 2 ^ e < 2 ^ 52
  · -- the neighbour below has a finer place, and the value is carried to
    have power : m = 2 ^ 52 := by
      by_contra other
      have next : (2 : ℚ) ^ 52 + 1 ≤ m := by
        have above : 2 ^ 52 + 1 ≤ m := by omega
        exact_mod_cast above
      rw [if_neg fun both => other both.1] at below
      linarith
    subst power
    rw [if_pos ⟨rfl, inner⟩] at below
    push_cast at below
    have finer : x / 2 ^ (e - 1) = x / 2 ^ e * 2 := by
      have next := div_next x (e - 1)
      rw [sub_add_cancel] at next
      rw [next]
      ring
    have place : placeOf x = e - 1 := by
      refine placeOf_eq positive ?_ ?_ (by omega) <;> rw [finer] <;> linarith
    have round : roundEven (x / 2 ^ (e - 1)) = 2 ^ 53 := by
      refine roundEven_near (by rw [finer]; linarith) ?_ ?_ <;>
        · rw [finer]
          push_cast
          linarith
    rw [nearest, place, round, carried, if_pos rfl, signed, if_neg (by simpa using most),
      sub_add_cancel]
  · refine here (placeOf_eq positive (le_of_not_gt under) (by linarith) least) ?_
    refine lt_of_le_of_lt ?_ below
    split <;> linarith

theorem nearest_signed {x : ℚ} {m : Nat} {e : Int} (found : nearest false x = .fin false m e)
    (neg : Bool) : nearest neg x = .fin neg m e := by
  unfold nearest signed at found ⊢
  split at found
  · simp at found
  · rename_i finite
    rw [if_neg finite]
    simp only [Double.fin.injEq, true_and] at found
    rw [found.1, found.2]

theorem ofDecimal_eq (neg : Bool) {d : Nat} (positive : 0 < d) (k : Int) :
    ofDecimal neg d k = nearest neg (d * 10 ^ k) := by
  unfold ofDecimal
  split
  · rename_i nonneg
    obtain ⟨n, rfl⟩ := Int.eq_ofNat_of_zero_le nonneg
    rw [ofRatio_eq neg (by positivity) Nat.one_pos]
    push_cast
    rw [div_one, Int.toNat_natCast, zpow_natCast]
  · rename_i negative
    obtain ⟨n, eq⟩ : ∃ n : Nat, k = -(n : Int) := ⟨(-k).toNat, by omega⟩
    subst eq
    rw [ofRatio_eq neg positive (by positivity)]
    push_cast
    rw [neg_neg, Int.toNat_natCast, zpow_neg, zpow_natCast, div_eq_mul_inv]

theorem ofDecimal_zero (neg : Bool) (k : Int) : ofDecimal neg 0 k = .fin neg 0 (-1074) := by
  unfold ofDecimal
  split <;> simp [ofRatio]

theorem canonical_ofDecimal (neg : Bool) (d : Nat) (k : Int) : (ofDecimal neg d k).Canonical := by
  by_cases zero : d = 0
  · subst zero
    rw [ofDecimal_zero]
    exact ⟨by norm_num, by omega, by omega, .inl rfl⟩
  · have positive : 0 < d := by omega
    rw [ofDecimal_eq neg positive]
    exact canonical_nearest neg (by positivity)

theorem ofDecimal_congr (neg : Bool) {c d : Nat} {j k : Int} (positive : 0 < c)
    (same : (c : ℚ) * 10 ^ j = d * 10 ^ k) : ofDecimal neg c j = ofDecimal neg d k := by
  have other : 0 < d := by
    have value : (0 : ℚ) < d * 10 ^ k := by
      rw [← same]
      positivity
    by_contra zero
    rw [show d = 0 by omega] at value
    simp at value
  rw [ofDecimal_eq neg positive, ofDecimal_eq neg other, same]

theorem decimalFloor_eq (m : Nat) (e k : Int) : decimalFloor m e k = ⌊magnitude m e / 10 ^ k⌋₊ := by
  unfold decimalFloor magnitude
  rw [← Nat.floor_div_eq_div (K := ℚ)]
  congr 1
  push_cast
  have two : (2 : ℚ) ^ e = (if 0 ≤ e then 2 ^ e.toNat else 1) / (if 0 ≤ e then 1 else 2 ^ (-e).toNat) := by
    split
    · rename_i nonneg
      obtain ⟨n, rfl⟩ := Int.eq_ofNat_of_zero_le nonneg
      simp
    · obtain ⟨n, eq⟩ : ∃ n : Nat, e = -(n : Int) := ⟨(-e).toNat, by omega⟩
      subst eq
      simp
  have ten : (10 : ℚ) ^ k =
      (if 0 ≤ k then 10 ^ k.toNat else 1) / (if 0 ≤ k then 1 else 10 ^ (-k).toNat) := by
    split
    · rename_i nonneg
      obtain ⟨n, rfl⟩ := Int.eq_ofNat_of_zero_le nonneg
      simp
    · obtain ⟨n, eq⟩ : ∃ n : Nat, k = -(n : Int) := ⟨(-k).toNat, by omega⟩
      subst eq
      simp
  rw [two, ten]
  have two0 : (0 : ℚ) < if 0 ≤ e then 1 else 2 ^ (-e).toNat := by split <;> positivity
  have ten0 : (0 : ℚ) < if 0 ≤ k then 1 else 10 ^ (-k).toNat := by split <;> positivity
  have ten1 : (0 : ℚ) < if 0 ≤ k then 10 ^ k.toNat else 1 := by split <;> positivity
  field_simp

theorem magnitude_pos {m : Nat} (positive : 0 < m) (e : Int) : 0 < magnitude m e := by
  unfold magnitude
  positivity

theorem decimalFloor_pos (m : Nat) (e k : Int) :
    0 < decimalFloor m e k ↔ 10 ^ k ≤ magnitude m e := by
  have ten : (0 : ℚ) < 10 ^ k := by positivity
  rw [decimalFloor_eq, Nat.floor_pos, one_le_div ten]

theorem magnitude_least {m : Nat} (positive : 0 < m) {e : Int} (least : -1074 ≤ e) :
    (10 : ℚ) ^ (-342 : Int) ≤ magnitude m e := by
  have one : (1 : ℚ) ≤ m := by exact_mod_cast positive
  have powers : (10 : ℚ) ^ (-342 : Int) ≤ 2 ^ (-1074 : Int) := by
    have step : ((2 : ℚ) ^ 29) ^ 38 ≤ (10 ^ 9) ^ 38 := by gcongr; norm_num
    rw [← pow_mul, ← pow_mul] at step
    have fewer : (2 : ℚ) ^ 1074 ≤ 2 ^ (29 * 38) := pow_le_pow_right₀ one_le_two (by decide)
    rw [zpow_neg, zpow_neg, zpow_ofNat, zpow_ofNat]
    exact inv_anti₀ (by positivity) (fewer.trans step)
  calc (10 : ℚ) ^ (-342 : Int) ≤ 2 ^ (-1074 : Int) := powers
    _ ≤ 2 ^ e := zpow_le_zpow_right₀ one_le_two least
    _ ≤ m * 2 ^ e := le_mul_of_one_le_left (zpow_nonneg two_pos.le e) one

theorem toDigits_bounds {n : Nat} (positive : 0 < n) :
    10 ^ ((Nat.toDigits 10 n).length - 1) ≤ n ∧ n < 10 ^ (Nat.toDigits 10 n).length := by
  have length := Nat.length_toDigits_pos (b := 10) (n := n)
  have bounds := fun k => Nat.length_toDigits_le_iff (b := 10) (n := n) (k := k) (by decide)
  refine ⟨?_, (bounds _ length).mp (le_refl _)⟩
  by_contra below
  by_cases single : (Nat.toDigits 10 n).length = 1
  · rw [single] at below
    omega
  · have short := (bounds _ (by omega)).mpr (not_le.mp below)
    omega

theorem width_whole {x : ℚ} (positive : 0 ≤ x) (whole : 0 < ⌊x⌋₊) :
    (10 : ℚ) ^ (((Nat.toDigits 10 ⌊x⌋₊).length : Int) - 1) ≤ x ∧
      x < 10 ^ ((Nat.toDigits 10 ⌊x⌋₊).length : Int) := by
  obtain ⟨low, high⟩ := floor_bounds positive
  obtain ⟨lower, upper⟩ := toDigits_bounds whole
  have length := Nat.length_toDigits_pos (b := 10) (n := ⌊x⌋₊)
  generalize (Nat.toDigits 10 ⌊x⌋₊).length = l at *
  constructor
  · have cast : ((10 ^ (l - 1) : Nat) : ℚ) ≤ ⌊x⌋₊ := by exact_mod_cast lower
    rw [show (l : Int) - 1 = ((l - 1 : Nat) : Int) by omega, zpow_natCast]
    push_cast at cast
    linarith
  · have cast : ((⌊x⌋₊ + 1 : Nat) : ℚ) ≤ (10 ^ l : Nat) := by exact_mod_cast upper
    rw [zpow_natCast]
    push_cast at cast
    linarith

theorem decimalWidth_spec {m : Nat} (positive : 0 < m) {e : Int} (least : -1074 ≤ e) :
    10 ^ (decimalWidth m e - 1) ≤ magnitude m e ∧ magnitude m e < 10 ^ decimalWidth m e := by
  have floor := decimalFloor_eq m e 0
  rw [zpow_zero, div_one] at floor
  unfold decimalWidth
  dsimp only
  split
  · rename_i whole
    rw [floor] at whole ⊢
    exact width_whole (magnitude_pos positive e).le whole
  rename_i none
  rw [decimalFloor_pos, zpow_zero] at none
  have one := lt_of_not_ge none
  cases found : (List.range 343).find? fun p : Nat => 0 < decimalFloor m e (-(p : Int)) with
  | none =>
    have last := List.find?_eq_none.mp found 342 (by simp)
    rw [decide_eq_true_eq, decimalFloor_pos] at last
    exact absurd (magnitude_least positive least) last
  | some p =>
    obtain ⟨here, _, earlier⟩ := List.find?_range_eq_some.mp found
    rw [decide_eq_true_eq, decimalFloor_pos] at here
    simp only [Option.getD_some]
    refine ⟨by rwa [show 1 - (p : Int) - 1 = -(p : Int) by omega], ?_⟩
    obtain ⟨q, rfl⟩ : ∃ q, p = q + 1 := ⟨p - 1, by
      by_contra zero
      rw [show p = 0 by omega] at here
      exact absurd one (not_lt.mpr (by simpa using here))⟩
    have above := earlier q (by omega)
    rw [Bool.not_eq_true', decide_eq_false_iff_not, decimalFloor_pos] at above
    rw [show 1 - ((q + 1 : Nat) : Int) = -(q : Int) by omega]
    exact lt_of_not_ge above

/-- Sixteen digits past the first are finer than half the last place of a double. -/
theorem decimal_beside {m : Nat} {e : Int} (canonical : (Double.fin false m e).Canonical) {s y : ℚ}
    (fine : s * 10 ^ 16 ≤ magnitude m e) (near : 2 * |y - magnitude m e| ≤ s) :
    Beside m e y := by
  obtain ⟨bound, _, _, normal⟩ := canonical
  have power : (0 : ℚ) < 2 ^ e := zpow_pos two_pos e
  have small : (m : ℚ) + 1 ≤ 2 ^ 53 := by exact_mod_cast bound
  have step : s < 2 ^ e := by
    have most : magnitude m e < 2 ^ 53 * 2 ^ e := by
      unfold magnitude
      exact mul_lt_mul_of_pos_right (by linarith) power
    norm_num at fine most
    linarith
  obtain ⟨left, right⟩ := abs_le.mp (show |y - magnitude m e| ≤ s / 2 by linarith)
  have scaled : y / 2 ^ e = m + (y - magnitude m e) / 2 ^ e := by
    unfold magnitude
    field_simp
    ring
  have above : (y - magnitude m e) / 2 ^ e < 1 / 2 := by
    rw [div_lt_iff₀ power]
    linarith
  refine ⟨?_, by rw [scaled]; linarith⟩
  rw [scaled]
  split
  · rename_i boundary
    have finer : s < 2 ^ e / 2 := by
      unfold magnitude at fine
      rw [boundary.1] at fine
      push_cast at fine
      norm_num at fine
      linarith
    have below : -(1 / 4) < (y - magnitude m e) / 2 ^ e := by
      rw [lt_div_iff₀ power]
      linarith
    linarith
  · have below : -(1 / 2) < (y - magnitude m e) / 2 ^ e := by
      rw [lt_div_iff₀ power]
      linarith
    linarith

/-- Whatever decimal the search returns rounds back. -/
theorem shortest_back {m : Nat} {e width : Int} {n : Nat} {v : Nat × Int}
    (found : shortest m e width n = some v) : ofDecimal false v.1 v.2 = .fin false m e := by
  unfold shortest at found
  dsimp only at found
  split at found
  · rename_i back
    rw [← Option.some.inj found]
    exact back.1
  split at found
  · rename_i back
    rw [← Option.some.inj found]
    exact back
  · cases found

theorem shortest_some {m : Nat} {e width : Int} {n : Nat}
    (back : ofDecimal false (decimalFloor m e (width - n)) (width - n) = .fin false m e ∨
      ofDecimal false (decimalFloor m e (width - n) + 1) (width - n) = .fin false m e) :
    (shortest m e width n).isSome := by
  unfold shortest
  dsimp only
  split
  · rfl
  split
  · rfl
  · rename_i first second
    rcases back with low | high
    · exact absurd ⟨low, .inl second⟩ first
    · exact absurd high second

theorem shortest_seventeen {m : Nat} (positive : 0 < m) {e : Int}
    (canonical : (Double.fin false m e).Canonical) :
    (shortest m e (decimalWidth m e) 17).isSome := by
  obtain ⟨low, _⟩ := decimalWidth_spec positive canonical.2.1
  refine shortest_some ?_
  generalize decimalWidth m e = w at *
  have unit : (0 : ℚ) < 10 ^ (w - (17 : Nat)) := by positivity
  have fine : (10 : ℚ) ^ (w - (17 : Nat)) * 10 ^ 16 ≤ magnitude m e := by
    rw [← zpow_natCast, ← zpow_add₀ (by norm_num)]
    rwa [show w - (17 : Nat) + (16 : Nat) = w - 1 by push_cast; omega]
  generalize w - ((17 : Nat) : Int) = k at *
  have floor := decimalFloor_eq m e k
  obtain ⟨under, above⟩ := floor_bounds (div_pos (magnitude_pos positive e) unit).le
  rw [← floor] at under above
  rw [le_div_iff₀ unit] at under
  rw [div_lt_iff₀ unit] at above
  have some : 0 < decimalFloor m e k := by
    rw [decimalFloor_pos]
    have many : (10 : ℚ) ^ k ≤ 10 ^ k * 10 ^ 16 := le_mul_of_one_le_right unit.le (by norm_num)
    exact many.trans fine
  rcases le_total (2 * (magnitude m e - decimalFloor m e k * 10 ^ k)) (10 ^ k) with near | near
  · left
    rw [ofDecimal_eq false some]
    refine nearest_beside canonical (by positivity) (decimal_beside canonical fine ?_)
    rw [abs_sub_comm, abs_of_nonneg (by linarith)]
    exact near
  · right
    rw [ofDecimal_eq false (by omega)]
    refine nearest_beside canonical (by positivity) (decimal_beside canonical fine ?_)
    push_cast
    rw [abs_of_nonneg (by linarith)]
    linarith

theorem strip_value (fuel d : Nat) (k : Int) :
    ((strip fuel d k).1 : ℚ) * 10 ^ (strip fuel d k).2 = d * 10 ^ k ∧
      (0 < d → 0 < (strip fuel d k).1) := by
  induction fuel generalizing d k with
  | zero => exact ⟨rfl, id⟩
  | succ fuel ih =>
    unfold strip
    split
    · rename_i zero
      obtain ⟨value, some⟩ := ih (d / 10) (k + 1)
      have whole : (d : ℚ) = (d / 10 : Nat) * 10 := by
        exact_mod_cast (Nat.div_mul_cancel (Nat.dvd_of_mod_eq_zero zero.2)).symm
      refine ⟨?_, fun positive => some (by omega)⟩
      rw [value, whole, zpow_add_one₀ (by norm_num)]
      ring
    · exact ⟨rfl, id⟩

def shortestDecimal (m : Nat) (e : Int) : Nat × Int :=
  let width := decimalWidth m e
  let found := (List.range 17).findSome? fun n => shortest m e width (n + 1)
  let value := found.getD (decimalFloor m e (width - 17), width - 17)
  strip 17 value.1 value.2

theorem reprMagnitude_eq {m : Nat} (positive : 0 < m) (e : Int) :
    reprMagnitude m e = layout (Nat.toDigits 10 (shortestDecimal m e).1)
      ((Nat.toDigits 10 (shortestDecimal m e).1).length + (shortestDecimal m e).2) := by
  rw [reprMagnitude, if_neg (by omega)]
  rfl

theorem shortestDecimal_reads {m : Nat} (positive : 0 < m) {e : Int}
    (canonical : (Double.fin false m e).Canonical) :
    0 < (shortestDecimal m e).1 ∧ ∀ neg,
      ofDecimal neg (shortestDecimal m e).1 (shortestDecimal m e).2 = .fin neg m e := by
  have enough := shortest_seventeen positive canonical
  unfold shortestDecimal
  dsimp only
  cases found : (List.range 17).findSome? fun n => shortest m e (decimalWidth m e) (n + 1) with
  | none =>
    have last := List.findSome?_eq_none_iff.mp found 16 (by simp)
    rw [last] at enough
    cases enough
  | some v =>
    obtain ⟨n, _, here⟩ := List.exists_of_findSome?_eq_some found
    have back := shortest_back here
    have some : 0 < v.1 := by
      by_contra zero
      rw [show v.1 = 0 by omega, ofDecimal_zero] at back
      simp only [Double.fin.injEq] at back
      omega
    obtain ⟨value, kept⟩ := strip_value 17 v.1 v.2
    refine ⟨kept some, fun neg => ?_⟩
    rw [Option.getD_some, ofDecimal_congr neg (kept some) value, ofDecimal_eq neg some]
    rw [ofDecimal_eq false some] at back
    exact nearest_signed back neg

end DoubleText
