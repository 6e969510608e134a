import SentinelBrief.Library.DecimalText
import SentinelBrief.Library.DoubleRoundTrip
import Mathlib.Order.WithBot

/-!
Decimal arithmetic to a number of significant digits: the exact result is rounded
to the nearest number with so many digits, ties to even. Rounding never passes such
a number. Exponents are unbounded.
-/
namespace SignificantDigits
open DoubleText DecimalText
variable {digits : Nat} {x y : ℚ}

def lastPlace (digits : Nat) (x : ℚ) : Int := Int.log 10 x + 1 - digits

def roundMagnitude (digits : Nat) (x : ℚ) : ℚ :=
  roundEven (x / 10 ^ lastPlace digits x) * 10 ^ lastPlace digits x

def significant (digits : Nat) (x : ℚ) : ℚ :=
  if x = 0 then 0 else if x < 0 then -roundMagnitude digits (-x) else roundMagnitude digits x

/-- A number that so many digits can write. -/
def Written (digits : Nat) (x : ℚ) : Prop := ∃ (n : Nat) (k : Int), n < 10 ^ digits ∧ |x| = n * 10 ^ k

theorem written_neg (written : Written digits x) : Written digits (-x) := by
  obtain ⟨n, k, short, value⟩ := written
  exact ⟨n, k, short, by rw [abs_neg, value]⟩

theorem written_natural {n : Nat} (short : n < 10 ^ digits) : Written digits n :=
  ⟨n, 0, short, by rw [zpow_zero, mul_one]; exact abs_of_nonneg (Nat.cast_nonneg n)⟩

theorem whole_scaled {n : Nat} {k place : Int} (le : place ≤ k) :
    (n * 10 ^ k : ℚ) / 10 ^ place = (n * 10 ^ (k - place).toNat : Nat) := by
  have split : (10 : ℚ) ^ k = 10 ^ (k - place).toNat * 10 ^ place := by
    rw [← zpow_natCast, ← zpow_add₀ (by norm_num)]
    congr 1
    omega
  rw [split, ← mul_assoc, mul_div_assoc, div_self (by positivity), mul_one]
  push_cast
  rfl

theorem written_below {n : Nat} {k : Int} (short : n < 10 ^ digits) (below : k < lastPlace digits x) :
    (n * 10 ^ k : ℚ) < 10 ^ Int.log 10 x := by
  have bound : (n : ℚ) < 10 ^ digits := by exact_mod_cast short
  calc (n * 10 ^ k : ℚ) < 10 ^ digits * 10 ^ k := by gcongr
    _ = 10 ^ ((digits : Int) + k) := by rw [← zpow_natCast, ← zpow_add₀ (by norm_num)]
    _ ≤ 10 ^ Int.log 10 x := by
      refine zpow_le_zpow_right₀ (by norm_num) ?_
      unfold lastPlace at below
      omega

theorem le_roundMagnitude (positive : 0 < x) (some : 0 < digits) (le : y ≤ x) (least : 0 ≤ y)
    (written : Written digits y) : y ≤ roundMagnitude digits x := by
  obtain ⟨n, k, short, value⟩ := written
  rw [abs_of_nonneg least] at value
  have power : (0 : ℚ) < 10 ^ lastPlace digits x := by positivity
  unfold roundMagnitude
  rw [← div_le_iff₀ power]
  by_cases place : lastPlace digits x ≤ k
  · rw [value, whole_scaled place]
    have scaled : ((n * 10 ^ (k - lastPlace digits x).toNat : Nat) : ℚ) ≤ x / 10 ^ lastPlace digits x := by
      rw [← whole_scaled place, ← value]
      gcongr
    exact_mod_cast le_roundEven scaled
  · -- the first digit of `x` stands, and `y` is not above it
    have first : (10 : ℚ) ^ Int.log 10 x = (10 ^ (digits - 1) : Nat) * 10 ^ lastPlace digits x := by
      push_cast
      rw [← zpow_natCast, ← zpow_add₀ (by norm_num), lastPlace]
      congr 1
      omega
    have kept : ((10 ^ (digits - 1) : Nat) : ℚ) ≤ x / 10 ^ lastPlace digits x := by
      rw [le_div_iff₀ power, ← first]
      exact Int.zpow_log_le_self (by norm_num) positive
    calc y / 10 ^ lastPlace digits x ≤ ((10 ^ (digits - 1) : Nat) : ℚ) := by
          rw [div_le_iff₀ power, ← first, value]
          exact (written_below short (not_le.mp place)).le
      _ ≤ roundEven (x / 10 ^ lastPlace digits x) := by exact_mod_cast le_roundEven kept

theorem roundEven_natural (n : Nat) : roundEven (n : ℚ) = n :=
  roundEven_near (Nat.cast_nonneg n) (by linarith) (by linarith)

theorem roundMagnitude_le (positive : 0 < x) (le : x ≤ y) (written : Written digits y) :
    roundMagnitude digits x ≤ y := by
  obtain ⟨n, k, short, value⟩ := written
  rw [abs_of_nonneg (positive.le.trans le)] at value
  have power : (0 : ℚ) < 10 ^ lastPlace digits x := by positivity
  unfold roundMagnitude
  rw [← le_div_iff₀ power]
  by_cases place : lastPlace digits x ≤ k
  · rw [value, whole_scaled place]
    have scaled : x / 10 ^ lastPlace digits x ≤ ((n * 10 ^ (k - lastPlace digits x).toNat : Nat) : ℚ) := by
      rw [← whole_scaled place, ← value]
      gcongr
    have nonneg : 0 ≤ x / 10 ^ lastPlace digits x := by positivity
    rcases scaled.lt_or_eq with lt | eq
    · exact_mod_cast roundEven_le nonneg lt
    · rw [eq, roundEven_natural]
  · have first := Int.zpow_log_le_self (b := 10) (by norm_num) positive
    have above := written_below short (not_le.mp place)
    rw [← value] at above
    push_cast at first
    exact absurd (le.trans_lt above) (not_lt.mpr first)

theorem significant_le (le : x ≤ y) (written : Written digits y) (some : 0 < digits) :
    significant digits x ≤ y := by
  unfold significant
  split
  · rename_i zero
    exact zero ▸ le
  split
  · rename_i negative
    rcases le_total 0 y with positive | below
    · have rounded : 0 ≤ roundMagnitude digits (-x) := by
        unfold roundMagnitude
        positivity
      linarith
    · have kept := le_roundMagnitude (neg_pos.mpr negative) some (neg_le_neg le) (neg_nonneg.mpr below)
        (written_neg written)
      linarith
  · rename_i nonzero notNegative
    exact roundMagnitude_le (lt_of_le_of_ne (not_lt.mp notNegative) (Ne.symm nonzero)) le written

theorem significant_neg (x : ℚ) : significant digits (-x) = -significant digits x := by
  unfold significant
  rcases lt_trichotomy x 0 with negative | zero | positive
  · rw [if_neg (by linarith), if_neg (by linarith), if_neg negative.ne, if_pos negative, neg_neg]
  · simp [zero]
  · rw [if_neg (by linarith), if_pos (by linarith), if_neg positive.ne', if_neg (by linarith), neg_neg]

theorem le_significant (le : y ≤ x) (written : Written digits y) (some : 0 < digits) :
    y ≤ significant digits x := by
  have opposite := significant_le (neg_le_neg le) (written_neg written) some
  rw [significant_neg] at opposite
  linarith

theorem significant_eq (written : Written digits x) (some : 0 < digits) : significant digits x = x :=
  le_antisymm (significant_le le_rfl written some) (le_significant le_rfl written some)

theorem strip_le (fuel d : Nat) (k : Int) : (strip fuel d k).1 ≤ d := by
  induction fuel generalizing d k with
  | zero => exact le_rfl
  | succ fuel ih =>
    unfold strip
    split
    · exact (ih _ _).trans (Nat.div_le_self d 10)
    · exact le_rfl

theorem decimalFloor_small {m : Nat} (positive : 0 < m) {e : Int} (least : -1074 ≤ e) (n : Nat) :
    decimalFloor m e (decimalWidth m e - n) < 10 ^ n := by
  obtain ⟨_, high⟩ := decimalWidth_spec positive least
  rw [decimalFloor_eq, Nat.floor_lt (div_pos (magnitude_pos positive e) (by positivity)).le,
    div_lt_iff₀ (by positivity)]
  push_cast
  rwa [← zpow_natCast, ← zpow_add₀ (by norm_num), add_sub_cancel]

theorem shortestDecimal_short {m : Nat} (positive : 0 < m) {e : Int} (least : -1074 ≤ e) :
    (shortestDecimal m e).1 ≤ 10 ^ 17 := by
  have floor (n : Nat) (few : n ≤ 17) : decimalFloor m e (decimalWidth m e - n) + 1 ≤ 10 ^ 17 :=
    (decimalFloor_small positive least n).trans_le (Nat.pow_le_pow_right (by norm_num) few)
  unfold shortestDecimal
  dsimp only
  refine (strip_le _ _ _).trans ?_
  cases found : (List.range 17).findSome? fun n => shortest m e (decimalWidth m e) (n + 1) with
  | none => exact Nat.le_of_succ_le (floor 17 le_rfl)
  | some v =>
    obtain ⟨n, inside, here⟩ := List.exists_of_findSome?_eq_some found
    have few : n + 1 ≤ 17 := List.mem_range.mp inside
    unfold shortest at here
    dsimp only at here
    split at here
    · rw [Option.getD_some, ← Option.some.inj here]
      exact Nat.le_of_succ_le (floor (n + 1) few)
    split at here
    · rw [Option.getD_some, ← Option.some.inj here]
      exact floor (n + 1) few
    · cases here

/-- The number that the text of a finite float denotes. -/
def shortestValue (negative : Bool) (m : Nat) (e : Int) : ℚ :=
  let v := shortestDecimal m e
  if negative then -(v.1 * 10 ^ v.2 : ℚ) else v.1 * 10 ^ v.2

theorem shortestValue_written (negative : Bool) {m : Nat} (positive : 0 < m) {e : Int} (least : -1074 ≤ e)
    (many : 17 < digits) : Written digits (shortestValue negative m e) := by
  have short : (shortestDecimal m e).1 < 10 ^ digits :=
    (shortestDecimal_short positive least).trans_lt (Nat.pow_lt_pow_right (by norm_num) many)
  have written : Written digits ((shortestDecimal m e).1 * 10 ^ (shortestDecimal m e).2 : ℚ) :=
    ⟨_, _, short, abs_of_nonneg (by positivity)⟩
  unfold shortestValue
  dsimp only
  split
  · exact written_neg written
  · exact written

section Extended

abbrev Extended := WithBot (WithTop ℚ)

def finite (x : ℚ) : Extended := ((x : WithTop ℚ) : WithBot (WithTop ℚ))

def infinite (negative : Bool) : Extended := if negative then ⊥ else ⊤

def Extended.map (f : ℚ → ℚ) : Extended → Extended := WithBot.map (WithTop.map f)

/-- To so many digits; an infinity times zero is no number. -/
def product (digits : Nat) : Extended → Extended → Option Extended
  | ((x : ℚ) : WithTop ℚ), ((y : ℚ) : WithTop ℚ) => some (finite (significant digits (x * y)))
  | x, y =>
    if x = finite 0 ∨ y = finite 0 then none
    else some (infinite (decide (x < finite 0) != decide (y < finite 0)))

theorem extended_cases (x : Extended) : x = ⊥ ∨ x = ⊤ ∨ ∃ q, x = finite q := by
  match x with
  | ⊥ => exact .inl rfl
  | (⊤ : WithTop ℚ) => exact .inr (.inl rfl)
  | ((q : ℚ) : WithTop ℚ) => exact .inr (.inr ⟨q, rfl⟩)

@[simp] theorem finite_le {x y : ℚ} : finite x ≤ finite y ↔ x ≤ y := by simp [finite]
@[simp] theorem finite_lt {x y : ℚ} : finite x < finite y ↔ x < y := by simp [finite]
@[simp] theorem finite_inj {x y : ℚ} : finite x = finite y ↔ x = y := by simp [finite]
@[simp] theorem map_finite (f : ℚ → ℚ) (x : ℚ) : (finite x).map f = finite (f x) := rfl
@[simp] theorem map_bot (f : ℚ → ℚ) : Extended.map f ⊥ = ⊥ := rfl
@[simp] theorem map_top (f : ℚ → ℚ) : Extended.map f ⊤ = ⊤ := rfl
@[simp] theorem bot_lt_finite (x : ℚ) : (⊥ : Extended) < finite x := WithBot.bot_lt_coe _
@[simp] theorem finite_lt_top (x : ℚ) : finite x < (⊤ : Extended) := by
  exact WithBot.coe_lt_coe.mpr (WithTop.coe_lt_top x)

theorem map_congr {f g : ℚ → ℚ} {x : Extended} (same : ∀ q, x = finite q → f q = g q) : x.map f = x.map g := by
  rcases extended_cases x with rfl | rfl | ⟨q, rfl⟩
  · rfl
  · rfl
  · rw [map_finite, map_finite, same q rfl]

theorem map_le {f : ℚ → ℚ} {x : Extended} (below : ∀ q, x = finite q → f q ≤ q) : x.map f ≤ x := by
  rcases extended_cases x with rfl | rfl | ⟨q, rfl⟩
  · exact le_rfl
  · exact le_rfl
  · exact finite_le.mpr (below q rfl)

theorem product_finite (x y : ℚ) : product digits (finite x) (finite y) =
    some (finite (significant digits (x * y))) := rfl

theorem product_infinite {x y z : Extended} (left : finite 0 ≤ x) (right : finite 0 ≤ y) (far : x = ⊤ ∨ y = ⊤)
    (made : product digits x y = some z) : z = ⊤ := by
  have signs : infinite (decide (x < finite 0) != decide (y < finite 0)) = ⊤ := by
    simp [not_lt.mpr left, not_lt.mpr right, infinite]
  have unrounded : product digits x y = if x = finite 0 ∨ y = finite 0 then none else
      some (infinite (decide (x < finite 0) != decide (y < finite 0))) := by
    rcases far with rfl | rfl
    · rfl
    · rcases extended_cases x with rfl | rfl | ⟨q, rfl⟩ <;> rfl
  rw [unrounded, signs] at made
  split at made
  · cases made
  · exact (Option.some.inj made).symm

theorem le_product {x y z : Extended} (some : 0 < digits) (written : ∀ q, x = finite q → Written digits q)
    (positive : finite 0 ≤ x) (factor : finite 1 ≤ y) (made : product digits x y = .some z) : x ≤ z := by
  have right : finite 0 ≤ y := (finite_le.mpr zero_le_one).trans factor
  rcases extended_cases x with rfl | rfl | ⟨p, rfl⟩
  · exact bot_le
  · exact (product_infinite positive right (.inl rfl) made).ge
  · rcases extended_cases y with rfl | rfl | ⟨q, rfl⟩
    · exact absurd factor (not_le.mpr (bot_lt_finite 1))
    · rw [product_infinite positive right (.inr rfl) made]
      exact le_top
    · rw [product_finite] at made
      cases made
      have grown : p ≤ p * q := le_mul_of_one_le_right (finite_le.mp positive) (finite_le.mp factor)
      exact finite_le.mpr (le_significant grown (written p rfl) some)

end Extended
end SignificantDigits
