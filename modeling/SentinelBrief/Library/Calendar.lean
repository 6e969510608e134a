import Mathlib.Algebra.GroupWithZero.Nat
import SentinelBrief.Library.IsoDate

/-!
The proleptic Gregorian calendar of `datetime`: days and microseconds counted from the
first of year 1, as a date and a time in UTC.
-/
namespace GregorianCalendar
open IsoDateText

def leap (year : Nat) : Bool := year % 4 = 0 && (year % 100 ≠ 0 || year % 400 = 0)

theorem leap_iff {year : Nat} :
    leap year = true ↔ year % 4 = 0 ∧ (year % 100 ≠ 0 ∨ year % 400 = 0) := by
  simp [leap]

def daysBeforeYear (year : Nat) : Nat :=
  (year - 1) * 365 + (year - 1) / 4 - (year - 1) / 100 + (year - 1) / 400

/-- The year of a day and the days before it in its year, by cycles of 400, 100, 4 and 1 years. -/
def yearOf (days : Nat) : Nat × Nat :=
  let n100 := days % 146097 / 36524
  let n4 := days % 146097 % 36524 / 1461
  let n1 := days % 146097 % 36524 % 1461 / 365
  let year := days / 146097 * 400 + n100 * 100 + n4 * 4 + n1 + 1
  if n1 = 4 ∨ n100 = 4 then (year - 1, 365) else (year, days % 146097 % 36524 % 1461 % 365)

def splitMonths : List Nat → Nat → Nat × Nat
  | [], day => (0, day)
  | length :: lengths, day =>
    if day < length then (1, day + 1)
    else ((splitMonths lengths (day - length)).1 + 1, (splitMonths lengths (day - length)).2)

def monthLengths (leap : Bool) : List Nat :=
  [31, if leap then 29 else 28, 31, 30, 31, 30, 31, 31, 30, 31, 30, 31]

theorem daysBeforeYear_cycles {n400 n100 n4 n1 : Nat} (centuries : n100 ≤ 3) (fours : n4 ≤ 24)
    (ones : n1 ≤ 3) : daysBeforeYear (n400 * 400 + n100 * 100 + n4 * 4 + n1 + 1) =
      n400 * 146097 + n100 * 36524 + n4 * 1461 + n1 * 365 := by
  have by4 : (n400 * 400 + n100 * 100 + n4 * 4 + n1) / 4 = n400 * 100 + n100 * 25 + n4 := by omega
  have by100 : (n400 * 400 + n100 * 100 + n4 * 4 + n1) / 100 = n400 * 4 + n100 := by omega
  have by400 : (n400 * 400 + n100 * 100 + n4 * 4 + n1) / 400 = n400 := by omega
  rw [daysBeforeYear, Nat.add_sub_cancel, by4, by100, by400]
  omega

theorem yearOf_days (days : Nat) : daysBeforeYear (yearOf days).1 + (yearOf days).2 = days := by
  unfold yearOf
  dsimp only
  split
  · rename_i last
    dsimp only
    by_cases century : days % 146097 / 36524 = 4
    · -- the last day of 400 years
      have year : days / 146097 * 400 + days % 146097 / 36524 * 100 +
          days % 146097 % 36524 / 1461 * 4 + days % 146097 % 36524 % 1461 / 365 + 1 - 1 =
            days / 146097 * 400 + 3 * 100 + 24 * 4 + 3 + 1 := by omega
      have before : daysBeforeYear (days / 146097 * 400 + 3 * 100 + 24 * 4 + 3 + 1) =
          days / 146097 * 146097 + 3 * 36524 + 24 * 1461 + 3 * 365 :=
        @daysBeforeYear_cycles (days / 146097) 3 24 3 (by decide) (by decide) (by decide)
      simp only [year, before]
      omega
    · -- the last day of 4 years
      have one : days % 146097 % 36524 % 1461 / 365 = 4 := last.resolve_right century
      have year : days / 146097 * 400 + days % 146097 / 36524 * 100 +
          days % 146097 % 36524 / 1461 * 4 + days % 146097 % 36524 % 1461 / 365 + 1 - 1 =
            days / 146097 * 400 + days % 146097 / 36524 * 100 +
              days % 146097 % 36524 / 1461 * 4 + 3 + 1 := by omega
      rw [year, daysBeforeYear_cycles (by omega) (by omega) (by omega)]
      omega
  · dsimp only
    rw [daysBeforeYear_cycles (by omega) (by omega) (by omega)]
    omega

theorem yearOf_positive (days : Nat) : 1 ≤ (yearOf days).1 := by
  unfold yearOf
  dsimp only
  split
  · dsimp only
    omega
  · dsimp only
    omega

theorem yearOf_short (days : Nat) :
    (yearOf days).2 < 365 ∨ (yearOf days).2 = 365 ∧ leap (yearOf days).1 = true := by
  unfold yearOf
  dsimp only
  split
  · rename_i last
    right
    refine ⟨rfl, ?_⟩
    dsimp only
    rw [leap_iff]
    by_cases century : days % 146097 / 36524 = 4
    · omega
    · have one := last.resolve_right century
      omega
  · left
    dsimp only
    omega

theorem yearOf_range {days : Nat} (small : days < 3652059) : (yearOf days).1 ≤ 9999 := by
  have whole := yearOf_days days
  unfold daysBeforeYear at whole
  omega

theorem splitMonths_range {lengths : List Nat} {day : Nat} (inside : day < lengths.sum) :
    1 ≤ (splitMonths lengths day).1 ∧ (splitMonths lengths day).1 ≤ lengths.length ∧
      1 ≤ (splitMonths lengths day).2 ∧ ∃ length ∈ lengths, (splitMonths lengths day).2 ≤ length := by
  induction lengths generalizing day with
  | nil => exact absurd inside (Nat.not_lt_zero _)
  | cons length lengths ih =>
    rw [splitMonths]
    split
    · rename_i short
      exact ⟨Nat.le_refl 1, by simp, by simp, length, List.mem_cons_self, short⟩
    · rename_i long
      rw [List.sum_cons] at inside
      obtain ⟨_, top, first, other, member, bounded⟩ := @ih (day - length) (by omega)
      exact ⟨Nat.le_add_left 1 _, Nat.succ_le_succ top, first, other,
        List.mem_cons_of_mem _ member, bounded⟩

theorem splitMonths_injective {lengths : List Nat} {day day' : Nat} (inside : day < lengths.sum)
    (inside' : day' < lengths.sum) (same : splitMonths lengths day = splitMonths lengths day') :
    day = day' := by
  induction lengths generalizing day day' with
  | nil => exact absurd inside (Nat.not_lt_zero _)
  | cons length lengths ih =>
    rw [List.sum_cons] at inside inside'
    rw [splitMonths, splitMonths] at same
    split at same <;> split at same
    · exact Nat.succ.inj (Prod.mk.inj same).2
    · have month := (Prod.mk.inj same).1
      have := (@splitMonths_range lengths (day' - length) (by omega)).1
      omega
    · have month := (Prod.mk.inj same).1
      have := (@splitMonths_range lengths (day - length) (by omega)).1
      omega
    · have parts := Prod.mk.inj same
      have rest := @ih (day - length) (day' - length) (by omega) (by omega)
        (Prod.ext (Nat.succ.inj parts.1) parts.2)
      omega

theorem yearOf_inside (days : Nat) :
    (yearOf days).2 < (monthLengths (leap (yearOf days).1)).sum := by
  rcases yearOf_short days with short | ⟨last, leaps⟩
  · cases leap (yearOf days).1 <;> simp [monthLengths] <;> omega
  · rw [leaps, last]
    decide

theorem monthLengths_le {leap : Bool} {length : Nat} (member : length ∈ monthLengths leap) :
    length ≤ 31 := by
  cases leap <;> revert length <;> decide

def monthDay (days : Nat) : Nat × Nat :=
  splitMonths (monthLengths (leap (yearOf days).1)) (yearOf days).2

theorem monthDay_range (days : Nat) :
    (1 ≤ (monthDay days).1 ∧ (monthDay days).1 ≤ 12) ∧ 1 ≤ (monthDay days).2 ∧
      (monthDay days).2 ≤ 31 := by
  obtain ⟨first, last, low, length, member, high⟩ := splitMonths_range (yearOf_inside days)
  refine ⟨⟨first, last⟩, low, high.trans (monthLengths_le member)⟩

theorem date_injective {m n : Nat} (years : (yearOf m).1 = (yearOf n).1)
    (days : monthDay m = monthDay n) : m = n := by
  have inside := yearOf_inside m
  have inside' := yearOf_inside n
  unfold monthDay at days
  rw [years] at days inside
  have rest := splitMonths_injective inside inside' days
  rw [← yearOf_days m, ← yearOf_days n, years, rest]

def dayMicros : Nat := 86400000000

def limit : Nat := 3652059 * dayMicros

theorem utc_range : ∀ s ∈ (some 0 : Option Int), s.natAbs < 86400 := by
  intro s zero
  cases zero
  decide

def utcDateTime (micros : Nat) (inside : micros < limit) : DateTime where
  year := (yearOf (micros / dayMicros)).1
  month := (monthDay (micros / dayMicros)).1
  day := (monthDay (micros / dayMicros)).2
  hour := micros % dayMicros / 3600000000
  minute := micros / 60000000 % 60
  second := micros / 1000000 % 60
  microsecond := micros % 1000000
  offset := some 0
  year_range := by
    refine ⟨yearOf_positive _, yearOf_range ?_⟩
    unfold limit dayMicros at *
    omega
  month_range := (monthDay_range _).1
  day_range := (monthDay_range _).2
  hour_range := by
    unfold dayMicros
    omega
  minute_range := Nat.mod_lt _ (by decide)
  second_range := Nat.mod_lt _ (by decide)
  microsecond_range := Nat.mod_lt _ (by decide)
  offset_range := utc_range

theorem utcDateTime_injective {m n : Nat} {m_inside : m < limit} {n_inside : n < limit}
    (same : utcDateTime m m_inside = utcDateTime n n_inside) : m = n := by
  simp only [utcDateTime, DateTime.mk.injEq] at same
  obtain ⟨years, months, days, hours, minutes, seconds, micros, -⟩ := same
  have dates := date_injective years (Prod.ext months days)
  unfold dayMicros at dates hours
  omega

/-- A time of the years 1 to 9999 in UTC. -/
structure Instant where
  micros : Nat
  inside : micros < limit

def Instant.day (now : Instant) : Nat := now.micros / dayMicros

def Instant.dateText (now : Instant) : Utf8Text.PyStr := (utcDateTime now.micros now.inside).date.isoformat

theorem dateText_congr {m n : Instant} (same : m.day = n.day) : m.dateText = n.dateText := by
  simp only [Instant.day] at same
  simp only [Instant.dateText, DateTime.date, Date.isoformat, utcDateTime, same]

theorem dateText_injective {m n : Instant} (same : m.dateText = n.dateText) : m.day = n.day := by
  have range (i : Instant) : i.day < 3652059 := Nat.div_lt_of_lt_mul i.inside
  simp only [Instant.dateText, DateTime.date, Date.isoformat, utcDateTime] at same
  obtain ⟨years, rest⟩ := padded_append_inj (Nat.lt_succ_of_le (yearOf_range (range m)))
    (Nat.lt_succ_of_le (yearOf_range (range n))) same
  have small (i : Instant) : (monthDay i.day).1 < 10 ^ 2 ∧ (monthDay i.day).2 < 10 ^ 2 := by
    obtain ⟨⟨-, month⟩, -, day⟩ := monthDay_range i.day
    omega
  obtain ⟨months, rest⟩ := padded_append_inj (small m).1 (small n).1 (List.cons.inj rest).2
  have days := FixedDecimal.padded_injective (small m).2 (small n).2 (List.cons.inj rest).2
  exact date_injective years (Prod.ext months days)

theorem dateText_iff (name : Utf8Text.PyStr) (m n : Instant) :
    name ++ m.dateText = name ++ n.dateText ↔ m.day = n.day := by
  rw [List.append_cancel_left_eq]
  exact ⟨dateText_injective, dateText_congr⟩

end GregorianCalendar
