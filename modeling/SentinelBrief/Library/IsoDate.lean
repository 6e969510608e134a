import SentinelBrief.Library.Decimal

/-!
`datetime.isoformat` and its inverse. A datetime is its calendar fields with the seconds that
its offset is ahead of UTC, when it has one.
-/
namespace IsoDateText
open FixedDecimal Utf8Text

structure DateTime where
  year : Nat
  month : Nat
  day : Nat
  hour : Nat
  minute : Nat
  second : Nat
  microsecond : Nat
  offset : Option Int
  year_range : 1 ≤ year ∧ year ≤ 9999
  month_range : 1 ≤ month ∧ month ≤ 12
  day_range : 1 ≤ day ∧ day ≤ 31
  hour_range : hour < 24
  minute_range : minute < 60
  second_range : second < 60
  microsecond_range : microsecond < 1000000
  offset_range : ∀ s ∈ offset, s.natAbs < 86400

def dash : Nat := 0x2D

def colon : Nat := 0x3A

def dateText (d : DateTime) : PyStr :=
  padded 4 d.year ++ dash :: (padded 2 d.month ++ dash :: padded 2 d.day)

def timeText (d : DateTime) : PyStr :=
  padded 2 d.hour ++ colon :: (padded 2 d.minute ++ colon :: padded 2 d.second)

def fractionText (microsecond : Nat) : PyStr :=
  if microsecond = 0 then [] else 0x2E :: padded 6 microsecond

def offsetText : Option Int → PyStr
  | none => []
  | some s => (if s < 0 then dash else 0x2B) ::
      (padded 2 (s.natAbs / 3600) ++ colon :: (padded 2 (s.natAbs / 60 % 60) ++
        if s.natAbs % 60 = 0 then [] else colon :: padded 2 (s.natAbs % 60)))

def isoformat (d : DateTime) : PyStr :=
  dateText d ++ 0x54 :: (timeText d ++ (fractionText d.microsecond ++ offsetText d.offset))

theorem padded_append_inj {width t u : Nat} {a b : PyStr} (t_small : t < 10 ^ width)
    (u_small : u < 10 ^ width) (same : padded width t ++ a = padded width u ++ b) :
    t = u ∧ a = b := by
  obtain ⟨fields, rest⟩ := List.append_inj same (by rw [padded_length, padded_length])
  exact ⟨padded_injective t_small u_small fields, rest⟩

theorem mark_padded_inj {mark width t u : Nat} {a b : PyStr} (t_small : t < 10 ^ width)
    (u_small : u < 10 ^ width)
    (same : mark :: (padded width t ++ a) = mark :: (padded width u ++ b)) : t = u ∧ a = b :=
  padded_append_inj t_small u_small (List.cons.inj same).2

theorem offsetText_injective {s t : Option Int} (s_range : ∀ x ∈ s, x.natAbs < 86400)
    (t_range : ∀ x ∈ t, x.natAbs < 86400) (same : offsetText s = offsetText t) : s = t := by
  cases s with
  | none =>
    cases t with
    | none => rfl
    | some y => cases same
  | some x =>
    cases t with
    | none => cases same
    | some y =>
      have x_small := s_range x rfl
      have y_small := t_range y rfl
      simp only [offsetText, List.cons.injEq] at same
      obtain ⟨sign, same⟩ := same
      obtain ⟨hours, same⟩ := padded_append_inj (by omega) (by omega) same
      obtain ⟨minutes, same⟩ := mark_padded_inj (by omega) (by omega) same
      have seconds : x.natAbs % 60 = y.natAbs % 60 := by
        split at same <;> split at same
        · omega
        · cases same
        · cases same
        · exact padded_injective (by omega) (by omega) (List.cons.inj same).2
      have signs : x < 0 ↔ y < 0 := by
        unfold dash at sign
        split at sign <;> split at sign <;> omega
      have absolute : x.natAbs = y.natAbs := by omega
      rw [Option.some.injEq]
      omega

/-- A fraction starts with a point, an offset with a sign. -/
theorem fraction_offset_inj {m n : Nat} {s t : Option Int} (m_small : m < 1000000)
    (n_small : n < 1000000)
    (same : fractionText m ++ offsetText s = fractionText n ++ offsetText t) :
    m = n ∧ offsetText s = offsetText t := by
  have apart : ∀ (o : Option Int) (xs : PyStr), offsetText o ≠ 0x2E :: xs := by
    intro o xs
    cases o with
    | none => simp [offsetText]
    | some x =>
      simp only [offsetText, dash]
      split <;> simp
  unfold fractionText at same
  split at same <;> split at same
  · exact ⟨by omega, same⟩
  · exact absurd same (apart s _)
  · exact absurd same.symm (apart t _)
  · exact padded_append_inj (by omega) (by omega) (List.cons.inj same).2

theorem isoformat_injective {d e : DateTime} (same : isoformat d = isoformat e) : d = e := by
  obtain ⟨_, _, _, _, _, _, _, _, dy, dm, dd, dh, dn, ds, du, dz⟩ := d
  obtain ⟨_, _, _, _, _, _, _, _, ey, em, ed, eh, en, es, eu, ez⟩ := e
  simp only [isoformat, dateText, timeText, List.append_assoc, List.cons_append] at same
  obtain ⟨rfl, after_year⟩ := padded_append_inj (by omega) (by omega) same
  obtain ⟨rfl, after_month⟩ := mark_padded_inj (by omega) (by omega) after_year
  obtain ⟨rfl, after_day⟩ := mark_padded_inj (by omega) (by omega) after_month
  obtain ⟨rfl, after_hour⟩ := mark_padded_inj (by omega) (by omega) after_day
  obtain ⟨rfl, after_minute⟩ := mark_padded_inj (by omega) (by omega) after_hour
  obtain ⟨rfl, after_second⟩ := mark_padded_inj (by omega) (by omega) after_minute
  obtain ⟨rfl, offsets⟩ := fraction_offset_inj du eu after_second
  obtain rfl := offsetText_injective dz ez offsets
  rfl

theorem isoformat_chars (d : DateTime) : ∀ c ∈ isoformat d, c ≤ 0x54 := by
  have digits : ∀ width n, ∀ c ∈ padded width n, c ≤ 0x54 := by
    intro width n c member
    have := padded_digits width n c member
    omega
  have fraction : ∀ c ∈ fractionText d.microsecond, c ≤ 0x54 := by
    intro c member
    unfold fractionText at member
    split at member
    · cases member
    · rcases List.mem_cons.mp member with rfl | inside
      · decide
      · exact digits _ _ c inside
  have offset : ∀ c ∈ offsetText d.offset, c ≤ 0x54 := by
    intro c member
    cases found : d.offset with
    | none =>
      rw [found] at member
      cases member
    | some s =>
      rw [found] at member
      simp only [offsetText, dash, colon, List.mem_cons, List.mem_append] at member
      rcases member with sign | inside | rfl | inside | inside
      · split at sign <;> omega
      · exact digits _ _ c inside
      · decide
      · exact digits _ _ c inside
      · split at inside
        · cases inside
        · rcases List.mem_cons.mp inside with rfl | inside
          · decide
          · exact digits _ _ c inside
  intro c member
  simp only [isoformat, dateText, timeText, dash, colon, List.mem_append, List.mem_cons] at member
  rcases member with (inside | rfl | inside | rfl | inside) | rfl |
    (inside | rfl | inside | rfl | inside) | inside | inside
  all_goals first
    | decide
    | exact digits _ _ c inside
    | exact fraction c inside
    | exact offset c inside

theorem isoformat_ascii (d : DateTime) : ∀ c ∈ isoformat d, c < 0x80 := by
  intro c member
  exact Nat.lt_of_le_of_lt (isoformat_chars d c member) (by decide)

theorem isoformat_no_bar (d : DateTime) : 0x7C ∉ isoformat d := by
  intro member
  exact absurd (isoformat_chars d _ member) (by decide)

def number (width : Nat) (s : PyStr) : Option (Nat × PyStr) :=
  let front := s.take width
  if front.length = width ∧ ∀ c ∈ front, 0x30 ≤ c ∧ c ≤ 0x39 then
    some (front.foldl (fun n c => n * 10 + (c - 0x30)) 0, s.drop width)
  else none

def expect (mark : Nat) : PyStr → Option PyStr
  | [] => none
  | c :: s => if c = mark then some s else none

def readFraction (s : PyStr) : Option (Nat × PyStr) :=
  if s.head? = some 0x2E then number 6 s.tail else some (0, s)

def readSeconds (s : PyStr) : Option Nat :=
  if s = [] then some 0 else do
    let s ← expect colon s
    let (second, s) ← number 2 s
    if s = [] then some second else none

def readOffset : PyStr → Option (Option Int)
  | [] => some none
  | c :: s =>
    if c = dash ∨ c = 0x2B then do
      let (hour, s) ← number 2 s
      let s ← expect colon s
      let (minute, s) ← number 2 s
      let second ← readSeconds s
      let total : Nat := hour * 3600 + minute * 60 + second
      some (some (if c = dash then -(total : Int) else total))
    else none

def readTriple (width mark : Nat) (s : PyStr) : Option ((Nat × Nat × Nat) × PyStr) := do
  let (first, s) ← number width s
  let s ← expect mark s
  let (second, s) ← number 2 s
  let s ← expect mark s
  let (third, s) ← number 2 s
  some ((first, second, third), s)

/-- `datetime.fromisoformat` on what `isoformat` writes; the other forms of ISO 8601 are
left out. -/
def fromisoformat (s : PyStr) : Option DateTime := do
  let ((year, month, day), s) ← readTriple 4 dash s
  let s ← expect 0x54 s
  let ((hour, minute, second), s) ← readTriple 2 colon s
  let (microsecond, s) ← readFraction s
  let offset ← readOffset s
  if h : (1 ≤ year ∧ year ≤ 9999) ∧ (1 ≤ month ∧ month ≤ 12) ∧ (1 ≤ day ∧ day ≤ 31) ∧ hour < 24 ∧
      minute < 60 ∧ second < 60 ∧ microsecond < 1000000 ∧ ∀ s ∈ offset, s.natAbs < 86400 then
    some ⟨year, month, day, hour, minute, second, microsecond, offset, h.1, h.2.1, h.2.2.1,
      h.2.2.2.1, h.2.2.2.2.1, h.2.2.2.2.2.1, h.2.2.2.2.2.2.1, h.2.2.2.2.2.2.2⟩
  else none

theorem padded_value (width n : Nat) :
    (padded width n).foldl (fun n c => n * 10 + (c - 0x30)) 0 = n % 10 ^ width := by
  induction width generalizing n with
  | zero => simp [padded, Nat.mod_one]
  | succ width ih =>
    rw [padded, List.foldl_append, ih, List.foldl_cons, List.foldl_nil, Nat.add_sub_cancel_left,
      Nat.pow_succ, Nat.mul_comm (10 ^ width) 10, Nat.mod_mul]
    omega

theorem number_padded (width : Nat) {n : Nat} (small : n < 10 ^ width) (s : PyStr) :
    number width (padded width n ++ s) = some (n, s) := by
  have front : (padded width n ++ s).take width = padded width n := by
    rw [List.take_append_of_le_length (padded_length width n).ge,
      List.take_of_length_le (padded_length width n).le]
  have back : (padded width n ++ s).drop width = s := by
    rw [List.drop_append_of_le_length (padded_length width n).ge,
      List.drop_of_length_le (padded_length width n).le, List.nil_append]
  simp only [number, front, back, padded_length, padded_value, Nat.mod_eq_of_lt small, true_and]
  exact if_pos (padded_digits width n)

theorem expect_cons (mark : Nat) (s : PyStr) : expect mark (mark :: s) = some s := if_pos rfl

theorem readFraction_text {m : Nat} (small : m < 1000000) {s : PyStr} (apart : s.head? ≠ some 0x2E) :
    readFraction (fractionText m ++ s) = some (m, s) := by
  unfold readFraction fractionText
  split
  · rename_i zero
    rw [List.nil_append, if_neg apart, zero]
  · rw [List.cons_append, List.head?_cons, if_pos rfl]
    exact number_padded 6 small s

theorem readOffset_text {o : Option Int} (range : ∀ x ∈ o, x.natAbs < 86400) :
    readOffset (offsetText o) = some o := by
  cases o with
  | none => rfl
  | some x =>
    have small := range x rfl
    have hours : x.natAbs / 3600 < 10 ^ 2 := by omega
    have minutes : x.natAbs / 60 % 60 < 10 ^ 2 := by omega
    have seconds : readSeconds (if x.natAbs % 60 = 0 then [] else
        colon :: padded 2 (x.natAbs % 60)) = some (x.natAbs % 60) := by
      split
      · rename_i zero
        rw [zero]
        rfl
      · have read := number_padded 2 (n := x.natAbs % 60) (by omega) []
        rw [List.append_nil] at read
        simp [readSeconds, expect_cons, read]
    have total : x.natAbs / 3600 * 3600 + x.natAbs / 60 % 60 * 60 + x.natAbs % 60 = x.natAbs := by
      omega
    by_cases negative : x < 0
    · have value : -(x.natAbs : Int) = x := by omega
      simp only [offsetText, negative, if_true, readOffset, true_or, number_padded 2 hours,
        number_padded 2 minutes, Option.bind_eq_bind, Option.bind_some, expect_cons, seconds, total,
        value]
    · have value : (x.natAbs : Int) = x := by omega
      have plus : ¬ (0x2B = dash) := by decide
      simp only [offsetText, negative, if_false, readOffset, plus, false_or, if_true,
        number_padded 2 hours, number_padded 2 minutes, Option.bind_eq_bind, Option.bind_some,
        expect_cons, seconds, total, value]

theorem readTriple_padded (width mark : Nat) {first second third : Nat} (first_small : first < 10 ^ width)
    (second_small : second < 100) (third_small : third < 100) (s : PyStr) :
    readTriple width mark (padded width first ++ mark :: (padded 2 second ++
      mark :: (padded 2 third ++ s))) = some ((first, second, third), s) := by
  simp only [readTriple, number_padded width first_small, number_padded 2 second_small,
    number_padded 2 third_small, expect_cons, Option.bind_eq_bind, Option.bind_some]

theorem fromisoformat_isoformat (d : DateTime) : fromisoformat (isoformat d) = some d := by
  have apart : (offsetText d.offset).head? ≠ some 0x2E := by
    cases d.offset with
    | none => simp [offsetText]
    | some x =>
      simp only [offsetText, dash, List.head?_cons]
      split <;> simp
  obtain ⟨year, month, day, hour, minute, second, microsecond, offset, y, m, d, h, n, s, u, z⟩ := d
  have date := readTriple_padded 4 dash (show year < 10 ^ 4 by omega) (show month < 100 by omega)
    (show day < 100 by omega)
  have time := readTriple_padded 2 colon (show hour < 10 ^ 2 by omega) (show minute < 100 by omega)
    (show second < 100 by omega)
  simp only [isoformat, dateText, timeText, List.append_assoc, List.cons_append]
  rw [fromisoformat, date, Option.bind_eq_bind, Option.bind_some]
  dsimp only
  rw [expect_cons, Option.bind_eq_bind, Option.bind_some, time, Option.bind_eq_bind, Option.bind_some]
  dsimp only
  rw [readFraction_text u apart, Option.bind_eq_bind, Option.bind_some]
  dsimp only
  rw [readOffset_text z, Option.bind_some]
  exact dif_pos ⟨y, m, d, h, n, s, u, z⟩

structure Date where
  year : Nat
  month : Nat
  day : Nat

def DateTime.date (d : DateTime) : Date := ⟨d.year, d.month, d.day⟩

def Date.isoformat (d : Date) : PyStr :=
  padded 4 d.year ++ dash :: (padded 2 d.month ++ dash :: padded 2 d.day)

end IsoDateText
