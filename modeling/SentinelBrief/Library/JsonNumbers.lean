import SentinelBrief.Library.JsonRoundTrip
import SentinelBrief.Library.DoubleRoundTrip

/-!
Numbers in a JSON text: integers, and doubles as Python and as serde lay them
out. What is written is read back.
-/
namespace JsonText
open Utf8Text DoubleText

/-- Text that a value can begin with. -/
def Solid (s : PyStr) : Prop :=
  ∃ c t, s = c :: t ∧ isSpace c = false ∧ c ≠ 0x5D ∧ c ≠ 0x7D ∧ c ≠ 0xFEFF

def Plain (s : PyStr) : Prop := ∀ c ∈ s, 0x20 ≤ c ∧ c < 0x7F

instance (s : PyStr) : Decidable (Plain s) :=
  inferInstanceAs (Decidable (∀ c ∈ s, 0x20 ≤ c ∧ c < 0x7F))

theorem plain_append {s t : PyStr} (left : Plain s) (right : Plain t) : Plain (s ++ t) :=
  List.forall_mem_append.mpr ⟨left, right⟩

theorem plain_digits (n : Nat) : Plain (digitsText n) := by
  intro c member
  have digit := digitsText_digits n c member
  simp only [isDigit, Bool.and_eq_true, decide_eq_true_eq] at digit
  omega

theorem stops_cons {c : Nat} (t : PyStr)
    (apart : isDigit c = false ∧ c ≠ 0x2E ∧ c ≠ 0x65 ∧ c ≠ 0x45) : Stops (c :: t) := by
  intro d head
  rw [List.head?_cons, Option.some.injEq] at head
  rwa [← head]

theorem solid_digitsText (n : Nat) : Solid (digitsText n) := by
  obtain ⟨c, cs, eq, digit⟩ := digitsText_cons n
  simp only [isDigit, Bool.and_eq_true, decide_eq_true_eq] at digit
  refine ⟨c, cs, eq, ?_, by omega, by omega, by omega⟩
  simp only [isSpace, Bool.or_eq_false_iff, beq_eq_false_iff_ne]
  omega

theorem intText_negative {i : Int} (negative : i < 0) :
    intText i = 0x2D :: digitsText i.natAbs := by
  simp [intText, negative, digitsText]

theorem intText_nonneg {i : Int} (nonneg : 0 ≤ i) : intText i = digitsText i.natAbs := by
  simp [intText, Int.not_lt.mpr nonneg, digitsText]

theorem plain_intText (i : Int) : Plain (intText i) := by
  by_cases negative : i < 0
  · rw [intText_negative negative]
    exact plain_append (s := [0x2D]) (by decide) (plain_digits _)
  · rw [intText_nonneg (Int.not_lt.mp negative)]
    exact plain_digits _

theorem solid_intText (i : Int) : Solid (intText i) := by
  by_cases negative : i < 0
  · rw [intText_negative negative]
    exact ⟨0x2D, _, rfl, by decide, by decide, by decide, by decide⟩
  · rw [intText_nonneg (Int.not_lt.mp negative)]
    exact solid_digitsText _

theorem scanWord_minus (n : Nat) (t : PyStr) : scanWord (0x2D :: (digitsText n ++ t)) = none := by
  obtain ⟨c, cs, eq, digit⟩ := digitsText_cons n
  simp only [isDigit, Bool.and_eq_true, decide_eq_true_eq] at digit
  -- the only word after a minus sign is `Infinity`
  have differ : ¬ 0x49 = c := by omega
  rw [eq]
  simp [scanWord, words, str, differ]

theorem scanNumber_short (neg : Bool) (n : Nat) {t : PyStr} (stops : Stops t)
    (short : (digitsText n).length ≤ intMaxStrDigits) :
    scanNumber neg (digitsText n ++ t) = .ok (.int (if neg then -(n : Int) else n), t) := by
  have some : (digitsText n).isEmpty = false := by
    simp [digitsText, Nat.toDigits_ne_nil]
  simp [scanNumber, scanWhole_digitsText n stops, some, scanFraction_stops stops,
    scanExponent_stops stops, digitsText_value, Nat.not_lt.mpr short]

theorem scanValue_intText (fuel depth : Nat) (i : Int) {t : PyStr} (stops : Stops t)
    (short : (digitsText i.natAbs).length ≤ intMaxStrDigits) :
    scanValue (fuel + 1) depth (intText i ++ t) = .ok (.int i, t) := by
  by_cases negative : i < 0
  · have value : -(i.natAbs : Int) = i := by omega
    rw [intText_negative negative, List.cons_append]
    unfold scanValue
    simp only [scanWord_minus, scanNumber_short true _ stops short, if_true, value]
  · have value : (i.natAbs : Int) = i := by omega
    rw [intText_nonneg (Int.not_lt.mp negative), scanValue_digitsText,
      scanNumber_short false _ stops short]
    simp only [Bool.false_eq_true, if_false, value]

def zeros (n : Nat) : PyStr := List.replicate n 0x30

def plainDigits (ds : PyStr) (point : Int) : PyStr :=
  if point ≤ 0 then 0x30 :: 0x2E :: (zeros (-point).toNat ++ ds)
  else if ds.length ≤ point then ds ++ (zeros (point - ds.length).toNat ++ [0x2E, 0x30])
  else ds.take point.toNat ++ 0x2E :: ds.drop point.toNat

def scientificDigits (ds expo : PyStr) : PyStr :=
  ds.take 1 ++ ((if ds.drop 1 = [] then [] else 0x2E :: ds.drop 1) ++ 0x65 :: expo)

structure Numeral (s : PyStr) (d : Nat) (k : Int) : Prop where
  leading : ∃ c t, s = c :: t ∧ isDigit c = true
  scanned : ∀ neg t, Stops t → scanNumber neg (s ++ t) = .ok (.float (ofDecimal neg d k), t)

theorem takeWhile_until {ds t : PyStr} (digits : ∀ c ∈ ds, isDigit c = true)
    (next : ∀ c, t.head? = some c → isDigit c = false) :
    (ds ++ t).takeWhile isDigit = ds ∧ (ds ++ t).dropWhile isDigit = t := by
  rw [List.takeWhile_append_of_pos digits, List.dropWhile_append_of_pos digits]
  cases t with
  | nil => simp
  | cons c t => simp [next c rfl]

theorem scanWhole_until {ds t : PyStr} (digits : ∀ c ∈ ds, isDigit c = true)
    (leading : ds.head? ≠ some 0x30) (nonempty : ds ≠ [])
    (next : ∀ c, t.head? = some c → isDigit c = false) : scanWhole (ds ++ t) = (ds, t) := by
  obtain ⟨taken, dropped⟩ := takeWhile_until digits next
  cases ds with
  | nil => exact absurd rfl nonempty
  | cons c ds =>
    unfold scanWhole
    split
    · simp_all
    · rw [taken, dropped]

theorem scanFraction_until {ds t : PyStr} (digits : ∀ c ∈ ds, isDigit c = true) (nonempty : ds ≠ [])
    (next : ∀ c, t.head? = some c → isDigit c = false) :
    scanFraction (0x2E :: (ds ++ t)) = (ds, t) := by
  obtain ⟨taken, dropped⟩ := takeWhile_until digits next
  simp [scanFraction, taken, dropped, nonempty]

theorem digitsValue_append (s t : PyStr) :
    digitsValue (s ++ t) = digitsValue s * 10 ^ t.length + digitsValue t := by
  have step : ∀ (u : PyStr) (n : Nat),
      u.foldl (fun n c => n * 10 + (c - 0x30)) n = n * 10 ^ u.length + digitsValue u := by
    intro u
    induction u with
    | nil => simp [digitsValue]
    | cons c u ih =>
      intro n
      have first := ih (n * 10 + (c - 0x30))
      have zero := ih (0 * 10 + (c - 0x30))
      simp only [digitsValue, List.foldl_cons, List.length_cons] at first zero ⊢
      rw [first, zero]
      ring
  rw [digitsValue, List.foldl_append]
  exact step t _

theorem digitsValue_zeros (n : Nat) : digitsValue (zeros n) = 0 := by
  induction n with
  | zero => rfl
  | succ n ih =>
    have split : zeros (n + 1) = [0x30] ++ zeros n := rfl
    have zero : digitsValue [0x30] = 0 := rfl
    rw [split, digitsValue_append, ih, zero]
    simp

theorem zeros_digits (n : Nat) : ∀ c ∈ zeros n, isDigit c = true := by
  intro c member
  rw [(List.mem_replicate.mp member).2]
  decide

theorem plain_zeros (n : Nat) : Plain (zeros n) := by
  intro c member
  rw [(List.mem_replicate.mp member).2]
  decide

theorem plain_plainDigits {ds : PyStr} (plain : Plain ds) (point : Int) :
    Plain (plainDigits ds point) := by
  unfold plainDigits
  split
  · exact plain_append (s := [0x30, 0x2E]) (by decide) (plain_append (plain_zeros _) plain)
  split
  · exact plain_append plain (plain_append (plain_zeros _) (by decide))
  · refine plain_append (fun c member => plain c (List.mem_of_mem_take member)) ?_
    exact plain_append (s := [0x2E]) (by decide) fun c member => plain c (List.mem_of_mem_drop member)

theorem plain_scientificDigits {ds expo : PyStr} (plain : Plain ds) (exponent : Plain expo) :
    Plain (scientificDigits ds expo) := by
  have letter : Plain (0x65 :: expo) := plain_append (s := [0x65]) (by decide) exponent
  refine plain_append (fun c member => plain c (List.mem_of_mem_take member)) (plain_append ?_ letter)
  split
  · exact fun c member => by cases member
  · exact plain_append (s := [0x2E]) (by decide) fun c member => plain c (List.mem_of_mem_drop member)

theorem stops_next {t : PyStr} (stops : Stops t) : ∀ c, t.head? = some c → isDigit c = false :=
  fun c head => (stops c head).1

theorem next_cons {c : Nat} (t : PyStr) (other : isDigit c = false) :
    ∀ d, (c :: t).head? = some d → isDigit d = false := by
  intro d head
  rw [List.head?_cons, Option.some.injEq] at head
  rwa [← head]

theorem head?_take (ds : PyStr) {n : Nat} (nonzero : n ≠ 0) : (ds.take n).head? = ds.head? := by
  cases n with
  | zero => exact absurd rfl nonzero
  | succ n => cases ds <;> rfl

section
variable {d : Nat} (positive : 0 < d)
include positive

theorem scanned_point (neg : Bool) {w fraction : PyStr} {t : PyStr} {k : Int}
    (first : scanWhole (w ++ 0x2E :: (fraction ++ t)) = (w, 0x2E :: (fraction ++ t)))
    (wholes : w ≠ []) (digits : ∀ c ∈ fraction, isDigit c = true) (nonempty : fraction ≠ [])
    (stops : Stops t)
    (value : (digitsValue (w ++ fraction) : ℚ) * 10 ^ (0 - (fraction.length : Int)) = d * 10 ^ k) :
    scanNumber neg (w ++ 0x2E :: (fraction ++ t)) = .ok (.float (ofDecimal neg d k), t) := by
  have congr := ofDecimal_congr neg positive value.symm
  simp [scanNumber, first, wholes, scanFraction_until digits nonempty (stops_next stops), nonempty,
    scanExponent_stops stops, congr]

theorem digitsText_next (next : PyStr) : (digitsText d ++ next).head? ≠ some 0x30 := by
  obtain ⟨c, cs, eq, _⟩ := digitsText_cons d
  have leading := digitsText_leading d positive
  rw [eq] at leading ⊢
  exact leading

theorem plain_numeral (point : Int) :
    Numeral (plainDigits (digitsText d) point) d (point - (digitsText d).length) := by
  have digits := digitsText_digits d
  have value := digitsText_value d
  have leading := digitsText_leading d positive
  obtain ⟨c, cs, eq, digit⟩ := digitsText_cons d
  unfold plainDigits
  split
  · -- the point stands before the digits
    rename_i small
    refine ⟨⟨0x30, _, rfl, by decide⟩, fun neg t stops => ?_⟩
    have fraction : ∀ c ∈ zeros (-point).toNat ++ digitsText d, isDigit c = true := by
      simp only [List.forall_mem_append]
      exact ⟨zeros_digits _, digits⟩
    refine scanned_point (w := [0x30]) positive neg rfl (by simp) fraction ?_ stops ?_
    · simp [eq]
    · rw [digitsValue_append, digitsValue_append, digitsValue_zeros, value]
      have zero : digitsValue [0x30] = 0 := rfl
      simp only [zero, Nat.zero_mul, Nat.zero_add, List.length_append, zeros, List.length_replicate]
      congr 2
      omega
  split
  · -- after them
    rename_i large whole
    obtain ⟨n, eq'⟩ : ∃ n : Nat, point - (digitsText d).length = n :=
      ⟨(point - (digitsText d).length).toNat, by omega⟩
    rw [eq', Int.toNat_natCast]
    refine ⟨⟨c, _, by rw [eq]; rfl, digit⟩, fun neg t stops => ?_⟩
    have wholes : ∀ c ∈ digitsText d ++ zeros n, isDigit c = true := by
      simp only [List.forall_mem_append]
      exact ⟨digits, zeros_digits n⟩
    have first := scanWhole_until wholes (t := 0x2E :: ([0x30] ++ t)) (digitsText_next positive _)
      (by simp [eq]) (next_cons _ (by decide))
    have scanned := scanned_point (k := n) positive neg first (by simp [eq]) (by decide)
      (by simp) stops (by
        have zero : digitsValue [0x30] = 0 := rfl
        rw [digitsValue_append, digitsValue_append, digitsValue_zeros, value, zero]
        simp only [List.length_singleton, zeros, List.length_replicate, Nat.cast_mul,
          Nat.cast_pow, Nat.cast_ofNat, add_zero, pow_one, zpow_natCast]
        norm_num
        field_simp)
    simpa using scanned
  · -- among them
    rename_i large inner
    obtain ⟨n, rfl⟩ := Int.eq_ofNat_of_zero_le (show 0 ≤ point by omega)
    rw [Int.toNat_natCast]
    have short : n < (digitsText d).length := by omega
    have taken : ∀ c ∈ (digitsText d).take n, isDigit c = true :=
      fun c member => digits c (List.mem_of_mem_take member)
    have dropped : ∀ c ∈ (digitsText d).drop n, isDigit c = true :=
      fun c member => digits c (List.mem_of_mem_drop member)
    have head := head?_take (digitsText d) (n := n) (by omega)
    refine ⟨⟨c, ?_⟩, fun neg t stops => ?_⟩
    · obtain ⟨k, rfl⟩ : ∃ k, n = k + 1 := ⟨n - 1, by omega⟩
      exact ⟨_, by rw [eq, List.take_succ_cons]; rfl, digit⟩
    · have nonempty : (digitsText d).take n ≠ [] := by
        rw [← List.length_pos_iff, List.length_take]
        omega
      have first := scanWhole_until taken (t := 0x2E :: ((digitsText d).drop n ++ t))
        (by rwa [head]) nonempty (next_cons _ (by decide))
      have scanned := scanned_point (k := (n : Int) - (digitsText d).length) positive
        neg first nonempty dropped (by rw [← List.length_pos_iff, List.length_drop]; omega) stops (by
          rw [List.take_append_drop, value, List.length_drop]
          congr 2
          omega)
      simpa using scanned

theorem scientific_numeral {expo : PyStr} {e : Int}
    (read : ∀ t, Stops t → scanExponent (0x65 :: (expo ++ t)) = (some e, t)) :
    Numeral (scientificDigits (digitsText d) expo) d (e + 1 - (digitsText d).length) := by
  have digits := digitsText_digits d
  have value := digitsText_value d
  have leading := digitsText_leading d positive
  obtain ⟨c, cs, eq, digit⟩ := digitsText_cons d
  rw [eq] at digits value leading ⊢
  unfold scientificDigits
  rw [List.take_succ_cons, List.take_zero, List.drop_succ_cons, List.drop_zero]
  have one : ∀ c' ∈ [c], isDigit c' = true := by simp [digit]
  refine ⟨⟨c, _, rfl, digit⟩, fun neg t stops => ?_⟩
  cases cs with
  | nil =>
    have first := scanWhole_until one (t := 0x65 :: (expo ++ t)) leading (by simp)
      (next_cons _ (by decide))
    have point : scanFraction (0x65 :: (expo ++ t)) = ([], 0x65 :: (expo ++ t)) := rfl
    simp only [List.singleton_append] at first
    simp [scanNumber, first, point, read t stops, value]
  | cons f fs =>
    have fraction : ∀ c' ∈ f :: fs, isDigit c' = true := fun c' member =>
      digits c' (List.mem_cons_of_mem c member)
    have first := scanWhole_until one (t := 0x2E :: (f :: fs ++ 0x65 :: (expo ++ t))) leading
      (by simp) (next_cons _ (by decide))
    have point := scanFraction_until fraction (t := 0x65 :: (expo ++ t)) (by simp)
      (next_cons _ (by decide))
    have text : [c] ++ ((if f :: fs = [] then [] else 0x2E :: f :: fs) ++ 0x65 :: expo) ++ t =
        [c] ++ 0x2E :: (f :: fs ++ 0x65 :: (expo ++ t)) := by simp
    have places : e - ((f :: fs).length : Int) = e + 1 - ((c :: f :: fs).length : Int) := by
      simp only [List.length_cons]
      omega
    rw [text, scanNumber]
    simp only [first, point, read t stops]
    simp only [Option.getD_some, Option.isNone_some, Bool.and_false, List.isEmpty_cons,
      Bool.false_eq_true, if_false, List.singleton_append, value, places]

end

def Reads (s : PyStr) (j : Json) : Prop :=
  Solid s ∧ ∀ fuel depth t, Stops t → scanValue (fuel + 1) depth (s ++ t) = .ok (j, t)

theorem solid_digit {c : Nat} (digit : isDigit c = true) (s : PyStr) : Solid (c :: s) := by
  simp only [isDigit, Bool.and_eq_true, decide_eq_true_eq] at digit
  refine ⟨c, s, rfl, ?_, by omega, by omega, by omega⟩
  simp only [isSpace, Bool.or_eq_false_iff, beq_eq_false_iff_ne]
  omega

theorem scanValue_digit {c : Nat} (digit : isDigit c = true) (fuel depth : Nat) (s : PyStr) :
    scanValue (fuel + 1) depth (c :: s) = scanNumber false (c :: s) := by
  have word := scanWord_digit digit s
  simp only [isDigit, Bool.and_eq_true, decide_eq_true_eq] at digit
  unfold scanValue
  split
  · simp_all
  · simp_all
  · simp_all
  · simp only [word]
    split
    · simp_all
    · rfl

theorem scanValue_minus {c : Nat} (digit : isDigit c = true) (fuel depth : Nat) (s : PyStr) :
    scanValue (fuel + 1) depth (0x2D :: c :: s) = scanNumber true (c :: s) := by
  simp only [isDigit, Bool.and_eq_true, decide_eq_true_eq] at digit
  -- the only word after a minus sign is `Infinity`
  have differ : ¬ 0x49 = c := by omega
  have word : scanWord (0x2D :: c :: s) = none := by
    simp [scanWord, words, str, differ]
  unfold scanValue
  simp only [word]

def signText (neg : Bool) : PyStr := if neg then [0x2D] else []

theorem numeral_reads {s : PyStr} {d : Nat} {k : Int} (numeral : Numeral s d k) (neg : Bool) :
    Reads (signText neg ++ s) (.float (ofDecimal neg d k)) := by
  obtain ⟨⟨c, u, rfl, digit⟩, scanned⟩ := numeral
  cases neg with
  | false =>
    refine ⟨solid_digit digit u, fun fuel depth t stops => ?_⟩
    have number := scanned false t stops
    rw [List.cons_append] at number
    exact (scanValue_digit digit fuel depth (u ++ t)).trans number
  | true =>
    refine ⟨⟨0x2D, _, rfl, by decide, by decide, by decide, by decide⟩, fun fuel depth t stops => ?_⟩
    have number := scanned true t stops
    rw [List.cons_append] at number
    exact (scanValue_minus digit fuel depth (u ++ t)).trans number

theorem zero_numeral (k : Int) : Numeral [0x30, 0x2E, 0x30] 0 k where
  leading := ⟨0x30, _, rfl, by decide⟩
  scanned neg t stops := by
    have digit : ∀ c ∈ [0x30], isDigit c = true := by decide
    have point := scanFraction_until digit (t := t) (by simp) (stops_next stops)
    have zero : digitsValue [0x30, 0x30] = 0 := rfl
    simp only [List.singleton_append] at point
    simp [scanNumber, scanWhole, point, scanExponent_stops stops, zero, ofDecimal_zero]

def pythonExponent (e : Int) : PyStr :=
  (if e < 0 then 0x2D else 0x2B) :: (zeros (2 - (digitsText e.natAbs).length) ++ digitsText e.natAbs)

theorem scanExponent_signed {ds t : PyStr} (digits : ∀ c ∈ ds, isDigit c = true) (nonempty : ds ≠ [])
    (stops : Stops t) (neg : Bool) :
    scanExponent (0x65 :: (if neg then 0x2D else 0x2B) :: (ds ++ t)) =
      (some (if neg then -(digitsValue ds : Int) else digitsValue ds), t) := by
  obtain ⟨taken, dropped⟩ := takeWhile_until digits (stops_next stops)
  cases neg <;> simp [scanExponent, taken, dropped, nonempty]

theorem scanExponent_bare {ds t : PyStr} (digits : ∀ c ∈ ds, isDigit c = true) (nonempty : ds ≠ [])
    (stops : Stops t) : scanExponent (0x65 :: (ds ++ t)) = (some (digitsValue ds : Int), t) := by
  obtain ⟨taken, dropped⟩ := takeWhile_until digits (stops_next stops)
  cases ds with
  | nil => exact absurd rfl nonempty
  | cons c ds =>
    have digit := digits c (by simp)
    simp only [isDigit, Bool.and_eq_true, decide_eq_true_eq] at digit
    have minus : c ≠ 0x2D := by omega
    have plus : c ≠ 0x2B := by omega
    simp only [List.cons_append] at taken dropped ⊢
    simp [scanExponent, taken, dropped, minus, plus]

theorem scanExponent_python (e : Int) {t : PyStr} (stops : Stops t) :
    scanExponent (0x65 :: (pythonExponent e ++ t)) = (some e, t) := by
  have digits : ∀ c ∈ zeros (2 - (digitsText e.natAbs).length) ++ digitsText e.natAbs,
      isDigit c = true := by
    simp only [List.forall_mem_append]
    exact ⟨zeros_digits _, digitsText_digits _⟩
  obtain ⟨c, cs, eq, _⟩ := digitsText_cons e.natAbs
  have read := scanExponent_signed digits (by simp [eq]) stops (decide (e < 0))
  rw [digitsValue_append, digitsValue_zeros, digitsText_value] at read
  simp only [decide_eq_true_eq] at read
  rw [pythonExponent, List.cons_append, read]
  congr 2
  split <;> omega

theorem scanExponent_intText (e : Int) {t : PyStr} (stops : Stops t) :
    scanExponent (0x65 :: (intText e ++ t)) = (some e, t) := by
  obtain ⟨c, cs, eq, _⟩ := digitsText_cons e.natAbs
  by_cases negative : e < 0
  · have read := scanExponent_signed (digitsText_digits e.natAbs) (by simp [eq]) stops true
    rw [intText_negative negative, List.cons_append]
    simp only [if_true] at read
    rw [read, digitsText_value]
    congr 2
    omega
  · have read := scanExponent_bare (digitsText_digits e.natAbs) (by simp [eq]) stops
    rw [intText_nonneg (Int.not_lt.mp negative), read, digitsText_value]
    congr 2
    omega

theorem plain_pythonExponent (e : Int) : Plain (pythonExponent e) := by
  unfold pythonExponent
  refine plain_append (s := [_]) ?_ (plain_append (plain_zeros _) (plain_digits _))
  split <;> decide

theorem layout_text (digits : List Char) (point : Int) : str (layout digits point) =
    if 16 < point ∨ point ≤ -4 then
      scientificDigits (digits.map Char.toNat) (pythonExponent (point - 1))
    else plainDigits (digits.map Char.toNat) point := by
  have padded : ∀ n, (pad n).map Char.toNat = zeros n := fun n => by simp [pad, zeros]
  unfold layout str
  dsimp only
  split
  · have sign : Char.toNat (if point - 1 < 0 then '-' else '+') =
        if point - 1 < 0 then 0x2D else 0x2B := by
      split <;> rfl
    have fraction : (if digits.drop 1 = [] then [] else '.' :: digits.drop 1).map Char.toNat =
        if (digits.map Char.toNat).drop 1 = [] then [] else 0x2E :: (digits.map Char.toNat).drop 1 := by
      rw [← List.map_drop]
      cases digits.drop 1 <;> rfl
    simp only [String.toList_ofList, scientificDigits, pythonExponent, List.map_append, padded,
      digitsText, List.length_map, List.map_take, List.append_assoc, fraction, List.map_cons, sign]
    rfl
  · unfold plainDigits
    rw [List.length_map]
    split
    · simp [padded]
    split
    · simp [padded]
    · simp

theorem plain_repr (f : Double) : Plain (str (repr f)) := by
  cases f with
  | nan => decide
  | inf neg => cases neg <;> decide
  | fin neg m e =>
    have magnitude : Plain (str (reprMagnitude m e)) := by
      unfold reprMagnitude
      split
      · decide
      · rw [layout_text]
        split
        · exact plain_scientificDigits (plain_digits _) (plain_pythonExponent _)
        · exact plain_plainDigits (plain_digits _) _
    rw [DoubleText.repr, str, String.toList_append, List.map_append]
    refine plain_append ?_ magnitude
    cases neg <;> decide

theorem zero_reads {neg : Bool} {e : Int} (canonical : (Double.fin neg 0 e).Canonical) :
    Reads (signText neg ++ [0x30, 0x2E, 0x30]) (.float (.fin neg 0 e)) := by
  have least : e = -1074 := canonical.2.2.2.resolve_right (by norm_num)
  have read := numeral_reads (zero_numeral 0) neg
  rw [ofDecimal_zero] at read
  rwa [least]

/-- Every `float` is read back from its `repr`. -/
theorem repr_reads {f : Double} (canonical : f.Canonical) : Reads (str (repr f)) (.float f) := by
  cases f with
  | nan =>
    refine ⟨⟨0x4E, _, rfl, by decide, by decide, by decide, by decide⟩, fun fuel depth t _ => ?_⟩
    simp [DoubleText.repr, scanValue, scanWord, words, str]
  | inf neg =>
    cases neg with
    | false =>
      refine ⟨⟨0x49, _, rfl, by decide, by decide, by decide, by decide⟩, fun fuel depth t _ => ?_⟩
      simp [DoubleText.repr, scanValue, scanWord, words, str]
    | true =>
      refine ⟨⟨0x2D, _, rfl, by decide, by decide, by decide, by decide⟩, fun fuel depth t _ => ?_⟩
      simp [DoubleText.repr, scanValue, scanWord, words, str]
  | fin neg m e =>
    have text : str (repr (.fin neg m e)) = signText neg ++ str (reprMagnitude m e) := by
      rw [DoubleText.repr, str, String.toList_append, List.map_append]
      cases neg <;> rfl
    rw [text]
    by_cases zero : m = 0
    · subst zero
      have zero : str (reprMagnitude 0 e) = [0x30, 0x2E, 0x30] := by
        rw [reprMagnitude, if_pos rfl]
        rfl
      rw [zero]
      exact zero_reads canonical
    · have positive : 0 < m := by omega
      obtain ⟨some, back⟩ := shortestDecimal_reads positive (e := e) canonical
      rw [reprMagnitude_eq positive, layout_text, ← back neg]
      generalize (shortestDecimal m e).1 = d at *
      generalize (shortestDecimal m e).2 = k at *
      have places : ((Nat.toDigits 10 d).length : Int) + k - (digitsText d).length = k := by
        simp [digitsText]
      split
      · have numeral := scientific_numeral some (e := (Nat.toDigits 10 d).length + k - 1)
          fun t stops => scanExponent_python _ stops
        rw [sub_add_cancel, places] at numeral
        exact numeral_reads numeral neg
      · have numeral := plain_numeral some ((Nat.toDigits 10 d).length + k)
        rw [places] at numeral
        exact numeral_reads numeral neg

/-- serde writes a longer fraction than Python before it turns to an exponent. -/
def serdeMagnitude (m : Nat) (e : Int) : PyStr :=
  if m = 0 then str "0.0"
  else
    let value := shortestDecimal m e
    let digits := digitsText value.1
    let point := digits.length + value.2
    if 16 < point ∨ point ≤ -5 then scientificDigits digits (intText (point - 1))
    else plainDigits digits point

/-- A float as pydantic writes it in JSON mode. -/
def serdeText : Double → PyStr
  | .fin neg m e => signText neg ++ serdeMagnitude m e
  | _ => str "null"

def Double.finite : Double → Bool
  | .fin _ _ _ => true
  | _ => false

theorem plain_serdeText (f : Double) : Plain (serdeText f) := by
  cases f with
  | nan => decide
  | inf neg => cases neg <;> decide
  | fin neg m e =>
    refine plain_append (by cases neg <;> decide) ?_
    unfold serdeMagnitude
    split
    · decide
    · dsimp only
      split
      · exact plain_scientificDigits (plain_digits _) (plain_intText _)
      · exact plain_plainDigits (plain_digits _) _

theorem serdeText_reads {f : Double} (canonical : f.Canonical) (finite : Double.finite f = true) :
    Reads (serdeText f) (.float f) := by
  cases f with
  | nan => cases finite
  | inf neg => cases finite
  | fin neg m e =>
    change Reads (signText neg ++ serdeMagnitude m e) _
    unfold serdeMagnitude
    split
    · rename_i zero
      subst zero
      exact zero_reads canonical
    · obtain ⟨some, back⟩ := shortestDecimal_reads (by omega) (e := e) canonical
      rw [← back neg]
      dsimp only
      generalize (shortestDecimal m e).1 = d at *
      generalize (shortestDecimal m e).2 = k at *
      split
      · have numeral := scientific_numeral some (e := (digitsText d).length + k - 1)
          fun t stops => scanExponent_intText _ stops
        rw [sub_add_cancel, add_sub_cancel_left] at numeral
        exact numeral_reads numeral neg
      · have numeral := plain_numeral some ((digitsText d).length + k)
        rw [add_sub_cancel_left] at numeral
        exact numeral_reads numeral neg

end JsonText
