import SentinelBrief.Library.Json

/-!
Reading back what was written: strings for every content, integers within the
interpreter's digit limit.
-/
namespace JsonText
open Utf8Text

theorem hexValue_hexDigit (n : Nat) (small : n < 16) : hexValue (hexDigit n) = some n := by
  unfold hexDigit hexValue
  split
  · simp only [show 0x30 ≤ 0x30 + n ∧ 0x30 + n ≤ 0x39 by omega, and_self, if_true,
      Option.some.injEq]
    omega
  · have low : ¬ (0x30 ≤ 0x57 + n ∧ 0x57 + n ≤ 0x39) := by omega
    have mid : 0x61 ≤ 0x57 + n ∧ 0x57 + n ≤ 0x66 := by omega
    rw [if_neg low, if_pos mid, Option.some.injEq]
    omega

theorem scanString_escapePoint (fuel c : Nat) (s : PyStr) :
    scanString (fuel + 1) (escapePoint c ++ s) =
      (scanString fuel s).map fun r => (c :: r.1, r.2) := by
  unfold escapePoint
  repeat' split
  case isFalse.isFalse.isFalse.isFalse.isFalse.isFalse.isFalse.isTrue =>
    have high := hexValue_hexDigit (c / 16) (by omega)
    have low := hexValue_hexDigit (c % 16) (by omega)
    have zero : hexValue 0x30 = some 0 := by decide
    have value : c / 16 * 16 + c % 16 = c := by omega
    have plain : ¬ (0xD800 ≤ c ∧ c ≤ 0xDBFF) := by omega
    simp [scanString, scanEscape, hex4, high, low, zero, value, plain]
  case isFalse.isFalse.isFalse.isFalse.isFalse.isFalse.isFalse.isFalse =>
    simp_all [scanString]
  all_goals
    subst c
    simp [scanString, scanEscape]

theorem scanString_quoted (s t : PyStr) (fuel : Nat) (enough : s.length < fuel) :
    scanString fuel (s.flatMap escapePoint ++ 0x22 :: t) = some (s, t) := by
  induction s generalizing fuel with
  | nil =>
    obtain ⟨fuel, rfl⟩ : ∃ k, fuel = k + 1 := ⟨fuel - 1, by simp at enough; omega⟩
    simp [scanString]
  | cons c s ih =>
    obtain ⟨fuel, rfl⟩ : ∃ k, fuel = k + 1 := ⟨fuel - 1, by simp at enough; omega⟩
    rw [List.flatMap_cons, List.append_assoc, scanString_escapePoint,
      ih fuel (by simpa using enough)]
    rfl

def digitsText (n : Nat) : PyStr := (Nat.toDigits 10 n).map Char.toNat

theorem intText_natCast (n : Nat) : intText (n : Int) = digitsText n := by
  simp [intText, digitsText]

theorem digitsText_value (n : Nat) : digitsValue (digitsText n) = n := by
  have h := Nat.ofDigitChars_ten_toDigits (n := n)
  have turn : (fun k (c : Char) => k * 10 + (c.toNat - 0x30)) =
      fun k c => 10 * k + (c.toNat - '0'.toNat) := by
    funext k c
    rw [Nat.mul_comm]
    rfl
  rw [digitsValue, digitsText, List.foldl_map, turn]
  exact h

theorem digitsText_digits (n : Nat) : ∀ c ∈ digitsText n, isDigit c = true := by
  intro c member
  simp only [digitsText, List.mem_map] at member
  obtain ⟨d, inside, rfl⟩ := member
  have digit := Char.isDigit_iff_toNat.mp
    (Nat.isDigit_of_mem_toDigits (by decide) (by decide) inside)
  rw [isDigit, Bool.and_eq_true, decide_eq_true_eq, decide_eq_true_eq]
  exact digit

theorem digitsText_leading (n : Nat) (positive : 0 < n) : (digitsText n).head? ≠ some 0x30 := by
  induction n using Nat.strongRecOn with
  | ind n ih =>
    by_cases single : n < 10
    · rw [digitsText, Nat.toDigits_of_lt_base single]
      have small : ∀ d, d < 10 → 0 < d → (Nat.digitChar d).toNat ≠ 0x30 := by decide
      simpa using small n single positive
    · have shorter := ih (n / 10) (by omega) (by omega)
      rw [digitsText, Nat.toDigits_of_base_le (by decide) (by omega), List.map_append]
      cases found : (Nat.toDigits 10 (n / 10)).map Char.toNat with
      | nil => simp [Nat.toDigits_ne_nil] at found
      | cons c cs =>
        rw [digitsText, found] at shorter
        simpa using shorter

/-- What may follow a number without being read as part of it. -/
def Stops (t : PyStr) : Prop :=
  ∀ c, t.head? = some c → isDigit c = false ∧ c ≠ 0x2E ∧ c ≠ 0x65 ∧ c ≠ 0x45

theorem scanFraction_stops {t : PyStr} (stops : Stops t) : scanFraction t = ([], t) := by
  cases t with
  | nil => rfl
  | cons c t =>
    have := (stops c rfl).2.1
    unfold scanFraction
    split
    · simp_all
    · rfl

theorem scanExponent_stops {t : PyStr} (stops : Stops t) : scanExponent t = (none, t) := by
  cases t with
  | nil => rfl
  | cons c t =>
    have letters := (stops c rfl).2.2
    simp [scanExponent, letters.1, letters.2]

theorem takeWhile_digits {ds t : PyStr} (digits : ∀ c ∈ ds, isDigit c = true) (stops : Stops t) :
    (ds ++ t).takeWhile isDigit = ds ∧ (ds ++ t).dropWhile isDigit = t := by
  rw [List.takeWhile_append_of_pos digits, List.dropWhile_append_of_pos digits]
  cases t with
  | nil => simp
  | cons c t => simp [(stops c rfl).1]

theorem scanWhole_digitsText (n : Nat) {t : PyStr} (stops : Stops t) :
    scanWhole (digitsText n ++ t) = (digitsText n, t) := by
  have taken := takeWhile_digits (digitsText_digits n) stops
  by_cases zero : n = 0
  · subst zero
    rfl
  · have leading := digitsText_leading n (by omega)
    unfold scanWhole
    cases found : digitsText n with
    | nil => simp [digitsText, Nat.toDigits_ne_nil] at found
    | cons c cs =>
      rw [found] at leading taken
      split
      · simp_all
      · rw [taken.1, taken.2]

theorem scanNumber_digitsText (n : Nat) {t : PyStr} (stops : Stops t) :
    scanNumber false (digitsText n ++ t) =
      if intMaxStrDigits < (digitsText n).length then .error .value else .ok (.int n, t) := by
  have some : (digitsText n).isEmpty = false := by
    simp [digitsText, Nat.toDigits_ne_nil]
  simp [scanNumber, scanWhole_digitsText n stops, some, scanFraction_stops stops,
    scanExponent_stops stops, digitsText_value]

theorem scanWord_digit {c : Nat} (digit : isDigit c = true) (s : PyStr) :
    scanWord (c :: s) = none := by
  simp only [isDigit, Bool.and_eq_true, decide_eq_true_eq] at digit
  have starts : ∀ w ∈ words, ∃ d t, w.1 = d :: t ∧ (d < 0x30 ∨ 0x39 < d) := by
    intro w member
    simp only [words, List.mem_cons, List.not_mem_nil, or_false] at member
    rcases member with rfl | rfl | rfl | rfl | rfl | rfl <;>
      exact ⟨_, _, rfl, by decide⟩
  rw [scanWord, List.findSome?_eq_none_iff]
  intro w member
  obtain ⟨d, t, eq, outside⟩ := starts w member
  have differ : ¬ d = c := by omega
  simp [eq, List.isPrefixOf, differ]

theorem digitsText_cons (n : Nat) : ∃ c cs, digitsText n = c :: cs ∧ isDigit c = true := by
  cases found : digitsText n with
  | nil => simp [digitsText, Nat.toDigits_ne_nil] at found
  | cons c cs => exact ⟨c, cs, rfl, digitsText_digits n c (by simp [found])⟩

theorem scanValue_digitsText (fuel depth n : Nat) (t : PyStr) :
    scanValue (fuel + 1) depth (digitsText n ++ t) = scanNumber false (digitsText n ++ t) := by
  obtain ⟨c, cs, eq, digit⟩ := digitsText_cons n
  have word := scanWord_digit digit (cs ++ t)
  have range := digit
  simp only [isDigit, Bool.and_eq_true, decide_eq_true_eq] at range
  rw [eq, List.cons_append]
  unfold scanValue
  split
  · simp_all
  · simp_all
  · simp_all
  · simp only [word]
    split
    · simp_all
    · rfl

theorem skipSpace_digitsText (n : Nat) (t : PyStr) :
    skipSpace (digitsText n ++ t) = digitsText n ++ t := by
  obtain ⟨c, cs, eq, digit⟩ := digitsText_cons n
  have solid : isSpace c = false := by
    simp only [isDigit, Bool.and_eq_true, decide_eq_true_eq] at digit
    simp only [isSpace, Bool.or_eq_false_iff, beq_eq_false_iff_ne]
    omega
  rw [skipSpace, eq, List.cons_append, List.dropWhile_cons_of_neg (by simp [solid])]

theorem loads_digitsText (limit n : Nat) :
    loads limit (digitsText n) =
      if intMaxStrDigits < (digitsText n).length then .error .value else .ok (.int n) := by
  have stops : Stops [] := by
    intro c head
    cases head
  have scanned := scanValue_digitsText (digitsText n).length limit n []
  have space := skipSpace_digitsText n []
  rw [List.append_nil] at space
  rw [scanNumber_digitsText n stops, List.append_nil] at scanned
  have head : (digitsText n).head? ≠ some 0xFEFF := by
    obtain ⟨c, cs, eq, digit⟩ := digitsText_cons n
    simp only [isDigit, Bool.and_eq_true, decide_eq_true_eq] at digit
    rw [eq, List.head?_cons]
    intro same
    cases same
    omega
  rw [loads, if_neg head, space, scanned]
  by_cases long : intMaxStrDigits < (digitsText n).length
  · rw [if_pos long, if_pos long]
  · rw [if_neg long, if_neg long]
    rfl

theorem scanFields_digitsText {fuel : Nat} (depth : Nat) (acc : List (PyStr × Json)) (key : PyStr)
    (n : Nat) {t : PyStr} (stops : Stops t) (enough : key.length < fuel) :
    scanFields (fuel + 1) depth acc (quote key ++ [0x3A, 0x20] ++ digitsText n ++ t) =
      if intMaxStrDigits < (digitsText n).length then .error .value
      else match skipSpace t with
        | 0x7D :: u => .ok (setField key (.int n) acc, u)
        | 0x2C :: u => scanFields fuel depth (setField key (.int n) acc) (skipSpace u)
        | _ => .error .decode := by
  obtain ⟨fuel, rfl⟩ : ∃ k, fuel = k + 1 := ⟨fuel - 1, by omega⟩
  have text : quote key ++ [0x3A, 0x20] ++ digitsText n ++ t =
      0x22 :: (key.flatMap escapePoint ++ 0x22 :: 0x3A :: 0x20 :: (digitsText n ++ t)) := by
    simp [quote]
  have colon : skipSpace (0x3A :: 0x20 :: (digitsText n ++ t)) =
      0x3A :: 0x20 :: (digitsText n ++ t) := rfl
  have blank : skipSpace (0x20 :: (digitsText n ++ t)) = digitsText n ++ t := by
    rw [skipSpace, List.dropWhile_cons_of_pos (by decide)]
    exact skipSpace_digitsText n t
  have number := scanNumber_digitsText n stops
  rw [text]
  by_cases long : intMaxStrDigits < (digitsText n).length
  · simp only [scanFields, scanString_quoted key _ (fuel + 1) enough, colon, blank, scanValue_digitsText,
      number, long, if_true]
  · rw [if_neg long]
    rw [if_neg long] at number
    exact scanFields_one (scanString_quoted key _ (fuel + 1) enough) colon
      (by rw [blank, scanValue_digitsText, number])

end JsonText
