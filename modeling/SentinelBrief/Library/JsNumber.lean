import Mathlib.Data.List.TakeWhile
import SentinelBrief.Library.JsonRoundTrip
import SentinelBrief.Library.PyText
import SentinelBrief.Library.Utf16

/-!
`Number(text)`, `parseInt(text, 10)` and `String(number)` of ECMAScript. The texts are given by
their code units, of which only those below U+10000 occur in a number.
-/
namespace JsNumberText
open Utf8Text JsonText DoubleText Utf16Text

/-- `StrWhiteSpaceChar`. -/
def whiteSpace (c : Nat) : Bool :=
  (0x09 ≤ c && c ≤ 0x0D) || c == 0x20 || c == 0xA0 || c == 0x1680 || (0x2000 ≤ c && c ≤ 0x200A) ||
    c == 0x2028 || c == 0x2029 || c == 0x202F || c == 0x205F || c == 0x3000 || c == 0xFEFF

def signed : PyStr → Bool × PyStr
  | 0x2D :: s => (true, s)
  | 0x2B :: s => (false, s)
  | s => (false, s)

/-- The digits after a point; unlike in JSON there need not be any. -/
def fractionDigits : PyStr → PyStr × PyStr
  | 0x2E :: s => (s.takeWhile isDigit, s.dropWhile isDigit)
  | s => ([], s)

def decimalLiteral (neg : Bool) (s : PyStr) : Double :=
  if s = str "Infinity" then .inf neg
  else
    let whole := s.takeWhile isDigit
    let fraction := fractionDigits (s.dropWhile isDigit)
    let expo := scanExponent fraction.2
    if whole ++ fraction.1 = [] ∨ expo.2 ≠ [] then .nan
    else ofDecimal neg (digitsValue (whole ++ fraction.1)) (expo.1.getD 0 - fraction.1.length)

def radixValue (radix : Nat) (ds : PyStr) : Option Nat :=
  ds.foldl (fun n c => n.bind fun n => ((hexValue c).filter (· < radix)).map (n * radix + ·)) (some 0)

def radixLiteral (radix : Nat) (ds : PyStr) : Double :=
  if ds = [] then .nan else (radixValue radix ds).elim .nan fun n => ofRatio false n 1

def radixOf (c : Nat) : Option Nat :=
  if c = 0x78 ∨ c = 0x58 then some 16
  else if c = 0x6F ∨ c = 0x4F then some 8
  else if c = 0x62 ∨ c = 0x42 then some 2
  else none

def numericLiteral (s : PyStr) : Double :=
  match s with
  | [] => ofRatio false 0 1
  | 0x30 :: c :: ds => match radixOf c with
    | some radix => radixLiteral radix ds
    | none => decimalLiteral false s
  | _ => decimalLiteral (signed s).1 (signed s).2

def number (s : JsStr) : Double := numericLiteral (PyText.stripBy whiteSpace (s.map UInt16.toNat))

/-- `parseInt(text, 10)`: the number that the text begins with. -/
def parseInt10 (s : JsStr) : Double :=
  let rest := signed ((s.map UInt16.toNat).dropWhile whiteSpace)
  let ds := rest.2.takeWhile isDigit
  if ds = [] then .nan else ofRatio rest.1 (digitsValue ds) 1

def maxSafeInteger : Nat := 2 ^ 53 - 1

def safeInteger (f : Double) : Option Int := (integral f).filter fun i => i.natAbs ≤ maxSafeInteger

def numberText (i : Int) : JsStr := (intText i).map UInt16.ofNat

theorem divRound_one (n : Nat) : divRound n 1 = n := by
  simp [divRound, Nat.mod_one]

theorem ofRatio_integer {n : Nat} (positive : 0 < n) (small : n < 2 ^ 53) (neg : Bool) :
    ofRatio neg n 1 = .fin neg (n * 2 ^ (52 - n.log2)) ((n.log2 : Int) - 52) := by
  have low : 2 ^ n.log2 ≤ n := Nat.log2_self_le (by omega)
  have high : n < 2 ^ (n.log2 + 1) := Nat.lt_log2_self
  have bound : n.log2 < 53 := (Nat.log2_lt (by omega)).mpr small
  have one : Nat.log2 1 = 0 := by decide
  have guess : max ((n.log2 : Int) - (Nat.log2 1 : Nat) - 53) (-1074) = (n.log2 : Int) - 53 := by
    rw [one]
    omega
  have apart : 2 ^ n.log2 * 2 ^ (53 - n.log2) = 2 ^ 53 := by
    rw [← Nat.pow_add]
    congr 1
    omega
  have wide : ¬scaled n 1 ((n.log2 : Int) - 53) < 2 ^ 53 := by
    have negative : ¬(0 : Int) ≤ (n.log2 : Int) - 53 := by omega
    have exponent : (-((n.log2 : Int) - 53)).toNat = 53 - n.log2 := by omega
    rw [scaled, if_neg negative, exponent, divRound_one, ← apart]
    exact Nat.not_lt.mpr (Nat.mul_le_mul_right _ low)
  have next : (n.log2 : Int) - 53 + 1 = (n.log2 : Int) - 52 := by omega
  have mantissa : scaled n 1 ((n.log2 : Int) - 52) = n * 2 ^ (52 - n.log2) := by
    unfold scaled
    split
    · have exponent : ((n.log2 : Int) - 52).toNat = 0 := by omega
      have none : 52 - n.log2 = 0 := by omega
      rw [exponent, none, Nat.pow_zero, Nat.mul_one, divRound_one, Nat.mul_one]
    · have exponent : (-((n.log2 : Int) - 52)).toNat = 52 - n.log2 := by omega
      rw [exponent, divRound_one]
  have fits : n * 2 ^ (52 - n.log2) < 2 ^ 53 := by
    have whole : 2 ^ (n.log2 + 1) * 2 ^ (52 - n.log2) = 2 ^ 53 := by
      rw [← Nat.pow_add]
      congr 1
      omega
    rw [← whole]
    exact Nat.mul_lt_mul_of_pos_right high (Nat.two_pow_pos _)
  have least : ¬(971 : Int) < (n.log2 : Int) - 52 := by omega
  unfold ofRatio
  rw [if_neg (by omega)]
  dsimp only
  rw [guess, if_neg wide, next, mantissa, if_neg fits.ne, if_neg least]

theorem integral_integer {n : Nat} (positive : 0 < n) (small : n < 2 ^ 53) :
    integral (ofRatio false n 1) = some (n : Int) := by
  have bound : n.log2 < 53 := (Nat.log2_lt (by omega)).mpr small
  have exponent : (-((n.log2 : Int) - 52)).toNat = 52 - n.log2 := by omega
  have value : (if (0 : Int) ≤ (n.log2 : Int) - 52 then n * 2 ^ (52 - n.log2) * 2 ^ ((n.log2 : Int) - 52).toNat
      else n * 2 ^ (52 - n.log2) / 2 ^ (-((n.log2 : Int) - 52)).toNat) = n := by
    split
    · have none : 52 - n.log2 = 0 := by omega
      have whole : ((n.log2 : Int) - 52).toNat = 0 := by omega
      rw [none, whole, Nat.pow_zero, Nat.mul_one, Nat.mul_one]
    · rw [exponent, Nat.mul_div_cancel _ (Nat.two_pow_pos _)]
  rw [ofRatio_integer positive small, integral, exponent, if_pos (Or.inr (Nat.mul_mod_left _ _)), truncate,
    value]
  rfl

theorem safeInteger_integer {n : Nat} (positive : 0 < n) (safe : n ≤ maxSafeInteger) :
    safeInteger (ofRatio false n 1) = some (n : Int) := by
  have small : n < 2 ^ 53 := by
    unfold maxSafeInteger at safe
    omega
  rw [safeInteger, integral_integer positive small]
  simpa using safe

theorem safeInteger_range {f : Double} {i : Int} (safe : safeInteger f = some i) :
    i.natAbs ≤ maxSafeInteger := by
  unfold safeInteger at safe
  simpa using (Option.filter_eq_some_iff.mp safe).2

theorem numberText_units (n : Nat) : (numberText n).map UInt16.toNat = digitsText n := by
  rw [numberText, intText_natCast, List.map_map]
  refine (List.map_congr_left fun c member => ?_).trans (List.map_id _)
  have digit := digitsText_digits n c member
  simp only [isDigit, Bool.and_eq_true, decide_eq_true_eq] at digit
  exact toNat_ofNat16 (by omega)

theorem whiteSpace_digit {c : Nat} (digit : isDigit c = true) : whiteSpace c = false := by
  simp only [isDigit, Bool.and_eq_true, decide_eq_true_eq] at digit
  simp only [whiteSpace, Bool.or_eq_false_iff, Bool.and_eq_false_iff, beq_eq_false_iff_ne, decide_eq_false_iff_not]
  omega

theorem stripBy_kept {p : Nat → Bool} {s : PyStr} (kept : ∀ c ∈ s, p c = false) : PyText.stripBy p s = s := by
  have stays (t : PyStr) (all : ∀ c ∈ t, p c = false) : t.dropWhile p = t := by
    cases t with
    | nil => rfl
    | cons c t => rw [List.dropWhile_cons_of_neg (by simp [all c (by simp)])]
  have reversed : ∀ c ∈ s.reverse, p c = false := fun c member => kept c (List.mem_reverse.mp member)
  rw [PyText.stripBy, stays s kept, stays _ reversed, List.reverse_reverse]

theorem signed_digit {c : Nat} (digit : isDigit c = true) (s : PyStr) : signed (c :: s) = (false, c :: s) := by
  simp only [isDigit, Bool.and_eq_true, decide_eq_true_eq] at digit
  unfold signed
  split
  · simp_all
  · simp_all
  · rfl

theorem decimalLiteral_digitsText (n : Nat) : decimalLiteral false (digitsText n) = ofRatio false n 1 := by
  obtain ⟨c, cs, eq, digit⟩ := digitsText_cons n
  have taken : (digitsText n).takeWhile isDigit = digitsText n :=
    List.takeWhile_eq_self_iff.mpr (digitsText_digits n)
  have dropped : (digitsText n).dropWhile isDigit = [] :=
    List.dropWhile_eq_nil_iff.mpr (digitsText_digits n)
  have word : digitsText n ≠ str "Infinity" := by
    intro same
    rw [same] at eq
    obtain ⟨rfl, -⟩ := List.cons.inj eq
    exact absurd digit (by decide)
  have some : digitsText n ≠ [] := by simp [eq]
  rw [decimalLiteral, if_neg word]
  simp [taken, dropped, some, fractionDigits, scanExponent, digitsText_value, ofDecimal]

theorem number_numberText {n : Nat} (positive : 0 < n) : number (numberText n) = ofRatio false n 1 := by
  have digits := digitsText_digits n
  have spaces : ∀ c ∈ digitsText n, whiteSpace c = false := fun c member => whiteSpace_digit (digits c member)
  have leading := digitsText_leading n positive
  rw [number, numberText_units, stripBy_kept spaces, ← decimalLiteral_digitsText]
  obtain ⟨c, cs, eq, digit⟩ := digitsText_cons n
  have sign := signed_digit digit cs
  rw [eq] at leading ⊢
  unfold numericLiteral
  split
  · simp_all
  · simp_all
  · rw [sign]

theorem parseInt10_numberText (n : Nat) : parseInt10 (numberText n) = ofRatio false n 1 := by
  have digits := digitsText_digits n
  obtain ⟨c, cs, eq, digit⟩ := digitsText_cons n
  have kept : (digitsText n).dropWhile whiteSpace = digitsText n := by
    rw [eq, List.dropWhile_cons_of_neg (by simp [whiteSpace_digit digit])]
  have sign : signed (digitsText n) = (false, digitsText n) := by
    rw [eq, signed_digit digit]
  have taken : (digitsText n).takeWhile isDigit = digitsText n := List.takeWhile_eq_self_iff.mpr digits
  have some : digitsText n ≠ [] := by simp [eq]
  unfold parseInt10
  rw [numberText_units, kept, sign]
  dsimp only
  rw [taken, if_neg some, digitsText_value]

end JsNumberText
